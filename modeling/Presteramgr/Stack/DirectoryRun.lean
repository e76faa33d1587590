import Presteramgr.Stack.Directory
import Presteramgr.Trunk.Aggregate

/-!
# The directory over runs (`vif.c`, `control.c`)

Units register their ports with a unit, with the lists that they give out, and are taken off again.
What a search by identifier, by place in the hardware or by index then finds is compared with what
is known of the units: the variants of the hardware that each of them has been.

## Main definitions

* `DirCall`: registrations and searches;
* `VifDir.step`: what the unit does;
* `Known` and `Known.step`: what is known of the units, and searches in the lists.

## Main results

* `VifDir.directory_refines`: in every run the unit finds what a search in the lists finds;
* `VifDir.directory_table`: the table of ports that the functions on trunks use is this one;
* `VifDir.found_by_all`: the ports of a unit are found by all units that it is registered with, and
  by itself, under the same identifiers and at the same places;
* `VifDir.lookup_iff`: which lists make all ports found.
-/

namespace Presteramgr

open Function (update update_self update_of_ne)

/-- A port as a search shows it. -/
structure ShownPort where
  valid : Bool
  islocal : Bool
  id : VifId
  hp : HwPort
deriving DecidableEq, Repr

/-- A `struct vif` of zeros. -/
def ShownPort.zero : ShownPort := ⟨false, false, ⟨.VIFT_FE, 0, 0⟩, ⟨0, 0⟩⟩

/-- Registrations, and searches. -/
inductive DirCall
  /-- `CC_SET_VIF_PORTS` with the list of a unit. -/
  | register (w : VifUnit)
  /-- `CC_SET_VIF_PORTS` without ports. -/
  | gone (dev : ℕ)
  | getn (id : VifId)
  | getByPid (dev num : ℕ)
  /-- A place in the hardware, for which `vifp_by_hw` has a pointer. -/
  | byHw (hdev : Fin 32) (hport : Fin 64)
  /-- `CC_GET_VIF_PORTS`. -/
  | getHwPorts

/-- The unit whose list is set. -/
def DirCall.subject : DirCall → Option ℕ
  | .register w => some w.stack_id
  | .gone dev => some dev
  | _ => none

/-- The answer to a call. -/
inductive DirOut
  | status (st : Status)
  | null
  | trunk (num : ℕ)
  | port (p : ShownPort)
  | defs (pd : List VifDef)

namespace VifDir

variable (u : VifUnit) (x : VifDir)

/-- The port at a place, with `vif_get_hw`. -/
def shown (dev o : ℕ) : ShownPort :=
  let p := (x.vifs dev).port o
  ⟨p.valid, p.islocal, p.id, x.vifGetHw u dev o⟩

/-- The answer to a search for a pointer. -/
def answer : Option VifPtr → DirOut
  | none => .null
  | some (.port dev o) => .port (x.shown u dev o)
  | some (.trunk num) => .trunk num

/-- One call. -/
def step : DirCall → Option (DirOut × VifDir)
  | .register w =>
    (x.vifSetHwPorts u w.stack_id ((vifInit w).vifGetHwPorts w)).map fun r => (.status r.1, r.2)
  | .gone dev => (x.vifSetHwPorts u dev []).map fun r => (.status r.1, r.2)
  | .getn id => (x.vifGetn u id).map fun p => (x.answer u p, x)
  | .getByPid dev num => some (x.answer u ((x.vifGetByPid u dev num).map fun p => .port p.1 p.2), x)
  | .byHw hdev hport => some (x.answer u ((x.vifByHw hdev hport).map fun p => .port p.1 p.2), x)
  | .getHwPorts => some (.defs (x.vifGetHwPorts u), x)

end VifDir

/-! ## What is known of the units -/

/-- The variants that the unit with a number was registered as, the last one first, and whether it
is there. -/
structure Known where
  seen : ℕ → List Sysdeps
  here : ℕ → Bool

namespace Known

/-- Nothing is known of other units. -/
def start : Known := ⟨fun _ => [], fun _ => false⟩

variable (u : VifUnit) (k : Known)

/-- A list for the unit with this number is not taken. -/
def Refused (u : VifUnit) (dev : ℕ) : Prop :=
  u.stack_id = 0 ∨ ¬(1 ≤ dev ∧ dev ≤ 15) ∨ dev = u.stack_id

instance (dev : ℕ) : Decidable (Refused u dev) := inferInstanceAs (Decidable (_ ∨ _ ∨ _))

/-- The ports of a unit. -/
def defs (dev : ℕ) : List VifDef :=
  if dev = u.stack_id then u.sys.defs dev
  else match k.seen dev with
    | [] => []
    | v :: _ => v.defs dev

/-- The port that was registered last with a place in the table of a unit. -/
def slot (dev o : ℕ) : ShownPort :=
  if dev = u.stack_id then
    if o < u.sys.NPORTS + 1 then ⟨true, true, u.sys.vifId dev o, u.sys.hwPort dev o⟩ else .zero
  else match (k.seen dev).find? fun v => o < v.NPORTS + 1 with
    | none => .zero
    | some v =>
      ⟨k.here dev && decide (o < (k.defs u dev).length), false, v.vifId dev o, v.hwPort dev o⟩

/-- The index of a port of a unit, of the first `n`, that is at a place of the hardware. -/
def findHw (v : Sysdeps) (dev n : ℕ) (hp : HwPort) : Option ℕ :=
  (List.range n).find? fun i => v.hwPort dev i = hp

/-- The unit and the index of a port at a place of the hardware: the CPU port is also at device 0,
and another unit's port is where it was registered last. -/
def place (hp : HwPort) : Option (ℕ × ℕ) :=
  if hp = ⟨0, CPSS_CPU_PORT_NUM_CNS⟩ then some (u.stack_id, u.sys.NPORTS)
  else match findHw u.sys u.stack_id (u.sys.NPORTS + 1) hp with
    | some i => some (u.stack_id, i)
    | none =>
      let dev := hp.hw_dev % 16
      ((k.seen dev).findSome? fun v => findHw v dev (v.NPORTS + 1) hp).map fun i => (dev, i)

/-- The answer to a search by identifier is found in the list of the unit. -/
def getn (id : VifId) : DirOut :=
  match VifDir.devOf u id.dev with
  | none => .null
  | some dev =>
    if id.type = .VIFT_PC then
      if u.ids.TRUNK_ID_MIN ≤ id.num ∧ id.num ≤ u.ids.TRUNK_ID_MAX then .trunk id.num else .null
    else match (k.defs u dev).find? fun d => d.id = ⟨id.type, dev, id.num⟩ with
      | none => .null
      | some d => .port ⟨decide (dev = u.stack_id) || k.here dev, dev = u.stack_id, d.id, d.hp⟩

/-- The answer to a search by index. -/
def getByPid (dev num : ℕ) : DirOut :=
  match VifDir.devOf u dev with
  | none => .null
  | some dev =>
    if (1 ≤ num ∧ num ≤ 64) ∧ (k.slot u dev (num - 1)).id.type ∈ [.VIFT_FE, .VIFT_GE, .VIFT_XG] then
      .port (k.slot u dev (num - 1))
    else .null

/-- One call. -/
def step : DirCall → Option (DirOut × Known)
  | .register w =>
    if Refused u w.stack_id then some (.status .ST_BAD_VALUE, k)
    else some (.status .ST_OK,
      ⟨update k.seen w.stack_id (w.sys :: k.seen w.stack_id), update k.here w.stack_id true⟩)
  | .gone dev =>
    if Refused u dev then some (.status .ST_BAD_VALUE, k)
    else some (.status .ST_OK, { k with here := update k.here dev false })
  | .getn id => some (k.getn u id, k)
  | .getByPid dev num => some (k.getByPid u dev num, k)
  | .byHw hdev hport =>
    some ((k.place u ⟨hdev, hport⟩).elim .null fun p => .port (k.slot u p.1 p.2), k)
  | .getHwPorts => some (.defs (u.sys.defs u.stack_id), k)

end Known

/-! ## The relation -/

/-- A port of another unit in the table. -/
def ShownPort.vif (p : ShownPort) : Vif := ⟨p.valid, p.islocal, p.id, .remote p.hp⟩

namespace VifDir

/-- The directory holds what is known. -/
structure Holds (u : VifUnit) (x : VifDir) (k : Known) : Prop where
  own : x.vifs u.stack_id = .own u
  total : ∀ dev, ¬Known.Refused u dev → (x.vifs dev).n_total = (k.defs u dev).length
  types : ∀ dev, ¬Known.Refused u dev → ∀ t,
    (x.vifs dev).n_by_type t = ((k.defs u dev).map fun d => d.id.type.rank).count t
  port : ∀ dev, ¬Known.Refused u dev → ∀ o, (x.vifs dev).port o = (k.slot u dev o).vif
  hw : ∀ hp : HwPort, x.vifp_by_hw hp.hw_dev hp.hw_port = k.place u hp
  wf : ∀ dev, ∀ v ∈ k.seen dev, v.Wf
  unseen : ∀ dev, Known.Refused u dev → k.seen dev = []

variable {u : VifUnit} {x x' : VifDir} {k : Known} {dev : ℕ}

/-! ## Searches -/

/-- The number of a unit is that of the unit itself or of one that may be registered. -/
theorem devOf_cases {d : ℕ} (h : devOf u dev = some d) : d = u.stack_id ∨ ¬Known.Refused u d := by
  have hle := u.le
  unfold devOf at h
  unfold Known.Refused
  split_ifs at h <;> obtain rfl := Option.some_inj.mp h <;> omega

/-- The interfaces of a unit that was not refused are kept under its number. -/
theorem devOf_registered (hdev : ¬Known.Refused u dev) : devOf u dev = some dev := by
  unfold Known.Refused at hdev
  unfold devOf
  split_ifs <;> first | rfl | omega

/-- The definitions of a board have the ranks of its interfaces. -/
theorem ranks_defs (v : Sysdeps) (dev : ℕ) :
    ((v.defs dev).map fun d => d.id.type.rank) = v.ranks := by
  unfold Sysdeps.defs Sysdeps.ranks
  rw [List.map_map]
  rfl

/-- The ports of a unit are none, or those of a variant, and the slots show them. -/
theorem defs_cases (u : VifUnit) (k : Known) (dev : ℕ) : k.defs u dev = [] ∨
    ∃ v : Sysdeps, k.defs u dev = v.defs dev ∧ ∀ o < v.NPORTS + 1, k.slot u dev o =
      ⟨decide (dev = u.stack_id) || k.here dev, dev = u.stack_id, v.vifId dev o,
          v.hwPort dev o⟩ := by
  unfold Known.defs
  by_cases hdev : dev = u.stack_id
  · rw [if_pos hdev]
    refine .inr ⟨u.sys, rfl, fun o ho => ?_⟩
    rw [Known.slot, if_pos hdev, if_pos ho]
    simp [hdev]
  · rw [if_neg hdev]
    cases hseen : k.seen dev with
    | nil => exact .inl rfl
    | cons v l =>
      refine .inr ⟨v, rfl, fun o ho => ?_⟩
      have hdefs : k.defs u dev = v.defs dev := by
        unfold Known.defs
        rw [if_neg hdev, hseen]
      have hfind : (v :: l).find? (fun v => o < v.NPORTS + 1) = some v :=
        List.find?_cons_of_pos (decide_eq_true ho)
      rw [Known.slot, if_neg hdev, hseen, hfind, hdefs, Sysdeps.length_defs]
      simp [hdev, ho]

namespace Holds

variable (h : Holds u x k)

include h

/-- A port that is shown is the one that was registered. -/
theorem shown_eq (hdev : dev = u.stack_id ∨ ¬Known.Refused u dev) (o : ℕ) :
    x.shown u dev o = k.slot u dev o := by
  rcases hdev with rfl | hdev
  · obtain ⟨hfilled, hzero⟩ := VifDevPorts.own_filled u
    unfold shown vifGetHw Known.slot
    dsimp only
    rw [h.own, if_pos rfl]
    split_ifs with ho
    · have hport := hfilled.port o (by rwa [List.length_map, List.length_range])
      rw [List.getElem_map, List.getElem_range] at hport
      rw [hport]
      rfl
    · rw [hzero o (by omega)]
      rfl
  · unfold shown vifGetHw
    dsimp only
    rw [h.port dev hdev o]
    rfl

/-- The counts of a unit are those of its definitions. -/
theorem table (hdev : dev = u.stack_id ∨ ¬Known.Refused u dev) :
    (x.vifs dev).n_total = (k.defs u dev).length ∧
      (x.vifs dev).n_by_type = (((k.defs u dev).map fun d => d.id.type.rank).count ·) := by
  rcases hdev with rfl | hdev
  · obtain ⟨hfilled, -⟩ := VifDevPorts.own_filled u
    have hdefs : k.defs u u.stack_id = u.sys.defs u.stack_id := if_pos rfl
    rw [h.own, hdefs, ranks_defs, Sysdeps.length_defs]
    refine ⟨?_, funext fun t => ?_⟩
    · rw [hfilled.total, List.length_map, List.length_range]
    · rw [hfilled.types t, List.map_map]
      rfl
  · exact ⟨h.total dev hdev, funext (h.types dev hdev)⟩

/-- `vif_getn` finds what a search in the list of the unit finds. -/
theorem getn (id : VifId) : ∃ p, x.vifGetn u id = some p ∧ x.answer u p = k.getn u id := by
  unfold vifGetn vifGet Known.getn
  cases hd : devOf u id.dev with
  | none => exact ⟨none, rfl, rfl⟩
  | some dev =>
    dsimp only
    have hdev := devOf_cases hd
    by_cases hpc : id.type = .VIFT_PC
    · rw [if_pos hpc, if_pos hpc]
      split_ifs
      · exact ⟨_, rfl, rfl⟩
      · exact ⟨_, rfl, rfl⟩
    · rw [if_neg hpc, if_neg hpc]
      obtain ⟨htotal, htypes⟩ := h.table hdev
      rw [htotal, htypes]
      rcases defs_cases u k dev with hnil | ⟨v, hdefs, hslot⟩
      · rw [hnil]
        refine ⟨none, if_pos ?_, rfl⟩
        simp only [List.map_nil, List.count_nil]
        omega
      · rw [hdefs, ranks_defs, Sysdeps.length_defs, Sysdeps.find_id]
        by_cases hnum : 1 ≤ id.num ∧ id.num ≤ v.ranks.count id.type.rank
        · have hplace : _ ∧ v.vifId dev _ = ⟨id.type, dev, id.num⟩ :=
            Sysdeps.vifId_place hnum.1 hnum.2
          obtain ⟨ho, hid⟩ := hplace
          rw [if_neg (show ¬(v.ranks.count id.type.rank < id.num ∨ id.num = 0) by omega),
            if_pos hnum, if_pos ho]
          refine ⟨_, rfl, ?_⟩
          dsimp only [answer]
          rw [h.shown_eq hdev, hslot _ ho, hid]
        · rw [if_pos (show v.ranks.count id.type.rank < id.num ∨ id.num = 0 by omega), if_neg hnum]
          exact ⟨none, rfl, rfl⟩

/-- A port is found by unit and number as the ledger has it. -/
theorem getByPid (dev num : ℕ) :
    x.answer u ((x.vifGetByPid u dev num).map fun p => .port p.1 p.2) = k.getByPid u dev num := by
  unfold vifGetByPid Known.getByPid
  cases hd : devOf u dev with
  | none => rfl
  | some dev =>
    dsimp only
    have hshown := h.shown_eq (devOf_cases hd) (num - 1)
    have htype : ((x.vifs dev).port (num - 1)).id.type = (k.slot u dev (num - 1)).id.type :=
      congrArg (·.id.type) hshown
    by_cases hnum : 1 ≤ num ∧ num ≤ 64
    · rw [if_pos hnum, htype, ← hshown]
      cases htype' : (x.shown u dev (num - 1)).id.type with
      | VIFT_FE => exact (if_pos ⟨hnum, by decide⟩).symm
      | VIFT_GE => exact (if_pos ⟨hnum, by decide⟩).symm
      | VIFT_XG => exact (if_pos ⟨hnum, by decide⟩).symm
      | VIFT_CPU => exact (if_neg fun hand => absurd hand.2 (by decide)).symm
      | VIFT_PC => exact (if_neg fun hand => absurd hand.2 (by decide)).symm
    · rw [if_neg hnum, if_neg fun hand => hnum hand.1]
      rfl

/-- The ports of the unit itself are those of its board. -/
theorem getHwPorts : x.vifGetHwPorts u = u.sys.defs u.stack_id := by
  have hdefs : k.defs u u.stack_id = u.sys.defs u.stack_id := if_pos rfl
  unfold vifGetHwPorts
  dsimp only
  rw [(h.table (.inl rfl)).1, hdefs, Sysdeps.length_defs]
  refine List.map_congr_left fun i hi => ?_
  have hshown := h.shown_eq (.inl rfl) i
  rw [Known.slot, if_pos rfl, if_pos (List.mem_range.mp hi)] at hshown
  have hid : ((x.vifs u.stack_id).port i).id = u.sys.vifId u.stack_id i := congrArg (·.id) hshown
  have hhp : x.vifGetHw u u.stack_id i = u.sys.hwPort u.stack_id i := congrArg (·.hp) hshown
  rw [hid, hhp]

end Holds

/-! ## Initialisation -/

/-- The search goes through the ports one by one. -/
theorem findHw_succ {v : Sysdeps} (hv : v.Wf) {n : ℕ} (hn : n < v.NPORTS + 1) (dev : ℕ)
    (hp : HwPort) :
    Known.findHw v dev (n + 1) hp =
      if hp = v.hwPort dev n then some n else Known.findHw v dev n hp := by
  unfold Known.findHw
  rw [List.range_succ, List.find?_append]
  split_ifs with hlast
  · -- no port before is at the same place
    have hnone : (List.range n).find? (fun i => v.hwPort dev i = hp) = none := by
      refine List.find?_eq_none.mpr fun i hi hp' => ?_
      have hlt := List.mem_range.mp hi
      exact absurd (Sysdeps.hwPort_inj hv (hlt.trans hn) hn
        ((of_decide_eq_true hp').trans hlast)) hlt.ne
    have hfind : [n].find? (fun i => v.hwPort dev i = hp) = some n :=
      List.find?_cons_of_pos (decide_eq_true hlast.symm)
    rw [hnone, hfind]
    rfl
  · have hfind : [n].find? (fun i => v.hwPort dev i = hp) = none := by
      refine List.find?_eq_none.mpr fun i hi hp' => hlast ?_
      obtain rfl := List.mem_singleton.mp hi
      exact (of_decide_eq_true hp').symm
    rw [hfind, Option.or_none]

/-- A port of the board is found. -/
theorem findHw_eq_some {v : Sysdeps} (hv : v.Wf) {dev i : ℕ} (hi : i < v.NPORTS + 1) :
    Known.findHw v dev (v.NPORTS + 1) (v.hwPort dev i) = some i := by
  have hupto : ∀ n, i < n → n ≤ v.NPORTS + 1 → Known.findHw v dev n (v.hwPort dev i) = some i := by
    intro n hin
    induction n with
    | zero => exact absurd hin (Nat.not_lt_zero _)
    | succ n ih =>
      intro hn
      rw [findHw_succ hv hn]
      split_ifs with heq
      · rw [Sysdeps.hwPort_inj hv hi hn heq]
      · have hne : i ≠ n := fun h => heq (by rw [h])
        exact ih (by omega) (Nat.le_of_succ_le hn)
  exact hupto _ hi le_rfl

/-- What is no port of the board is not found. -/
theorem findHw_none {v : Sysdeps} {dev n : ℕ} {hp : HwPort} (hnone : ∀ i < n, v.hwPort dev i ≠ hp) :
    Known.findHw v dev n hp = none :=
  List.find?_eq_none.mpr fun i hi hp' => hnone i (List.mem_range.mp hi) (of_decide_eq_true hp')

/-- The loop of `vif_post_port_init`. -/
theorem setHw_loop (u : VifUnit) (x : VifDir) {n : ℕ} (hn : n ≤ u.sys.NPORTS) : ∀ x' : VifDir,
    (List.range n).foldl
        (fun (x : VifDir) i => x.setHw (u.sys.hwPort u.stack_id i) (u.stack_id, i)) x = x' →
    x'.vifs = x.vifs ∧ ∀ hp : HwPort, x'.vifp_by_hw hp.hw_dev hp.hw_port =
      match Known.findHw u.sys u.stack_id n hp with
      | none => x.vifp_by_hw hp.hw_dev hp.hw_port
      | some i => some (u.stack_id, i) := by
  induction n with
  | zero =>
    rintro _ rfl
    exact ⟨rfl, fun _ => rfl⟩
  | succ n ih =>
    rintro _ rfl
    obtain ⟨hvifs, hhw⟩ := ih (Nat.le_of_succ_le hn) _ rfl
    rw [List.range_succ, List.foldl_append, List.foldl_cons, List.foldl_nil]
    refine ⟨hvifs, fun hp => ?_⟩
    rw [setHw_apply, findHw_succ u.wf (Nat.lt_succ_of_lt hn), hhw]
    split_ifs <;> rfl

/-- The directory holds the interfaces of the unit itself after the start. -/
theorem holds_start (u : VifUnit) : Holds u (vifInit u) .start := by
  obtain ⟨hvifs, hhw⟩ :=
    setHw_loop u ⟨update (fun _ => .zero) u.stack_id (.own u), fun _ _ => none⟩ le_rfl _ rfl
  have hinit : (vifInit u).vifs = update (fun _ => .zero) u.stack_id (.own u) := hvifs
  have hother : ∀ dev, ¬Known.Refused u dev → (vifInit u).vifs dev = .zero := by
    intro dev hdev
    rw [hinit]
    exact update_of_ne (fun heq => hdev (.inr (.inr heq))) ..
  have hnil : ∀ dev, ¬Known.Refused u dev → Known.defs u .start dev = [] := fun dev hdev =>
    if_neg fun heq => hdev (.inr (.inr heq))
  refine ⟨?_, fun dev hdev => ?_, fun dev hdev t => ?_, fun dev hdev o => ?_, fun hp => ?_,
    fun _ _ hv => absurd hv List.not_mem_nil, fun _ _ => rfl⟩
  · rw [hinit]
    exact update_self ..
  · rw [hother dev hdev, hnil dev hdev]
    rfl
  · rw [hother dev hdev, hnil dev hdev]
    rfl
  · have hslot : Known.slot u .start dev o = .zero := if_neg fun heq => hdev (.inr (.inr heq))
    rw [hother dev hdev, hslot]
    rfl
  · have hcpu : u.sys.hwPort u.stack_id u.sys.NPORTS = ⟨u.stack_id, CPSS_CPU_PORT_NUM_CNS⟩ := by
      unfold Sysdeps.hwPort
      rw [Sysdeps.port_cpu, Sysdeps.physDev_cpu u.wf]
    unfold vifInit Known.place
    dsimp only
    rw [Sysdeps.physDev_cpu u.wf, setHw_apply, setHw_apply, hhw,
      findHw_succ u.wf (Nat.lt_succ_self _), hcpu]
    split_ifs
    · rfl
    · rfl
    · rfl
    · cases Known.findHw u.sys u.stack_id u.sys.NPORTS hp with
      | none => rfl
      | some i => rfl

/-! ## Registrations -/

/-- The list of a unit as `vif_get_hw_ports` gives it. -/
theorem getHwPorts_init (w : VifUnit) : (vifInit w).vifGetHwPorts w = w.sys.defs w.stack_id :=
  (holds_start w).getHwPorts

/-- `vif_set_hw_ports` refuses a unit or enters its ports one by one. -/
theorem vifSetHwPorts_eq (u : VifUnit) (x : VifDir) {dev : ℕ} {pd : List VifDef}
    (hpd : pd.length ≤ 60) :
    x.vifSetHwPorts u dev pd = if Known.Refused u dev then some (.ST_BAD_VALUE, x)
      else (setPorts dev 0 pd (x.drop dev pd.length)).map fun x => (.ST_OK, x) := by
  unfold vifSetHwPorts Known.Refused
  refine if_congr ?_ rfl rfl
  omega

/-- The slots of a unit that is registered. -/
theorem slot_register {w : VifUnit} (k : Known) (hdev : ¬Known.Refused u w.stack_id) (o : ℕ) :
    Known.slot u
      ⟨update k.seen w.stack_id (w.sys :: k.seen w.stack_id), update k.here w.stack_id true⟩
      w.stack_id o =
      if o < w.sys.NPORTS + 1 then
        ⟨true, false, w.sys.vifId w.stack_id o, w.sys.hwPort w.stack_id o⟩
      else { k.slot u w.stack_id o with valid := false } := by
  have hne : w.stack_id ≠ u.stack_id := fun heq => hdev (.inr (.inr heq))
  unfold Known.slot
  dsimp only
  rw [if_neg hne, if_neg hne, update_self, update_self]
  have hdefs : Known.defs u
      ⟨update k.seen w.stack_id (w.sys :: k.seen w.stack_id), update k.here w.stack_id true⟩
      w.stack_id = w.sys.defs w.stack_id := by
    unfold Known.defs
    rw [if_neg hne]
    dsimp only
    rw [update_self]
  rw [hdefs, Sysdeps.length_defs]
  by_cases ho : o < w.sys.NPORTS + 1
  · have hfind : (w.sys :: k.seen w.stack_id).find? (fun v => o < v.NPORTS + 1) = some w.sys :=
      List.find?_cons_of_pos (decide_eq_true ho)
    rw [if_pos ho, hfind]
    simp [ho]
  · have hfind : (w.sys :: k.seen w.stack_id).find? (fun v => o < v.NPORTS + 1) =
        (k.seen w.stack_id).find? fun v => o < v.NPORTS + 1 :=
          List.find?_cons_of_neg (by simpa using ho)
    rw [if_neg ho, hfind]
    cases (k.seen w.stack_id).find? fun v => o < v.NPORTS + 1 with
    | none => rfl
    | some v => simp [ho]

/-- The definitions of a registered unit are those of its board. -/
theorem defs_register {w : VifUnit} (k : Known) (hdev : ¬Known.Refused u w.stack_id) :
    Known.defs u ⟨update k.seen w.stack_id (w.sys :: k.seen w.stack_id),
      update k.here w.stack_id true⟩
      w.stack_id = w.sys.defs w.stack_id := by
  unfold Known.defs
  rw [if_neg fun heq => hdev (.inr (.inr heq))]
  dsimp only
  rw [update_self]

namespace Holds

variable (h : Holds u x k)

include h

/-- No variant has ports beyond the first 60. -/
theorem slot_high (hdev : ¬Known.Refused u dev) {o : ℕ} (ho : 60 ≤ o) : k.slot u dev o = .zero := by
  have hfind : (k.seen dev).find? (fun v => o < v.NPORTS + 1) = none := by
    refine List.find?_eq_none.mpr fun v hv hlt => ?_
    have hshort := (h.wf dev v hv).short
    have hlt' : o < v.pmap.length + 1 := of_decide_eq_true hlt
    omega
  unfold Known.slot
  rw [if_neg fun heq => hdev (.inr (.inr heq)), hfind]

/-- The ports of a unit are not valid while they are entered anew. -/
theorem drop_port (hdev : ¬Known.Refused u dev) (n o : ℕ) :
    ((x.drop dev n).vifs dev).port o = { (k.slot u dev o).vif with valid := false } := by
  have hport : ((x.drop dev n).vifs dev).port o =
      if o < 64 then { (x.vifs dev).port o with valid := false } else (x.vifs dev).port o := by
    unfold drop
    dsimp only
    rw [update_self]
    by_cases hn : 0 < n
    · rw [if_pos hn]
    · rw [if_neg hn]
  rw [hport, h.port dev hdev o]
  split_ifs with ho
  · rfl
  · rw [h.slot_high hdev (by omega)]
    rfl

/-- The ports of another unit are not local. -/
theorem drop_remote (hdev : ¬Known.Refused u dev) (n o : ℕ) :
    (((x.drop dev n).vifs dev).port o).islocal = false := by
  rw [h.drop_port hdev]
  show (k.slot u dev o).islocal = false
  unfold Known.slot
  rw [if_neg fun heq => hdev (.inr (.inr heq))]
  cases (k.seen dev).find? fun v => o < v.NPORTS + 1 with
  | none => rfl
  | some v => rfl

/-- A unit is taken off. -/
theorem gone (hdev : ¬Known.Refused u dev) :
    Holds u (x.drop dev 0) { k with here := update k.here dev false } := by
  have hne : dev ≠ u.stack_id := fun heq => hdev (.inr (.inr heq))
  have hother : ∀ d ≠ dev, (x.drop dev 0).vifs d = x.vifs d := fun d hd => update_of_ne hd ..
  have hsame : (x.drop dev 0).vifs dev =
      { x.vifs dev with port := ((x.drop dev 0).vifs dev).port } := by
    unfold drop
    dsimp only
    rw [update_self, if_neg (lt_irrefl 0)]
  refine ⟨?_, fun d hd => ?_, fun d hd t => ?_, fun d hd o => ?_, h.hw, h.wf, h.unseen⟩
  · rw [hother _ (Ne.symm hne)]
    exact h.own
  · by_cases heq : d = dev
    · subst heq
      rw [hsame]
      exact h.total d hd
    · rw [hother d heq]
      exact h.total d hd
  · by_cases heq : d = dev
    · subst heq
      rw [hsame]
      exact h.types d hd t
    · rw [hother d heq]
      exact h.types d hd t
  · by_cases heq : d = dev
    · subst heq
      rw [h.drop_port hd]
      unfold Known.slot
      dsimp only
      rw [if_neg hne, if_neg hne, update_self]
      cases (k.seen d).find? fun v => o < v.NPORTS + 1 with
      | none => rfl
      | some v => rfl
    · rw [hother d heq, h.port d hd o]
      unfold Known.slot Known.defs
      dsimp only
      rw [update_of_ne heq]

/-- The places in the hardware after a unit is registered. -/
theorem place_register {w : VifUnit} (hdev : ¬Known.Refused u w.stack_id) (hp : HwPort)
    (hin : ∀ (j : ℕ) (hj : j < (w.sys.defs w.stack_id).length),
      x'.vifp_by_hw (w.sys.defs w.stack_id)[j].hp.hw_dev (w.sys.defs w.stack_id)[j].hp.hw_port =
        some (w.stack_id, 0 + j))
    (hout : ∀ hp : HwPort, hp ∉ (w.sys.defs w.stack_id).map VifDef.hp →
      x'.vifp_by_hw hp.hw_dev hp.hw_port = x.vifp_by_hw hp.hw_dev hp.hw_port) :
    x'.vifp_by_hw hp.hw_dev hp.hw_port =
      Known.place u
        ⟨update k.seen w.stack_id (w.sys :: k.seen w.stack_id), update k.here w.stack_id true⟩
        hp := by
  have hle := u.le
  have hrange : 1 ≤ w.stack_id ∧ w.stack_id ≤ 15 ∧ w.stack_id ≠ u.stack_id := by
    unfold Known.Refused at hdev
    omega
  unfold Known.place
  dsimp only
  -- the place is one of the new board
  by_cases hmem : ∃ j < w.sys.NPORTS + 1, w.sys.hwPort w.stack_id j = hp
  · obtain ⟨j, hj, rfl⟩ := hmem
    have hj' : j < (w.sys.defs w.stack_id).length := Sysdeps.length_defs.symm ▸ hj
    have hdev' : ∀ s i, _ := Sysdeps.hwPort_dev (v := w.sys)
    have hdev'' : ∀ s i, _ := Sysdeps.hwPort_dev (v := u.sys)
    have hget := hin j hj'
    rw [Sysdeps.defs_getElem, Nat.zero_add] at hget
    have hhw := hdev' w.stack_id j
    -- it is not the one of all units' CPUs
    have hzero : w.sys.hwPort w.stack_id j ≠ ⟨0, CPSS_CPU_PORT_NUM_CNS⟩ := by
      intro heq
      rw [heq] at hhw
      dsimp only at hhw
      omega
    -- it is not one of the unit itself
    have hown : Known.findHw u.sys u.stack_id (u.sys.NPORTS + 1)
        (w.sys.hwPort w.stack_id j) = none := by
      refine findHw_none fun i _ heq => ?_
      have hhw' := hdev'' u.stack_id i
      rw [heq] at hhw'
      omega
    have hmod : (w.sys.hwPort w.stack_id j).hw_dev % 16 = w.stack_id := by omega
    rw [hget, if_neg hzero, hown]
    dsimp only
    rw [hmod, update_self, List.findSome?_cons, findHw_eq_some w.wf hj]
    rfl
  · -- any other place is found as before
    have hnone : Known.findHw w.sys w.stack_id (w.sys.NPORTS + 1) hp = none :=
      findHw_none fun i hi heq => hmem ⟨i, hi, heq⟩
    have hnot : hp ∉ (w.sys.defs w.stack_id).map VifDef.hp := by
      intro hp'
      obtain ⟨d, hd, rfl⟩ := List.mem_map.mp hp'
      obtain ⟨i, hi, rfl⟩ := List.mem_iff_getElem.mp hd
      exact hmem ⟨i, Sysdeps.length_defs ▸ hi, by rw [Sysdeps.defs_getElem]⟩
    rw [hout hp hnot, h.hw hp]
    unfold Known.place
    dsimp only
    -- also on the devices of the new unit
    by_cases hmod : hp.hw_dev % 16 = w.stack_id
    · rw [hmod, update_self, List.findSome?_cons, hnone]
    · rw [update_of_ne hmod]

/-- A unit is registered. -/
theorem register {w : VifUnit} (hdev : ¬Known.Refused u w.stack_id) : ∃ x',
    setPorts w.stack_id 0 (w.sys.defs w.stack_id)
        (x.drop w.stack_id (w.sys.defs w.stack_id).length) = some x' ∧
      Holds u x'
        ⟨update k.seen w.stack_id (w.sys :: k.seen w.stack_id), update k.here w.stack_id true⟩ := by
  -- the unit registers as a remote one, so its own ports do not change
  have hne : w.stack_id ≠ u.stack_id := fun heq => hdev (.inr (.inr heq))
  have hlength : (w.sys.defs w.stack_id).length = w.sys.NPORTS + 1 := Sysdeps.length_defs
  have hfilled := drop_filled x w.stack_id (n := (w.sys.defs w.stack_id).length) (by omega)
  have hremote := h.drop_remote hdev (w.sys.defs w.stack_id).length
  have hdevs : ∀ d ∈ w.sys.defs w.stack_id,
      (d.hp.hw_dev = w.stack_id ∨ d.hp.hw_dev = w.stack_id + 16) ∧ d.hp.hw_port < 64 := by
    intro d hd
    obtain ⟨i, hi, rfl⟩ := List.mem_iff_getElem.mp hd
    rw [Sysdeps.defs_getElem]
    exact ⟨Sysdeps.hwPort_dev _ _, Sysdeps.hwPort_lt w.wf _ _⟩
  have hhps : (w.sys.defs w.stack_id).map VifDef.hp =
      (List.range (w.sys.NPORTS + 1)).map (w.sys.hwPort w.stack_id) := by
    unfold Sysdeps.defs
    rw [List.map_map]
    rfl
  -- no two ports of the board share a place in the hardware
  have hnodup : ((w.sys.defs w.stack_id).map VifDef.hp).Nodup := by
    rw [hhps]
    refine List.Nodup.map_on (fun i hi j hj heq => ?_) List.nodup_range
    exact Sysdeps.hwPort_inj w.wf (List.mem_range.mp hi) (List.mem_range.mp hj) heq
  have hnil : ([] : List Vif).length = 0 := rfl
  obtain ⟨x', hx', hfilled', hport, hvifs, hhw⟩ := setPorts_spec hdevs hfilled hnil hremote
  obtain ⟨hin, hout⟩ := hhw hnodup
  have hother : ∀ d ≠ w.stack_id, x'.vifs d = x.vifs d :=
    fun d hd => (hvifs d hd).trans (update_of_ne hd ..)
  have hdefs := defs_register k hdev
  have hdefs' : ∀ d ≠ w.stack_id, Known.defs u
      ⟨update k.seen w.stack_id (w.sys :: k.seen w.stack_id), update k.here w.stack_id true⟩ d =
        k.defs u d := by
    intro d hd
    unfold Known.defs
    dsimp only
    rw [update_of_ne hd]
  rw [List.nil_append] at hfilled'
  -- field by field: what belongs to the unit comes from its board, the rest stays
  refine ⟨x', hx', ?_, fun d hd => ?_, fun d hd t => ?_, fun d hd o => ?_, fun hp => ?_,
    fun d v hv => ?_,
    fun d hd => ?_⟩
  · rw [hother _ (Ne.symm hne)]
    exact h.own
  · by_cases heq : d = w.stack_id
    · subst heq
      rw [hdefs, hfilled'.total, List.length_map]
    · rw [hother d heq, hdefs' d heq]
      exact h.total d hd
  · by_cases heq : d = w.stack_id
    · subst heq
      rw [hdefs, hfilled'.types, List.map_map]
      rfl
    · rw [hother d heq, hdefs' d heq]
      exact h.types d hd t
  · by_cases heq : d = w.stack_id
    · subst heq
      rw [slot_register k hd]
      split_ifs with ho
      · have hget := hfilled'.port o (by rwa [List.length_map, hlength])
        rw [hget, List.getElem_map, Sysdeps.defs_getElem]
        rfl
      · rw [hport o (by omega), h.drop_port hd]
        rfl
    · rw [hother d heq, h.port d hd o]
      unfold Known.slot
      dsimp only
      rw [update_of_ne heq, update_of_ne heq, hdefs' d heq]
  · exact h.place_register hdev hp hin hout
  · by_cases heq : d = w.stack_id
    · subst heq
      change v ∈ update k.seen w.stack_id (w.sys :: k.seen w.stack_id) w.stack_id at hv
      rw [update_self] at hv
      rcases List.mem_cons.mp hv with rfl | hv
      · exact w.wf
      · exact h.wf _ v hv
    · change v ∈ update k.seen w.stack_id (w.sys :: k.seen w.stack_id) d at hv
      rw [update_of_ne heq] at hv
      exact h.wf d v hv
  · have heq : d ≠ w.stack_id := fun heq => hdev (heq ▸ hd)
    exact (update_of_ne heq ..).trans (h.unseen d hd)

/-- A port that is found at a place of the hardware is in the table of the unit or of one that was
registered. -/
theorem place_dev {hp : HwPort} {p : ℕ × ℕ} (hp' : k.place u hp = some p) :
    p.1 = u.stack_id ∨ ¬Known.Refused u p.1 := by
  unfold Known.place at hp'
  split_ifs at hp' with hcpu
  · exact .inl (congrArg Prod.fst (Option.some_inj.mp hp')).symm
  · cases hown : Known.findHw u.sys u.stack_id (u.sys.NPORTS + 1) hp with
    | some i =>
      rw [hown] at hp'
      exact .inl (congrArg Prod.fst (Option.some_inj.mp hp')).symm
    | none =>
      rw [hown] at hp'
      obtain ⟨i, hi, rfl⟩ := Option.map_eq_some_iff.mp hp'
      refine .inr fun hrefused => ?_
      rw [h.unseen _ hrefused] at hi
      exact absurd hi (Option.some_ne_none i).symm

/-- A port is found by its hardware port as the ledger has it. -/
theorem byHw (hp : HwPort) :
    x.answer u ((x.vifByHw hp.hw_dev hp.hw_port).map fun p => .port p.1 p.2) =
      (k.place u hp).elim .null fun p => .port (k.slot u p.1 p.2) := by
  have hhw : x.vifByHw hp.hw_dev hp.hw_port = k.place u hp := h.hw hp
  rw [hhw]
  cases hplace : k.place u hp with
  | none => rfl
  | some p => exact congrArg DirOut.port (h.shown_eq (h.place_dev hplace) p.2)

/-- One call is answered from what is known, and the relation is kept. -/
theorem step (c : DirCall) : ∃ o x' k', x.step u c = some (o, x') ∧ k.step u c = some (o, k') ∧
    Holds u x' k' := by
  unfold VifDir.step Known.step
  cases c with
  | register w =>
    have hshort : (w.sys.defs w.stack_id).length ≤ 60 := by
      rw [Sysdeps.length_defs]
      exact w.wf.short
    dsimp only
    rw [getHwPorts_init, vifSetHwPorts_eq u x hshort]
    by_cases hdev : Known.Refused u w.stack_id
    · rw [if_pos hdev, if_pos hdev]
      exact ⟨_, x, k, rfl, rfl, h⟩
    · obtain ⟨x', hx', h'⟩ := h.register hdev
      rw [if_neg hdev, if_neg hdev, hx']
      exact ⟨_, x', _, rfl, rfl, h'⟩
  | gone dev =>
    dsimp only
    rw [vifSetHwPorts_eq u x (Nat.zero_le _)]
    by_cases hdev : Known.Refused u dev
    · rw [if_pos hdev, if_pos hdev]
      exact ⟨_, x, k, rfl, rfl, h⟩
    · rw [if_neg hdev, if_neg hdev]
      exact ⟨_, _, _, rfl, rfl, h.gone hdev⟩
  | getn id =>
    obtain ⟨p, hp, hanswer⟩ := h.getn id
    dsimp only
    rw [hp, ← hanswer]
    exact ⟨_, x, k, rfl, rfl, h⟩
  | getByPid dev num => exact ⟨_, x, k, rfl, by rw [h.getByPid], h⟩
  | byHw hdev hport => exact ⟨_, x, k, rfl, by rw [h.byHw ⟨hdev, hport⟩], h⟩
  | getHwPorts => exact ⟨_, x, k, rfl, by rw [h.getHwPorts], h⟩

end Holds

/-- In every run of registrations and searches a unit answers what is found in the lists of the
variants that were registered. -/
theorem directory_refines (u : VifUnit) (calls : List DirCall) : ∃ os x k,
    Lockstep.outputs (step u) calls (vifInit u) = some (os, x) ∧
      Lockstep.outputs (Known.step u) calls .start = some (os, k) ∧ Holds u x k := by
  have hstep : ∀ x k c, Holds u x k → c ∈ calls → True →
      ∃ o x' k', step u x c = some (o, x') ∧ Known.step u k c = some (o, k') ∧ Holds u x' k' :=
    fun _ _ c h _ _ => h.step c
  exact Lockstep.Same.outputs_some hstep (holds_start u) (.of_forall (fun _ _ _ => trivial) _)

/-! ## The table of the trunks -/

/-- What the functions on trunks see of the directory. -/
def vifTable (u : VifUnit) (x : VifDir) (speed10 : ℕ) : VifTable where
  stack_id := u.stack_id
  nByType dev type := (x.vifs dev).n_by_type type.rank
  valid
    | .port dev type num => decide (dev = u.stack_id) ||
      ((x.vifs dev).port (Grouped.before (x.vifs dev).n_by_type type.rank + num - 1)).valid
    | .trunk _ => true
  valid_own _ _ := by
    dsimp only
    rw [decide_eq_true rfl, Bool.true_or]
  speed10 := speed10

/-- A pointer by type and number. -/
def ref (x : VifDir) : VifPtr → VifRef
  | .port dev o => .port dev ((x.vifs dev).port o).id.type ((x.vifs dev).port o).id.num
  | .trunk num => .trunk num

/-- What is known of a unit is not changed by calls about others. -/
theorem known_other {c : DirCall} {o : DirOut} {k' : Known} (hc : c.subject ≠ some dev)
    (hstep : Known.step u k c = some (o, k')) :
    k'.seen dev = k.seen dev ∧ k'.here dev = k.here dev := by
  cases c with
  | register w =>
    have hne : dev ≠ w.stack_id := fun heq => hc (congrArg some heq.symm)
    unfold Known.step at hstep
    dsimp only at hstep
    split_ifs at hstep
    · obtain ⟨-, rfl⟩ := Prod.mk.inj (Option.some_inj.mp hstep)
      exact ⟨rfl, rfl⟩
    · obtain ⟨-, rfl⟩ := Prod.mk.inj (Option.some_inj.mp hstep)
      exact ⟨update_of_ne hne .., update_of_ne hne ..⟩
  | gone d =>
    have hne : dev ≠ d := fun heq => hc (congrArg some heq.symm)
    unfold Known.step at hstep
    dsimp only at hstep
    split_ifs at hstep
    · obtain ⟨-, rfl⟩ := Prod.mk.inj (Option.some_inj.mp hstep)
      exact ⟨rfl, rfl⟩
    · obtain ⟨-, rfl⟩ := Prod.mk.inj (Option.some_inj.mp hstep)
      exact ⟨rfl, update_of_ne hne ..⟩
  | getn id | getByPid d num | byHw hdev hport | getHwPorts =>
    obtain ⟨-, rfl⟩ := Prod.mk.inj (Option.some_inj.mp hstep)
    exact ⟨rfl, rfl⟩

/-- A unit that was registered and not taken off is known as it is. -/
theorem known_registered {w : VifUnit} (hdev : ¬Known.Refused u w.stack_id)
    {before after : List DirCall}
    (hafter : ∀ c ∈ after, c.subject ≠ some w.stack_id) {os : List DirOut}
    (hrun : Lockstep.outputs (Known.step u) (before ++ .register w :: after) .start =
      some (os, k)) :
    (∃ l, k.seen w.stack_id = w.sys :: l) ∧ k.here w.stack_id = true := by
  obtain ⟨_, k₁, _, -, hrun⟩ := Lockstep.outputs_append hrun
  obtain ⟨_, k₂, _, hstep, hrun, -⟩ := Lockstep.outputs_cons.mp hrun
  obtain ⟨-, rfl⟩ := Prod.mk.inj (Option.some_inj.mp ((if_neg hdev).symm.trans hstep))
  have hok : ∀ k, Lockstep.Ok (Known.step u) (fun _ c => c.subject ≠ some w.stack_id) after k :=
    .of_forall fun c hc _ => hafter c hc
  refine (hok _).invariant (fun k => (∃ l, k.seen w.stack_id = w.sys :: l) ∧
    k.here w.stack_id = true)
    ⟨⟨_, update_self ..⟩, update_self ..⟩ ?_ hrun
  rintro k c o k' ⟨hseen, hhere⟩ hc hstep
  obtain ⟨hseen', hhere'⟩ := known_other hc hstep
  rw [hseen', hhere']
  exact ⟨hseen, hhere⟩

/-- A unit is known as a variant, and is there. -/
structure Known.Shows (u : VifUnit) (k : Known) (v : Sysdeps) (dev : ℕ) : Prop where
  dev_pos : dev ≠ 0
  dev_le : dev ≤ 15
  dev_ok : dev = u.stack_id ∨ ¬Known.Refused u dev
  here : (decide (dev = u.stack_id) || k.here dev) = true
  short : v.NPORTS < 60
  hport : ∀ o, (v.hwPort dev o).hw_port < 64
  defs : k.defs u dev = v.defs dev
  slot : ∀ o < v.NPORTS + 1, k.slot u dev o =
    ⟨true, dev = u.stack_id, v.vifId dev o, v.hwPort dev o⟩
  place : ∀ o < v.NPORTS + 1, k.place u (v.hwPort dev o) = some (dev, o)

/-- A port of another unit is not the port of the CPU. -/
theorem not_cpuPort {v : Sysdeps} (hdev : dev ≠ 0) (o : ℕ) :
    v.hwPort dev o ≠ ⟨0, CPSS_CPU_PORT_NUM_CNS⟩ := by
  intro heq
  have hhw : (v.hwPort dev o).hw_dev = dev ∨ (v.hwPort dev o).hw_dev = dev + 16 :=
    Sysdeps.hwPort_dev dev o
  rw [heq] at hhw
  dsimp only at hhw
  omega

/-- The interfaces of the unit itself are shown. -/
theorem shows_own (k : Known) (hdev : u.stack_id ≠ 0) : Known.Shows u k u.sys u.stack_id where
  dev_pos := hdev
  dev_le := u.le
  dev_ok := .inl rfl
  here := by rw [decide_eq_true rfl, Bool.true_or]
  short := u.wf.short
  hport := Sysdeps.hwPort_lt u.wf _
  defs := if_pos rfl
  slot o ho := by
    rw [Known.slot, if_pos rfl, if_pos ho, decide_eq_true rfl]
  place o ho := by
    rw [Known.place, if_neg (not_cpuPort hdev o), findHw_eq_some u.wf ho]

/-- The interfaces of a registered unit are shown. -/
theorem shows_registered {w : VifUnit} (hdev : ¬Known.Refused u w.stack_id) {l : List Sysdeps}
    (hseen : k.seen w.stack_id = w.sys :: l) (hhere : k.here w.stack_id = true) :
    Known.Shows u k w.sys w.stack_id := by
  have hle := u.le
  have hrange : 1 ≤ w.stack_id ∧ w.stack_id ≤ 15 ∧ w.stack_id ≠ u.stack_id := by
    unfold Known.Refused at hdev
    omega
  have hdefs : k.defs u w.stack_id = w.sys.defs w.stack_id := by
    rw [Known.defs, if_neg hrange.2.2, hseen]
  refine ⟨by omega, by omega, .inr hdev, by rw [hhere, Bool.or_true], w.wf.short,
    Sysdeps.hwPort_lt w.wf _, hdefs,
    fun o ho => ?_, fun o ho => ?_⟩
  · have hfind : (w.sys :: l).find? (fun v => o < v.NPORTS + 1) = some w.sys :=
      List.find?_cons_of_pos (decide_eq_true ho)
    rw [Known.slot, if_neg hrange.2.2, hseen, hfind, hdefs, Sysdeps.length_defs, hhere]
    simp [ho, hrange.2.2]
  · have hhw : (w.sys.hwPort w.stack_id o).hw_dev = _ ∨ _ := Sysdeps.hwPort_dev w.stack_id o
    have hown : Known.findHw u.sys u.stack_id (u.sys.NPORTS + 1)
        (w.sys.hwPort w.stack_id o) = none := by
      refine findHw_none fun i _ heq => ?_
      have hhw' : (u.sys.hwPort u.stack_id i).hw_dev = _ ∨ _ := Sysdeps.hwPort_dev u.stack_id i
      rw [heq] at hhw'
      omega
    have hmod : (w.sys.hwPort w.stack_id o).hw_dev % 16 = w.stack_id := by omega
    rw [Known.place, if_neg (not_cpuPort (by omega) o), hown]
    dsimp only
    rw [hmod, hseen, List.findSome?_cons, findHw_eq_some w.wf ho]
    rfl

/-- All searches find a port under its identifier, at its place in the hardware and at its index. -/
def Finds (u : VifUnit) (x : VifDir) (id : VifId) (hp : HwPort) (o : ℕ) : Prop :=
  let p : ShownPort := ⟨true, id.dev = u.stack_id, id, hp⟩
  step u x (.getn id) = some (.port p, x) ∧
    (∃ hdev hport, hp = ⟨hdev.val, hport.val⟩ ∧ step u x (.byHw hdev hport) = some (.port p, x)) ∧
    (id.type ≠ .VIFT_CPU → step u x (.getByPid id.dev (o + 1)) = some (.port p, x))

namespace Known.Shows

variable {v : Sysdeps} (hv : Known.Shows u k v dev)

include hv

/-- The unit is known by its number. -/
theorem devOf_eq : devOf u dev = some dev := by
  rcases hv.dev_ok with hown | hdev
  · have hle := u.le
    have hpos := hv.dev_pos
    unfold devOf
    split_ifs <;> first | rfl | omega
  · exact devOf_registered hdev

/-- An interface that is shown is found by its identifier. -/
theorem getn_eq {o : ℕ} (ho : o < v.NPORTS + 1) :
    k.getn u (v.vifId dev o) = .port ⟨true, dev = u.stack_id, v.vifId dev o, v.hwPort dev o⟩ := by
  have htype : (v.vifId dev o).type ≠ .VIFT_PC := Sysdeps.typeOf_ne_pc o
  have hfind :
      (v.defs dev).find? (fun d => d.id = ⟨(v.vifId dev o).type, dev, (v.vifId dev o).num⟩) =
      some ⟨v.vifId dev o, v.hwPort dev o⟩ :=
    Sysdeps.find_only ho (decide_eq_true rfl)
      fun j hj hpj => Sysdeps.vifId_inj hj ho (of_decide_eq_true hpj)
  have hdevOf : devOf u (v.vifId dev o).dev = some dev := hv.devOf_eq
  unfold Known.getn
  rw [hdevOf]
  dsimp only
  rw [if_neg htype, hv.defs, hfind]
  dsimp only
  rw [hv.here]

/-- An interface that is shown is found in each of the three ways. -/
theorem finds (h : Holds u x k) {o : ℕ} (ho : o < v.NPORTS + 1) :
    Finds u x (v.vifId dev o) (v.hwPort dev o) o := by
  have hshort := hv.short
  have hslot := hv.slot o ho
  have hdevOf : devOf u (v.vifId dev o).dev = some dev := hv.devOf_eq
  refine ⟨?_, ⟨⟨(v.hwPort dev o).hw_dev, ?_⟩, ⟨(v.hwPort dev o).hw_port, hv.hport o⟩, rfl, ?_⟩,
    fun hcpu => ?_⟩
  · obtain ⟨p, hp, hanswer⟩ := h.getn (v.vifId dev o)
    unfold VifDir.step
    dsimp only
    rw [hp, Option.map_some, hanswer, hv.getn_eq ho]
    rfl
  · have hhw : (v.hwPort dev o).hw_dev = dev ∨ (v.hwPort dev o).hw_dev = dev + 16 :=
      Sysdeps.hwPort_dev dev o
    have hle := hv.dev_le
    omega
  · unfold VifDir.step
    dsimp only
    rw [h.byHw, hv.place o ho]
    dsimp only [Option.elim]
    rw [hslot]
    rfl
  · have htype : (v.vifId dev o).type ∈ [VifType.VIFT_FE, .VIFT_GE, .VIFT_XG] := by
      have hpc : (v.vifId dev o).type ≠ .VIFT_PC := Sysdeps.typeOf_ne_pc o
      revert hcpu hpc
      generalize (v.vifId dev o).type = type
      cases type <;> decide
    unfold VifDir.step
    dsimp only
    rw [h.getByPid, Known.getByPid, hdevOf]
    dsimp only
    rw [Nat.add_sub_cancel, hslot, if_pos ⟨by omega, htype⟩]
    rfl

/-- A port that the unit does not have is not found. -/
theorem not_found (h : Holds u x k) {id : VifId} (hid : id.dev = dev) (htype : id.type ≠ .VIFT_PC)
    (hnot : ∀ o < v.NPORTS + 1, id ≠ v.vifId dev o) : step u x (.getn id) = some (.null, x) := by
  obtain ⟨p, hp, hanswer⟩ := h.getn id
  have hnone : (v.defs dev).find? (fun d => d.id = ⟨id.type, dev, id.num⟩) = none := by
    have hsame : id = ⟨id.type, dev, id.num⟩ := by rw [← hid]
    exact Sysdeps.find_none fun i hi => decide_eq_false fun heq => hnot i hi (hsame.trans heq.symm)
  have hnull : k.getn u id = .null := by
    unfold Known.getn
    rw [hid, hv.devOf_eq]
    dsimp only
    rw [if_neg htype, hv.defs, hnone]
  unfold VifDir.step
  dsimp only
  rw [hp, Option.map_some, hanswer, hnull]

end Known.Shows

/-- Whatever else two units were told, the ports of one of them are found by both, if it was
registered with the other one and not taken off since: under the same identifiers, at the same
places and indexes, and no others. -/
theorem found_by_all {u w : VifUnit} (hdev : ¬Known.Refused u w.stack_id)
    {before after calls : List DirCall}
    (hafter : ∀ c ∈ after, c.subject ≠ some w.stack_id) {os os' : List DirOut} {x y : VifDir}
    (hu : Lockstep.outputs (step u) (before ++ .register w :: after) (vifInit u) = some (os, x))
    (hw : Lockstep.outputs (step w) calls (vifInit w) = some (os', y)) :
    (∀ o < w.sys.NPORTS + 1,
      Finds u x (w.sys.vifId w.stack_id o) (w.sys.hwPort w.stack_id o) o ∧
        Finds w y (w.sys.vifId w.stack_id o) (w.sys.hwPort w.stack_id o) o) ∧
    ∀ id : VifId, id.dev = w.stack_id → id.type ≠ .VIFT_PC →
      (∀ o < w.sys.NPORTS + 1, id ≠ w.sys.vifId w.stack_id o) →
      step u x (.getn id) = some (.null, x) ∧ step w y (.getn id) = some (.null, y) := by
  obtain ⟨_, x', k, hx, hk, h⟩ := directory_refines u (before ++ .register w :: after)
  obtain ⟨-, rfl⟩ := Prod.mk.inj (Option.some_inj.mp (hx.symm.trans hu))
  obtain ⟨_, y', k', hy, -, h'⟩ := directory_refines w calls
  obtain ⟨-, rfl⟩ := Prod.mk.inj (Option.some_inj.mp (hy.symm.trans hw))
  obtain ⟨⟨l, hseen⟩, hhere⟩ := known_registered hdev hafter hk
  have hshows := shows_registered hdev hseen hhere
  have hshows' := shows_own k' hshows.dev_pos
  refine ⟨fun o ho => ⟨hshows.finds h ho, hshows'.finds h' ho⟩, fun id hid htype hnot => ?_⟩
  exact ⟨hshows.not_found h hid htype hnot, hshows'.not_found h' hid htype hnot⟩

/-- A unit of a variant. -/
def unitOf (stack_id : ℕ) (h : stack_id ≤ 15) (v : Sysdeps) (hv : v ∈ Sysdeps.all) : VifUnit :=
  ⟨stack_id, v, ⟨1, 31⟩, h, Sysdeps.wf_of_all v hv⟩

/-- Unit 2 was another variant before, and was taken off and registered again. Then unit 3 is
registered. -/
theorem found_by_all_again :
    let u := unitOf 1 (by decide) .arlan3424fe (by decide)
    let w := unitOf 2 (by decide) .arlan3448pge (by decide)
    let z := unitOf 3 (by decide) .sm12f (by decide)
    let w' := unitOf 2 (by decide) .arlan3050pge (by decide)
    ∃ x y os os', Lockstep.outputs (step u)
      ([.register w', .gone 2] ++ .register w :: [.register z]) (vifInit u) =
        some (os, x) ∧ Lockstep.outputs (step w) [.register u] (vifInit w) = some (os', y) ∧
      Finds u x ⟨.VIFT_XG, 2, 4⟩ ⟨18, 25⟩ 51 ∧ Finds w y ⟨.VIFT_XG, 2, 4⟩ ⟨18, 25⟩ 51 := by
  intro u w z w'
  obtain ⟨os, x, k, hx, -, -⟩ :=
    directory_refines u ([.register w', .gone 2] ++ .register w :: [.register z])
  obtain ⟨os', y, k', hy, -, -⟩ := directory_refines w [.register u]
  refine ⟨x, y, os, os', hx, hy, ?_⟩
  exact (found_by_all (by decide) (by decide) hx hy).1 51 (by decide)

/-! ## Other lists -/

/-- From a list in which the ports are in any order all of them are found by their types and numbers
if and only if the list is ordered by types and numbered, which `vif_set_hw_ports` does not check.
-/
theorem lookup_iff {calls : List DirCall} {os : List DirOut}
    (hrun : Lockstep.outputs (step u) calls (vifInit u) = some (os, x))
    (hdev : ¬Known.Refused u dev)
    {pd : List VifDef} (hpos : 0 < pd.length) (hlength : pd.length ≤ 60)
    (hhw : ∀ d ∈ pd, (d.hp.hw_dev = dev ∨ d.hp.hw_dev = dev + 16) ∧ d.hp.hw_port < 64)
    (hpc : ∀ d ∈ pd, d.id.type ≠ .VIFT_PC) :
    ∃ x', x.vifSetHwPorts u dev pd = some (.ST_OK, x') ∧
      ((∀ (type : VifType) (num : ℕ), 1 ≤ num → num ≤ (pd.map fun d => d.id.type).count type →
          ∃ o, x'.vifGet u type dev num = some (some (.port dev o)) ∧
            ((x'.vifs dev).port o).id.type = type ∧ ((x'.vifs dev).port o).id.num = num) ↔
        (pd.map fun d => d.id.type.rank).Pairwise (· ≤ ·) ∧
          ∀ (o : ℕ) (ho : o < pd.length),
            pd[o].id.num = Grouped.rank (pd.map fun d => d.id.type.rank) o) := by
  obtain ⟨_, x₀, k, hx, -, h⟩ := directory_refines u calls
  obtain ⟨-, rfl⟩ := Prod.mk.inj (Option.some_inj.mp (hx.symm.trans hrun))
  have hnil : ([] : List Vif).length = 0 := rfl
  obtain ⟨x', hx', hfilled, -⟩ :=
    setPorts_spec hhw (drop_filled x₀ dev hpos) hnil (h.drop_remote hdev pd.length)
  rw [List.nil_append] at hfilled
  refine ⟨x', ?_, ?_⟩
  · rw [vifSetHwPorts_eq u x₀ hlength, if_neg hdev, hx']
    rfl
  set ranks := pd.map fun d => d.id.type.rank with hranks
  have htypes : (x'.vifs dev).n_by_type = (ranks.count ·) := by
    refine funext fun t => (hfilled.types t).trans ?_
    rw [List.map_map]
    rfl
  have htotal : (x'.vifs dev).n_total = ranks.length := by
    rw [hfilled.total, List.length_map, List.length_map]
  have hcount : ∀ type : VifType,
      (pd.map fun d => d.id.type).count type = ranks.count type.rank := by
    intro type
    have hinj : Function.Injective VifType.rank := fun _ _ => PortList.rank_inj.mp
    rw [← List.count_map_of_injective _ _ hinj, List.map_map]
    rfl
  -- where a type and a number are looked up
  have hget : ∀ (type : VifType) (num : ℕ), 1 ≤ num → num ≤ ranks.count type.rank →
      x'.vifGet u type dev num =
        some (some (.port dev (Grouped.before (ranks.count ·) type.rank + num - 1))) ∧
        Grouped.before (ranks.count ·) type.rank + num - 1 < pd.length := by
    intro type num hnum hle
    have hlt := Grouped.before_le_length ranks (type.rank + 1)
    have hsucc : Grouped.before (ranks.count ·) (type.rank + 1) =
      Grouped.before (ranks.count ·) type.rank + ranks.count type.rank := rfl
    have hlen : ranks.length = pd.length := List.length_map ..
    have htype : type ≠ .VIFT_PC := by
      rintro rfl
      have hmem : VifType.VIFT_PC ∈ pd.map fun d => d.id.type := by
        refine List.count_pos_iff.mp ?_
        rw [hcount]
        omega
      obtain ⟨d, hd, hid⟩ := List.mem_map.mp hmem
      exact hpc d hd hid
    refine ⟨?_, by omega⟩
    unfold vifGet
    rw [devOf_registered hdev]
    dsimp only
    rw [htypes, htotal, if_neg htype,
      if_neg (show ¬(ranks.count type.rank < num ∨ num = 0) by omega),
      if_pos (by omega)]
  have hport : ∀ (o : ℕ) (ho : o < pd.length), ((x'.vifs dev).port o).id = pd[o].id := by
    intro o ho
    rw [hfilled.port o (by rwa [List.length_map]), List.getElem_map]
    rfl
  have hplaces := Grouped.places_iff (pd.map fun d => (d.id.type.rank, d.id.num))
  have hfst : (pd.map fun d => (d.id.type.rank, d.id.num)).map Prod.fst = ranks := List.map_map
  rw [hfst] at hplaces
  have hsnd : (∀ (o : ℕ) (ho : o < (pd.map fun d => (d.id.type.rank, d.id.num)).length),
      (pd.map fun d => (d.id.type.rank, d.id.num))[o].2 = Grouped.rank ranks o) ↔
      ∀ (o : ℕ) (ho : o < pd.length), pd[o].id.num = Grouped.rank ranks o := by
    simp only [List.getElem_map, List.length_map]
  rw [← hsnd, ← hplaces]
  constructor
  · intro hall t num hnum hle
    -- a group that is not empty is that of a type
    have hmem : t ∈ ranks := List.count_pos_iff.mp (by omega)
    obtain ⟨d, hd, rfl⟩ := List.mem_map.mp hmem
    obtain ⟨o, ho, htype, hid⟩ := hall d.id.type num hnum (by rwa [hcount])
    obtain ⟨hfound, hlt⟩ := hget d.id.type num hnum hle
    obtain ⟨-, rfl⟩ :=
      VifPtr.port.inj (Option.some_inj.mp (Option.some_inj.mp (ho.symm.trans hfound)))
    rw [hport _ hlt] at htype hid
    rw [List.getElem?_map, List.getElem?_eq_getElem hlt, Option.map_some, htype, hid]
  · intro hall type num hnum hle
    rw [hcount] at hle
    obtain ⟨hfound, hlt⟩ := hget type num hnum hle
    have hpair := hall type.rank num hnum hle
    rw [List.getElem?_map, List.getElem?_eq_getElem hlt, Option.map_some] at hpair
    obtain ⟨htype, hid⟩ := Prod.mk.inj (Option.some_inj.mp hpair)
    refine ⟨_, hfound, ?_, ?_⟩
    · rw [hport _ hlt]
      exact PortList.rank_inj.mp htype
    · rw [hport _ hlt, hid]

/-- Two ports of a type in the wrong order: number 1 gives the port with number 2. -/
theorem lookup_iff_swapped :
    let u := unitOf 1 (by decide) .arlan3424fe (by decide)
    let pd : List VifDef := [⟨⟨.VIFT_GE, 2, 2⟩, ⟨2, 0⟩⟩, ⟨⟨.VIFT_GE, 2, 1⟩, ⟨2, 1⟩⟩]
    ∃ x', (vifInit u).vifSetHwPorts u 2 pd = some (.ST_OK, x') ∧
      ¬∀ (type : VifType) (num : ℕ), 1 ≤ num → num ≤ (pd.map fun d => d.id.type).count type →
        ∃ o, x'.vifGet u type 2 num = some (some (.port 2 o)) ∧
          ((x'.vifs 2).port o).id.type = type ∧ ((x'.vifs 2).port o).id.num = num := by
  intro u pd
  have hrun : Lockstep.outputs (step u) [] (vifInit u) = some ([], vifInit u) := rfl
  have hspec : ∃ x', (vifInit u).vifSetHwPorts u 2 pd = some (.ST_OK, x') ∧ _ :=
    lookup_iff hrun (by decide) (by decide) (by decide) (by decide) (by decide)
  obtain ⟨x', hx', hiff⟩ := hspec
  refine ⟨x', hx', fun hall => ?_⟩
  exact absurd ((hiff.mp hall).2 0 (by decide)) (by decide)

end VifDir

end Presteramgr
