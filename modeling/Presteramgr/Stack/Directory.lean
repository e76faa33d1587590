import Presteramgr.Lib.Grouped
import Presteramgr.Lib.Lockstep
import Presteramgr.Port.Isolation
import Presteramgr.Trunk.Hardware

/-!
# The directory of ports (`vif.c`, `sysdeps.h`)

A unit knows its own ports from the beginning, and those of another unit from the list that the
other one gave out (`vif_get_hw_ports`, `vif_set_hw_ports`). An identifier of a port is a type and a
number; its place in the table is computed from the numbers of ports of each type.

## Main definitions

* `Sysdeps`: what differs between the variants of the hardware;
* `VifDir`: `vifs` and `vifp_by_hw`, and the functions on them;
* `VifDir.vifInit`, `VifDir.vifGetHwPorts`, `VifDir.vifSetHwPorts`.

## Main results

* `Sysdeps.find_id`: the port with a type and a number is where the numbers of ports of each type
  say;
* `VifDevPorts.own_filled`: the own ports after `vif_init`;
* `VifDir.setPorts_spec`: the table of a unit is filled from its list.
-/

namespace Presteramgr

open Function (update update_self update_of_ne)

/-! ## Variants -/

/-- A variant of the hardware. -/
structure Sysdeps where
  NDEVS : ℕ
  CPU_DEV : ℕ
  /-- The ends of `IS_FE_PORT` and `IS_GE_PORT`; the ports behind are those of `IS_XG_PORT`. -/
  feEnd : ℕ
  geEnd : ℕ
  /-- `DECLARE_PORT_MAP`. -/
  pmap : List (ℕ × ℕ)
deriving DecidableEq

namespace Sysdeps

/-- The ports are in order, those of a device are different, and a list of all is not too long to be
taken. -/
structure Wf (v : Sysdeps) : Prop where
  devs : v.NDEVS = 1 ∧ v.CPU_DEV = 0 ∨ v.NDEVS = 2 ∧ v.CPU_DEV = 1
  ends : v.feEnd ≤ v.geEnd ∧ v.geEnd ≤ v.pmap.length
  nodup : v.pmap.Nodup
  dev_lt : ∀ p ∈ v.pmap, p.1 < v.NDEVS
  not_cpu : ∀ p ∈ v.pmap, p.2 < CPSS_CPU_PORT_NUM_CNS
  short : v.pmap.length < 60

/-- The variants 3424FE and 3424PFE. -/
def arlan3424fe : Sysdeps where
  NDEVS := 1
  CPU_DEV := 0
  feEnd := 24
  geEnd := 28
  pmap := [
    (0, 1), (0, 0), (0, 3), (0, 2), (0, 5), (0, 4), (0, 7), (0, 6),
    (0, 9), (0, 8), (0, 11), (0, 10), (0, 13), (0, 12), (0, 15), (0, 14),
    (0, 17), (0, 16), (0, 19), (0, 18), (0, 21), (0, 20), (0, 23), (0, 22),
    (0, 26), (0, 27), (0, 24), (0, 25)]

/-- The variant SM-12F. -/
def sm12f : Sysdeps where
  NDEVS := 1
  CPU_DEV := 0
  feEnd := 12
  geEnd := 16
  pmap := [
    (0, 12), (0, 13), (0, 14), (0, 15), (0, 16), (0, 17), (0, 18), (0, 19),
    (0, 20), (0, 21), (0, 22), (0, 23), (0, 27), (0, 26), (0, 25), (0, 24)]

/-- The variant 3424GE. -/
def arlan3424ge : Sysdeps where
  NDEVS := 1
  CPU_DEV := 0
  feEnd := 0
  geEnd := 24
  pmap := [
    (0, 0), (0, 1), (0, 2), (0, 3), (0, 4), (0, 5), (0, 6), (0, 7),
    (0, 8), (0, 9), (0, 10), (0, 11), (0, 12), (0, 13), (0, 14), (0, 15),
    (0, 16), (0, 17), (0, 18), (0, 19), (0, 20), (0, 21), (0, 22), (0, 23),
    (0, 26), (0, 27), (0, 24), (0, 25)]

/-- The variant 3212GE. -/
def arlan3212ge : Sysdeps where
  NDEVS := 1
  CPU_DEV := 0
  feEnd := 0
  geEnd := 12
  pmap := [
    (0, 12), (0, 13), (0, 14), (0, 15), (0, 16), (0, 17), (0, 18), (0, 19),
    (0, 20), (0, 21), (0, 22), (0, 23), (0, 24), (0, 25)]

/-- The port map of the variants with two devices. -/
def pmap52 : List (ℕ × ℕ) := [
  (0, 1), (0, 0), (0, 3), (0, 2), (0, 5), (0, 4), (0, 7), (0, 6), (0, 9), (0, 8), (0, 11), (0, 10),
  (0, 13), (0, 12), (0, 15), (0, 14), (0, 17), (0, 16), (0, 19), (0, 18), (0, 21), (0, 20),
    (0, 23), (0, 22),
  (1, 1), (1, 0), (1, 3), (1, 2), (1, 5), (1, 4), (1, 7), (1, 6), (1, 9), (1, 8), (1, 11), (1, 10),
  (1, 13), (1, 12), (1, 15), (1, 14), (1, 17), (1, 16), (1, 19), (1, 18), (1, 21), (1, 20),
    (1, 23), (1, 22),
  (1, 26), (1, 27), (0, 24), (0, 25)]

/-- The variants 3448PGE, 3448GE and 3250PGE_SR. -/
def arlan3448pge : Sysdeps := ⟨2, 1, 0, 48, pmap52⟩

/-- The variants 3050PGE and 3050GE. -/
def arlan3050pge : Sysdeps := ⟨2, 1, 0, 50, pmap52⟩

/-- The variants 3226PGE and 3226GE, whose port map is that of 3424FE. -/
def arlan3226pge : Sysdeps := { arlan3424fe with feEnd := 0, geEnd := 26 }

/-- The variants 3226PGE_SR and 3226GE_SR. -/
def arlan3226pgeSr : Sysdeps := { arlan3424fe with feEnd := 0, geEnd := 24 }

/-- All variants. -/
def all : List Sysdeps :=
  [arlan3424fe, sm12f, arlan3424ge, arlan3212ge, arlan3448pge, arlan3050pge, arlan3226pge,
    arlan3226pgeSr]

/-- All variants of the board are well formed. -/
theorem wf_of_all : ∀ v ∈ all, v.Wf := by
  intro v hv
  simp only [all, List.mem_cons, List.not_mem_nil, or_false] at hv
  obtain rfl | rfl | rfl | rfl | rfl | rfl | rfl | rfl := hv
  all_goals exact ⟨by decide, by decide, by decide, by decide, by decide, by decide⟩

variable (v : Sysdeps)

/-- `NPORTS`. -/
def NPORTS : ℕ := v.pmap.length

/-- The type that `vif_init` gives to port `i`. -/
def portType (i : ℕ) : VifType :=
  if i < v.feEnd then .VIFT_FE else if i < v.geEnd then .VIFT_GE else .VIFT_XG

/-- `ports[i].ldev` and `ports[i].lport`, where the last one is the CPU port. -/
def port (i : ℕ) : ℕ × ℕ := v.pmap.getD i (v.CPU_DEV, CPSS_CPU_PORT_NUM_CNS)

/-- `sysd_hw_dev_num`, which is what `phys_dev` gives. -/
def physDev (stack_id ldev : ℕ) : ℕ := if v.NDEVS = 2 ∧ ldev = 0 then stack_id + 16 else stack_id

/-- Where port `i` of a unit is in the stack. -/
def hwPort (stack_id i : ℕ) : HwPort := ⟨v.physDev stack_id (v.port i).1, (v.port i).2⟩

/-- The type of a port, the CPU port being the last. -/
def typeOf (i : ℕ) : VifType := if i < v.NPORTS then v.portType i else .VIFT_CPU

end Sysdeps

/-! ## The table -/

/-- `local` and `remote` of a `struct vif`. -/
inductive VifHw
  | own (i : ℕ)
  | remote (hp : HwPort)
deriving DecidableEq, Repr

/-- `struct vif`, as far as it says which port it is. -/
structure Vif where
  valid : Bool
  islocal : Bool
  id : VifId
  hw : VifHw
deriving DecidableEq, Repr

/-- A `struct vif` of zeros. -/
def Vif.zero : Vif := ⟨false, false, ⟨.VIFT_FE, 0, 0⟩, .remote ⟨0, 0⟩⟩

/-- `struct vif_dev_ports`. The counters of types are indexed by the number of the type. -/
structure VifDevPorts where
  n_total : ℕ
  n_by_type : ℕ → ℕ
  port : ℕ → Vif

/-- A `struct vif_dev_ports` of zeros. -/
def VifDevPorts.zero : VifDevPorts := ⟨0, fun _ => 0, fun _ => .zero⟩

/-- `struct vif_def`. -/
structure VifDef where
  id : VifId
  hp : HwPort
deriving DecidableEq, Repr

/-- What is fixed for a unit. -/
structure VifUnit where
  stack_id : ℕ
  sys : Sysdeps
  ids : TrunkIds
  le : stack_id ≤ 15
  wf : sys.Wf

/-- `vifs` and `vifp_by_hw`, where a pointer is the number of a unit and a place in its table. -/
structure VifDir where
  vifs : ℕ → VifDevPorts
  vifp_by_hw : ℕ → ℕ → Option (ℕ × ℕ)

/-- What a pointer to a `struct vif` points to. -/
inductive VifPtr
  | port (dev o : ℕ)
  | trunk (num : ℕ)
deriving DecidableEq, Repr

namespace VifDevPorts

variable (dp : VifDevPorts)

/-- A port is added to the table. -/
def add (o : ℕ) (p : Vif) : VifDevPorts where
  n_total := dp.n_total + 1
  n_by_type := update dp.n_by_type p.id.type.rank (dp.n_by_type p.id.type.rank + 1)
  port := update dp.port o p

/-- The loop of `vif_init`, for one port. -/
def initPort (u : VifUnit) (i : ℕ) : VifDevPorts :=
  let type := u.sys.portType i
  dp.add i ⟨true, true, ⟨type, u.stack_id, dp.n_by_type type.rank + 1⟩, .own i⟩

/-- The table of the own ports after `vif_init`. -/
def own (u : VifUnit) : VifDevPorts :=
  let n := u.sys.NPORTS
  let dp : VifDevPorts := (List.range n).foldl (fun dp i => dp.initPort u i) .zero
  dp.add n ⟨true, true, ⟨.VIFT_CPU, u.sys.physDev u.stack_id u.sys.CPU_DEV,
    dp.n_by_type VifType.VIFT_CPU.rank + 1⟩, .own n⟩

end VifDevPorts

namespace VifDir

variable (u : VifUnit) (x : VifDir)

/-- The pointer at a place of the hardware is set. -/
def setHw (hp : HwPort) (ptr : ℕ × ℕ) : VifDir :=
  { x with
    vifp_by_hw := update x.vifp_by_hw hp.hw_dev
      (update (x.vifp_by_hw hp.hw_dev) hp.hw_port (some ptr)) }

/-- The state after `vif_init` and `vif_post_port_init`. -/
def vifInit : VifDir :=
  let x : VifDir := ⟨update (fun _ => .zero) u.stack_id (.own u), fun _ _ => none⟩
  let n := u.sys.NPORTS
  let x : VifDir :=
    (List.range n).foldl (fun x i => x.setHw (u.sys.hwPort u.stack_id i) (u.stack_id, i)) x
  (x.setHw ⟨0, CPSS_CPU_PORT_NUM_CNS⟩ (u.stack_id, n)).setHw
    ⟨u.sys.physDev u.stack_id u.sys.CPU_DEV, CPSS_CPU_PORT_NUM_CNS⟩ (u.stack_id, n)

/-- The number of a unit, where 0 is the unit itself. -/
def devOf (dev : ℕ) : Option ℕ :=
  if 15 < dev then none
  else if u.stack_id = 0 then if dev ≠ 0 then none else some dev
  else some (if dev = 0 then u.stack_id else dev)

/-- `vif_get`. It gives `none` if the assertion fails, and `some none` for a null pointer. -/
def vifGet (type : VifType) (dev num : ℕ) : Option (Option VifPtr) :=
  match devOf u dev with
  | none => some none
  | some dev =>
    if type = .VIFT_PC then
      if u.ids.TRUNK_ID_MIN ≤ num ∧
        num ≤ u.ids.TRUNK_ID_MAX then some (some (.trunk num)) else some none
    else if (x.vifs dev).n_by_type type.rank < num ∨ num = 0 then some none
    else
      let o := Grouped.before (x.vifs dev).n_by_type type.rank + num - 1
      if o < (x.vifs dev).n_total then some (some (.port dev o)) else none

/-- `vif_getn`. -/
def vifGetn (id : VifId) : Option (Option VifPtr) := x.vifGet u id.type id.dev id.num

/-- `vif_get_hw` of the port at a place. -/
def vifGetHw (dev o : ℕ) : HwPort :=
  match ((x.vifs dev).port o).hw with
  | .own i => u.sys.hwPort u.stack_id i
  | .remote hp => hp

/-- `vif_get_by_pid`. -/
def vifGetByPid (dev num : ℕ) : Option (ℕ × ℕ) :=
  match devOf u dev with
  | none => none
  | some dev =>
    if 1 ≤ num ∧ num ≤ 64 then
      match ((x.vifs dev).port (num - 1)).id.type with
      | .VIFT_FE => some (dev, num - 1)
      | .VIFT_GE => some (dev, num - 1)
      | .VIFT_XG => some (dev, num - 1)
      | .VIFT_CPU => none
      | .VIFT_PC => none
    else none

/-- `vif_by_hw`, for a place in `vifp_by_hw`. -/
def vifByHw (hdev hport : ℕ) : Option (ℕ × ℕ) := x.vifp_by_hw hdev hport

/-- `vif_get_hw_ports`. -/
def vifGetHwPorts : List VifDef :=
  let dp := x.vifs u.stack_id
  (List.range dp.n_total).map fun i => ⟨(dp.port i).id, x.vifGetHw u u.stack_id i⟩

/-- The loop of `vif_set_hw_ports`, for one port. It gives `none` if the assertion fails, or behind
the end of the row in `vifp_by_hw`. -/
def setPort (dev : ℕ) (i : ℕ) (d : VifDef) : Option VifDir :=
  if (d.hp.hw_dev = dev ∨ d.hp.hw_dev = dev + 16) ∧ d.hp.hw_port < 64 then
    let dp := x.vifs dev
    let p := { dp.port i with id := d.id, hw := .remote d.hp, valid := true }
    some ({ x with vifs := update x.vifs dev (dp.add i p) }.setHw d.hp (dev, i))
  else none

/-- The loop of `vif_set_hw_ports`, from port `i` on. -/
def setPorts (dev : ℕ) : ℕ → List VifDef → VifDir → Option VifDir
  | _, [], x => some x
  | i, d :: pd, x => (x.setPort dev i d).bind (setPorts dev (i + 1) pd)

/-- The table of a unit before the loop of `vif_set_hw_ports` for `n` ports. -/
def drop (dev n : ℕ) : VifDir :=
  let dp := x.vifs dev
  let port (i : ℕ) : Vif := if i < 64 then { dp.port i with valid := false } else dp.port i
  let dp : VifDevPorts := if 0 < n then ⟨0, fun _ => 0, port⟩ else { dp with port := port }
  { x with vifs := update x.vifs dev dp }

/-- `vif_set_hw_ports`. -/
def vifSetHwPorts (dev : ℕ) (pd : List VifDef) : Option (Status × VifDir) :=
  if u.stack_id = 0 ∨ ¬(1 ≤ dev ∧ dev ≤ 15) ∨ dev = u.stack_id ∨
    60 < pd.length then some (.ST_BAD_VALUE, x)
  else (setPorts dev 0 pd (x.drop dev pd.length)).map fun x => (.ST_OK, x)

end VifDir

/-! ## The list of a unit -/

namespace Sysdeps

variable {v : Sysdeps} {i j t n dev : ℕ}

/-- The numbers of the types of all ports. -/
def ranks (v : Sysdeps) : List ℕ := (List.range (v.NPORTS + 1)).map fun i => (v.typeOf i).rank

/-- There are as many ranks as interfaces. -/
@[simp] theorem length_ranks : v.ranks.length = v.NPORTS + 1 := by simp [ranks]

/-- The rank of an interface is that of its type. -/
theorem ranks_getElem (hi : i < v.ranks.length) : v.ranks[i] = (v.typeOf i).rank := by
  simp only [ranks, List.getElem_map, List.getElem_range]

/-- The interfaces are in the order of their types. -/
theorem sorted_ranks : v.ranks.Pairwise (· ≤ ·) := by
  refine List.pairwise_iff_getElem.mpr fun i j hi hj hij => ?_
  rw [ranks_getElem, ranks_getElem]
  unfold typeOf portType
  split_ifs <;> first | omega | decide

/-- No interface of a board is a trunk. -/
theorem typeOf_ne_pc (i : ℕ) : v.typeOf i ≠ .VIFT_PC := by
  unfold typeOf portType
  split_ifs <;> decide

/-- The identifier of port `i`, which has its number among the ports of its type. -/
def vifId (v : Sysdeps) (stack_id i : ℕ) : VifId := ⟨v.typeOf i, stack_id, Grouped.rank v.ranks i⟩

/-- The list that a unit of the variant gives out. -/
def defs (v : Sysdeps) (stack_id : ℕ) : List VifDef :=
  (List.range (v.NPORTS + 1)).map fun i => ⟨v.vifId stack_id i, v.hwPort stack_id i⟩

/-- There are as many definitions as interfaces. -/
@[simp] theorem length_defs : (v.defs dev).length = v.NPORTS + 1 := by simp [defs]

/-- The definition of an interface has its identifier and its port. -/
theorem defs_getElem (hi : i < (v.defs dev).length) :
    (v.defs dev)[i] = ⟨v.vifId dev i, v.hwPort dev i⟩ := by
  simp only [defs, List.getElem_map, List.getElem_range]

/-- The port with a type and a number. -/
theorem vifId_place {type : VifType} {num : ℕ} (hpos : 1 ≤ num)
    (hnum : num ≤ v.ranks.count type.rank) :
    Grouped.before (v.ranks.count ·) type.rank + num - 1 < v.NPORTS + 1 ∧
      v.vifId dev (Grouped.before (v.ranks.count ·) type.rank + num - 1) = ⟨type, dev, num⟩ := by
  obtain ⟨ho, htype, hrank⟩ := Grouped.place sorted_ranks hpos hnum
  rw [ranks_getElem] at htype
  refine ⟨length_ranks ▸ ho, ?_⟩
  unfold vifId
  rw [hrank, PortList.rank_inj.mp htype]

/-- The identifier of a port says where the port is. -/
theorem place_vifId (hi : i < v.NPORTS + 1) {type : VifType} {num : ℕ}
    (hid : v.vifId dev i = ⟨type, dev, num⟩) :
    1 ≤ num ∧ num ≤ v.ranks.count type.rank ∧
      Grouped.before (v.ranks.count ·) type.rank + num - 1 = i := by
  obtain ⟨rfl, -, rfl⟩ := VifId.mk.inj hid
  have hlt : i < v.ranks.length := length_ranks.symm ▸ hi
  have hget := ranks_getElem hlt
  refine ⟨Grouped.rank_pos _ hlt, hget ▸ Grouped.rank_le _ hlt, ?_⟩
  have hplace := Grouped.place_rank sorted_ranks hlt
  rwa [hget] at hplace

/-- Different interfaces have different identifiers. -/
theorem vifId_inj (hi : i < v.NPORTS + 1) (hj : j < v.NPORTS + 1)
    (hid : v.vifId dev i = v.vifId dev j) : i = j := by
  have hj' : v.vifId dev j = ⟨v.typeOf j, dev, Grouped.rank v.ranks j⟩ := rfl
  exact (place_vifId hi (hid.trans hj')).2.2.symm.trans (place_vifId hj hj').2.2

/-- The search in the list for the only port that is meant. -/
theorem find_only {p : VifDef → Bool} (hi : i < v.NPORTS + 1)
    (hp : p ⟨v.vifId dev i, v.hwPort dev i⟩)
    (honly : ∀ j < v.NPORTS + 1, p ⟨v.vifId dev j, v.hwPort dev j⟩ → j = i) :
    (v.defs dev).find? p = some ⟨v.vifId dev i, v.hwPort dev i⟩ := by
  refine List.find?_eq_some_iff_getElem.mpr
    ⟨hp, i, length_defs.symm ▸ hi, defs_getElem _, fun j hj => ?_⟩
  rw [defs_getElem]
  cases hpj : p ⟨v.vifId dev j, v.hwPort dev j⟩ with
  | false => rfl
  | true => exact absurd (honly j (hj.trans hi) hpj) hj.ne

/-- A search that no interface passes finds nothing. -/
theorem find_none {p : VifDef → Bool}
    (hp : ∀ i < v.NPORTS + 1, p ⟨v.vifId dev i, v.hwPort dev i⟩ = false) :
    (v.defs dev).find? p = none := by
  refine List.find?_eq_none.mpr fun d hd => ?_
  obtain ⟨i, hi, rfl⟩ := List.mem_iff_getElem.mp hd
  rw [defs_getElem, hp i (length_defs ▸ hi)]
  exact Bool.false_ne_true

/-- The search in the list for a type and a number. -/
theorem find_id (type : VifType) (num : ℕ) : (v.defs dev).find? (fun d => d.id = ⟨type, dev, num⟩) =
    if 1 ≤ num ∧ num ≤ v.ranks.count type.rank then
      some ⟨⟨type, dev, num⟩, v.hwPort dev (Grouped.before (v.ranks.count ·) type.rank + num - 1)⟩
    else none := by
  split_ifs with hnum
  · have hplace : _ ∧ v.vifId dev _ = ⟨type, dev, num⟩ := vifId_place hnum.1 hnum.2
    obtain ⟨ho, hid⟩ := hplace
    rw [← hid]
    refine find_only ho (decide_eq_true rfl) fun j hj hpj => ?_
    exact vifId_inj hj ho (of_decide_eq_true hpj)
  · refine find_none fun i hi => decide_eq_false fun hid => hnum ?_
    exact ⟨(place_vifId hi hid).1, (place_vifId hi hid).2.1⟩

/-- The interface after the last port is the port of the CPU. -/
theorem port_cpu : v.port v.NPORTS = (v.CPU_DEV, CPSS_CPU_PORT_NUM_CNS) := by
  unfold port NPORTS
  rw [List.getD_eq_getElem?_getD, List.getElem?_eq_none le_rfl, Option.getD_none]

/-- The ports are those of the map of the board. -/
theorem port_getElem (hi : i < v.pmap.length) : v.port i = v.pmap[i] := by
  unfold port
  rw [List.getD_eq_getElem?_getD, List.getElem?_eq_getElem hi, Option.getD_some]

/-- Hardware ports are numbered below 64. -/
theorem hwPort_lt (hv : v.Wf) (stack_id i : ℕ) : (v.hwPort stack_id i).hw_port < 64 := by
  show (v.port i).2 < 64
  by_cases hi : i < v.pmap.length
  · rw [port_getElem hi]
    exact (hv.not_cpu _ (List.getElem_mem hi)).trans (by decide)
  · unfold port
    rw [List.getD_eq_getElem?_getD, List.getElem?_eq_none (not_lt.mp hi), Option.getD_none]
    exact (by decide : CPSS_CPU_PORT_NUM_CNS < 64)

/-- A port is on one of the two devices of its unit. -/
theorem hwPort_dev (stack_id i : ℕ) :
    (v.hwPort stack_id i).hw_dev = stack_id ∨ (v.hwPort stack_id i).hw_dev = stack_id + 16 := by
  unfold hwPort physDev
  split_ifs
  · exact .inr rfl
  · exact .inl rfl

variable (hv : v.Wf)

include hv

/-- The port of the CPU is on the first device of the unit. -/
theorem physDev_cpu (stack_id : ℕ) : v.physDev stack_id v.CPU_DEV = stack_id := by
  unfold physDev
  rcases hv.devs with ⟨hdevs, hcpu⟩ | ⟨hdevs, hcpu⟩
  · rw [if_neg fun h => absurd (hdevs.symm.trans h.1) (by decide)]
  · rw [if_neg fun h => absurd (hcpu.symm.trans h.2) (by decide)]

/-- The devices of a unit have different numbers. -/
theorem physDev_inj {stack_id l l' : ℕ} (hl : l < v.NDEVS) (hl' : l' < v.NDEVS)
    (h : v.physDev stack_id l = v.physDev stack_id l') : l = l' := by
  unfold physDev at h
  rcases hv.devs with ⟨hdevs, -⟩ | ⟨hdevs, -⟩
  · omega
  · split_ifs at h <;> omega

/-- Different ports of a unit are at different places of the hardware. -/
theorem hwPort_inj (hi : i < v.NPORTS + 1) (hj : j < v.NPORTS + 1)
    (h : v.hwPort dev i = v.hwPort dev j) : i = j := by
  obtain ⟨hdev, hport⟩ := HwPort.mk.inj h
  have hcpu : v.port v.NPORTS = _ := port_cpu
  rcases Nat.lt_succ_iff_lt_or_eq.mp hi with hi' | rfl <;>
    rcases Nat.lt_succ_iff_lt_or_eq.mp hj with hj' | rfl
  · rw [port_getElem hi', port_getElem hj'] at hdev hport
    have hfst :=
      physDev_inj hv (hv.dev_lt _ (List.getElem_mem hi')) (hv.dev_lt _ (List.getElem_mem hj')) hdev
    exact (List.Nodup.getElem_inj_iff hv.nodup).mp (Prod.ext hfst hport)
  · rw [port_getElem hi', hcpu] at hport
    exact absurd hport (hv.not_cpu _ (List.getElem_mem hi')).ne
  · rw [port_getElem hj', hcpu] at hport
    exact absurd hport.symm (hv.not_cpu _ (List.getElem_mem hj')).ne
  · rfl

end Sysdeps

/-! ## Filling a table -/

/-- What the list of another unit makes of a port. -/
def VifDef.vif (d : VifDef) : Vif := ⟨true, false, d.id, .remote d.hp⟩

namespace VifDevPorts

variable {dp : VifDevPorts} {ds : List Vif}

/-- The table has the ports of a list, and maybe others behind them. -/
structure Filled (dp : VifDevPorts) (ds : List Vif) : Prop where
  total : dp.n_total = ds.length
  types : ∀ t, dp.n_by_type t = (ds.map fun p => p.id.type.rank).count t
  port : ∀ (i : ℕ) (hi : i < ds.length), dp.port i = ds[i]

/-- A directory with one more definition is filled with one more interface. -/
theorem Filled.add (h : dp.Filled ds) (p : Vif) : (dp.add ds.length p).Filled (ds ++ [p]) where
  total := by
    rw [List.length_append]
    exact congrArg (· + 1) h.total
  types t := by
    rw [List.map_append, List.count_append, ← h.types t]
    by_cases ht : p.id.type.rank = t
    · subst ht
      simp [VifDevPorts.add]
    · simp [VifDevPorts.add, List.count_eq_zero_of_not_mem (a := t), Ne.symm ht]
  port i hi := by
    by_cases hlt : i < ds.length
    · rw [List.getElem_append_left hlt, ← h.port i hlt]
      exact update_of_ne hlt.ne ..
    · have hlast : i = ds.length := by
        rw [List.length_append, List.length_singleton] at hi
        omega
      subst hlast
      rw [List.getElem_append_right le_rfl]
      simp [VifDevPorts.add]

/-- Port `i` of the unit itself. -/
def ownVif (u : VifUnit) (i : ℕ) : Vif := ⟨true, true, u.sys.vifId u.stack_id i, .own i⟩

/-- The next own port gets the number that it has in the list. -/
theorem Filled.own_step {u : VifUnit} {k : ℕ} (hk : k < u.sys.NPORTS + 1)
    (h : dp.Filled ((List.range k).map (ownVif u))) :
    dp.n_by_type (u.sys.typeOf k).rank + 1 = Grouped.rank u.sys.ranks k := by
  have hk' : k < u.sys.ranks.length := Sysdeps.length_ranks.symm ▸ hk
  have htake : u.sys.ranks.take k = (List.range k).map fun i => (u.sys.typeOf i).rank := by
    rw [Sysdeps.ranks, ← List.map_take, List.take_range, Nat.min_eq_left (Nat.le_of_lt hk)]
  rw [Grouped.rank_eq _ hk', Sysdeps.ranks_getElem, htake, h.types, List.map_map]
  rfl

/-- The own ports in the table of a unit. -/
theorem own_filled (u : VifUnit) : (own u).Filled ((List.range (u.sys.NPORTS + 1)).map (ownVif u)) ∧
    ∀ i, u.sys.NPORTS < i → (own u).port i = .zero := by
  have hloop : ∀ k ≤ u.sys.NPORTS, ∀ dp : VifDevPorts,
      (List.range k).foldl (fun (dp : VifDevPorts) i => dp.initPort u i) .zero = dp →
      dp.Filled ((List.range k).map (ownVif u)) ∧ ∀ i, k ≤ i → dp.port i = .zero := by
    intro k hk
    induction k with
    | zero =>
      rintro dp rfl
      exact ⟨⟨rfl, fun t => rfl, fun i hi => absurd hi (Nat.not_lt_zero _)⟩, fun _ _ => rfl⟩
    | succ k ih =>
      rintro _ rfl
      obtain ⟨hfilled, hzero⟩ := ih (Nat.le_of_succ_le hk) _ rfl
      rw [List.range_succ, List.foldl_append, List.foldl_cons, List.foldl_nil]
      generalize (List.range k).foldl (fun (dp : VifDevPorts) i => dp.initPort u i) .zero = dp
        at hfilled hzero ⊢
      have hnum := hfilled.own_step (Nat.lt_succ_of_lt hk)
      have htype : u.sys.typeOf k = u.sys.portType k := if_pos hk
      have hvif : dp.initPort u k = dp.add k (ownVif u k) := by
        unfold initPort ownVif Sysdeps.vifId
        rw [← hnum, htype]
      rw [hvif]
      have hadd := hfilled.add (ownVif u k)
      rw [List.length_map, List.length_range] at hadd
      rw [List.map_append]
      refine ⟨hadd, fun i hi => ?_⟩
      exact (update_of_ne (Nat.ne_of_gt hi) ..).trans (hzero i (Nat.le_of_succ_le hi))
  obtain ⟨hfilled, hzero⟩ := hloop u.sys.NPORTS le_rfl _ rfl
  unfold own
  dsimp only
  generalize (List.range u.sys.NPORTS).foldl
    (fun (dp : VifDevPorts) i => dp.initPort u i) .zero = dp
    at hfilled hzero ⊢
  have hnum := hfilled.own_step (Nat.lt_succ_self _)
  have htype : u.sys.typeOf u.sys.NPORTS = .VIFT_CPU := if_neg (lt_irrefl _)
  have hadd := hfilled.add (ownVif u u.sys.NPORTS)
  rw [List.length_map, List.length_range] at hadd
  rw [Sysdeps.physDev_cpu u.wf, ← htype, hnum, List.range_succ, List.map_append]
  refine ⟨hadd, fun i hi => ?_⟩
  exact (update_of_ne (Nat.ne_of_gt hi) ..).trans (hzero i (Nat.le_of_lt hi))

end VifDevPorts

namespace VifDir

variable {u : VifUnit} {x x' : VifDir} {dev : ℕ}

/-- The table by hardware port changes at one port only. -/
theorem setHw_apply (hp hp' : HwPort) (ptr : ℕ × ℕ) :
    (x.setHw hp ptr).vifp_by_hw hp'.hw_dev hp'.hw_port =
    if hp' = hp then some ptr else x.vifp_by_hw hp'.hw_dev hp'.hw_port := by
  obtain ⟨d, p⟩ := hp
  obtain ⟨d', p'⟩ := hp'
  unfold setHw
  dsimp only
  by_cases hd : d' = d
  · subst hd
    rw [update_self]
    by_cases hp : p' = p
    · subst hp
      rw [update_self, if_pos rfl]
    · rw [update_of_ne hp, if_neg fun h => hp (HwPort.mk.inj h).2]
  · rw [update_of_ne hd, if_neg fun h => hd (HwPort.mk.inj h).1]

/-- Before the loop there are no ports. -/
theorem drop_filled (x : VifDir) (dev : ℕ) {n : ℕ} (hn : 0 < n) :
    ((x.drop dev n).vifs dev).Filled [] := by
  have hdrop : (x.drop dev n).vifs dev = ⟨0, fun _ => 0, ((x.drop dev n).vifs dev).port⟩ := by
    unfold drop
    dsimp only
    rw [update_self, if_pos hn]
  rw [hdrop]
  exact ⟨rfl, fun _ => rfl, fun i hi => absurd hi (Nat.not_lt_zero _)⟩

/-- The loop of `vif_set_hw_ports`. -/
theorem setPorts_spec {i : ℕ} {ds : List Vif} {pd : List VifDef}
    (hdev : ∀ d ∈ pd, (d.hp.hw_dev = dev ∨ d.hp.hw_dev = dev + 16) ∧ d.hp.hw_port < 64)
    (h : (x.vifs dev).Filled ds) (hi : ds.length = i)
    (hremote : ∀ j, ((x.vifs dev).port j).islocal = false) :
    ∃ x', setPorts dev i pd x = some x' ∧ (x'.vifs dev).Filled (ds ++ pd.map VifDef.vif) ∧
      (∀ j, i + pd.length ≤ j → (x'.vifs dev).port j = (x.vifs dev).port j) ∧
      (∀ d ≠ dev, x'.vifs d = x.vifs d) ∧
      ((pd.map VifDef.hp).Nodup → (∀ (j : ℕ) (hj : j < pd.length),
          x'.vifp_by_hw pd[j].hp.hw_dev pd[j].hp.hw_port = some (dev, i + j)) ∧
        ∀ hp : HwPort, hp ∉ pd.map VifDef.hp →
          x'.vifp_by_hw hp.hw_dev hp.hw_port = x.vifp_by_hw hp.hw_dev hp.hw_port) := by
  -- on the definitions, with the ports that have been entered before them
  induction pd generalizing x i ds with
  | nil =>
    refine ⟨x, rfl, ?_, fun _ _ => rfl, fun _ _ => rfl, fun _ => ⟨fun j hj => ?_, fun _ _ => rfl⟩⟩
    swap
    · exact absurd hj (Nat.not_lt_zero _)
    rwa [List.map_nil, List.append_nil]
  | cons d pd ih =>
    obtain ⟨hd, hdev⟩ := List.forall_mem_cons.mp hdev
    -- one round: the next free port gets the definition and its place in the hardware
    have hstep : ∃ x₁, x.setPort dev i d = some x₁ ∧
        x₁.vifs = update x.vifs dev ((x.vifs dev).add i d.vif) ∧
        ∀ hp : HwPort, x₁.vifp_by_hw hp.hw_dev hp.hw_port =
          if hp = d.hp then some (dev, i) else x.vifp_by_hw hp.hw_dev hp.hw_port := by
      refine ⟨_, if_pos hd, ?_, fun hp => setHw_apply (d.hp) hp (dev, i)⟩
      have hvif :
          { (x.vifs dev).port i with id := d.id, hw := .remote d.hp, valid := true } = d.vif := by
        dsimp only
        rw [hremote i]
        rfl
      show update x.vifs dev ((x.vifs dev).add i _) = _
      rw [hvif]
    obtain ⟨x₁, hx₁, hvifs, hbyhw⟩ := hstep
    have hvifs₁ : x₁.vifs dev = (x.vifs dev).add i d.vif := by rw [hvifs, update_self]
    have hfilled : (x₁.vifs dev).Filled (ds ++ [d.vif]) := by
      rw [hvifs₁, ← hi]
      exact h.add d.vif
    have hlength : (ds ++ [d.vif]).length = i + 1 := by
      rw [List.length_append, hi, List.length_singleton]
    have hremote₁ : ∀ j, ((x₁.vifs dev).port j).islocal = false := by
      intro j
      rw [hvifs₁, VifDevPorts.add]
      by_cases hj : j = i
      · subst hj
        simp [VifDef.vif]
      · simp [update_of_ne hj, hremote j]
    obtain ⟨x', hx', hfilled', hport, hvifs', hhw⟩ := ih hdev hfilled hlength hremote₁
    refine ⟨x', ?_, ?_, fun j hj => ?_, fun d' hd' => ?_, fun hnodup => ?_⟩
    · rw [setPorts, hx₁, Option.bind_some, hx']
    · rwa [List.append_assoc] at hfilled'
    · rw [List.length_cons] at hj
      rw [hport j (by omega), hvifs₁]
      exact update_of_ne (by omega) ..
    · rw [hvifs' d' hd', hvifs, update_of_ne hd']
    · -- no later port takes the place of an earlier one in the hardware
      obtain ⟨hnot, hnodup⟩ := List.nodup_cons.mp hnodup
      obtain ⟨hin, hout⟩ := hhw hnodup
      refine ⟨fun j hj => ?_, fun hp hnp => ?_⟩
      · cases j with
        | zero =>
          rw [List.getElem_cons_zero, hout d.hp hnot, hbyhw, if_pos rfl]
          rfl
        | succ j =>
          rw [List.getElem_cons_succ, hin j (Nat.lt_of_succ_lt_succ hj)]
          congr 2
          omega
      · rw [List.map_cons, List.mem_cons, not_or] at hnp
        obtain ⟨hne, hnp⟩ := hnp
        rw [hout hp hnp, hbyhw, if_neg hne]

end VifDir

end Presteramgr
