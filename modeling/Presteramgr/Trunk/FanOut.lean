import Presteramgr.Lib.Slots
import Presteramgr.Trunk.Members

/-!
# The slots of a trunk (`trunk.h`, `VIF_PROC_TRUNK_BODY`)

A trunk has eight slots for its members. The members are moved when one leaves, and a new one takes
the first free slot, so that all slots behind them are `NULL`. An operation on a trunk goes through
the slots up to the first one that is `NULL`, which a full trunk does not have.

## Main definitions

* `TrunkSlots` and `TrunkSlots.vifSetTrunkMembers`: the arrays, and the loops over them;
* `TrunkSlots.vifProcTrunk`: an operation on all members;
* `TrunkSlots.Holds`: the arrays hold the members of a list.

## Main results

* `TrunkSlots.vifSetTrunkMembers_holds`: the arrays follow the list of `Trunks.vifSetTrunkMembers`;
* `TrunkSlots.fansOut_iff`: an operation is fanned out unless the trunk is full.
-/

namespace Presteramgr

open Function (update update_self update_of_ne)

/-- `TRUNK_MAX_MEMBERS`. -/
def TRUNK_MAX_MEMBERS : ℕ := 8

/-- `struct trunk`, as far as its arrays. Only the slots below `TRUNK_MAX_MEMBERS` exist. -/
structure TrunkSlots where
  nports : ℕ
  vif_port : ℕ → Option VifRef
  port_enabled : ℕ → Bool

namespace TrunkSlots

variable (c : VifTable) (mem : List TrunkMember)

/-- The arrays after `trunk_init`. -/
def empty : TrunkSlots := ⟨0, fun _ => none, fun _ => false⟩

/-! ## `vif_set_trunk_members` -/

/-- The member in the slot leaves. -/
def removeAt (a : TrunkSlots) (i : ℕ) : TrunkSlots where
  nports := a.nports - 1
  vif_port := Slots.removeAt none a.vif_port i a.nports
  port_enabled := Slots.removeAt false a.port_enabled i a.nports

/-- The first loop, from the slot `i` on, with `k` members to go. -/
def dropLoop : ℕ → ℕ → TrunkSlots → Option TrunkSlots
  | 0, _, a => some a
  | k + 1, i, a =>
    (a.vif_port i).bind fun v =>
      if Trunks.stays c mem (v, a.port_enabled i) then dropLoop k (i + 1) a
      else dropLoop k i (a.removeAt i)

/-- The slot of a member, among the `k` slots from `j` on. -/
def search (a : TrunkSlots) (v : VifRef) : ℕ → ℕ → Option ℕ
  | 0, _ => none
  | k + 1, j => if a.vif_port j = some v then some j else search a v k (j + 1)

/-- One round of the second loop. A new member takes the slot behind the last one, which has to
exist and to be free. -/
def enter (a : TrunkSlots) (x : TrunkMember) : Option TrunkSlots :=
  match c.vifGetByGif x.id with
  | none => some a
  | some v =>
    match a.search v a.nports 0 with
    | some j => some { a with
        vif_port := update a.vif_port j (some v)
        port_enabled := update a.port_enabled j x.enabled }
    | none =>
      if TRUNK_MAX_MEMBERS ≤ a.nports ∨ a.vif_port a.nports ≠ none then none
      else some {
        nports := a.nports + 1
        vif_port := update a.vif_port a.nports (some v)
        port_enabled := update a.port_enabled a.nports x.enabled }

/-- `vif_set_trunk_members`. -/
def vifSetTrunkMembers (a : TrunkSlots) : Option TrunkSlots :=
  (a.dropLoop c mem a.nports 0).bind fun a => mem.foldlM (enter c) a

/-! ## `VIF_PROC_TRUNK_BODY` -/

section Proc

variable {σ : Type*} (proc : σ → VifRef → Status × σ)

/-- The loop over the slots, with `k` slots to go. It goes beyond the array when there is none. -/
def procLoop (a : TrunkSlots) : ℕ → Status → σ → Option (Status × σ)
  | 0, _, _ => none
  | k + 1, status, s =>
    match a.vif_port (TRUNK_MAX_MEMBERS - (k + 1)) with
    | none => some (status, s)
    | some v => procLoop a k (if (proc s v).1 ≠ .ST_OK then (proc s v).1 else status) (proc s v).2

/-- An operation on a trunk, by the operation on a member. -/
def vifProcTrunk (a : TrunkSlots) (s : σ) : Option (Status × σ) :=
  a.procLoop proc TRUNK_MAX_MEMBERS .ST_OK s

/-- What the operation returns for each member, one after the other. -/
def statuses : List VifRef → σ → List Status
  | [], _ => []
  | v :: vs, s => (proc s v).1 :: statuses vs (proc s v).2

/-- The operation is called once for each of the `nports` members, in their order, and the status is
`ST_OK` when it is for all of them. -/
def FansOut (a : TrunkSlots) (s : σ) : Prop :=
  ∃ vs : List VifRef, (List.range a.nports).map a.vif_port = vs.map some ∧
    ∃ st, a.vifProcTrunk proc s = some (st, vs.foldl (fun s v => (proc s v).2) s) ∧
      (st = .ST_OK ↔ ∀ x ∈ statuses proc vs s, x = .ST_OK)

end Proc

/-! ## The list that the arrays hold -/

/-- The arrays hold the members of the list and nothing else. -/
structure Holds (a : TrunkSlots) (l : List (VifRef × Bool)) : Prop where
  nports : a.nports = l.length
  vif_port : Slots.Filled none a.vif_port (l.map fun m => some m.1)
  port_enabled : Slots.Filled false a.port_enabled (l.map (·.2))

/-- One round of the second loop, on the list. -/
def putMember (l : List (VifRef × Bool)) (x : TrunkMember) : List (VifRef × Bool) :=
  match c.vifGetByGif x.id with
  | none => l
  | some v => Keyed.put Prod.fst l (v, x.enabled)

variable {c : VifTable} {mem : List TrunkMember} {a : TrunkSlots}
  {l : List (VifRef × Bool)} {i k : ℕ}

/-- Entering members takes none away. -/
theorem length_le_foldl (mem : List TrunkMember) (l : List (VifRef × Bool)) :
    l.length ≤ (mem.foldl (putMember c) l).length := by
  induction mem generalizing l with
  | nil => exact le_rfl
  | cons x mem ih =>
    refine le_trans ?_ (ih (putMember c l x))
    unfold putMember
    cases c.vifGetByGif x.id with
    | none => exact le_rfl
    | some v => exact Keyed.length_le_put

/-- In the beginning the array holds nobody. -/
theorem holds_empty : empty.Holds [] := ⟨rfl, fun _ => rfl, fun _ => rfl⟩

namespace Holds

variable (h : a.Holds l)

include h

/-- The slots in use hold the members. -/
theorem get (hi : i < l.length) : a.vif_port i = some l[i].1 ∧ a.port_enabled i = l[i].2 := by
  constructor
  · rw [h.vif_port.get (by rwa [List.length_map]), List.getElem_map]
  · rw [h.port_enabled.get (by rwa [List.length_map]), List.getElem_map]

/-- The slots behind them hold nobody. -/
theorem free (hi : l.length ≤ i) : a.vif_port i = none :=
  h.vif_port.free (by rwa [List.length_map])

/-- Removing a slot removes its member. -/
theorem removeAt (hi : i < l.length) : (a.removeAt i).Holds (l.eraseIdx i) := by
  have hport := h.vif_port.removeAt (i := i) (by rwa [List.length_map])
  have hena := h.port_enabled.removeAt (i := i) (by rwa [List.length_map])
  rw [List.length_map, ← h.nports, List.eraseIdx_map] at hport hena
  refine ⟨?_, hport, hena⟩
  rw [List.length_eraseIdx_of_lt hi, ← h.nports]
  rfl

/-- The first loop keeps the members that stay. -/
theorem dropLoop (hi : i + k = l.length) :
    ∃ a', a.dropLoop c mem k i = some a' ∧
      a'.Holds (l.take i ++ (l.drop i).filter (Trunks.stays c mem)) := by
  induction k generalizing a l i with
  | zero =>
    refine ⟨a, rfl, ?_⟩
    rw [List.drop_eq_nil_of_le (by omega), List.take_of_length_le (by omega)]
    exact (List.append_nil l).symm ▸ h
  | succ k ih =>
    have hlt : i < l.length := by omega
    obtain ⟨hport, hena⟩ := h.get hlt
    unfold TrunkSlots.dropLoop
    rw [hport, hena, Option.bind_some]
    have hcons : l.drop i = l[i] :: l.drop (i + 1) := List.drop_eq_getElem_cons hlt
    by_cases hstays : Trunks.stays c mem l[i] = true
    · -- a member that stays: the loop goes on with the next slot
      obtain ⟨a', ha', hholds⟩ := ih h (i := i + 1) (by omega)
      refine ⟨a', (if_pos hstays).trans ha', ?_⟩
      rwa [hcons, List.filter_cons_of_pos hstays, List.append_cons,
        ← List.take_succ_eq_append_getElem hlt]
    · -- one that goes: the later members move down, and the loop looks at the same slot again
      have herase : (l.eraseIdx i).length = l.length - 1 := List.length_eraseIdx_of_lt hlt
      obtain ⟨a', ha', hholds⟩ := ih (h.removeAt hlt) (i := i) (by omega)
      refine ⟨a', (if_neg hstays).trans ha', ?_⟩
      rw [hcons, List.filter_cons_of_neg hstays]
      rw [List.eraseIdx_eq_take_drop_succ] at hholds
      have htake : (l.take i ++ l.drop (i + 1)).take i = l.take i := by
        rw [List.take_append_of_le_length (by rw [List.length_take]; omega), List.take_take,
          min_self]
      have hdrop : (l.take i ++ l.drop (i + 1)).drop i = l.drop (i + 1) := by
        have hlen : (l.take i).length = i := List.length_take_of_le (by omega)
        rw [List.drop_append_of_le_length (by omega), List.drop_eq_nil_of_le (by omega),
          List.nil_append]
      rwa [htake, hdrop] at hholds

/-- The search finds the first slot with the member. -/
theorem search (v : VifRef) (hi : i + k = l.length) :
    a.search v k i = ((l.drop i).findIdx? (·.1 = v)).map (· + i) := by
  induction k generalizing i with
  | zero =>
    rw [List.drop_eq_nil_of_le (by omega)]
    rfl
  | succ k ih =>
    have hlt : i < l.length := by omega
    rw [TrunkSlots.search, (h.get hlt).1, List.drop_eq_getElem_cons hlt, List.findIdx?_cons]
    by_cases hv : l[i].1 = v
    · rw [if_pos (congrArg some hv), if_pos (by simpa using hv), Option.map_some, Nat.zero_add]
    · rw [if_neg fun heq => hv (Option.some_inj.mp heq), if_neg (by simpa using hv),
        ih (by omega), Option.map_map]
      refine congrArg (Option.map · _) ?_
      funext j
      show j + (i + 1) = j + 1 + i
      omega

/-- The second loop finds a member or appends it, when there is a slot left. -/
theorem enter (x : TrunkMember) (hlen : (putMember c l x).length ≤ TRUNK_MAX_MEMBERS) :
    ∃ a', a.enter c x = some a' ∧ a'.Holds (putMember c l x) := by
  unfold TrunkSlots.enter
  unfold putMember at hlen ⊢
  cases hget : c.vifGetByGif x.id with
  | none => exact ⟨a, rfl, h⟩
  | some v =>
    rw [hget] at hlen
    dsimp only at hlen ⊢
    -- the search through the slots finds the member that the list has
    have hsearch := h.search v (i := 0) (k := a.nports) (by rw [h.nports, Nat.zero_add])
    rw [List.drop_zero] at hsearch
    have hadd : (fun j : ℕ => j + 0) = id := rfl
    rw [hsearch, hadd, Option.map_id_fun, id]
    cases hfind : l.findIdx? (·.1 = v) with
    | some j =>
      have hput : Keyed.put Prod.fst l (v, x.enabled) = l.set j (v, x.enabled) :=
        Keyed.put_of_findIdx hfind
      have hj : j < l.length := (List.findIdx?_eq_some_iff_getElem.mp hfind).1
      refine ⟨_, rfl, ?_⟩
      rw [hput]
      refine ⟨by rw [List.length_set]; exact h.nports, ?_, ?_⟩
      · rw [List.map_set]
        exact h.vif_port.set (by rwa [List.length_map]) _
      · rw [List.map_set]
        exact h.port_enabled.set (by rwa [List.length_map]) _
    | none =>
      have hput : Keyed.put Prod.fst l (v, x.enabled) = l ++ [(v, x.enabled)] :=
        Keyed.put_of_findIdx_none hfind
      rw [hput, List.length_append, List.length_singleton] at hlen
      refine ⟨_, if_neg ?_, ?_⟩
      · -- the list has room, so the slot that is taken is free
        rw [not_or, not_not, h.nports]
        exact ⟨by omega, h.free le_rfl⟩
      · rw [hput]
        refine ⟨by rw [List.length_append, h.nports, List.length_singleton], ?_, ?_⟩
        · rw [List.map_append, h.nports, ← List.length_map (f := fun m : VifRef × Bool => some m.1)]
          exact h.vif_port.push _
        · rw [List.map_append, h.nports, ← List.length_map (f := fun m : VifRef × Bool => m.2)]
          exact h.port_enabled.push _

/-- The loop over the new members enters them, where the array has room. -/
theorem foldlM_enter (hlen : (mem.foldl (putMember c) l).length ≤ TRUNK_MAX_MEMBERS) :
    ∃ a', mem.foldlM (TrunkSlots.enter c) a = some a' ∧ a'.Holds (mem.foldl (putMember c) l) := by
  induction mem generalizing a l with
  | nil => exact ⟨a, rfl, h⟩
  | cons x mem ih =>
    rw [List.foldl_cons] at hlen
    obtain ⟨a₁, ha₁, hholds⟩ := h.enter x ((length_le_foldl mem _).trans hlen)
    obtain ⟨a', ha', hholds'⟩ := ih hholds hlen
    refine ⟨a', ?_, hholds'⟩
    rw [List.foldlM_cons, ha₁]
    exact ha'

end Holds

/-- The list of `Trunks.vifSetTrunkMembers`. -/
theorem vifSetTrunkMembers_vif_port (c : VifTable) (hw : McgHw) (s : Trunks) (t : ℕ)
    (mem : List TrunkMember) : ((s.vifSetTrunkMembers c hw t mem).trunks t).vif_port =
      mem.foldl (putMember c) ((s.trunks t).vif_port.filter (Trunks.stays c mem)) := by
  have henter : ∀ (s : Trunks) (x : TrunkMember),
      putMember c (s.trunks t).vif_port x = ((s.enter c hw t x).trunks t).vif_port := by
    intro s x
    unfold putMember
    cases hx : c.vifGetByGif x.id with
    | none => rw [Trunks.enter_of_none hx]
    | some v => rw [(Trunks.enter_of_some hw s hx).1, update_self]
  have hdrop := congrFun (Trunks.dropMembers_trunks c hw s t mem) t
  rw [update_self] at hdrop
  unfold Trunks.vifSetTrunkMembers
  simp only [Trunks.modifyTrunk, Trunks.updateTrunkLinkStatus, update_self]
  -- the loop over the members works on the list of the trunk as `putMember` does
  refine (List.foldl_hom (fun s : Trunks => (s.trunks t).vif_port) henter).symm.trans ?_
  exact congrArg (mem.foldl (putMember c)) (congrArg Trunk.vif_port hdrop)

/-- The arrays hold the list after a call as they did before. -/
theorem vifSetTrunkMembers_holds {s : Trunks} {t : ℕ} (hw : McgHw)
    (h : a.Holds (s.trunks t).vif_port)
    (hu : Keyed.Unique Prod.fst (s.trunks t).vif_port) (hmem : mem.length ≤ TRUNK_MAX_MEMBERS) :
    ∃ a', a.vifSetTrunkMembers c mem = some a' ∧
      a'.Holds ((s.vifSetTrunkMembers c hw t mem).trunks t).vif_port := by
  have hlen := (Trunks.membersSet c hw t mem hu).length_le.trans hmem
  rw [vifSetTrunkMembers_vif_port] at hlen ⊢
  obtain ⟨a₁, ha₁, hholds⟩ :=
    h.dropLoop (c := c) (i := 0) (k := a.nports) (by rw [h.nports, Nat.zero_add])
  obtain ⟨a', ha', hholds'⟩ := hholds.foldlM_enter hlen
  refine ⟨a', ?_, hholds'⟩
  unfold TrunkSlots.vifSetTrunkMembers
  rw [ha₁, Option.bind_some, ha']

/-! ## Runs -/

/-- A call with the ports as they are known then. -/
structure SetMembers where
  vifs : VifTable
  mem : List TrunkMember

/-- One call. -/
def step (a : TrunkSlots) (op : SetMembers) : Option TrunkSlots :=
  a.vifSetTrunkMembers op.vifs op.mem

/-- A list that has room in a trunk. -/
def Short (_ : TrunkSlots) (op : SetMembers) : Prop := op.mem.length ≤ TRUNK_MAX_MEMBERS

instance (a : TrunkSlots) (op : SetMembers) : Decidable (Short a op) :=
  inferInstanceAs (Decidable (op.mem.length ≤ TRUNK_MAX_MEMBERS))

/-- The arrays hold up to eight members, each once. -/
def Inv (a : TrunkSlots) : Prop :=
  ∃ l, a.Holds l ∧ Keyed.Unique Prod.fst l ∧ l.length ≤ TRUNK_MAX_MEMBERS

/-- **Step.** A list that is short enough is taken over. -/
theorem Inv.setMembers (h : a.Inv) {op : SetMembers} (hok : Short a op) :
    ∃ a', step a op = some a' ∧ a'.Inv := by
  obtain ⟨l, hholds, hu, -⟩ := h
  let s : Trunks := ⟨fun _ => ⟨l, none, []⟩, fun _ => none, fun _ => ⟨false, 0, 0⟩, fun _ => none⟩
  have hset := Trunks.membersSet (s := s) op.vifs TrunkRun.reliable 0 op.mem hu
  obtain ⟨a', ha', hholds'⟩ := vifSetTrunkMembers_holds (s := s) (t := 0)
    TrunkRun.reliable hholds hu hok
  exact ⟨a', ha', _, hholds', hset.unique, hset.length_le.trans hok⟩

/-- In every run the array holds the members of the lists. -/
theorem Inv.of_reach (hr : Guarded.Reach step Short empty a) : a.Inv := by
  refine hr.invariant Inv ⟨[], holds_empty, List.nodup_nil, Nat.zero_le _⟩
    fun s op s' h hok hs => ?_
  obtain ⟨a', ha', hinv⟩ := h.setMembers hok
  obtain rfl := Option.some_inj.mp (ha'.symm.trans hs)
  exact hinv

/-! ## Operations on all members -/

section Proc

variable {σ : Type*} (proc : σ → VifRef → Status × σ) (s : σ)

/-- The loop ends at the slot behind the last member, when there is one. -/
theorem Holds.procLoop (h : a.Holds l) (status : Status) (hlen : l.length < TRUNK_MAX_MEMBERS)
    (hk : i + k = TRUNK_MAX_MEMBERS) (hi : i ≤ l.length) :
    ∃ st, a.procLoop proc k status s =
        some (st, ((l.drop i).map (·.1)).foldl (fun s v => (proc s v).2) s) ∧
      (st = .ST_OK ↔ status = .ST_OK ∧
          ∀ x ∈ statuses proc ((l.drop i).map (·.1)) s, x = .ST_OK) := by
  induction k generalizing i status s with
  | zero => omega
  | succ k ih =>
    have hslot : TRUNK_MAX_MEMBERS - (k + 1) = i := by omega
    rw [TrunkSlots.procLoop, hslot]
    by_cases hlt : i < l.length
    · obtain ⟨st, hst, hok⟩ := ih (s := (proc s l[i].1).2)
        (if (proc s l[i].1).1 ≠ .ST_OK then (proc s l[i].1).1 else status) (i := i + 1) (by omega)
        (by omega)
      rw [(h.get hlt).1, List.drop_eq_getElem_cons hlt, List.map_cons, List.foldl_cons]
      refine ⟨st, hst, hok.trans ?_⟩
      rw [statuses, List.forall_mem_cons, ← and_assoc]
      refine and_congr_left fun _ => ?_
      by_cases hone : (proc s l[i].1).1 = .ST_OK
      · rw [if_neg (not_not.mpr hone)]
        exact (and_iff_left hone).symm
      · rw [if_pos hone]
        exact iff_of_false hone fun hx => hone hx.2
    · -- the first free slot ends the loop
      rw [h.free (by omega), List.drop_eq_nil_of_le (by omega)]
      exact ⟨status, rfl, (and_iff_left fun x hx => absurd hx List.not_mem_nil).symm⟩

/-- The loop goes beyond a full array. -/
theorem Holds.procLoop_full (h : a.Holds l) (status : Status) (hlen : l.length = TRUNK_MAX_MEMBERS)
    (hk : i + k = TRUNK_MAX_MEMBERS) : a.procLoop proc k status s = none := by
  induction k generalizing i status s with
  | zero => rfl
  | succ k ih =>
    have hslot : TRUNK_MAX_MEMBERS - (k + 1) = i := by omega
    rw [TrunkSlots.procLoop, hslot, (h.get (i := i) (by omega)).1]
    exact ih _ _ (i := i + 1) (by omega)

/-- The slots up to the count are the members. -/
theorem Holds.members (h : a.Holds l) :
    (List.range a.nports).map a.vif_port = (l.map (·.1)).map some := by
  refine List.ext_getElem ?_ fun i hi _ => ?_
  · rw [List.length_map, List.length_range, List.length_map, List.length_map, h.nports]
  · rw [List.length_map, List.length_range, h.nports] at hi
    rw [List.getElem_map, List.getElem_range, (h.get hi).1, List.getElem_map, List.getElem_map]

variable {proc s}

/-- A trunk fans out exactly when its array is not full. -/
theorem Holds.spread_iff (h : a.Holds l) (hlen : l.length ≤ TRUNK_MAX_MEMBERS) :
    FansOut proc a s ↔ a.nports < TRUNK_MAX_MEMBERS := by
  rw [h.nports]
  constructor
  · rintro ⟨vs, -, st, hst, -⟩
    by_contra hfull
    have hnone := h.procLoop_full proc s .ST_OK (by omega) (Nat.zero_add _)
    exact absurd (hnone.symm.trans hst) (Option.some_ne_none _).symm
  · intro hlt
    obtain ⟨st, hst, hok⟩ := h.procLoop proc s .ST_OK hlt (Nat.zero_add _) (Nat.zero_le _)
    rw [List.drop_zero] at hst hok
    refine ⟨l.map (·.1), h.members, st, ?_, hok.trans (and_iff_right rfl)⟩
    exact hst

/-- In every state that calls with up to eight members reach, an operation is fanned out to the
members of the trunk unless it has eight. -/
theorem fansOut_iff (hr : Guarded.Reach step Short empty a) (proc : σ → VifRef → Status × σ)
    (s : σ) :
    FansOut proc a s ↔ a.nports < TRUNK_MAX_MEMBERS := by
  obtain ⟨l, hholds, -, hlen⟩ := Inv.of_reach hr
  exact hholds.spread_iff hlen

end Proc

/-- A trunk of eight members. An operation that does nothing goes beyond the array. -/
theorem not_fansOut : ∃ a, Guarded.Reach step Short empty a ∧
    ¬FansOut (fun (s : Unit) _ => (Status.ST_OK, s)) a () := by
  have hrun : (Guarded.run step Short empty
      [⟨TrunkRun.tenPorts, (List.range 8).map fun i => TrunkRun.member (i + 1) true⟩]).map
        (fun a => (a.vifProcTrunk (fun (s : Unit) _ => (Status.ST_OK, s)) ()).isNone) =
            some true := by
    decide +kernel
  obtain ⟨a, ha, hnone⟩ := Option.map_eq_some_iff.mp hrun
  refine ⟨a, Guarded.Reach.init.of_run ha, ?_⟩
  rintro ⟨vs, -, st, hst, -⟩
  rw [hst] at hnone
  exact Bool.noConfusion hnone

/-- A trunk of three members, of which the first one has left. -/
theorem fansOut_iff_two : ∃ a, a.nports = 2 ∧
    (FansOut (fun (s : List VifRef) v => (Status.ST_OK, s ++ [v])) a [] ↔
      a.nports < TRUNK_MAX_MEMBERS) := by
  have hrun : (Guarded.run step Short empty
      [⟨TrunkRun.tenPorts, [TrunkRun.member 1 true, TrunkRun.member 2 true, TrunkRun.member 3 false]⟩,
        ⟨TrunkRun.tenPorts, [TrunkRun.member 2 true, TrunkRun.member 3 true]⟩]).map
            (·.nports) = some 2 := by
    decide +kernel
  obtain ⟨a, ha, hn⟩ := Option.map_eq_some_iff.mp hrun
  exact ⟨a, hn, fansOut_iff (Guarded.Reach.init.of_run ha) _ _⟩

end TrunkSlots

end Presteramgr
