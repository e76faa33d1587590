import Mathlib.Order.Bounds.Basic
import Presteramgr.Lib.Sweep
import Presteramgr.Trunk.Hardware

/-!
# The link state of a trunk (`vif.c`)

A trunk is up when one of its enabled members is, with the best speed and duplex of these members.
The state is computed anew when a member gets a link state and when the members are set, and the
master tells the clients when it has changed.

## Main definitions

* `Trunks.vifUpdateTrunkLinkStatus`, with the notification that it sends;
* `LinkUnit`: a unit, which learns the link states of ports from its own hardware and from packets
  of other units;
* `Trunks.Aggregate`: what the state of a trunk should be;
* `Trunks.Announced`: what should be told of a change;
* `LinkUnit.Ok`: no list names a port that is a member of another trunk.

## Main results

* `LinkUnit.reported_and_announced`: the states are the aggregates, and the master tells all
  changes.
-/

namespace Presteramgr

open Function (update update_self update_of_ne)

/-- `vif_getn`. -/
def VifTable.vifGetn (c : VifTable) (ids : TrunkIds) (id : VifId) : Option VifRef :=
  if id.type = .VIFT_PC then
    if 15 < id.dev ∨ c.stack_id = 0 ∧ id.dev ≠ 0 then none
    else if ids.TRUNK_ID_MIN ≤ id.num ∧
      id.num ≤ ids.TRUNK_ID_MAX then some (.trunk id.num) else none
  else c.vifGet id.type id.dev id.num

/-- A notification of the link state of a trunk. -/
abbrev Notice := ℕ × PortLinkState

namespace Trunks

variable (c : VifTable) (master : Bool) (s : Trunks)

/-- The state that `vif_update_trunk_link_status` computes. -/
def trunkState (t : ℕ) : PortLinkState :=
  (s.trunks t).vif_port.foldl (fun pls m =>
    if m.2 ∧ (s.state m.1).link then
      ⟨true, max (s.state m.1).speed pls.speed, max (s.state m.1).duplex pls.duplex⟩
    else pls) ⟨false, c.speed10, 0⟩

/-- `vif_update_trunk_link_status`, with what it notifies. -/
def vifUpdateTrunkLinkStatus (t : ℕ) : List Notice × Trunks :=
  let pls := s.trunkState c t
  if pls ≠ s.state (.trunk t) then
    (if master then [(t, pls)] else [], { s with state := update s.state (.trunk t) pls })
  else ([], s)

/-- An interface gets a link state, and its trunk is updated. -/
def enterState (v : VifRef) (st : PortLinkState) : List Notice × Trunks :=
  let s := { s with state := update s.state v st }
  match s.trunk v with
  | none => ([], s)
  | some t => s.vifUpdateTrunkLinkStatus c master t

/-- `vif_set_trunk_members`, with what it notifies. -/
def setTrunkMembers (hw : McgHw) (t : ℕ) (mem : List TrunkMember) : List Notice × Trunks :=
  let s := mem.foldl (fun s x => s.enter c hw t x) (s.dropMembers c hw t mem)
  let s := s.modifyTrunk t fun tr =>
    { tr with designated := (tr.vif_port.find? (·.2)).map (·.1) }
  s.vifUpdateTrunkLinkStatus c master t

/-- The link of a trunk is computed, whether or not it is announced. -/
theorem vifUpdateTrunkLinkStatus_snd (t : ℕ) :
    (s.vifUpdateTrunkLinkStatus c master t).2 = s.updateTrunkLinkStatus c t := by
  unfold vifUpdateTrunkLinkStatus
  by_cases hne : s.trunkState c t ≠ s.state (.trunk t)
  · exact congrArg Prod.snd (if_pos hne)
  · refine (congrArg Prod.snd (if_neg hne)).trans ?_
    rw [not_not] at hne
    have hsame : update s.state (.trunk t) (s.trunkState c t) = s.state := by
      rw [hne, Function.update_eq_self]
    exact (congrArg (fun st => ({ s with state := st } : Trunks)) hsame).symm

/-! ## What the states should be -/

/-- The state is the aggregate over the enabled members of the trunk. -/
structure Aggregate (t : ℕ) (pls : PortLinkState) : Prop where
  link : pls.link = true ↔ ∃ v ∈ s.enabled t, (s.state v).link = true
  speed : pls.link = true →
    IsGreatest {x | ∃ v ∈ s.enabled t, (s.state v).link = true ∧ (s.state v).speed = x} pls.speed
  duplex : pls.link = true →
    IsGreatest {x | ∃ v ∈ s.enabled t, (s.state v).link = true ∧ (s.state v).duplex = x} pls.duplex
  down : pls.link = false → pls = ⟨false, c.speed10, 0⟩

/-- The master tells once each trunk whose state is another than before, and its state; the other
units tell nothing. -/
def Announced (s s' : Trunks) (n : List Notice) : Prop :=
  ∀ t, n.filter (·.1 = t) =
    if master = true ∧ s'.state (.trunk t) ≠ s.state (.trunk t) then [(t, s'.state (.trunk t))] else []

variable {c : VifTable} {master : Bool} {s s' : Trunks} {t : ℕ} {v : VifRef}

/-- What the loop over the members makes of the states of those that are up. -/
private theorem foldl_states (l : List PortLinkState) (b : PortLinkState) :
    let pls := l.foldl (fun pls x => (⟨true, max x.speed pls.speed, max x.duplex pls.duplex⟩ :
      PortLinkState)) b
    pls.link = (b.link || !l.isEmpty) ∧
      IsGreatest {x | x = b.speed ∨ x ∈ l.map PortLinkState.speed} pls.speed ∧
      IsGreatest {x | x = b.duplex ∨ x ∈ l.map PortLinkState.duplex} pls.duplex ∧
      (l = [] → pls = b) := by
  induction l generalizing b with
  | nil => exact ⟨(Bool.or_false _).symm, ⟨.inl rfl, fun x hx => hx.elim le_of_eq fun h =>
      absurd h List.not_mem_nil⟩, ⟨.inl rfl, fun x hx => hx.elim le_of_eq fun h =>
      absurd h List.not_mem_nil⟩, fun _ => rfl⟩
  | cons y l ih =>
    obtain ⟨hlink, hspeed, hduplex, -⟩ := ih ⟨true, max y.speed b.speed, max y.duplex b.duplex⟩
    -- the greatest of the list with the greater of two is the greatest of all
    have hmax : ∀ (a b m : ℕ) (xs : List ℕ), IsGreatest {x | x = max a b ∨ x ∈ xs} m →
        IsGreatest {x | x = b ∨ x ∈ a :: xs} m := by
      intro a b m xs hm
      refine ⟨?_, fun x hx => ?_⟩
      · rcases hm.1 with heq | hin
        · rcases max_choice a b with hab | hab
          · exact .inr (List.mem_cons.mpr (.inl (heq.trans hab)))
          · exact .inl (heq.trans hab)
        · exact .inr (List.mem_cons_of_mem a hin)
      · have hle : max a b ≤ m := hm.2 (.inl rfl)
        rcases hx with rfl | hx
        · exact (le_max_right a x).trans hle
        · rcases List.mem_cons.mp hx with rfl | hx
          · exact (le_max_left x b).trans hle
          · exact hm.2 (.inr hx)
    refine ⟨?_, hmax _ _ _ _ hspeed, hmax _ _ _ _ hduplex,
      fun hno => absurd hno (List.cons_ne_nil y l)⟩
    rw [List.foldl_cons, hlink, Bool.true_or, List.isEmpty_cons, Bool.not_false, Bool.or_true]

/-- The loop over the members takes the fastest of those whose link is up. -/
theorem trunkState_eq (c : VifTable) (s : Trunks) (t : ℕ) : s.trunkState c t =
    (((s.enabled t).map s.state).filter (·.link)).foldl (fun pls x =>
      (⟨true, max x.speed pls.speed, max x.duplex pls.duplex⟩ : PortLinkState))
          ⟨false, c.speed10, 0⟩ := by
  unfold trunkState enabled
  rw [List.foldl_filter, List.foldl_map, List.foldl_map, List.foldl_filter]
  refine List.foldl_ext _ _ _ fun pls m _ => ?_
  cases m.2 with
  | true => exact (if_congr (and_iff_right rfl) rfl rfl).trans (if_pos rfl).symm
  | false => exact (if_neg fun h => Bool.false_ne_true h.1).trans (if_neg Bool.false_ne_true).symm

/-- The computed state is the aggregate, when ports that are up have a speed. -/
theorem aggregate_trunkState (hspeed : ∀ v ∈ s.enabled t, (s.state v).link = true →
    c.speed10 ≤ (s.state v).speed) : s.Aggregate c t (s.trunkState c t) := by
  have hmem : ∀ x, x ∈ ((s.enabled t).map s.state).filter (·.link) ↔
      ∃ v ∈ s.enabled t, (s.state v).link = true ∧ s.state v = x := by
    intro x
    rw [List.mem_filter, List.mem_map]
    constructor
    · rintro ⟨⟨v, hv, rfl⟩, hx⟩
      exact ⟨v, hv, hx, rfl⟩
    · rintro ⟨v, hv, hx, rfl⟩
      exact ⟨⟨v, hv, rfl⟩, hx⟩
  rw [trunkState_eq]
  generalize ((s.enabled t).map s.state).filter (·.link) = l at hmem
  obtain ⟨hlink, hsp, hdu, hnil⟩ := foldl_states l ⟨false, c.speed10, 0⟩
  generalize List.foldl _ _ l = pls at hlink hsp hdu hnil
  have hup : pls.link = true ↔ l ≠ [] := by
    rw [hlink, Bool.false_or, Bool.not_eq_true', List.isEmpty_eq_false_iff]
  -- a default that is below one of the list is not needed
  have hdrop : ∀ (f : PortLinkState → ℕ) (b m : ℕ), IsGreatest {x | x = b ∨ x ∈ l.map f} m →
      l ≠ [] → (∀ x ∈ l, b ≤ f x) →
      IsGreatest {x | ∃ v ∈ s.enabled t, (s.state v).link = true ∧ f (s.state v) = x} m := by
    intro f b m hm hne hb
    have hset : ∀ x, x ∈ l.map f ↔ ∃ v ∈ s.enabled t, (s.state v).link = true ∧
        f (s.state v) = x := by
      intro x
      rw [List.mem_map]
      constructor
      · rintro ⟨y, hy, rfl⟩
        obtain ⟨v, hv, hup, rfl⟩ := (hmem y).mp hy
        exact ⟨v, hv, hup, rfl⟩
      · rintro ⟨v, hv, hup, rfl⟩
        exact ⟨_, (hmem _).mpr ⟨v, hv, hup, rfl⟩, rfl⟩
    refine ⟨(hset m).mp ?_, fun x hx => hm.2 (.inr ((hset x).mpr hx))⟩
    rcases hm.1 with rfl | hin
    · obtain ⟨y, hy⟩ := List.exists_mem_of_ne_nil l hne
      have hle : f y ≤ m := hm.2 (.inr (List.mem_map_of_mem hy))
      exact List.mem_map.mpr ⟨y, hy, le_antisymm hle (hb y hy)⟩
    · exact hin
  refine ⟨hup.trans ?_, fun h => hdrop PortLinkState.speed _ _ hsp (hup.mp h) fun x hx => ?_,
    fun h => hdrop PortLinkState.duplex _ _ hdu (hup.mp h) fun _ _ => Nat.zero_le _,
      fun h => hnil ?_⟩
  · constructor
    · intro hne
      obtain ⟨y, hy⟩ := List.exists_mem_of_ne_nil l hne
      obtain ⟨v, hv, hvup, -⟩ := (hmem y).mp hy
      exact ⟨v, hv, hvup⟩
    · rintro ⟨v, hv, hvup⟩
      exact List.ne_nil_of_mem ((hmem _).mpr ⟨v, hv, hvup, rfl⟩)
  · obtain ⟨v, hv, hvup, rfl⟩ := (hmem x).mp hx
    exact hspeed v hv hvup
  · by_contra hne
    rw [hup.mpr hne] at h
    exact Bool.noConfusion h

/-! ## One change -/

/-- The computed link depends on the members and on their links only. -/
theorem trunkState_congr (hl : (s'.trunks t).vif_port = (s.trunks t).vif_port)
    (hst : ∀ v ∈ (s.trunks t).vif_port.map (·.1), s'.state v = s.state v) :
    s'.trunkState c t = s.trunkState c t := by
  unfold trunkState
  rw [hl]
  refine List.foldl_ext _ _ _ fun pls m hm => ?_
  rw [hst m.1 (List.mem_map_of_mem hm)]

/-- The computed link becomes that of the trunk and of nothing else. -/
theorem updateTrunkLinkStatus_state (c : VifTable) (s : Trunks) (t : ℕ) :
    (s.updateTrunkLinkStatus c t).state = update s.state (.trunk t) (s.trunkState c t) := rfl

/-- A changed link is announced by the master, once. -/
theorem vifUpdateTrunkLinkStatus_fst (t : ℕ) : (s.vifUpdateTrunkLinkStatus c master t).1 =
    if master = true ∧ s.trunkState c t ≠ s.state (.trunk t) then [(t, s.trunkState c t)] else [] := by
  unfold vifUpdateTrunkLinkStatus
  by_cases hne : s.trunkState c t ≠ s.state (.trunk t)
  · refine (congrArg Prod.fst (if_pos hne)).trans ?_
    exact if_congr (and_iff_left hne).symm rfl rfl
  · refine (congrArg Prod.fst (if_neg hne)).trans ?_
    exact (if_neg fun h => hne h.2).symm

/-- The update of a trunk tells whether its state is another, and no other state changes. -/
theorem announced_update (h : ∀ t', s'.state (.trunk t') = s.state (.trunk t')) (t : ℕ) :
    Announced master s (s'.vifUpdateTrunkLinkStatus c master t).2
      (s'.vifUpdateTrunkLinkStatus c master t).1 := by
  intro t'
  rw [vifUpdateTrunkLinkStatus_snd, vifUpdateTrunkLinkStatus_fst, updateTrunkLinkStatus_state,
    ← h t']
  by_cases ht : t' = t
  · subst ht
    rw [update_self]
    by_cases hchange : master = true ∧ s'.trunkState c t' ≠ s'.state (.trunk t')
    · rw [if_pos hchange]
      exact List.filter_cons_of_pos (decide_eq_true rfl)
    · rw [if_neg hchange]
      exact List.filter_nil
  · have hother : VifRef.trunk t' ≠ .trunk t := fun heq => ht (VifRef.trunk.inj heq)
    rw [update_of_ne hother]
    refine (List.filter_eq_nil_iff.mpr fun n hn => ?_).trans (if_neg fun hx => hx.2 rfl).symm
    -- what is told is about the trunk that is updated
    rw [List.mem_ite_nil_right, List.mem_singleton] at hn
    rw [hn.2, decide_eq_true_eq]
    exact Ne.symm ht

/-- Calls on groups leave the link states alone. -/
theorem portMcgAdd_state (hw : McgHw) (v : VifRef) (mcg : ℕ) :
    (s.portMcgAdd c hw v mcg).2.state = s.state := by
  unfold portMcgAdd mcgAddPort
  cases s.groups mcg with
  | none =>
    dsimp only
    split_ifs <;> rfl
  | some ports =>
    dsimp only
    split_ifs <;> rfl

/-- Groups have nothing to do with the links. -/
theorem portMcgDel_state (hw : McgHw) (v : VifRef) (mcg : ℕ) :
    (s.portMcgDel c hw v mcg).2.state = s.state := by
  unfold portMcgDel
  split_ifs
  · rw [mcgDelPort_snd]
    cases s.groups mcg with
    | none => rfl
    | some ports =>
      dsimp only
      split_ifs <;> rfl
  · rfl

/-- Entering the groups of a trunk changes no link. -/
theorem addToGroups_state (hw : McgHw) (v : VifRef) (mcgs : List ℕ) :
    (s.addToGroups c hw v mcgs).state = s.state :=
  Sweep.foldl_keeps Trunks.state (fun _ _ _ => portMcgAdd_state hw v _) s

/-- Leaving the groups of a trunk changes no link. -/
theorem delFromGroups_state (hw : McgHw) (v : VifRef) (mcgs : List ℕ) :
    (s.delFromGroups c hw v mcgs).state = s.state :=
  Sweep.foldl_keeps Trunks.state (fun _ _ _ => portMcgDel_state hw v _) s

/-- Dropping members changes no link. -/
theorem dropMembers_state (hw : McgHw) (t : ℕ) (mem : List TrunkMember) :
    (s.dropMembers c hw t mem).state = s.state := by
  -- a member that leaves is taken out of the groups of the trunk
  have hleave : ∀ (s : Trunks) (m : VifRef × Bool), (s.leave c hw t m.1).state = s.state :=
    fun s m => delFromGroups_state hw m.1 _
  exact Sweep.foldl_keeps Trunks.state (fun s m _ => hleave s m) s

/-- Entering a member changes no link. -/
theorem enter_state (hw : McgHw) (t : ℕ) (x : TrunkMember) :
    (s.enter c hw t x).state = s.state := by
  unfold enter
  cases c.vifGetByGif x.id with
  | none => rfl
  | some v =>
    dsimp only
    cases (s.trunks t).vif_port.find? (·.1 = v) with
    | some m =>
      dsimp only [modifyTrunk]
      split_ifs
      · exact addToGroups_state hw v _
      · exact delFromGroups_state hw v _
      · rfl
    | none =>
      dsimp only
      split_ifs
      · exact delFromGroups_state hw v _
      · rfl

/-- The lists are set before the state of the trunk is. -/
theorem vifSetTrunkMembers_state (c : VifTable) (master : Bool) (s : Trunks) (hw : McgHw) (t : ℕ)
    (mem : List TrunkMember) :
    ∃ s' : Trunks, s'.state = s.state ∧
      s.setTrunkMembers c master hw t mem = s'.vifUpdateTrunkLinkStatus c master t ∧
      (s.vifSetTrunkMembers c hw t mem) = s'.updateTrunkLinkStatus c t := by
  have henter : ∀ (s : Trunks) (x : TrunkMember), x ∈ mem → (s.enter c hw t x).state = s.state :=
    fun _ x _ => enter_state hw t x
  refine ⟨(mem.foldl (fun s x => s.enter c hw t x) (s.dropMembers c hw t mem)).modifyTrunk t
    fun tr => { tr with designated := (tr.vif_port.find? (·.2)).map (·.1) }, ?_, rfl, rfl⟩
  exact (Sweep.foldl_keeps Trunks.state henter _).trans (dropMembers_state hw t mem)

/-- The members of the trunks are ports that point back to them, and the states of the trunks are
those that the members make. -/
structure Reported (c : VifTable) (s : Trunks) : Prop where
  unique : ∀ t, Keyed.Unique Prod.fst (s.trunks t).vif_port
  trunk_iff : ∀ v t, s.trunk v = some t ↔ v ∈ (s.trunks t).vif_port.map (·.1)
  ports : ∀ t, ∀ v ∈ (s.trunks t).vif_port.map (·.1), ∀ t', v ≠ .trunk t'
  speed : ∀ v, (∀ t', v ≠ .trunk t') → (s.state v).link = true → c.speed10 ≤ (s.state v).speed
  state : ∀ t, s.state (.trunk t) = s.trunkState c t

/-- In the beginning the links are down and the trunks are empty. -/
theorem reported_init (c : VifTable) (groups : ℕ → Option (VifRef → Bool)) :
    Reported c (Trunks.init c.speed10 groups) where
  unique _ := List.nodup_nil
  trunk_iff _ t := ⟨fun h => absurd h.symm (Option.some_ne_none t), fun h =>
    absurd h List.not_mem_nil⟩
  ports _ _ hv := absurd hv List.not_mem_nil
  speed _ _ h := absurd h Bool.false_ne_true
  state _ := rfl

namespace Reported

/-- The link of a trunk is the aggregate of those of its members. -/
theorem aggregate (h : Reported c s) (t : ℕ) : s.Aggregate c t (s.state (.trunk t)) := by
  rw [h.state t]
  refine aggregate_trunkState fun v hv => h.speed v (h.ports t v ?_)
  obtain ⟨m, hm, rfl⟩ := List.mem_map.mp hv
  exact List.mem_map_of_mem (List.mem_filter.mp hm).1

/-- A trunk is updated, and the other trunks have the state that their members make. -/
theorem of_update (s : Trunks) (hu : ∀ t, Keyed.Unique Prod.fst (s.trunks t).vif_port)
    (ht : ∀ v t, s.trunk v = some t ↔ v ∈ (s.trunks t).vif_port.map (·.1))
    (hp : ∀ t, ∀ v ∈ (s.trunks t).vif_port.map (·.1), ∀ t', v ≠ .trunk t')
    (hs : ∀ v, (∀ t', v ≠ .trunk t') → (s.state v).link = true → c.speed10 ≤ (s.state v).speed)
    (t : ℕ) (hother : ∀ t' ≠ t, s.state (.trunk t') = s.trunkState c t') :
    Reported c (s.updateTrunkLinkStatus c t) := by
  have hmade : ∀ t', (s.updateTrunkLinkStatus c t).trunkState c t' = s.trunkState c t' := fun t' =>
    trunkState_congr rfl fun v hv => update_of_ne (hp t' v hv t) ..
  refine ⟨hu, ht, hp, fun v hv => ?_, fun t' => ?_⟩
  · rw [updateTrunkLinkStatus_state, update_of_ne (hv t)]
    exact hs v hv
  · rw [hmade t', updateTrunkLinkStatus_state]
    by_cases heq : t' = t
    · subst heq
      exact update_self ..
    · rw [update_of_ne fun h => heq (VifRef.trunk.inj h)]
      exact hother t' heq

/-- A new link of an interface is passed on to its trunk, and a change announced. -/
theorem enterState (h : Reported c s) {st : PortLinkState} (hv : ∀ t', v ≠ .trunk t')
    (hst : st.link = true → c.speed10 ≤ st.speed) :
    Reported c (s.enterState c master v st).2 ∧
      Announced master s (s.enterState c master v st).2 (s.enterState c master v st).1 := by
  -- the states of ports only change at the port
  have hspeed : ∀ w, (∀ t', w ≠ .trunk t') → (Function.update s.state v st w).link = true →
      c.speed10 ≤ (Function.update s.state v st w).speed := by
    intro w hw
    by_cases hwv : w = v
    · subst hwv
      rw [update_self]
      exact hst
    · rw [update_of_ne hwv]
      exact h.speed w hw
  have hsame : ∀ t', Function.update s.state v st (.trunk t') = s.state (.trunk t') := fun t' =>
    update_of_ne (hv t').symm ..
  have hmade : ∀ t', v ∉ (s.trunks t').vif_port.map (·.1) →
      ({ s with state := Function.update s.state v st } : Trunks).trunkState c t' =
        s.trunkState c t' := fun t' hno =>
    trunkState_congr rfl fun w hw => update_of_ne (fun heq => hno (heq.subst hw)) ..
  unfold Trunks.enterState
  dsimp only
  cases htr : s.trunk v with
  | none =>
    refine ⟨⟨h.unique, h.trunk_iff, h.ports, hspeed, fun t' => ?_⟩, fun t' => ?_⟩
    · rw [hmade t' fun hin => ?_]
      · exact (hsame t').trans (h.state t')
      · have hsome := (h.trunk_iff v t').mpr hin
        rw [htr] at hsome
        exact absurd hsome.symm (Option.some_ne_none t')
    · exact List.filter_nil.trans (if_neg fun hx => hx.2 (hsame t')).symm
  | some t =>
    refine ⟨?_, announced_update hsame t⟩
    dsimp only
    rw [vifUpdateTrunkLinkStatus_snd]
    refine of_update { s with state := Function.update s.state v st } h.unique h.trunk_iff h.ports hspeed
      t fun t' ht' => ?_
    rw [hmade t' fun hin => ?_]
    · exact (hsame t').trans (h.state t')
    · exact ht' (Option.some_inj.mp (((h.trunk_iff v t').mpr hin).symm.trans htr))

/-- A new list of members gives the trunk a new link, and a change is announced. -/
theorem setTrunkMembers (h : Reported c s) (hw : McgHw) {mem : List TrunkMember}
    (hok : ∀ v ∈ c.named mem, ∀ t' ∈ s.trunk v, t' = t) :
    Reported c (s.setTrunkMembers c master hw t mem).2 ∧
      Announced master s (s.setTrunkMembers c master hw t mem).2
        (s.setTrunkMembers c master hw t mem).1 := by
  obtain ⟨s', hstate, hset, hsw⟩ := vifSetTrunkMembers_state c master s hw t mem
  have hm := membersSet c hw t mem (h.unique t)
  rw [hsw] at hm
  have hfree : ∀ v, (listed c mem v).isSome → ∀ t' ∈ s.trunk v, t' = t := fun v hv =>
    hok v (VifTable.mem_named_iff.mpr hv)
  rw [hset]
  -- the other trunks keep their members, since none of theirs is named
  refine ⟨?_, announced_update (fun t' => congrFun hstate _) t⟩
  rw [vifUpdateTrunkLinkStatus_snd]
  refine of_update s' (fun t' => ?_) (fun v => hm.trunk_iff (h.trunk_iff v) (hfree v))
    (fun t' v hv => ?_)
    (fun v => ?_) t fun t' ht' => ?_
  · by_cases ht : t' = t
    · subst ht
      exact hm.unique
    · exact (hm.other t' ht).symm ▸ h.unique t'
  · by_cases ht : t' = t
    · subst ht
      obtain ⟨x, -, hx⟩ := listed_isSome_iff.mp ((hm.mem_ports_iff v).mp hv)
      exact fun t₁ => VifTable.vifGetByGif_ne_trunk t₁ hx
    · have hsame := hm.other t' ht
      rw [updateTrunkLinkStatus_trunks] at hsame
      rw [hsame] at hv
      exact h.ports t' v hv
  · rw [hstate]
    exact h.speed v
  · rw [hstate, h.state t']
    have hsame := hm.other t' ht'
    rw [updateTrunkLinkStatus_trunks] at hsame
    exact (trunkState_congr (congrArg Trunk.vif_port hsame) fun v _ => congrFun hstate v).symm

end Reported

end Trunks

/-! ## The unit -/

/-- The trunks of a unit, `vifs[dev].vif_link_state_serial`, and whether the unit is the master. -/
structure LinkUnit extends Trunks where
  serial : ℕ → ℕ
  master : Bool

/-- What happens to a unit. -/
inductive LinkUnitOp
  | setMembers (hw : McgHw) (t : ℕ) (mem : List TrunkMember)
  | linkStatus (vifid : VifId) (state : PortLinkState)
  | packet (lsh : LsPkt)
  | clearSerial (newdevs : Finset ℕ)
  | elect (master : Bool)

namespace LinkUnit

variable (c : VifTable) (ids : TrunkIds)

/-- An entry of a packet, or a link state of the unit's own. -/
def entry (master : Bool) (s : Trunks) (e : VifId × PortLinkState) : List Notice × Trunks :=
  match c.vifGetn ids e.1 with
  | none => ([], s)
  | some v => s.enterState c master v e.2

/-- The loop of `vif_process_ls_pkt`. -/
def entries (master : Bool) : Trunks → List (VifId × PortLinkState) → List Notice × Trunks
  | s, [] => ([], s)
  | s, e :: data =>
    let r := entry c ids master s e
    let rs := entries master r.2 data
    (r.1 ++ rs.1, rs.2)

/-- `vif_set_link_status`. -/
def vifSetLinkStatus (u : LinkUnit) (vifid : VifId) (state : PortLinkState) :
    List Notice × LinkUnit :=
  let r := entry c ids u.master u.toTrunks (vifid, state)
  (r.1, { u with toTrunks := r.2, serial := update u.serial c.stack_id (u.serial c.stack_id + 1) })

/-- `vif_process_ls_pkt`. The serial of the unit that sent the packet stays what it was. -/
def vifProcessLsPkt (u : LinkUnit) (lsh : LsPkt) : List Notice × LinkUnit :=
  if lsh.serial ≤ u.serial lsh.stackId ∨ lsh.stackId = c.stack_id then ([], u)
  else
    let r := entries c ids u.master u.toTrunks lsh.data
    (r.1, { u with toTrunks := r.2 })

/-- `vif_get_state`. -/
def vifGetState (u : LinkUnit) (id : VifId) : Option PortLinkState := (c.vifGetn ids id).map u.state

/-- What is notified, and the unit afterwards. -/
def call (u : LinkUnit) : LinkUnitOp → List Notice × LinkUnit
  | .setMembers hw t mem =>
    let r := u.toTrunks.setTrunkMembers c u.master hw t mem
    (r.1, { u with toTrunks := r.2 })
  | .linkStatus vifid state => u.vifSetLinkStatus c ids vifid state
  | .packet lsh => u.vifProcessLsPkt c ids lsh
  -- `vif_ls_clear_serial`
  | .clearSerial newdevs =>
    ([], { u with serial := fun i => if i ∈ newdevs ∧ 1 ≤ i ∧ i ≤ 15 then 0 else u.serial i })
  | .elect master => ([], { u with master := master })

/-- A step of a run. -/
def step (u : LinkUnit) (op : LinkUnitOp) : Option LinkUnit := some (call c ids u op).2

/-- A unit after `trunk_init`. -/
def init (groups : ℕ → Option (VifRef → Bool)) (master : Bool) : LinkUnit where
  toTrunks := Trunks.init c.speed10 groups
  serial _ := 0
  master := master

/-- A link state is about a port, and a port that is up has a speed. -/
def OkEntry (e : VifId × PortLinkState) : Prop :=
  e.1.type ≠ .VIFT_PC ∧ (e.2.link = true → c.speed10 ≤ e.2.speed)

/-- A list names no port that another trunk has as a member, and the link states are about ports. -/
def Ok (u : LinkUnit) : LinkUnitOp → Prop
  | .setMembers _ t mem => mem.length ≤ 8 ∧ ∀ v ∈ c.named mem, ∀ t' ∈ u.trunk v, t' = t
  | .linkStatus vifid state => OkEntry c (vifid, state)
  | .packet lsh => ∀ e ∈ lsh.data, OkEntry c e
  | .clearSerial _ => True
  | .elect _ => True

/-- What is told along the entries of a packet is what each of them changes. -/
def EntriesAnnounced (master : Bool) : Trunks → List (VifId × PortLinkState) → List Notice → Prop
  | _, [], n => n = []
  | s, e :: data, n => ∃ n₁ n₂, n = n₁ ++ n₂ ∧
      Trunks.Announced master s (entry c ids master s e).2 n₁ ∧
      EntriesAnnounced master (entry c ids master s e).2 data n₂

/-- What a call tells is what changes, told by the units that `tells` says. -/
def CallAnnounced (tells : Bool) (u : LinkUnit) : LinkUnitOp → Prop
  | .packet lsh =>
    if lsh.serial ≤ u.serial lsh.stackId ∨ lsh.stackId = c.stack_id then
      (call c ids u (.packet lsh)).1 = []
    else EntriesAnnounced c ids tells u.toTrunks lsh.data (call c ids u (.packet lsh)).1
  | op => Trunks.Announced tells u.toTrunks (call c ids u op).2.toTrunks (call c ids u op).1

variable {c ids} {u u' : LinkUnit} {s : Trunks} {op : LinkUnitOp}

/-- An identifier that does not say trunk names no trunk. -/
theorem vifGetn_ne_trunk {id : VifId} {v : VifRef} (hid : id.type ≠ .VIFT_PC)
    (hv : c.vifGetn ids id = some v) (t : ℕ) : v ≠ .trunk t := by
  unfold VifTable.vifGetn VifTable.vifGet at hv
  rw [if_neg hid] at hv
  dsimp only at hv
  split_ifs at hv
  all_goals
    rw [← Option.some_inj.mp hv]
    exact VifRef.noConfusion

/-- Nothing is announced when nothing changes. -/
theorem announced_self (master : Bool) (s : Trunks) : Trunks.Announced master s s [] := fun _ =>
  List.filter_nil.trans (if_neg fun h => h.2 rfl).symm

/-- One entry of a packet keeps the trunks reported. -/
theorem reported_entry (ids : TrunkIds) (master : Bool) (h : Trunks.Reported c s)
    {e : VifId × PortLinkState}
    (he : OkEntry c e) : Trunks.Reported c (entry c ids master s e).2 ∧
      Trunks.Announced master s (entry c ids master s e).2 (entry c ids master s e).1 := by
  unfold entry
  cases hv : c.vifGetn ids e.1 with
  | none => exact ⟨h, announced_self master s⟩
  | some v => exact h.enterState (vifGetn_ne_trunk he.1 hv) he.2

/-- A packet keeps the trunks reported, and what its entries change is announced. -/
theorem reported_entries {master : Bool} {data : List (VifId × PortLinkState)}
    (h : Trunks.Reported c s) (hdata : ∀ e ∈ data, OkEntry c e) :
    Trunks.Reported c (entries c ids master s data).2 ∧
      EntriesAnnounced c ids master s data (entries c ids master s data).1 := by
  induction data generalizing s with
  | nil => exact ⟨h, rfl⟩
  | cons e data ih =>
    obtain ⟨he, hdata⟩ := List.forall_mem_cons.mp hdata
    obtain ⟨hone, htold⟩ := reported_entry ids master h he
    obtain ⟨hall, htolds⟩ := ih hone hdata
    exact ⟨hall, _, _, rfl, htold, htolds⟩

/-- **Step.** A call keeps the trunks reported, and what it changes is announced. -/
theorem reported_call (h : Trunks.Reported c u.toTrunks) (hok : Ok c u op) :
    Trunks.Reported c (call c ids u op).2.toTrunks ∧ CallAnnounced c ids u.master u op := by
  cases op with
  | setMembers hw t mem => exact h.setTrunkMembers hw hok.2
  | linkStatus vifid state => exact reported_entry ids u.master h hok
  | packet lsh =>
    by_cases hold : lsh.serial ≤ u.serial lsh.stackId ∨ lsh.stackId = c.stack_id
    · have hcall : call c ids u (.packet lsh) = ([], u) := if_pos hold
      dsimp only [CallAnnounced]
      rw [if_pos hold, hcall]
      exact ⟨h, rfl⟩
    · have hcall : call c ids u (.packet lsh) =
          ((entries c ids u.master u.toTrunks lsh.data).1,
            { u with toTrunks := (entries c ids u.master u.toTrunks lsh.data).2 }) := if_neg hold
      dsimp only [CallAnnounced]
      rw [if_neg hold, hcall]
      exact reported_entries h hok
  | clearSerial newdevs => exact ⟨h, announced_self u.master u.toTrunks⟩
  | elect master => exact ⟨h, announced_self u.master u.toTrunks⟩

/-- In every run in which no port is named that another trunk has as a member, the state that is
reported of a trunk is the aggregate over its enabled members, and the master tells each change of
it, once, and nothing else, while the other units tell nothing. -/
theorem reported_and_announced (c : VifTable) (ids : TrunkIds) (groups : ℕ → Option (VifRef → Bool))
    (master : Bool) (hr : Guarded.Reach (step c ids) (Ok c) (init c groups master) u) :
    (∀ dev t pls, u.vifGetState c ids ⟨.VIFT_PC, dev, t⟩ = some pls → u.Aggregate c t pls) ∧
      ∀ op, Ok c u op → CallAnnounced c ids u.master u op := by
  have hi : Trunks.Reported c u.toTrunks := by
    refine hr.invariant (fun u => Trunks.Reported c u.toTrunks)
      (Trunks.reported_init c groups) fun u op u' hi hok hs => ?_
    rw [← Option.some_inj.mp hs]
    exact (reported_call hi hok).1
  refine ⟨fun dev t pls hpls => ?_, fun op hok => (reported_call hi hok).2⟩
  obtain ⟨v, hv, rfl⟩ := Option.map_eq_some_iff.mp hpls
  have htrunk : v = .trunk t := by
    unfold VifTable.vifGetn at hv
    rw [if_pos rfl] at hv
    dsimp only at hv
    split_ifs at hv
    exact (Option.some_inj.mp hv).symm
  rw [htrunk]
  exact hi.aggregate t

/-! ### Runs -/

instance (e : VifId × PortLinkState) : Decidable (OkEntry c e) :=
  inferInstanceAs (Decidable (_ ∧ _))

instance (u : LinkUnit) (op : LinkUnitOp) : Decidable (Ok c u op) :=
  match op with
  | .setMembers .. => inferInstanceAs (Decidable (_ ∧ _))
  | .linkStatus .. => inferInstanceAs (Decidable (OkEntry ..))
  | .packet lsh => inferInstanceAs (Decidable (∀ e ∈ lsh.data, _))
  | .clearSerial _ => .isTrue trivial
  | .elect _ => .isTrue trivial

/-- Ten ports of unit 1 and ten of unit 2. -/
def twentyPorts : VifTable :=
  { TrunkRun.tenPorts with
    nByType := fun dev type => if (dev = 1 ∨ dev = 2) ∧ type = .VIFT_GE then 10 else 0 }

/-- A trunk with a port of each of two units, on unit 1. -/
def ofTwoUnits : List LinkUnitOp :=
  [.setMembers TrunkRun.reliable 3 [TrunkRun.member 4 true, ⟨⟨.GIFT_GE, 2, 5⟩, true⟩],
    .linkStatus ⟨.VIFT_GE, 1, 4⟩ ⟨true, 1, 1⟩,
    .packet ⟨2, 7, [(⟨.VIFT_GE, 2, 5⟩, ⟨true, 2, 0⟩)]⟩]

/-- The port of the other unit is faster. -/
theorem reported_and_announced_two : ∃ u,
    Guarded.Reach (step twentyPorts HwTrunks.trunkIds) (Ok twentyPorts)
      (init twentyPorts (fun _ => none) true) u ∧
    ((∀ dev t pls, u.vifGetState twentyPorts HwTrunks.trunkIds ⟨.VIFT_PC, dev, t⟩ = some pls →
        u.Aggregate twentyPorts t pls) ∧
      ∀ op, Ok twentyPorts u op → CallAnnounced twentyPorts HwTrunks.trunkIds u.master u op) ∧
    u.vifGetState twentyPorts HwTrunks.trunkIds ⟨.VIFT_PC, 0, 3⟩ = some ⟨true, 2, 1⟩ := by
  have hlast : (Guarded.run (step twentyPorts HwTrunks.trunkIds) (Ok twentyPorts)
      (init twentyPorts (fun _ => none) true) ofTwoUnits).map
        (fun u => u.vifGetState twentyPorts HwTrunks.trunkIds ⟨.VIFT_PC, 0, 3⟩) =
      some (some ⟨true, 2, 1⟩) := by
    decide +kernel
  obtain ⟨u, hu, hlast⟩ := Option.map_eq_some_iff.mp hlast
  have hreach := Guarded.Reach.init.of_run hu
  exact ⟨u, hreach, reported_and_announced _ _ _ _ hreach, hlast⟩

/-- A unit that is not the master does not tell that a trunk comes up. -/
theorem not_announced_elsewhere : ¬∀ (c : VifTable) (ids : TrunkIds)
    (groups : ℕ → Option (VifRef → Bool)) (master : Bool) (u : LinkUnit),
    Guarded.Reach (step c ids) (Ok c) (init c groups master) u →
      (∀ dev t pls, u.vifGetState c ids ⟨.VIFT_PC, dev, t⟩ = some pls → u.Aggregate c t pls) ∧
        ∀ op, Ok c u op → CallAnnounced c ids true u op := by
  intro h
  have hlast : (Guarded.run (step twentyPorts HwTrunks.trunkIds) (Ok twentyPorts)
      (init twentyPorts (fun _ => none) false)
      [.setMembers TrunkRun.reliable 3 [TrunkRun.member 4 true]]).map (fun u =>
        let r := call twentyPorts HwTrunks.trunkIds u (.linkStatus ⟨.VIFT_GE, 1, 4⟩ ⟨true, 1, 1⟩)
        (r.1, r.2.state (.trunk 3), u.state (.trunk 3))) =
      some ([], ⟨true, 1, 1⟩, ⟨false, 0, 0⟩) := by
    decide +kernel
  obtain ⟨u, hu, hlast⟩ := Option.map_eq_some_iff.mp hlast
  have htold := (h _ _ _ _ u (Guarded.Reach.init.of_run hu)).2
    (.linkStatus ⟨.VIFT_GE, 1, 4⟩ ⟨true, 1, 1⟩) ⟨by decide, fun _ => by decide⟩ 3
  obtain ⟨hnone, hrest⟩ := Prod.mk.inj hlast
  obtain ⟨hafter, hbefore⟩ := Prod.mk.inj hrest
  rw [hnone, hafter, hbefore] at htold
  exact absurd htold (by decide)

end LinkUnit

end Presteramgr
