import Presteramgr.Lib.Guarded
import Presteramgr.Trunk.Model

/-!
# The members of the trunks

A port that leaves a trunk or joins it is written in two places, the list of the trunk and the back
pointer of the port. `vif_set_trunk_members` takes from the list of its own trunk the ports that
are not named any more, and looks at no other list: a port that another trunk has as a member gets
the new back pointer, and stays in the list of the other trunk.

## Main definitions

* `listed`: the flag that a list of members gives a port;
* `TrunkOp`, `TrunkRun`: a run, with the members that each trunk ought to have;
* `TrunkRun.Membership`: lists, back pointers, flags and designated ports agree;
* `TrunkRun.Ok`: no port is named that another trunk has.

## Main results

* `TrunkRun.membership`: then lists and back pointers agree in every state reached;
* `TrunkRun.not_membership`: a port that moves straight to another trunk stays in both lists.
-/

namespace Presteramgr

open Function (update update_self update_of_ne)

/-- The flag that the list gives the port, if it names it: that of the last entry. -/
def listed (c : VifTable) (mem : List TrunkMember) (v : VifRef) : Option Bool :=
  ((mem.filter fun x => c.vifGetByGif x.id = some v).map (·.enabled)).getLast?

/-- The empty list names no interface. -/
theorem listed_nil (c : VifTable) (v : VifRef) : listed c [] v = none := rfl

/-- The last mention of an interface in a list decides whether it is enabled. -/
theorem listed_concat (c : VifTable) (mem : List TrunkMember) (x : TrunkMember) (v : VifRef) :
    listed c (mem ++ [x]) v =
      if c.vifGetByGif x.id = some v then some x.enabled else listed c mem v := by
  unfold listed
  by_cases hx : c.vifGetByGif x.id = some v
  · simp [hx]
  · simp [hx]

/-- An interface is listed when the list has the identifier of it. -/
theorem listed_isSome_iff {c : VifTable} {mem : List TrunkMember} {v : VifRef} :
    (listed c mem v).isSome ↔ ∃ x ∈ mem, c.vifGetByGif x.id = some v := by
  simp [listed]

/-- A listed interface comes from a member of the list that has the same flag. -/
theorem exists_of_listed {c : VifTable} {mem : List TrunkMember} {v : VifRef} {b : Bool}
    (h : listed c mem v = some b) : ∃ x ∈ mem, c.vifGetByGif x.id = some v ∧ x.enabled = b := by
  obtain ⟨x, hx, rfl⟩ := List.mem_map.mp (List.mem_of_getLast? h)
  obtain ⟨hx, hv⟩ := List.mem_filter.mp hx
  exact ⟨x, hx, of_decide_eq_true hv, rfl⟩

/-- The ports that the list names. -/
def VifTable.named (c : VifTable) (mem : List TrunkMember) : List VifRef :=
  mem.filterMap fun x => c.vifGetByGif x.id

/-- The interfaces named by a list are the listed ones. -/
theorem VifTable.mem_named_iff {c : VifTable} {mem : List TrunkMember} {v : VifRef} :
    v ∈ c.named mem ↔ (listed c mem v).isSome := by
  rw [listed_isSome_iff]
  exact List.mem_filterMap

/-- `vif_get_by_gif` gives ports only. -/
theorem VifTable.vifGetByGif_ne_trunk {c : VifTable} {id : GifId} {v : VifRef} (t : ℕ)
    (hv : c.vifGetByGif id = some v) : v ≠ .trunk t := by
  have hget : ∀ type dev num, c.vifGet type dev num = some v → v ≠ .trunk t := by
    intro type dev num hv
    simp only [VifTable.vifGet] at hv
    split_ifs at hv
    all_goals
      rw [← Option.some_inj.mp hv]
      exact VifRef.noConfusion
  unfold VifTable.vifGetByGif at hv
  split at hv
  · exact hget _ _ _ hv
  · exact hget _ _ _ hv
  · exact hget _ _ _ hv
  · exact absurd hv.symm (Option.some_ne_none _)

namespace Trunks

variable {c : VifTable} {hw : McgHw} {s : Trunks}

/-! ## Frames -/

/-- The groups and the link states are all that a call changes. -/
structure SameMembers (s s' : Trunks) : Prop where
  trunks : s'.trunks = s.trunks
  trunk : s'.trunk = s.trunk

/-- Nothing changed: the members and the pointers are the same. -/
theorem SameMembers.rfl : SameMembers s s := ⟨.refl _, .refl _⟩

/-- Two steps that keep the members keep them together. -/
theorem SameMembers.trans {s' s'' : Trunks} (h : SameMembers s s') (h' : SameMembers s' s'') :
    SameMembers s s'' :=
  ⟨h'.trunks.trans h.trunks, h'.trunk.trans h.trunk⟩

/-- A loop over steps that keep the members keeps the members. -/
theorem SameMembers.foldl {α : Type*} {f : Trunks → α → Trunks}
    (hf : ∀ s a, SameMembers s (f s a)) (l : List α) (s : Trunks) :
    SameMembers s (l.foldl f s) := by
  induction l generalizing s with
  | nil => exact .rfl
  | cons a l ih => exact (hf s a).trans (ih (f s a))

/-- Adding a port to a multicast group does not touch the members of the trunks. -/
theorem mcgAddPort_same (mcg : ℕ) (v : VifRef) : SameMembers s (s.mcgAddPort hw mcg v).2 := by
  unfold mcgAddPort
  split
  · exact .rfl
  · split_ifs
    · exact .rfl
    · exact ⟨.refl _, .refl _⟩
    · exact .rfl

/-- Taking a port out of a multicast group does not touch the members of the trunks. -/
theorem mcgDelPort_same (mcg : ℕ) (v : VifRef) : SameMembers s (s.mcgDelPort hw mcg v).2 := by
  rw [mcgDelPort_snd]
  split
  · exact .rfl
  · split_ifs
    · exact ⟨.refl _, .refl _⟩
    · exact .rfl

/-- `port_mcg_add_vif` does not touch the members of the trunks. -/
theorem portMcgAdd_same (v : VifRef) (mcg : ℕ) : SameMembers s (s.portMcgAdd c hw v mcg).2 := by
  unfold portMcgAdd
  split_ifs
  · exact mcgAddPort_same mcg v
  · exact .rfl

/-- `port_mcg_del_vif` does not touch the members of the trunks. -/
theorem portMcgDel_same (v : VifRef) (mcg : ℕ) : SameMembers s (s.portMcgDel c hw v mcg).2 := by
  unfold portMcgDel
  split_ifs
  · exact mcgDelPort_same mcg v
  · exact .rfl

/-- A port that enters the groups of its trunk stays where it is in the lists of members. -/
theorem addToGroups_same (v : VifRef) (mcgs : List ℕ) :
    SameMembers s (s.addToGroups c hw v mcgs) :=
  .foldl (fun _ mcg => portMcgAdd_same v mcg) mcgs s

/-- A port that leaves the groups of its trunk stays where it is in the lists of members. -/
theorem delFromGroups_same (v : VifRef) (mcgs : List ℕ) :
    SameMembers s (s.delFromGroups c hw v mcgs) :=
  .foldl (fun _ mcg => portMcgDel_same v mcg) mcgs s

/-! ## The loops of `vif_set_trunk_members` -/

/-- A port that leaves a trunk is still listed: the lists are filtered after the loop. -/
theorem leave_trunks (t : ℕ) (v : VifRef) : (s.leave c hw t v).trunks = s.trunks :=
  (delFromGroups_same v _).trunks

/-- A port that leaves a trunk points to no trunk. -/
theorem leave_trunk (t : ℕ) (v : VifRef) : (s.leave c hw t v).trunk = update s.trunk v none :=
  (delFromGroups_same v _).trunk

/-- The back pointers of the ports that leave are cleared. -/
theorem leave_foldl (c : VifTable) (hw : McgHw) (t : ℕ) (l : List (VifRef × Bool)) (s : Trunks) :
    (l.foldl (fun s m => s.leave c hw t m.1) s).trunks = s.trunks ∧
      ∀ v, (l.foldl (fun s m => s.leave c hw t m.1) s).trunk v =
        if v ∈ l.map (·.1) then none else s.trunk v := by
  induction l generalizing s with
  | nil => exact ⟨rfl, fun v => by simp⟩
  | cons m l ih =>
    obtain ⟨htrunks, htrunk⟩ := ih (s.leave c hw t m.1)
    refine ⟨htrunks.trans (leave_trunks t m.1), fun v => ?_⟩
    rw [List.foldl_cons, htrunk v, leave_trunk]
    by_cases hv : v = m.1
    · subst hv
      simp
    · rw [update_of_ne hv]
      simp [hv]

/-- Dropping the old members keeps those of them that the new list names. -/
theorem dropMembers_trunks (c : VifTable) (hw : McgHw) (s : Trunks) (t : ℕ)
    (mem : List TrunkMember) :
    (s.dropMembers c hw t mem).trunks =
      update s.trunks t { s.trunks t with
        vif_port := (s.trunks t).vif_port.filter (stays c mem) } := by
  have htrunks := (leave_foldl c hw t
    ((s.trunks t).vif_port.filter fun m => !stays c mem m) s).1
  unfold dropMembers modifyTrunk
  simp only [htrunks]

/-- Dropping the old members clears the back pointers of the dropped ones only. -/
theorem dropMembers_trunk (t : ℕ) (mem : List TrunkMember) (v : VifRef) :
    (s.dropMembers c hw t mem).trunk v =
      if v ∈ ((s.trunks t).vif_port.filter fun m => !stays c mem m).map (·.1) then none
      else s.trunk v :=
  (leave_foldl c hw t _ s).2 v

/-- A round of the second loop puts the port in the list of the trunk. -/
theorem enter_of_some (hw : McgHw) (s : Trunks) {t : ℕ} {x : TrunkMember} {v : VifRef}
    (hx : c.vifGetByGif x.id = some v) :
    (s.enter c hw t x).trunks = update s.trunks t { s.trunks t with
        vif_port := Keyed.put Prod.fst (s.trunks t).vif_port (v, x.enabled) } ∧
      (s.enter c hw t x).trunk = update s.trunk v (some t) := by
  unfold enter Keyed.put
  simp only [hx]
  cases hfind : (s.trunks t).vif_port.find? (·.1 = v) with
  | some m =>
    have hkey : (Keyed.find Prod.fst (s.trunks t).vif_port v).isSome = true :=
      Option.isSome_of_eq_some hfind
    -- the calls on groups, whichever are made, leave the members alone
    have hsame : SameMembers s
        (if x.enabled ∧ ¬m.2 then s.addToGroups c hw v (s.trunks t).mcg_head
        else if ¬x.enabled ∧ m.2 then s.delFromGroups c hw v (s.trunks t).mcg_head else s) := by
      split_ifs
      · exact addToGroups_same v _
      · exact delFromGroups_same v _
      · exact .rfl
    rw [if_pos hkey]
    simp only [modifyTrunk, hsame.trunks, hsame.trunk, and_self]
  | none =>
    have hkey : ¬(Keyed.find Prod.fst (s.trunks t).vif_port v).isSome = true :=
      Option.not_isSome_iff_eq_none.mpr hfind
    rw [if_neg hkey]
    simp only [modifyTrunk]
    split_ifs
    · exact ⟨(delFromGroups_same v _).trunks, (delFromGroups_same v _).trunk⟩
    · exact ⟨rfl, rfl⟩

/-- A member whose identifier names no interface is passed over. -/
theorem enter_of_none {t : ℕ} {x : TrunkMember} (hx : c.vifGetByGif x.id = none) :
    s.enter c hw t x = s := by
  unfold enter
  rw [hx]

/-- What the second loop has done when it has been through the entries `mem`, from a list of the
trunk that names each port once. -/
structure Entered (c : VifTable) (t : ℕ) (mem : List TrunkMember) (s s' : Trunks) : Prop where
  other : ∀ t' ≠ t, s'.trunks t' = s.trunks t'
  mcg_head : (s'.trunks t).mcg_head = (s.trunks t).mcg_head
  unique : Keyed.Unique Prod.fst (s'.trunks t).vif_port
  mem_iff : ∀ v b, (v, b) ∈ (s'.trunks t).vif_port ↔
    listed c mem v = some b ∨ listed c mem v = none ∧ (v, b) ∈ (s.trunks t).vif_port
  trunk : ∀ v, s'.trunk v = if (listed c mem v).isSome then some t else s.trunk v

/-- After none of the new members has been entered, the state is the one before. -/
theorem Entered.nil {t : ℕ} (hu : Keyed.Unique Prod.fst (s.trunks t).vif_port) :
    Entered c t [] s s where
  other _ _ := rfl
  mcg_head := rfl
  unique := hu
  mem_iff v b := by simp [listed_nil]
  trunk v := by simp [listed_nil]

/-- Entering one more member gives the state after the longer list. -/
theorem Entered.concat {t : ℕ} {mem : List TrunkMember} {x : TrunkMember} {s' : Trunks}
    (h : Entered c t mem s s') : Entered c t (mem ++ [x]) s (s'.enter c hw t x) := by
  cases hx : c.vifGetByGif x.id with
  | none =>
    have hlisted : ∀ v, listed c (mem ++ [x]) v = listed c mem v := fun v => by
      rw [listed_concat, hx, if_neg (Option.some_ne_none v).symm]
    rw [enter_of_none hx]
    exact ⟨h.other, h.mcg_head, h.unique, fun v b => by rw [hlisted, h.mem_iff],
      fun v => by rw [hlisted, h.trunk]⟩
  | some w =>
    obtain ⟨htrunks, htrunk⟩ := enter_of_some hw s' (t := t) hx
    have hself : listed c (mem ++ [x]) w = some x.enabled := by
      rw [listed_concat, hx, if_pos rfl]
    have hne : ∀ v ≠ w, listed c (mem ++ [x]) v = listed c mem v := fun v hv => by
      rw [listed_concat, hx, if_neg fun h => hv (Option.some_inj.mp h).symm]
    refine ⟨fun t' ht' => ?_, ?_, ?_, fun v b => ?_, fun v => ?_⟩
    · rw [htrunks, update_of_ne ht', h.other t' ht']
    · rw [htrunks, update_self, h.mcg_head]
    · rw [htrunks, update_self]
      exact h.unique.put
    · rw [htrunks, update_self, h.unique.mem_put_iff]
      by_cases hv : v = w
      · subst hv
        rw [hself]
        simp [eq_comm]
      · rw [hne v hv, ← h.mem_iff v b]
        simp [hv]
    · rw [htrunk]
      by_cases hv : v = w
      · subst hv
        rw [update_self, hself, Option.isSome_some, if_pos rfl]
      · rw [update_of_ne hv, hne v hv, h.trunk v]

/-- The loop over the new members enters all of them. -/
theorem entered (c : VifTable) (hw : McgHw) {t : ℕ} (mem : List TrunkMember)
    (hu : Keyed.Unique Prod.fst (s.trunks t).vif_port) :
    Entered c t mem s (mem.foldl (fun s x => s.enter c hw t x) s) := by
  induction mem using List.reverseRecOn with
  | nil => exact .nil hu
  | append_singleton mem x ih =>
    rw [List.foldl_append]
    exact ih.concat

/-! ## `vif_set_trunk_members` -/

/-- The link of a trunk is computed from its members and changes none of them. -/
theorem updateTrunkLinkStatus_trunks (t : ℕ) :
    (s.updateTrunkLinkStatus c t).trunks = s.trunks := rfl

/-- An old member stays when its interface is still there and the new list names it. -/
theorem stays_iff {mem : List TrunkMember} {m : VifRef × Bool} :
    stays c mem m ↔ c.valid m.1 ∧ (listed c mem m.1).isSome := by
  rw [listed_isSome_iff]
  simp [stays]

/-- What a call leaves: the ports that the list names, with the flags that it gives them. -/
structure MembersSet (c : VifTable) (t : ℕ) (mem : List TrunkMember) (s s' : Trunks) : Prop where
  other : ∀ t' ≠ t, s'.trunks t' = s.trunks t'
  mcg_head : (s'.trunks t).mcg_head = (s.trunks t).mcg_head
  unique : Keyed.Unique Prod.fst (s'.trunks t).vif_port
  mem_iff : ∀ v b, (v, b) ∈ (s'.trunks t).vif_port ↔ listed c mem v = some b
  trunk : ∀ v, s'.trunk v =
    if (listed c mem v).isSome then some t
    else if v ∈ (s.trunks t).vif_port.map (·.1) then none else s.trunk v
  designated : (s'.trunks t).designated = ((s'.trunks t).vif_port.find? (·.2)).map (·.1)

/-- `vif_set_trunk_members` sets the members of one trunk as its list says. -/
theorem membersSet (c : VifTable) (hw : McgHw) (t : ℕ) (mem : List TrunkMember)
    (hu : Keyed.Unique Prod.fst (s.trunks t).vif_port) :
    MembersSet c t mem s (s.vifSetTrunkMembers c hw t mem) := by
  have hdrop := dropMembers_trunks c hw s t mem
  have hport : ((s.dropMembers c hw t mem).trunks t).vif_port =
      (s.trunks t).vif_port.filter (stays c mem) := by rw [hdrop, update_self]
  have hu' : Keyed.Unique Prod.fst ((s.dropMembers c hw t mem).trunks t).vif_port := by
    rw [hport]
    exact hu.sublist (List.filter_sublist.map _)
  have he := entered c hw mem hu'
  unfold vifSetTrunkMembers
  simp only [modifyTrunk]
  refine ⟨fun t' ht' => ?_, ?_, ?_, fun v b => ?_, fun v => ?_, ?_⟩
  all_goals simp only [updateTrunkLinkStatus, update_self]
  · rw [update_of_ne ht', he.other t' ht', hdrop, update_of_ne ht']
  · rw [he.mcg_head, hdrop, update_self]
  · exact he.unique
  · rw [he.mem_iff, hport, List.mem_filter, stays_iff]
    -- a port that the first loop leaves in the list is named
    constructor
    · rintro (h | ⟨hnone, -, -, hsome⟩)
      · exact h
      · rw [hnone] at hsome
        exact absurd hsome Bool.false_ne_true
    · exact .inl
  · rw [he.trunk, dropMembers_trunk]
    cases hl : listed c mem v with
    | some b => rfl
    | none =>
      have hgone : ∀ m : VifRef × Bool, m.1 = v → stays c mem m = false := by
        rintro m rfl
        rw [Bool.eq_false_iff, ne_eq, stays_iff, hl]
        exact fun h => Bool.false_ne_true h.2
      have hiff : v ∈ ((s.trunks t).vif_port.filter fun m => !stays c mem m).map (·.1) ↔
          v ∈ (s.trunks t).vif_port.map (·.1) := by
        constructor
        · intro hv
          obtain ⟨m, hm, rfl⟩ := List.mem_map.mp hv
          exact List.mem_map_of_mem (List.mem_filter.mp hm).1
        · intro hv
          obtain ⟨m, hm, rfl⟩ := List.mem_map.mp hv
          refine List.mem_map_of_mem (List.mem_filter.mpr ⟨hm, ?_⟩)
          rw [hgone m rfl]
          rfl
      simp only [Option.isSome_none, hiff]

/-- A port is a member of a trunk with some flag. -/
theorem mem_ports_iff {l : List (VifRef × Bool)} {v : VifRef} :
    v ∈ l.map (·.1) ↔ ∃ b, (v, b) ∈ l := by
  simp

namespace MembersSet

variable {t : ℕ} {mem : List TrunkMember} {s' : Trunks} (h : MembersSet c t mem s s')

include h

/-- The ports of the trunk after a call are the ones its list names. -/
theorem mem_ports_iff (v : VifRef) :
    v ∈ (s'.trunks t).vif_port.map (·.1) ↔ (listed c mem v).isSome := by
  rw [Trunks.mem_ports_iff, Option.isSome_iff_exists]
  exact exists_congr fun b => h.mem_iff v b

/-- The back pointer of a port that no other trunk has agrees with the lists afterwards. -/
theorem trunk_iff {v : VifRef}
    (hv : ∀ t', s.trunk v = some t' ↔ v ∈ (s.trunks t').vif_port.map (·.1))
    (hok : (listed c mem v).isSome → ∀ t' ∈ s.trunk v, t' = t) (t' : ℕ) :
    s'.trunk v = some t' ↔ v ∈ (s'.trunks t').vif_port.map (·.1) := by
  rw [h.trunk v]
  by_cases ht : t' = t
  · subst ht
    rw [h.mem_ports_iff]
    cases hl : listed c mem v with
    | some b => simp
    | none =>
      -- the port is not named, and is not left in the list
      simp only [Option.isSome_none, Bool.false_eq_true, if_false, iff_false]
      split_ifs with hmem
      · exact not_false
      · exact fun h' => hmem ((hv t').mp h')
  · rw [h.other t' ht, ← hv t']
    cases hl : listed c mem v with
    | some b =>
      rw [Option.isSome_some, if_pos rfl]
      constructor
      · exact fun h' => absurd (Option.some_inj.mp h').symm ht
      · exact fun h' => absurd (hok (by rw [hl, Option.isSome_some]) t' h') ht
    | none =>
      simp only [Option.isSome_none, Bool.false_eq_true, if_false]
      split_ifs with hmem
      · rw [(hv t).mpr hmem]
        constructor
        · exact False.elim
        · exact fun h' => absurd (Option.some_inj.mp h').symm ht
      · exact Iff.rfl

/-- A trunk has no more members than the list has entries. -/
theorem length_le : (s'.trunks t).vif_port.length ≤ mem.length := by
  have hsub : (s'.trunks t).vif_port.map (·.1) ⊆ c.named mem := fun v hv =>
    VifTable.mem_named_iff.mpr ((h.mem_ports_iff v).mp hv)
  calc (s'.trunks t).vif_port.length
      = ((s'.trunks t).vif_port.map (·.1)).length := (List.length_map _).symm
    _ ≤ (c.named mem).length :=
      (List.Nodup.subperm h.unique hsub).length_le
    _ ≤ mem.length := List.length_filterMap_le _ _

/-- The designated port of a trunk is an enabled member of it. -/
theorem designated_mem {v : VifRef} (hd : (s'.trunks t).designated = some v) :
    (v, true) ∈ (s'.trunks t).vif_port := by
  rw [h.designated] at hd
  obtain ⟨⟨w, b⟩, hfind, rfl⟩ := Option.map_eq_some_iff.mp hd
  have hb : b = true := List.find?_some hfind
  rw [← hb]
  exact List.mem_of_find?_eq_some hfind

/-- A trunk without a designated port has no enabled member. -/
theorem not_mem_of_designated (hd : (s'.trunks t).designated = none) (v : VifRef) :
    (v, true) ∉ (s'.trunks t).vif_port := by
  rw [h.designated, Option.map_eq_none_iff] at hd
  exact fun hmem => List.find?_eq_none.mp hd _ hmem rfl

end MembersSet

/-- A change of a link leaves members and groups alone. -/
theorem vifSetLinkStatus_same (v : VifRef) (st : PortLinkState) :
    SameMembers s (s.vifSetLinkStatus c v st) ∧ (s.vifSetLinkStatus c v st).groups = s.groups := by
  unfold vifSetLinkStatus
  cases hv : s.trunk v with
  | none => exact ⟨by simp only [hv]; exact ⟨rfl, rfl⟩, by simp only [hv]⟩
  | some t => exact ⟨by simp only [hv]; exact ⟨rfl, rfl⟩, by simp only [hv]; rfl⟩

/-! ## Calls on the groups of a trunk -/

/-- The lists of the members and the back pointers are the same. -/
structure SameLists (s s' : Trunks) : Prop where
  vif_port : ∀ t, (s'.trunks t).vif_port = (s.trunks t).vif_port
  designated : ∀ t, (s'.trunks t).designated = (s.trunks t).designated
  trunk : s'.trunk = s.trunk

/-- Steps that keep the members keep the lists of them. -/
theorem SameMembers.lists {s' : Trunks} (h : SameMembers s s') : SameLists s s' :=
  ⟨fun t => by rw [h.trunks], fun t => by rw [h.trunks], h.trunk⟩

/-- A change of the groups of one trunk keeps the lists of members. -/
theorem SameLists.of_mcg_head {s' : Trunks} {t : ℕ} (f : List ℕ → List ℕ)
    (h : SameMembers (s.modifyTrunk t fun tr => { tr with mcg_head := f tr.mcg_head }) s') :
    SameLists s s' := by
  refine ⟨fun t' => ?_, fun t' => ?_, h.trunk⟩
  all_goals
    rw [h.trunks]
    by_cases ht : t' = t
    · subst ht
      simp [modifyTrunk]
    · simp [modifyTrunk, update_of_ne ht]

/-- Adding a trunk to a group keeps the lists of members. -/
theorem trunkMcgAdd_lists (t mcg : ℕ) : SameLists s (s.trunkMcgAdd c hw t mcg).2 := by
  unfold trunkMcgAdd
  by_cases hm : mcg ∈ (s.trunks t).mcg_head
  · rw [if_pos hm]
    exact SameMembers.rfl.lists
  · rw [if_neg hm]
    exact .of_mcg_head (· ++ [mcg]) (.foldl (fun s v => portMcgAdd_same v mcg) _ _)

/-- Taking a trunk out of a group keeps the lists of members. -/
theorem trunkMcgDel_lists (t mcg : ℕ) : SameLists s (s.trunkMcgDel c hw t mcg).2 := by
  unfold trunkMcgDel
  by_cases hm : mcg ∉ (s.trunks t).mcg_head
  · rw [if_pos hm]
    exact SameMembers.rfl.lists
  · rw [if_neg hm]
    exact .of_mcg_head (·.erase mcg) (.foldl (fun s v => portMcgDel_same v mcg) _ _)

/-- Adding any interface to a group keeps the lists of members. -/
theorem vifMcgAddVif_lists (mcg : ℕ) (v : VifRef) : SameLists s (s.vifMcgAddVif c hw mcg v).2 := by
  cases v with
  | trunk t => exact trunkMcgAdd_lists t mcg
  | port dev type num => exact (portMcgAdd_same _ mcg).lists

/-- Taking any interface out of a group keeps the lists of members. -/
theorem vifMcgDelVif_lists (mcg : ℕ) (v : VifRef) : SameLists s (s.vifMcgDelVif c hw mcg v).2 := by
  cases v with
  | trunk t => exact trunkMcgDel_lists t mcg
  | port dev type num => exact (portMcgDel_same _ mcg).lists

/-- A port is in a group. -/
def inGroup (mcg : ℕ) (v : VifRef) : Bool :=
  match s.groups mcg with
  | none => false
  | some ports => ports v

end Trunks

/-! ## Runs -/

/-- The calls that reach the trunks, and what the hardware makes of them. -/
inductive TrunkOp
  | setMembers (hw : McgHw) (t : ℕ) (mem : List TrunkMember)
  | linkStatus (v : VifRef) (st : PortLinkState)
  | mcgAdd (hw : McgHw) (mcg : ℕ) (v : VifRef)
  | mcgDel (hw : McgHw) (mcg : ℕ) (v : VifRef)

/-- The state of the unit, the flag that each trunk owes each port since the last lists, and the
ports that are in a group on their own account. -/
structure TrunkRun extends Trunks where
  owed : ℕ → VifRef → Option Bool
  direct : ℕ → VifRef → Bool

namespace TrunkRun

variable (c : VifTable)

/-- The members that the trunks owe after the list `mem` for `t`. -/
def owe (owed : ℕ → VifRef → Option Bool) (t : ℕ) (mem : List TrunkMember) :
    ℕ → VifRef → Option Bool :=
  fun t' v =>
    if t' = t then listed c mem v else if (listed c mem v).isSome then none else owed t' v

/-- A port stays in a group on its own account while it is in the group. -/
def keep (direct : ℕ → VifRef → Bool) (s : Trunks) : ℕ → VifRef → Bool :=
  fun mcg v => direct mcg v && s.inGroup mcg v

/-- The calls on the trunks. -/
def call (s : Trunks) : TrunkOp → Trunks
  | .setMembers hw t mem => s.vifSetTrunkMembers c hw t mem
  | .linkStatus v st => s.vifSetLinkStatus c v st
  | .mcgAdd hw mcg v => (s.vifMcgAddVif c hw mcg v).2
  | .mcgDel hw mcg v => (s.vifMcgDelVif c hw mcg v).2

/-- A step of a run. -/
def step (r : TrunkRun) (op : TrunkOp) : Option TrunkRun :=
  let s := call c r.toTrunks op
  some {
    toTrunks := s
    owed := match op with
      | .setMembers _ t mem => owe c r.owed t mem
      | _ => r.owed
    direct := match op with
      -- a port that is added and was not in the group is there on its own account
      | .mcgAdd hw mcg (.port dev type num) =>
        let v := .port dev type num
        if (r.vifMcgAddVif c hw mcg v).1 = .ST_OK then
          keep (update r.direct mcg (update (r.direct mcg) v true)) s
        else keep r.direct s
      | _ => keep r.direct s }

/-- The trunks after `trunk_init`. -/
def init (groups : ℕ → Option (VifRef → Bool)) : TrunkRun where
  toTrunks := Trunks.init c.speed10 groups
  owed _ _ := none
  direct mcg v := (Trunks.init c.speed10 groups).inGroup mcg v

/-- Lists, back pointers, flags and designated ports agree. -/
structure Membership (r : TrunkRun) : Prop where
  trunk_iff : ∀ v t, r.trunk v = some t ↔ v ∈ (r.trunks t).vif_port.map (·.1)
  nodup : ∀ t, ((r.trunks t).vif_port.map (·.1)).Nodup
  one_trunk : ∀ v t t', v ∈ (r.trunks t).vif_port.map (·.1) →
    v ∈ (r.trunks t').vif_port.map (·.1) → t = t'
  flags : ∀ v t b, (v, b) ∈ (r.trunks t).vif_port ↔ r.owed t v = some b
  designated : ∀ t v, (r.trunks t).designated = some v → (v, true) ∈ (r.trunks t).vif_port
  designated_none : ∀ t, (r.trunks t).designated = none → ∀ v, (v, true) ∉ (r.trunks t).vif_port
  length_le : ∀ t, (r.trunks t).vif_port.length ≤ 8

/-- A list has at most eight entries, as `trunk_set_members` checks. -/
def Short (_ : TrunkRun) : TrunkOp → Prop
  | .setMembers _ _ mem => mem.length ≤ 8
  | _ => True

/-- A list names no port that another trunk has as a member. -/
def Ok (r : TrunkRun) : TrunkOp → Prop
  | .setMembers _ t mem => mem.length ≤ 8 ∧ ∀ v ∈ c.named mem, ∀ t' ∈ r.trunk v, t' = t
  | _ => True

variable {c : VifTable} {r r' : TrunkRun}

/-- Before the first call no trunk has a member. -/
theorem membership_init (groups : ℕ → Option (VifRef → Bool)) : (init c groups).Membership where
  trunk_iff v t := by simp [init, Trunks.init]
  nodup _ := List.nodup_nil
  one_trunk v t t' hv := absurd hv List.not_mem_nil
  flags v t b := by simp [init, Trunks.init]
  designated t v hd := absurd hd.symm (Option.some_ne_none v)
  designated_none _ _ _ := List.not_mem_nil
  length_le _ := Nat.zero_le 8

/-- What the lists and the back pointers do not show does not matter. -/
theorem Membership.of_lists (hm : r.Membership) (hs : Trunks.SameLists r.toTrunks r'.toTrunks)
    (howed : r'.owed = r.owed) : r'.Membership where
  trunk_iff v t := by rw [hs.trunk, hs.vif_port, hm.trunk_iff]
  nodup t := by rw [hs.vif_port]; exact hm.nodup t
  one_trunk v t t' := by rw [hs.vif_port, hs.vif_port]; exact hm.one_trunk v t t'
  flags v t b := by rw [hs.vif_port, howed, hm.flags]
  designated t v := by rw [hs.designated, hs.vif_port]; exact hm.designated t v
  designated_none t := by rw [hs.designated, hs.vif_port]; exact hm.designated_none t
  length_le t := by rw [hs.vif_port]; exact hm.length_le t

/-- A list that names no port of another trunk. -/
theorem Membership.setMembers {t : ℕ} {mem : List TrunkMember} (hm : r.Membership)
    (hlen : mem.length ≤ 8)
    (hok : ∀ v ∈ c.named mem, ∀ t' ∈ r.trunk v, t' = t)
    (hs : Trunks.MembersSet c t mem r.toTrunks r'.toTrunks)
    (howed : r'.owed = owe c r.owed t mem) : r'.Membership := by
  have hfree : ∀ v, (listed c mem v).isSome → ∀ t' ∈ r.trunk v, t' = t := fun v hv =>
    hok v (VifTable.mem_named_iff.mpr hv)
  have htrunk : ∀ v t', r'.trunk v = some t' ↔ v ∈ (r'.trunks t').vif_port.map (·.1) := fun v =>
    hs.trunk_iff (hm.trunk_iff v) (hfree v)
  refine ⟨htrunk, fun t' => ?_, fun v t₁ t₂ h₁ h₂ => ?_, fun v t' b => ?_, fun t' v hd => ?_,
    fun t' hd => ?_, fun t' => ?_⟩
  · by_cases ht : t' = t
    · subst ht
      exact hs.unique
    · rw [hs.other t' ht]
      exact hm.nodup t'
  · exact Option.some_inj.mp (((htrunk v t₁).mpr h₁).symm.trans ((htrunk v t₂).mpr h₂))
  · rw [howed]
    unfold owe
    by_cases ht : t' = t
    · subst ht
      rw [if_pos rfl, hs.mem_iff]
    · rw [if_neg ht, hs.other t' ht, hm.flags]
      by_cases hv : (listed c mem v).isSome
      · -- a port that is named now is not owed by another trunk
        rw [if_pos hv]
        constructor
        · intro howe
          have hin := Trunks.mem_ports_iff.mpr ⟨b, (hm.flags v t' b).mpr howe⟩
          exact absurd (hfree v hv t' ((hm.trunk_iff v t').mpr hin)) ht
        · exact fun h => absurd h.symm (Option.some_ne_none b)
      · rw [if_neg hv]
  · by_cases ht : t' = t
    · subst ht
      exact hs.designated_mem hd
    · rw [hs.other t' ht] at hd ⊢
      exact hm.designated t' v hd
  · by_cases ht : t' = t
    · subst ht
      exact hs.not_mem_of_designated hd
    · rw [hs.other t' ht] at hd ⊢
      exact hm.designated_none t' hd
  · by_cases ht : t' = t
    · subst ht
      exact hs.length_le.trans hlen
    · rw [hs.other t' ht]
      exact hm.length_le t'

/-- **Step.** An allowed call keeps the pointers, the lists and the designated ports in step. -/
theorem Membership.step {op : TrunkOp} (hm : r.Membership) (hok : Ok c r op)
    (hs : step c r op = some r') : r'.Membership := by
  obtain rfl := Option.some_inj.mp hs
  cases op with
  | setMembers hw t mem =>
    exact hm.setMembers hok.1 hok.2 (Trunks.membersSet c hw t mem (hm.nodup t)) rfl
  | linkStatus v st =>
    exact hm.of_lists (Trunks.vifSetLinkStatus_same v st).1.lists rfl
  | mcgAdd hw mcg v => exact hm.of_lists (Trunks.vifMcgAddVif_lists mcg v) rfl
  | mcgDel hw mcg v => exact hm.of_lists (Trunks.vifMcgDelVif_lists mcg v) rfl

/-- In every run in which no port is named that another trunk has as a member, the lists of the
trunks, the back pointers of the ports, the flags last set and the designated ports agree. -/
theorem membership (c : VifTable) (groups : ℕ → Option (VifRef → Bool))
    (hr : Guarded.Reach (step c) (Ok c) (init c groups) r) : r.Membership :=
  hr.invariant _ (membership_init groups) fun _ _ _ hm hok hs => hm.step hok hs

instance (r : TrunkRun) (op : TrunkOp) : Decidable (Short r op) :=
  match op with
  | .setMembers _ _ mem => Nat.decLe mem.length 8
  | .linkStatus .. => .isTrue trivial
  | .mcgAdd .. => .isTrue trivial
  | .mcgDel .. => .isTrue trivial

instance (r : TrunkRun) (op : TrunkOp) : Decidable (Ok c r op) :=
  match op with
  | .setMembers .. => inferInstanceAs (Decidable (_ ∧ _))
  | .linkStatus .. => .isTrue trivial
  | .mcgAdd .. => .isTrue trivial
  | .mcgDel .. => .isTrue trivial

/-! ### Runs -/

/-- Unit 1, with ten gigabit ports and no others. -/
def tenPorts : VifTable where
  stack_id := 1
  nByType dev type := if dev = 1 ∧ type = .VIFT_GE then 10 else 0
  valid _ := true
  valid_own _ _ := rfl
  speed10 := 0

/-- A member by its number. -/
def member (num : ℕ) (enabled : Bool) : TrunkMember := ⟨⟨.GIFT_GE, 1, num⟩, enabled⟩

/-- A hardware without failures. -/
def reliable : McgHw := ⟨fun _ _ => true, fun _ _ => .GT_OK⟩

/-- A port that leaves a trunk and joins another one, in two calls for the first. -/
theorem membership_moved : ∃ r, Guarded.Reach (step tenPorts) (Ok tenPorts)
    (init tenPorts fun _ => none) r ∧ r.Membership ∧
      r.trunk (.port 1 .VIFT_GE 3) = some 2 ∧ (r.trunks 1).vif_port = [] := by
  have hlast : (Guarded.run (step tenPorts) (Ok tenPorts) (init tenPorts fun _ => none)
      [.setMembers reliable 1 [member 3 true], .linkStatus (.port 1 .VIFT_GE 3) ⟨true, 2, 1⟩,
        .setMembers reliable 1 [], .setMembers reliable 2 [member 3 true]]).map
        (fun r => (r.trunk (.port 1 .VIFT_GE 3), (r.trunks 1).vif_port)) =
      some (some 2, []) := by
    decide +kernel
  obtain ⟨r, hr, hlast⟩ := Option.map_eq_some_iff.mp hlast
  have hreach := Guarded.Reach.init.of_run hr
  exact ⟨r, hreach, membership _ _ hreach, (Prod.mk.inj hlast).1, (Prod.mk.inj hlast).2⟩

/-- A port that goes to trunk 2 while it is a member of trunk 1 stays in the list of trunk 1. -/
theorem not_membership : ¬∀ (c : VifTable) (groups : ℕ → Option (VifRef → Bool)) (r : TrunkRun),
    Guarded.Reach (step c) Short (init c groups) r → r.Membership := by
  intro h
  have hlast : (Guarded.run (step tenPorts) Short (init tenPorts fun _ => none)
      [.setMembers reliable 1 [member 3 true], .setMembers reliable 2 [member 3 true]]).map
        (fun r => (r.trunks 1).vif_port.map (·.1) ∩ (r.trunks 2).vif_port.map (·.1)) =
      some [.port 1 .VIFT_GE 3] := by
    decide +kernel
  obtain ⟨r, hr, hlast⟩ := Option.map_eq_some_iff.mp hlast
  have hm := h tenPorts (fun _ => none) r (Guarded.Reach.init.of_run hr)
  have hboth : VifRef.port 1 .VIFT_GE 3 ∈
      (r.trunks 1).vif_port.map (·.1) ∩ (r.trunks 2).vif_port.map (·.1) := by
    rw [hlast]
    exact List.mem_singleton_self _
  obtain ⟨h₁, h₂⟩ := List.mem_inter_iff.mp hboth
  exact absurd (hm.one_trunk _ 1 2 h₁ h₂) (by decide)

end TrunkRun

end Presteramgr
