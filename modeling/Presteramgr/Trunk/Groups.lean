import Presteramgr.Trunk.Members

/-!
# The groups of the trunks

A trunk that is in a multicast group stands for its enabled members of the own unit, and each of
these is in the ports of the group. A member that is enabled or disabled, or leaves, is added to the
groups of the trunk or deleted from them. A port that joins the trunk enabled is deleted from the
groups of the trunk, where it would have to be added.

## Main definitions

* `flags`: the flags that a list of members gives a port, one after the other;
* `TrunkRun.Follows`: the groups follow the enabled members of the trunks;
* `TrunkRun.GroupsOk`: what a call must meet.

## Main results

* `TrunkRun.follows`: then the groups follow the trunks in every state reached;
* `TrunkRun.not_follows`: a port that joins a trunk enabled is in none of its groups.
-/

namespace Presteramgr

open Function (update update_self update_of_ne)

/-- The flags that the list gives the port. -/
def flags (c : VifTable) (mem : List TrunkMember) (v : VifRef) : List Bool :=
  (mem.filter fun x => c.vifGetByGif x.id = some v).map (·.enabled)

/-- An interface is not listed when no member has its identifier. -/
theorem listed_eq_none_iff {c : VifTable} {mem : List TrunkMember} {v : VifRef} :
    listed c mem v = none ↔ flags c mem v = [] :=
  List.getLast?_eq_none_iff

/-- A port of the own unit is valid. -/
theorem VifTable.valid_of_isLocal {c : VifTable} {v : VifRef} (hl : c.isLocal v = true) :
    c.valid v = true := by
  cases v with
  | port dev type num =>
    obtain rfl : dev = c.stack_id := by simpa [VifTable.isLocal] using hl
    exact c.valid_own type num
  | trunk t => exact absurd hl Bool.false_ne_true

/-- One more member adds its flag to those of its interface. -/
theorem flags_concat (c : VifTable) (mem : List TrunkMember) (x : TrunkMember) (v : VifRef) :
    flags c (mem ++ [x]) v =
      if c.vifGetByGif x.id = some v then flags c mem v ++ [x.enabled] else flags c mem v := by
  unfold flags
  by_cases hx : c.vifGetByGif x.id = some v
  · simp [hx]
  · simp [hx]

namespace Trunks

variable {c : VifTable} {hw : McgHw} {s : Trunks}

/-! ## One port and one group -/

/-- One bit of one group is written. -/
theorem setBit_groups (mcg : ℕ) (ports : VifRef → Bool) (v : VifRef) (b : Bool) :
    (s.setBit mcg ports v b).groups = update s.groups mcg (some (update ports v b)) := rfl

/-- One bit of one group is changed. -/
theorem inGroup_setBit {mcg : ℕ} {ports : VifRef → Bool} (hg : s.groups mcg = some ports)
    (v : VifRef) (b : Bool) (mcg' : ℕ) (v' : VifRef) :
    (s.setBit mcg ports v b).inGroup mcg' v' =
      if mcg' = mcg ∧ v' = v then b else s.inGroup mcg' v' := by
  unfold inGroup
  rw [setBit_groups]
  by_cases hm : mcg' = mcg
  · subst hm
    rw [update_self, hg]
    by_cases hv : v' = v
    · subst hv
      simp
    · simp [hv]
  · simp [hm]

/-- A group that does not exist has no ports. -/
theorem inGroup_of_none {mcg : ℕ} (hg : s.groups mcg = none) (v : VifRef) :
    s.inGroup mcg v = false := by
  unfold inGroup
  rw [hg]

/-- The ports of a group are those of its bitmap. -/
theorem inGroup_of_some {mcg : ℕ} {ports : VifRef → Bool} (hg : s.groups mcg = some ports)
    (v : VifRef) : s.inGroup mcg v = ports v := by
  unfold inGroup
  rw [hg]

/-- A group that exists is there after the calls as well. -/
def SameGroups (s s' : Trunks) : Prop := ∀ mcg, (s'.groups mcg).isSome = (s.groups mcg).isSome

/-- Writing a bit makes no group and deletes none. -/
theorem sameGroups_setBit {mcg : ℕ} {ports : VifRef → Bool} (hg : s.groups mcg = some ports)
    (v : VifRef) (b : Bool) : SameGroups s (s.setBit mcg ports v b) := by
  intro mcg'
  rw [setBit_groups]
  by_cases hm : mcg' = mcg
  · subst hm
    rw [update_self, hg]
    rfl
  · rw [update_of_ne hm]

/-- A loop over steps that keep the groups keeps the groups. -/
theorem SameGroups.foldl {α : Type*} {f : Trunks → α → Trunks}
    (hf : ∀ s a, SameGroups s (f s a)) (l : List α) (s : Trunks) : SameGroups s (l.foldl f s) := by
  induction l generalizing s with
  | nil => exact fun _ => rfl
  | cons a l ih => exact fun mcg => (ih (f s a) mcg).trans (hf s a mcg)

/-- The port can be added to the group. -/
def CanAdd (c : VifTable) (hw : McgHw) (s : Trunks) (mcg : ℕ) (v : VifRef) : Prop :=
  c.isLocal v = true ∧ (s.groups mcg).isSome = true ∧ hw.add v mcg = true

/-- The port can be deleted from the group. -/
def CanDel (c : VifTable) (hw : McgHw) (mcg : ℕ) (v : VifRef) : Prop :=
  c.isLocal v = true ∧ hw.del v mcg = .GT_OK

/-- Which groups exist decides whether a port can be added. -/
theorem CanAdd.congr {s' : Trunks} (hg : SameGroups s s') {mcg : ℕ} {v : VifRef} :
    CanAdd c hw s' mcg v ↔ CanAdd c hw s mcg v := by
  unfold CanAdd
  rw [hg mcg]

/-- `mcg_add_port` makes no group and deletes none. -/
theorem mcgAddPort_groups (mcg : ℕ) (v : VifRef) : SameGroups s (s.mcgAddPort hw mcg v).2 := by
  unfold mcgAddPort
  cases hg : s.groups mcg with
  | none => exact fun _ => rfl
  | some ports =>
    dsimp only
    split_ifs
    · exact fun _ => rfl
    · exact sameGroups_setBit hg v true
    · exact fun _ => rfl

/-- `mcg_del_port` makes no group and deletes none. -/
theorem mcgDelPort_groups (mcg : ℕ) (v : VifRef) : SameGroups s (s.mcgDelPort hw mcg v).2 := by
  rw [mcgDelPort_snd]
  cases hg : s.groups mcg with
  | none => exact fun _ => rfl
  | some ports =>
    dsimp only
    split_ifs
    · exact sameGroups_setBit hg v false
    · exact fun _ => rfl

/-- `port_mcg_add_vif` makes no group and deletes none. -/
theorem portMcgAdd_groups (v : VifRef) (mcg : ℕ) : SameGroups s (s.portMcgAdd c hw v mcg).2 := by
  unfold portMcgAdd
  split_ifs
  · exact mcgAddPort_groups mcg v
  · exact fun _ => rfl

/-- `port_mcg_del_vif` makes no group and deletes none. -/
theorem portMcgDel_groups (v : VifRef) (mcg : ℕ) : SameGroups s (s.portMcgDel c hw v mcg).2 := by
  unfold portMcgDel
  split_ifs
  · exact mcgDelPort_groups mcg v
  · exact fun _ => rfl

/-- `port_mcg_add_vif` adds the port to the group, where it can. -/
theorem inGroup_portMcgAdd (v : VifRef) (mcg mcg' : ℕ) (v' : VifRef) :
    (s.portMcgAdd c hw v mcg).2.inGroup mcg' v' = true ↔
      s.inGroup mcg' v' = true ∨ mcg' = mcg ∧ v' = v ∧ CanAdd c hw s mcg v := by
  unfold portMcgAdd mcgAddPort CanAdd
  by_cases hl : c.isLocal v
  · rw [if_pos hl]
    cases hg : s.groups mcg with
    | none => simp
    | some ports =>
      dsimp only
      have hports := inGroup_of_some hg v
      split_ifs with hp ha
      · -- the port is in the group already
        constructor
        · exact .inl
        · rintro (h | ⟨rfl, rfl, -⟩)
          · exact h
          · exact hports.trans hp
      · rw [inGroup_setBit hg]
        split_ifs with hk
        · simp [hk, hl, ha]
        · simp only [Option.isSome_some, hl, ha, and_true]
          tauto
      · simp [ha]
  · rw [if_neg hl]
    simp [hl]

/-- `port_mcg_del_vif` takes the port out of the group, where it can. -/
theorem inGroup_portMcgDel (v : VifRef) (mcg mcg' : ℕ) (v' : VifRef) :
    (s.portMcgDel c hw v mcg).2.inGroup mcg' v' = true ↔
      s.inGroup mcg' v' = true ∧ ¬(mcg' = mcg ∧ v' = v ∧ CanDel c hw mcg v) := by
  unfold portMcgDel CanDel
  by_cases hl : c.isLocal v
  · rw [if_pos hl, mcgDelPort_snd]
    cases hg : s.groups mcg with
    | none =>
      dsimp only
      constructor
      · refine fun h => ⟨h, ?_⟩
        rintro ⟨rfl, rfl, -⟩
        exact absurd ((inGroup_of_none hg v').symm.trans h) Bool.false_ne_true
      · exact And.left
    | some ports =>
      dsimp only
      have hports := inGroup_of_some hg v
      split_ifs with hpd
      · rw [inGroup_setBit hg]
        split_ifs with hk
        · simp [hk, hl, hpd.2]
        · tauto
      · -- the port is not in the group, or the hardware fails
        constructor
        · refine fun h => ⟨h, ?_⟩
          rintro ⟨rfl, rfl, -, hd⟩
          exact hpd ⟨hports.symm.trans h, hd⟩
        · exact And.left
  · rw [if_neg hl]
    simp [hl]

/-- A port that enters the groups of its trunk makes no group. -/
theorem addToGroups_groups (v : VifRef) (mcgs : List ℕ) :
    SameGroups s (s.addToGroups c hw v mcgs) :=
  .foldl (fun _ mcg => portMcgAdd_groups v mcg) mcgs s

/-- A port that leaves the groups of its trunk deletes no group. -/
theorem delFromGroups_groups (v : VifRef) (mcgs : List ℕ) :
    SameGroups s (s.delFromGroups c hw v mcgs) :=
  .foldl (fun _ mcg => portMcgDel_groups v mcg) mcgs s

/-- The port is in all groups of its trunk that it can be added to. -/
theorem inGroup_addToGroups (v : VifRef) (mcgs : List ℕ) (mcg : ℕ) (v' : VifRef) :
    (s.addToGroups c hw v mcgs).inGroup mcg v' = true ↔
      s.inGroup mcg v' = true ∨ mcg ∈ mcgs ∧ v' = v ∧ CanAdd c hw s mcg v := by
  unfold addToGroups
  induction mcgs generalizing s with
  | nil => simp
  | cons m mcgs ih =>
    rw [List.foldl_cons, ih, inGroup_portMcgAdd, CanAdd.congr (portMcgAdd_groups v m),
      List.mem_cons]
    by_cases hm : mcg = m
    · subst hm
      tauto
    · simp [hm]

/-- The port is in none of the groups of its trunk that it can be taken out of. -/
theorem inGroup_delFromGroups (v : VifRef) (mcgs : List ℕ) (mcg : ℕ) (v' : VifRef) :
    (s.delFromGroups c hw v mcgs).inGroup mcg v' = true ↔
      s.inGroup mcg v' = true ∧ ¬(mcg ∈ mcgs ∧ v' = v ∧ CanDel c hw mcg v) := by
  unfold delFromGroups
  induction mcgs generalizing s with
  | nil => simp
  | cons m mcgs ih =>
    rw [List.foldl_cons, ih, inGroup_portMcgDel, List.mem_cons]
    by_cases hm : mcg = m
    · subst hm
      tauto
    · simp [hm]

/-! ## The loops of `vif_set_trunk_members` -/

/-- What leaves the trunk leaves its groups. -/
theorem leave_foldl_groups (c : VifTable) (hw : McgHw) (t : ℕ) (l : List (VifRef × Bool))
    (s : Trunks) :
    SameGroups s (l.foldl (fun s m => s.leave c hw t m.1) s) ∧
      ∀ mcg v, (l.foldl (fun s m => s.leave c hw t m.1) s).inGroup mcg v = true ↔
        s.inGroup mcg v = true ∧
          ¬(v ∈ l.map (·.1) ∧ mcg ∈ (s.trunks t).mcg_head ∧ CanDel c hw mcg v) := by
  induction l generalizing s with
  | nil => exact ⟨fun _ => rfl, fun mcg v => by simp⟩
  | cons m l ih =>
    obtain ⟨hgroups, hin⟩ := ih (s.leave c hw t m.1)
    have hleave : SameGroups s (s.leave c hw t m.1) := delFromGroups_groups m.1 _
    refine ⟨fun mcg => (hgroups mcg).trans (hleave mcg), fun mcg v => ?_⟩
    have hone : (s.leave c hw t m.1).inGroup mcg v = true ↔ s.inGroup mcg v = true ∧
        ¬(mcg ∈ (s.trunks t).mcg_head ∧ v = m.1 ∧ CanDel c hw mcg m.1) :=
      inGroup_delFromGroups m.1 _ mcg v
    rw [List.foldl_cons, hin, leave_trunks, hone, List.map_cons, List.mem_cons]
    by_cases hv : v = m.1
    · subst hv
      tauto
    · simp [hv]

/-- Dropping the old members deletes no group. -/
theorem dropMembers_groups (t : ℕ) (mem : List TrunkMember) :
    SameGroups s (s.dropMembers c hw t mem) :=
  (leave_foldl_groups c hw t _ s).1

/-- The dropped ports leave the groups of the trunk, and no other port does. -/
theorem inGroup_dropMembers (t : ℕ) (mem : List TrunkMember) (mcg : ℕ) (v : VifRef) :
    (s.dropMembers c hw t mem).inGroup mcg v = true ↔ s.inGroup mcg v = true ∧
      ¬(v ∈ ((s.trunks t).vif_port.filter fun m => !stays c mem m).map (·.1) ∧
        mcg ∈ (s.trunks t).mcg_head ∧ CanDel c hw mcg v) :=
  (leave_foldl_groups c hw t _ s).2 mcg v

/-- An entry that names a member of the trunk. -/
theorem enter_member (hw : McgHw) {t : ℕ} {x : TrunkMember} {w : VifRef} {b : Bool}
    (hu : Keyed.Unique Prod.fst (s.trunks t).vif_port) (hx : c.vifGetByGif x.id = some w)
    (hw' : (w, b) ∈ (s.trunks t).vif_port) :
    SameGroups s (s.enter c hw t x) ∧ ∀ mcg v, (s.enter c hw t x).inGroup mcg v = true ↔
      if x.enabled = b then s.inGroup mcg v = true
      else if x.enabled then
        s.inGroup mcg v = true ∨ mcg ∈ (s.trunks t).mcg_head ∧ v = w ∧ CanAdd c hw s mcg w
      else s.inGroup mcg v = true ∧
        ¬(mcg ∈ (s.trunks t).mcg_head ∧ v = w ∧ CanDel c hw mcg w) := by
  have hfind : (s.trunks t).vif_port.find? (·.1 = w) = some (w, b) :=
    hu.find_eq_some_iff.mpr ⟨hw', rfl⟩
  unfold enter
  simp only [hx, hfind]
  cases hb : b with
  | true =>
    cases hen : x.enabled with
    | true =>
      simp only [not_true, and_false, false_and, if_false, if_true]
      exact ⟨fun _ => rfl, fun mcg v => Iff.rfl⟩
    | false =>
      simp only [Bool.false_eq_true, false_and, not_false_iff, true_and, if_false, if_true]
      exact ⟨delFromGroups_groups w _, inGroup_delFromGroups w _⟩
  | false =>
    cases hen : x.enabled with
    | true =>
      simp only [Bool.false_eq_true, not_false_iff, and_self, if_true, Bool.true_eq_false, if_false]
      exact ⟨addToGroups_groups w _, inGroup_addToGroups w _⟩
    | false =>
      simp only [Bool.false_eq_true, false_and, and_false, if_false, if_true]
      exact ⟨fun _ => rfl, fun mcg v => Iff.rfl⟩

/-- An entry that names a new member: if it is enabled, it is deleted from the groups. -/
theorem enter_new (hw : McgHw) {t : ℕ} {x : TrunkMember} {w : VifRef}
    (hx : c.vifGetByGif x.id = some w)
    (hnew : w ∉ (s.trunks t).vif_port.map (·.1)) :
    SameGroups s (s.enter c hw t x) ∧ ∀ mcg v, (s.enter c hw t x).inGroup mcg v = true ↔
      s.inGroup mcg v = true ∧
        ¬(x.enabled = true ∧ mcg ∈ (s.trunks t).mcg_head ∧ v = w ∧ CanDel c hw mcg w) := by
  have hfind : (s.trunks t).vif_port.find? (·.1 = w) = none :=
    Keyed.find_eq_none_iff.mpr fun m hm h => hnew (h ▸ List.mem_map_of_mem hm)
  unfold enter
  simp only [hx, hfind]
  cases hen : x.enabled with
  | true =>
    simp only [if_true, true_and]
    exact ⟨delFromGroups_groups w _, inGroup_delFromGroups w _⟩
  | false =>
    simp only [Bool.false_eq_true, if_false, false_and, not_false_iff, and_true]
    exact ⟨fun _ => rfl, fun mcg v => Iff.rfl⟩

/-- Only a port of the own unit that an entry names is regrouped by it, and only in the groups of
the trunk. -/
theorem enter_other (c : VifTable) (hw : McgHw) {t : ℕ}
    (hu : Keyed.Unique Prod.fst (s.trunks t).vif_port) (x : TrunkMember) :
    SameGroups s (s.enter c hw t x) ∧
      ∀ mcg v, c.vifGetByGif x.id ≠ some v ∨ mcg ∉ (s.trunks t).mcg_head ∨ c.isLocal v ≠ true →
        ((s.enter c hw t x).inGroup mcg v = true ↔ s.inGroup mcg v = true) := by
  cases hx : c.vifGetByGif x.id with
  | none =>
    rw [enter_of_none hx]
    exact ⟨fun _ => rfl, fun _ _ _ => Iff.rfl⟩
  | some w =>
    have hno : ∀ {P : Prop} {mcg v}, (P → c.isLocal w = true) →
        some w ≠ some v ∨ mcg ∉ (s.trunks t).mcg_head ∨ c.isLocal v ≠ true →
        ¬(mcg ∈ (s.trunks t).mcg_head ∧ v = w ∧ P) := by
      rintro P mcg v hP h ⟨hmem, rfl, hp⟩
      rcases h with hne | hne | hne
      · exact hne rfl
      · exact hne hmem
      · exact hne (hP hp)
    by_cases hmem : w ∈ (s.trunks t).vif_port.map (·.1)
    · obtain ⟨b, hb⟩ := mem_ports_iff.mp hmem
      obtain ⟨hgroups, hin⟩ := enter_member hw hu hx hb
      refine ⟨hgroups, fun mcg v h => ?_⟩
      rw [hin]
      simp only [hno (P := CanAdd c hw s mcg w) And.left h, hno (P := CanDel c hw mcg w) And.left h,
        or_false, not_false_iff, and_true, ite_self]
    · obtain ⟨hgroups, hin⟩ := enter_new hw hx hmem
      refine ⟨hgroups, fun mcg v h => ?_⟩
      rw [hin]
      simp only [hno (P := CanDel c hw mcg w) And.left h, and_false, not_false_iff, and_true]

/-- What the second loop has made of a port and a group of the trunk when it has been through the
entries `mem`. -/
structure Regrouped (c : VifTable) (hw : McgHw) (t : ℕ) (mem : List TrunkMember) (s s' : Trunks)
    (v : VifRef) (mcg : ℕ) : Prop where
  of_enabled : (v, true) ∈ (s'.trunks t).vif_port →
    CanAdd c hw s mcg v ∨ (v, true) ∈ (s.trunks t).vif_port ∧ false ∉ flags c mem v →
      s'.inGroup mcg v = true
  of_never : (v, true) ∉ (s.trunks t).vif_port → true ∉ flags c mem v →
    (s'.inGroup mcg v = true ↔ s.inGroup mcg v = true)
  of_disabled : (v, true) ∉ (s'.trunks t).vif_port → CanDel c hw mcg v → s'.inGroup mcg v = true →
    (v, true) ∉ (s.trunks t).vif_port ∧ s.inGroup mcg v = true

/-- The loop over the new members takes one more of them. -/
theorem Regrouped.concat {t : ℕ} {mem : List TrunkMember} {x : TrunkMember} {s' : Trunks}
    {v : VifRef} {mcg : ℕ} (h : Regrouped c hw t mem s s' v mcg) (he : Entered c t mem s s')
    (hu : Keyed.Unique Prod.fst (s.trunks t).vif_port)
    (hg : SameGroups s s') (hmcg : mcg ∈ (s.trunks t).mcg_head)
    (hnew : v ∉ (s.trunks t).vif_port.map (·.1) → (flags c (mem ++ [x]) v).head? ≠ some true) :
    Regrouped c hw t (mem ++ [x]) s (s'.enter c hw t x) v mcg := by
  have he' : Entered c t (mem ++ [x]) s (s'.enter c hw t x) := he.concat
  have hflags := flags_concat c mem x v
  have hlisted := listed_concat c mem x v
  have hmcg' : mcg ∈ (s'.trunks t).mcg_head := he.mcg_head ▸ hmcg
  by_cases hx : c.vifGetByGif x.id = some v
  · rw [if_pos hx] at hflags hlisted
    have hmem : ∀ b, (v, b) ∈ ((s'.enter c hw t x).trunks t).vif_port ↔ x.enabled = b := by
      intro b
      rw [he'.mem_iff, hlisted]
      simp
    by_cases hin : v ∈ (s'.trunks t).vif_port.map (·.1)
    · obtain ⟨b, hb⟩ := mem_ports_iff.mp hin
      have hone : ∀ b', (v, b') ∈ (s'.trunks t).vif_port → b' = b := fun b' hb' =>
        (Prod.mk.inj (he.unique.eq_of_mem hb' hb rfl)).2
      have hregroup := (enter_member hw he.unique hx hb).2 mcg v
      simp only [hmcg', true_and, CanAdd.congr hg] at hregroup
      cases hen : x.enabled with
      | true =>
        rw [hen] at hregroup hflags hmem
        refine ⟨fun _ hadd => ?_, fun _ hno => ?_, fun hdis => absurd ((hmem true).mpr rfl) hdis⟩
        · cases b with
          | true =>
            -- it stays enabled
            refine hregroup.mpr (h.of_enabled hb (hadd.imp_right fun ⟨he₀, hno⟩ => ⟨he₀, ?_⟩))
            rw [hflags] at hno
            exact fun hf => hno (List.mem_append_left _ hf)
          | false =>
            refine hregroup.mpr (.inr (hadd.resolve_right fun ⟨he₀, hno⟩ => ?_))
            -- a member that was enabled and never named disabled is not disabled now
            rcases (he.mem_iff v false).mp hb with hl | ⟨-, hb₀⟩
            · rw [hflags] at hno
              exact hno (List.mem_append_left _ (List.mem_of_getLast? hl))
            · exact absurd (hu.eq_of_mem he₀ hb₀ rfl) (by simp)
        · rw [hflags] at hno
          exact absurd (List.mem_append_right _ (List.mem_singleton_self true)) hno
      | false =>
        rw [hen] at hregroup hflags hmem
        refine ⟨fun hena => absurd ((hmem true).mp hena) Bool.false_ne_true, fun he₀ hno => ?_,
          fun _ hdel hin' => ?_⟩
        · have hno' : true ∉ flags c mem v := by
            rw [hflags] at hno
            exact fun hf => hno (List.mem_append_left _ hf)
          cases b with
          | false => exact hregroup.trans (h.of_never he₀ hno')
          | true =>
            rcases (he.mem_iff v true).mp hb with hl | ⟨-, hb₀⟩
            · exact absurd (List.mem_of_getLast? hl) hno'
            · exact absurd hb₀ he₀
        · cases b with
          | false =>
            exact h.of_disabled (fun hb' => Bool.false_ne_true (hone true hb').symm) hdel
              (hregroup.mp hin')
          | true => exact absurd hdel (hregroup.mp hin').2
    · -- a new member is named for the first time, and disabled
      have hl : listed c mem v = none := by
        by_contra hl
        obtain ⟨b, hb⟩ := Option.ne_none_iff_exists'.mp hl
        exact hin (mem_ports_iff.mpr ⟨b, (he.mem_iff v b).mpr (.inl hb)⟩)
      have hempty : flags c mem v = [] := List.getLast?_eq_none_iff.mp hl
      have hin₀ : v ∉ (s.trunks t).vif_port.map (·.1) := by
        intro hin₀
        obtain ⟨b, hb⟩ := mem_ports_iff.mp hin₀
        exact hin (mem_ports_iff.mpr ⟨b, (he.mem_iff v b).mpr (.inr ⟨hl, hb⟩)⟩)
      have hen : x.enabled = false := by
        have hhead := hnew hin₀
        rw [hflags, hempty, List.nil_append, List.head?_cons] at hhead
        exact Bool.eq_false_iff.mpr fun h => hhead (congrArg some h)
      have hsame := (enter_new hw hx hin).2 mcg v
      rw [hen] at hsame hmem
      simp only [Bool.false_eq_true, false_and, not_false_iff, and_true] at hsame
      have hnotin : (v, true) ∉ (s'.trunks t).vif_port := fun h => hin (mem_ports_iff.mpr ⟨_, h⟩)
      refine ⟨fun hena => absurd ((hmem true).mp hena) Bool.false_ne_true, fun he₀ hno => ?_,
        fun _ hdel hin' => h.of_disabled hnotin hdel (hsame.mp hin')⟩
      exact hsame.trans (h.of_never he₀ (by rw [hempty]; exact List.not_mem_nil))
  · rw [if_neg hx] at hflags hlisted
    have hsame := (enter_other c hw he.unique x).2 mcg v (.inl hx)
    have hmem : ∀ b, (v, b) ∈ ((s'.enter c hw t x).trunks t).vif_port ↔
        (v, b) ∈ (s'.trunks t).vif_port := by
      intro b
      rw [he'.mem_iff, he.mem_iff, hlisted]
    exact ⟨by rw [hmem, hflags, hsame]; exact h.of_enabled, by rw [hflags, hsame]; exact h.of_never,
      by rw [hmem, hsame]; exact h.of_disabled⟩

/-- Before the loop the enabled ports of the trunk are in its groups. -/
theorem Regrouped.nil {t : ℕ} {v : VifRef} {mcg : ℕ}
    (hin : (v, true) ∈ (s.trunks t).vif_port → s.inGroup mcg v = true) :
    Regrouped c hw t [] s s v mcg where
  of_enabled hv _ := hin hv
  of_never _ _ := Iff.rfl
  of_disabled hv _ h := ⟨hv, h⟩

/-- The second loop, for the ports that it does not regroup and for those that it does. -/
theorem enter_foldl_groups (c : VifTable) (hw : McgHw) {t : ℕ} (mem : List TrunkMember)
    (hu : Keyed.Unique Prod.fst (s.trunks t).vif_port) :
    SameGroups s (mem.foldl (fun s x => s.enter c hw t x) s) ∧
      ∀ mcg v,
        (flags c mem v = [] ∨ mcg ∉ (s.trunks t).mcg_head ∨ c.isLocal v ≠ true →
          ((mem.foldl (fun s x => s.enter c hw t x) s).inGroup mcg v = true ↔
            s.inGroup mcg v = true)) ∧
        (mcg ∈ (s.trunks t).mcg_head →
          ((v, true) ∈ (s.trunks t).vif_port → s.inGroup mcg v = true) →
          (v ∉ (s.trunks t).vif_port.map (·.1) → (flags c mem v).head? ≠ some true) →
          Regrouped c hw t mem s (mem.foldl (fun s x => s.enter c hw t x) s) v mcg) := by
  induction mem using List.reverseRecOn with
  | nil => exact ⟨fun _ => rfl, fun mcg v => ⟨fun _ => Iff.rfl, fun _ hin _ => .nil hin⟩⟩
  | append_singleton mem x ih =>
    obtain ⟨hgroups, hin⟩ := ih
    have he := entered c hw mem hu
    have hother := enter_other c hw he.unique x
    rw [List.foldl_append]
    refine ⟨fun mcg => (hother.1 mcg).trans (hgroups mcg), fun mcg v => ⟨fun h => ?_, ?_⟩⟩
    · have hflags := flags_concat c mem x v
      have hx : c.vifGetByGif x.id ≠ some v ∨ mcg ∉ (s.trunks t).mcg_head ∨
          c.isLocal v ≠ true := by
        refine h.imp_left fun hnil hx => ?_
        rw [if_pos hx, hnil] at hflags
        exact List.append_ne_nil_of_right_ne_nil _ (List.cons_ne_nil _ _) hflags.symm
      have hprev : flags c mem v = [] ∨ mcg ∉ (s.trunks t).mcg_head ∨ c.isLocal v ≠ true := by
        rcases hx with hx | hx
        · rw [if_neg hx] at hflags
          exact h.imp_left hflags.symm.trans
        · exact .inr hx
      refine (hother.2 mcg v ?_).trans ((hin mcg v).1 hprev)
      rwa [he.mcg_head]
    · intro hmcg hin₀ hnew
      refine ((hin mcg v).2 hmcg hin₀ fun hv hhead => hnew hv ?_).concat he hu hgroups hmcg hnew
      -- the first flag is not changed by the flags that follow
      rw [flags_concat]
      split_ifs
      · rw [List.head?_append, hhead, Option.some_or]
      · exact hhead

/-! ## The calls -/

/-- The two loops of a call. -/
theorem vifSetTrunkMembers_groups (c : VifTable) (hw : McgHw) (s : Trunks) (t : ℕ)
    (mem : List TrunkMember) : (s.vifSetTrunkMembers c hw t mem).groups =
      (mem.foldl (fun s x => s.enter c hw t x) (s.dropMembers c hw t mem)).groups := rfl

/-- The groups decide which ports are in them. -/
theorem inGroup_congr {s' : Trunks} (hg : s'.groups = s.groups) (mcg : ℕ) (v : VifRef) :
    s'.inGroup mcg v = s.inGroup mcg v := by
  unfold inGroup
  rw [hg]

/-- The lists before the second loop. -/
theorem dropMembers_list (c : VifTable) (hw : McgHw) (s : Trunks) (t : ℕ) (mem : List TrunkMember) :
    ((s.dropMembers c hw t mem).trunks t).vif_port =
        (s.trunks t).vif_port.filter (stays c mem) ∧
      ((s.dropMembers c hw t mem).trunks t).mcg_head = (s.trunks t).mcg_head := by
  rw [dropMembers_trunks, update_self]
  exact ⟨rfl, rfl⟩

/-- Dropping members leaves no port twice. -/
theorem dropMembers_unique (c : VifTable) (hw : McgHw) {t : ℕ} (mem : List TrunkMember)
    (hu : Keyed.Unique Prod.fst (s.trunks t).vif_port) :
    Keyed.Unique Prod.fst ((s.dropMembers c hw t mem).trunks t).vif_port := by
  rw [(dropMembers_list c hw s t mem).1]
  exact hu.sublist (List.filter_sublist.map _)

/-- A port that is not named and was no member, a group of other trunks, and a port of another unit
are left alone. -/
theorem vifSetTrunkMembers_other (c : VifTable) (hw : McgHw) {t : ℕ} {mem : List TrunkMember}
    (hu : Keyed.Unique Prod.fst (s.trunks t).vif_port) {mcg : ℕ} {v : VifRef}
    (h : (flags c mem v = [] ∧ v ∉ (s.trunks t).vif_port.map (·.1)) ∨
      mcg ∉ (s.trunks t).mcg_head ∨ c.isLocal v ≠ true) :
    (s.vifSetTrunkMembers c hw t mem).inGroup mcg v = true ↔ s.inGroup mcg v = true := by
  have hloop := (enter_foldl_groups c hw mem (dropMembers_unique c hw mem hu)).2 mcg v
  rw [(dropMembers_list c hw s t mem).2] at hloop
  rw [inGroup_congr (vifSetTrunkMembers_groups c hw s t mem), hloop.1 (h.imp_left And.left),
    inGroup_dropMembers]
  refine and_iff_left ?_
  rintro ⟨hv, hmcg, hdel⟩
  rcases h with ⟨-, hno⟩ | hno | hno
  · obtain ⟨m, hm, rfl⟩ := List.mem_map.mp hv
    exact hno (List.mem_map_of_mem (List.mem_filter.mp hm).1)
  · exact hno hmcg
  · exact hno hdel.1

section Regroup

variable (c) (hw) {t : ℕ} {mem : List TrunkMember}
  (hu : Keyed.Unique Prod.fst (s.trunks t).vif_port) {mcg : ℕ} {v : VifRef}
  (hl : c.isLocal v = true) (hmcg : mcg ∈ (s.trunks t).mcg_head)
  (hin : (v, true) ∈ (s.trunks t).vif_port → s.inGroup mcg v = true)
  (hnew : v ∉ (s.trunks t).vif_port.map (·.1) → (flags c mem v).head? ≠ some true)

include hl

/-- A member of the own unit leaves if it is not named. -/
theorem mem_dropMembers_iff (b : Bool) :
    (v, b) ∈ ((s.dropMembers c hw t mem).trunks t).vif_port ↔
      (v, b) ∈ (s.trunks t).vif_port ∧ flags c mem v ≠ [] := by
  rw [(dropMembers_list c hw s t mem).1, List.mem_filter, stays_iff, ne_eq, ← listed_eq_none_iff,
    ← ne_eq, ← Option.isSome_iff_ne_none]
  simp [VifTable.valid_of_isLocal hl]

/-- Who leaves, leaves the groups. -/
theorem inGroup_dropMembers_local :
    (s.dropMembers c hw t mem).inGroup mcg v = true ↔ s.inGroup mcg v = true ∧
      ¬((v ∈ (s.trunks t).vif_port.map (·.1) ∧ flags c mem v = []) ∧
        mcg ∈ (s.trunks t).mcg_head ∧ CanDel c hw mcg v) := by
  have hleave : v ∈ ((s.trunks t).vif_port.filter fun m => !stays c mem m).map (·.1) ↔
      v ∈ (s.trunks t).vif_port.map (·.1) ∧ flags c mem v = [] := by
    have hgo : ∀ b, (!stays c mem (v, b)) = true ↔ flags c mem v = [] := fun b => by
      rw [Bool.not_eq_true', Bool.eq_false_iff, ne_eq, stays_iff, ← listed_eq_none_iff,
        Option.isSome_iff_ne_none]
      simp [VifTable.valid_of_isLocal hl]
    simp only [mem_ports_iff, List.mem_filter, hgo, exists_and_right]
  rw [inGroup_dropMembers, hleave]

include hu hmcg hin hnew

/-- After the loop the ports of the trunk are in its groups as the list says. -/
theorem regrouped : Regrouped c hw t mem (s.dropMembers c hw t mem)
    (mem.foldl (fun s x => s.enter c hw t x) (s.dropMembers c hw t mem)) v mcg := by
  refine ((enter_foldl_groups c hw mem (dropMembers_unique c hw mem hu)).2 mcg v).2
    ((dropMembers_list c hw s t mem).2 ▸ hmcg) (fun hv => ?_) (fun hv => ?_)
  · obtain ⟨hv, hne⟩ := (mem_dropMembers_iff c hw hl true).mp hv
    exact (inGroup_dropMembers_local c hw hl).mpr ⟨hin hv, fun h => hne h.1.2⟩
  · by_cases hmem : v ∈ (s.trunks t).vif_port.map (·.1)
    · -- a member that is not in the list any more is not named
      obtain ⟨b, hb⟩ := mem_ports_iff.mp hmem
      have hnil : flags c mem v = [] := by
        by_contra hne
        exact hv (mem_ports_iff.mpr ⟨b, (mem_dropMembers_iff c hw hl b).mpr ⟨hb, hne⟩⟩)
      rw [hnil]
      exact (Option.some_ne_none true).symm
    · exact hnew hmem

/-- A member that the call leaves enabled is in the group. -/
theorem vifSetTrunkMembers_enabled (hlisted : listed c mem v = some true)
    (hadd : CanAdd c hw s mcg v ∨ (v, true) ∈ (s.trunks t).vif_port ∧ false ∉ flags c mem v) :
    (s.vifSetTrunkMembers c hw t mem).inGroup mcg v = true := by
  have he := entered c hw mem (dropMembers_unique c hw mem hu)
  have hne : flags c mem v ≠ [] := fun hnil => by
    rw [listed_eq_none_iff.mpr hnil] at hlisted
    exact absurd hlisted.symm (Option.some_ne_none true)
  rw [inGroup_congr (vifSetTrunkMembers_groups c hw s t mem)]
  refine (regrouped c hw hu hl hmcg hin hnew).of_enabled ((he.mem_iff v true).mpr (.inl hlisted)) ?_
  refine hadd.imp (CanAdd.congr (dropMembers_groups t mem)).mpr fun ⟨hv, hno⟩ => ⟨?_, hno⟩
  exact (mem_dropMembers_iff c hw hl true).mpr ⟨hv, hne⟩

/-- A port that the call does not leave enabled is in the group only if it was. -/
theorem vifSetTrunkMembers_disabled (hlisted : listed c mem v ≠ some true)
    (hin' : (s.vifSetTrunkMembers c hw t mem).inGroup mcg v = true) :
    ((v, true) ∉ (s.trunks t).vif_port → true ∉ flags c mem v → s.inGroup mcg v = true) ∧
      (CanDel c hw mcg v → (v, true) ∉ (s.trunks t).vif_port ∧ s.inGroup mcg v = true) := by
  have he := entered c hw mem (dropMembers_unique c hw mem hu)
  have hr := regrouped c hw hu hl hmcg hin hnew
  rw [inGroup_congr (vifSetTrunkMembers_groups c hw s t mem)] at hin'
  have hdrop : ∀ {P : Prop}, ((v, true) ∈ (s.trunks t).vif_port → P) →
      (v, true) ∈ ((s.dropMembers c hw t mem).trunks t).vif_port → P := fun h hv =>
    h ((mem_dropMembers_iff c hw hl true).mp hv).1
  constructor
  · intro hv hno
    exact ((inGroup_dropMembers_local c hw hl).mp
      ((hr.of_never (hdrop hv) hno).mp hin')).1
  · intro hdel
    have hnot : (v, true) ∉ ((mem.foldl (fun s x => s.enter c hw t x)
        (s.dropMembers c hw t mem)).trunks t).vif_port := by
      rw [he.mem_iff]
      rintro (h | ⟨hnone, hv⟩)
      · exact hlisted h
      · exact ((mem_dropMembers_iff c hw hl true).mp hv).2 (listed_eq_none_iff.mp hnone)
    obtain ⟨hv₀, hin₀⟩ := hr.of_disabled hnot hdel hin'
    obtain ⟨hin, hstay⟩ := (inGroup_dropMembers_local c hw hl).mp hin₀
    refine ⟨fun hv => ?_, hin⟩
    -- a member that was enabled has left the list, and with it the group
    by_cases hnil : flags c mem v = []
    · exact hstay ⟨⟨mem_ports_iff.mpr ⟨true, hv⟩, hnil⟩, hmcg, hdel⟩
    · exact hv₀ ((mem_dropMembers_iff c hw hl true).mpr ⟨hv, hnil⟩)

end Regroup

/-! ### Trunks in groups -/

/-- The loop of `vif_mcg_add_vif` adds the ports of a trunk. -/
theorem foldl_portMcgAdd (mcg : ℕ) (l : List VifRef) (s : Trunks) (mcg' : ℕ) (v : VifRef) :
    (l.foldl (fun s v => (s.portMcgAdd c hw v mcg).2) s).inGroup mcg' v = true ↔
      s.inGroup mcg' v = true ∨ mcg' = mcg ∧ v ∈ l ∧ CanAdd c hw s mcg v := by
  induction l generalizing s with
  | nil => simp
  | cons w l ih =>
    rw [List.foldl_cons, ih, inGroup_portMcgAdd, CanAdd.congr (portMcgAdd_groups w mcg),
      List.mem_cons]
    by_cases hv : v = w
    · subst hv
      tauto
    · simp [hv]

/-- The loop of `vif_mcg_del_vif` takes out the ports of a trunk. -/
theorem foldl_portMcgDel (mcg : ℕ) (l : List VifRef) (s : Trunks) (mcg' : ℕ) (v : VifRef) :
    (l.foldl (fun s v => (s.portMcgDel c hw v mcg).2) s).inGroup mcg' v = true ↔
      s.inGroup mcg' v = true ∧ ¬(mcg' = mcg ∧ v ∈ l ∧ CanDel c hw mcg v) := by
  induction l generalizing s with
  | nil => simp
  | cons w l ih =>
    rw [List.foldl_cons, ih, inGroup_portMcgDel, List.mem_cons]
    by_cases hv : v = w
    · subst hv
      tauto
    · simp [hv]

/-- The enabled ports of a trunk are its members with that flag. -/
theorem mem_enabled_iff {t : ℕ} {v : VifRef} :
    v ∈ s.enabled t ↔ (v, true) ∈ (s.trunks t).vif_port := by
  simp [enabled]

/-- A trunk enters a group with its enabled members. -/
theorem trunkMcgAdd_of_not_mem (c : VifTable) (hw : McgHw) {t mcg : ℕ}
    (hm : mcg ∉ (s.trunks t).mcg_head) :
    (s.trunkMcgAdd c hw t mcg).2.trunks =
        update s.trunks t { s.trunks t with mcg_head := (s.trunks t).mcg_head ++ [mcg] } ∧
      ∀ mcg' v, (s.trunkMcgAdd c hw t mcg).2.inGroup mcg' v = true ↔ s.inGroup mcg' v = true ∨
        mcg' = mcg ∧ (v, true) ∈ (s.trunks t).vif_port ∧ CanAdd c hw s mcg v := by
  unfold trunkMcgAdd
  rw [if_neg hm]
  refine ⟨(SameMembers.foldl (fun s v => portMcgAdd_same v mcg) _ _).trunks, fun mcg' v => ?_⟩
  refine (foldl_portMcgAdd mcg _ _ mcg' v).trans ?_
  have hmem : v ∈ (s.modifyTrunk t fun tr =>
    { tr with mcg_head := tr.mcg_head ++ [mcg] }).enabled t ↔
      (v, true) ∈ (s.trunks t).vif_port := by
    rw [mem_enabled_iff]
    simp [modifyTrunk]
  rw [hmem]
  exact Iff.rfl

/-- A trunk leaves a group with its enabled members. -/
theorem trunkMcgDel_of_mem (c : VifTable) (hw : McgHw) {t mcg : ℕ}
    (hm : mcg ∈ (s.trunks t).mcg_head) :
    (s.trunkMcgDel c hw t mcg).2.trunks =
        update s.trunks t { s.trunks t with mcg_head := (s.trunks t).mcg_head.erase mcg } ∧
      ∀ mcg' v, (s.trunkMcgDel c hw t mcg).2.inGroup mcg' v = true ↔ s.inGroup mcg' v = true ∧
        ¬(mcg' = mcg ∧ (v, true) ∈ (s.trunks t).vif_port ∧ CanDel c hw mcg v) := by
  unfold trunkMcgDel
  rw [if_neg (not_not.mpr hm)]
  refine ⟨(SameMembers.foldl (fun s v => portMcgDel_same v mcg) _ _).trunks, fun mcg' v => ?_⟩
  refine (foldl_portMcgDel mcg _ _ mcg' v).trans ?_
  have hmem : v ∈ (s.modifyTrunk t fun tr =>
    { tr with mcg_head := tr.mcg_head.erase mcg }).enabled t ↔
      (v, true) ∈ (s.trunks t).vif_port := by
    rw [mem_enabled_iff]
    simp [modifyTrunk]
  rw [hmem]
  exact Iff.rfl

/-- A port that can be added and is missing is added with success. -/
theorem portMcgAdd_status {mcg : ℕ} {v : VifRef} (ha : CanAdd c hw s mcg v)
    (hin : s.inGroup mcg v ≠ true) : (s.portMcgAdd c hw v mcg).1 = .ST_OK := by
  obtain ⟨hl, hex, hadd⟩ := ha
  obtain ⟨ports, hg⟩ := Option.isSome_iff_exists.mp hex
  rw [inGroup_of_some hg] at hin
  unfold portMcgAdd mcgAddPort
  simp only [if_pos hl, hg, if_neg hin, if_pos hadd]

/-- The list of the trunk has the port as an enabled member. -/
def EnabledIn (s : Trunks) (t : ℕ) (v : VifRef) : Prop := (v, true) ∈ (s.trunks t).vif_port

end Trunks

/-! ## Runs -/

namespace TrunkRun

open Trunks

variable (c : VifTable)

/-- The groups follow the enabled members of the trunks: an enabled member of the own unit is in
every group of its trunk, and what is in a group is there on its own account or through a trunk that
it points back to. -/
structure Follows (r : TrunkRun) : Prop where
  enabled : ∀ t v mcg, c.isLocal v = true → EnabledIn r.toTrunks t v →
    mcg ∈ (r.trunks t).mcg_head → r.inGroup mcg v = true
  reason : ∀ mcg v, r.inGroup mcg v = true → r.direct mcg v = true ∨
    ∃ t, EnabledIn r.toTrunks t v ∧ r.trunk v = some t ∧ mcg ∈ (r.trunks t).mcg_head

/-- What a list must meet for a port and a group of the trunk: a new member is not named enabled
first, and the hardware adds and deletes what it has to. -/
def RegroupOk (hw : McgHw) (t : ℕ) (mem : List TrunkMember) (r : TrunkRun) (v : VifRef) (mcg : ℕ) :
    Prop :=
  (v ∉ (r.trunks t).vif_port.map (·.1) → (flags c mem v).head? ≠ some true) ∧
  (listed c mem v = some true →
    CanAdd c hw r.toTrunks mcg v ∨ (v, true) ∈ (r.trunks t).vif_port ∧ false ∉ flags c mem v) ∧
  (listed c mem v ≠ some true → (v, true) ∈ (r.trunks t).vif_port ∨ true ∈ flags c mem v →
    CanDel c hw mcg v ∨ r.direct mcg v = true)

/-- Ports of the own unit do not move straight to another trunk or join a trunk enabled while it is
in a group, they are not deleted from a group of their trunk, and the hardware adds and deletes. -/
def GroupsOk (r : TrunkRun) : TrunkOp → Prop
  | .setMembers hw t mem => mem.length ≤ 8 ∧
      (∀ v ∈ c.named mem, c.isLocal v = true → ∀ t' ∈ r.trunk v, t' = t) ∧
      ∀ v ∈ (r.trunks t).vif_port.map (·.1) ++ c.named mem, c.isLocal v = true →
        ∀ mcg ∈ (r.trunks t).mcg_head, RegroupOk c hw t mem r v mcg
  | .linkStatus _ _ => True
  | .mcgAdd hw mcg (.trunk t) => mcg ∉ (r.trunks t).mcg_head →
      ∀ v ∈ r.enabled t, c.isLocal v = true → CanAdd c hw r.toTrunks mcg v
  | .mcgAdd _ _ (.port ..) => True
  | .mcgDel hw mcg (.trunk t) => mcg ∈ (r.trunks t).mcg_head →
      ∀ v ∈ r.enabled t, c.isLocal v = true → CanDel c hw mcg v ∨ r.direct mcg v = true
  | .mcgDel hw mcg (.port dev type num) => ∀ t ∈ r.trunk (.port dev type num),
      (.port dev type num, true) ∈ (r.trunks t).vif_port → mcg ∈ (r.trunks t).mcg_head →
        ¬CanDel c hw mcg (.port dev type num)

/-- What the calls keep. -/
structure Grouped (r : TrunkRun) : Prop where
  unique : ∀ t, Keyed.Unique Prod.fst (r.trunks t).vif_port
  heads : ∀ t, (r.trunks t).mcg_head.Nodup
  placed : ∀ v, c.isLocal v = true →
    ∀ t, r.trunk v = some t ↔ v ∈ (r.trunks t).vif_port.map (·.1)
  enabled : ∀ t v mcg, c.isLocal v = true → (v, true) ∈ (r.trunks t).vif_port →
    mcg ∈ (r.trunks t).mcg_head → r.inGroup mcg v = true
  reason : ∀ mcg v, c.isLocal v = true → r.inGroup mcg v = true → r.direct mcg v = true ∨
    ∃ t, (v, true) ∈ (r.trunks t).vif_port ∧ mcg ∈ (r.trunks t).mcg_head
  remote : ∀ mcg v, c.isLocal v ≠ true → r.inGroup mcg v = true → r.direct mcg v = true

variable {c} {r r' : TrunkRun}

/-- The invariant has the property in it. -/
theorem Grouped.toFollows (h : r.Grouped c) : r.Follows c where
  enabled := h.enabled
  reason mcg v hin := by
    by_cases hl : c.isLocal v = true
    · refine (h.reason mcg v hl hin).imp_right ?_
      rintro ⟨t, hv, hmcg⟩
      exact ⟨t, hv, (h.placed v hl t).mpr (mem_ports_iff.mpr ⟨true, hv⟩), hmcg⟩
    · exact .inl (h.remote mcg v hl hin)

/-- A port of the own unit is in one trunk at most. -/
theorem Grouped.one_trunk (h : r.Grouped c) {v : VifRef} (hl : c.isLocal v = true) {t t' : ℕ}
    (hv : v ∈ (r.trunks t).vif_port.map (·.1)) (hv' : v ∈ (r.trunks t').vif_port.map (·.1)) :
    t = t' :=
  Option.some_inj.mp (((h.placed v hl t).mpr hv).symm.trans ((h.placed v hl t').mpr hv'))

/-- In the beginning there are no groups and no members. -/
theorem grouped_init (groups : ℕ → Option (VifRef → Bool)) : (init c groups).Grouped c where
  unique _ := List.nodup_nil
  heads _ := List.nodup_nil
  placed v _ t := by simp [init, Trunks.init]
  enabled _ _ _ _ hv := absurd hv List.not_mem_nil
  reason _ _ _ hin := .inl hin
  remote _ _ _ hin := hin

/-- An interface is named by a list when it has a flag in it. -/
theorem mem_named_iff {mem : List TrunkMember} {v : VifRef} :
    v ∈ c.named mem ↔ flags c mem v ≠ [] := by
  rw [VifTable.mem_named_iff, Option.isSome_iff_ne_none, ne_eq, listed_eq_none_iff]

/-- A port is kept when it was added by itself and is in the group still. -/
theorem keep_iff {direct : ℕ → VifRef → Bool} {s : Trunks} {mcg : ℕ} {v : VifRef} :
    keep direct s mcg v = true ↔ direct mcg v = true ∧ s.inGroup mcg v = true := by
  unfold keep
  rw [Bool.and_eq_true]

section Steps

variable (hg : r.Grouped c)

include hg

/-- A list that the guard admits. -/
theorem Grouped.setMembers {hw : McgHw} {t : ℕ} {mem : List TrunkMember}
    (hfree : ∀ v ∈ c.named mem, c.isLocal v = true → ∀ t' ∈ r.trunk v, t' = t)
    (hok : ∀ v ∈ (r.trunks t).vif_port.map (·.1) ++ c.named mem, c.isLocal v = true →
      ∀ mcg ∈ (r.trunks t).mcg_head, RegroupOk c hw t mem r v mcg)
    (hs : r'.toTrunks = r.vifSetTrunkMembers c hw t mem)
    (hd : r'.direct = keep r.direct r'.toTrunks) : r'.Grouped c := by
  have hset := membersSet c hw t mem (hg.unique t)
  rw [← hs] at hset
  have hplaced : ∀ v, c.isLocal v = true →
      ∀ t', r'.trunk v = some t' ↔ v ∈ (r'.trunks t').vif_port.map (·.1) := fun v hl =>
    hset.trunk_iff (hg.placed v hl) fun hsome => by
      refine hfree v (mem_named_iff.mpr fun hnil => ?_) hl
      rw [listed_eq_none_iff.mpr hnil] at hsome
      exact absurd hsome Bool.false_ne_true
  -- a port is regrouped if it was a member or is named, in the groups of the trunk
  have hregroup : ∀ v mcg, c.isLocal v = true → mcg ∈ (r.trunks t).mcg_head →
      (flags c mem v = [] ∧ v ∉ (r.trunks t).vif_port.map (·.1)) ∨
        RegroupOk c hw t mem r v mcg := by
    intro v mcg hl hmcg
    by_cases hv : v ∈ (r.trunks t).vif_port.map (·.1) ++ c.named mem
    · exact .inr (hok v hv hl mcg hmcg)
    · rw [List.mem_append, not_or, mem_named_iff, not_not] at hv
      exact .inl hv.symm
  have hsame : ∀ v mcg, ((flags c mem v = [] ∧ v ∉ (r.trunks t).vif_port.map (·.1)) ∨
      mcg ∉ (r.trunks t).mcg_head ∨ c.isLocal v ≠ true) →
      (r'.inGroup mcg v = true ↔ r.inGroup mcg v = true) := fun v mcg h => by
    rw [hs]
    exact vifSetTrunkMembers_other c hw (hg.unique t) h
  have hdirect : ∀ {mcg v}, r'.inGroup mcg v = true → r.direct mcg v = true →
      r'.direct mcg v = true := fun hin hv => by
    rw [hd]
    exact keep_iff.mpr ⟨hv, hin⟩
  -- what was in a group before for another reason than this trunk is so still
  have hkeep : ∀ {mcg v}, c.isLocal v = true → r'.inGroup mcg v = true → r.inGroup mcg v = true →
      (v, true) ∉ (r.trunks t).vif_port ∨ mcg ∉ (r.trunks t).mcg_head →
      r'.direct mcg v = true ∨
        ∃ t, (v, true) ∈ (r'.trunks t).vif_port ∧ mcg ∈ (r'.trunks t).mcg_head := by
    intro mcg v hl hin' hin hno
    refine (hg.reason mcg v hl hin).imp (hdirect hin') ?_
    rintro ⟨t', hv, hmcg⟩
    have ht : t' ≠ t := by
      rintro rfl
      exact hno.elim (fun h => h hv) fun h => h hmcg
    exact ⟨t', by rw [hset.other t' ht]; exact ⟨hv, hmcg⟩⟩
  refine ⟨fun t' => ?_, fun t' => ?_, hplaced, fun t' v mcg hl hv hmcg => ?_,
    fun mcg v hl hin' => ?_, fun mcg v hl hin' => ?_⟩
  · by_cases ht : t' = t
    · subst ht
      exact hset.unique
    · rw [hset.other t' ht]
      exact hg.unique t'
  · by_cases ht : t' = t
    · subst ht
      rw [hset.mcg_head]
      exact hg.heads t'
    · rw [hset.other t' ht]
      exact hg.heads t'
  · by_cases ht : t' = t
    · subst ht
      have hlisted : listed c mem v = some true := (hset.mem_iff v true).mp hv
      rw [hset.mcg_head] at hmcg
      rcases hregroup v mcg hl hmcg with ⟨hnil, -⟩ | ⟨hnew, hadd, -⟩
      · rw [listed_eq_none_iff.mpr hnil] at hlisted
        exact absurd hlisted.symm (Option.some_ne_none true)
      · rw [hs]
        exact vifSetTrunkMembers_enabled c hw (hg.unique t') hl hmcg
          (fun hv => hg.enabled t' v mcg hl hv hmcg) hnew hlisted (hadd hlisted)
    · -- a member of another trunk is neither a member of this one nor named
      rw [hset.other t' ht] at hv hmcg
      have hport := mem_ports_iff.mpr ⟨true, hv⟩
      refine (hsame v mcg (.inl ⟨?_, fun hv' => ht (hg.one_trunk hl hport hv')⟩)).mpr
        (hg.enabled t' v mcg hl hv hmcg)
      by_contra hne
      exact ht (hfree v (mem_named_iff.mpr hne) hl t' ((hg.placed v hl t').mpr hport))
  · by_cases hmcg : mcg ∈ (r.trunks t).mcg_head
    · rcases hregroup v mcg hl hmcg with hout | ⟨hnew, -, hdel⟩
      · exact hkeep hl hin' ((hsame v mcg (.inl hout)).mp hin')
          (.inl fun hv => hout.2 (mem_ports_iff.mpr ⟨true, hv⟩))
      · by_cases hlisted : listed c mem v = some true
        · exact .inr ⟨t, (hset.mem_iff v true).mpr hlisted, by rw [hset.mcg_head]; exact hmcg⟩
        · have hin₁ := hin'
          rw [hs] at hin₁
          obtain ⟨hnever, hcan⟩ := vifSetTrunkMembers_disabled c hw (hg.unique t) hl hmcg
            (fun hv => hg.enabled t v mcg hl hv hmcg) hnew hlisted hin₁
          by_cases hon : (v, true) ∈ (r.trunks t).vif_port ∨ true ∈ flags c mem v
          · rcases hdel hlisted hon with hdel | hv
            · exact hkeep hl hin' (hcan hdel).2 (.inl (hcan hdel).1)
            · exact .inl (hdirect hin' hv)
          · obtain ⟨hoff, hno⟩ := not_or.mp hon
            exact hkeep hl hin' (hnever hoff hno) (.inl hoff)
    · exact hkeep hl hin' ((hsame v mcg (.inr (.inl hmcg))).mp hin') (.inr hmcg)
  · exact hdirect hin' (hg.remote mcg v hl ((hsame v mcg (.inr (.inr hl))).mp hin'))

/-- A call that leaves the lists alone. -/
theorem Grouped.of_lists (hs : SameLists r.toTrunks r'.toTrunks)
    (heads : ∀ t, (r'.trunks t).mcg_head.Nodup)
    (enabled : ∀ t v mcg, c.isLocal v = true → (v, true) ∈ (r.trunks t).vif_port →
      mcg ∈ (r'.trunks t).mcg_head → r'.inGroup mcg v = true)
    (reason : ∀ mcg v, c.isLocal v = true → r'.inGroup mcg v = true → r'.direct mcg v = true ∨
      ∃ t, (v, true) ∈ (r.trunks t).vif_port ∧ mcg ∈ (r'.trunks t).mcg_head)
    (remote : ∀ mcg v, c.isLocal v ≠ true → r'.inGroup mcg v = true → r'.direct mcg v = true) :
    r'.Grouped c where
  unique t := by rw [hs.vif_port]; exact hg.unique t
  heads := heads
  placed v hl t := by rw [hs.trunk, hs.vif_port]; exact hg.placed v hl t
  enabled t v mcg hl := by rw [hs.vif_port]; exact enabled t v mcg hl
  reason mcg v hl hin := by simp only [hs.vif_port]; exact reason mcg v hl hin
  remote := remote

/-- A call that changes nothing. -/
theorem Grouped.of_same (hs : SameMembers r.toTrunks r'.toTrunks)
    (hin : ∀ mcg v, r'.inGroup mcg v = r.inGroup mcg v)
    (hd : r'.direct = keep r.direct r'.toTrunks) : r'.Grouped c := by
  have hdirect : ∀ {mcg v}, r'.inGroup mcg v = true → r.direct mcg v = true →
      r'.direct mcg v = true := fun hin hv => by
    rw [hd]
    exact keep_iff.mpr ⟨hv, hin⟩
  refine hg.of_lists hs.lists (fun t => ?_) (fun t v mcg hl hv hmcg => ?_)
    (fun mcg v hl hin' => ?_) fun mcg v hl hin' => ?_
  · rw [hs.trunks]
    exact hg.heads t
  · rw [hs.trunks] at hmcg
    rw [hin]
    exact hg.enabled t v mcg hl hv hmcg
  · rw [hs.trunks]
    exact (hg.reason mcg v hl (hin mcg v ▸ hin')).imp_left (hdirect hin')
  · exact hdirect hin' (hg.remote mcg v hl (hin mcg v ▸ hin'))

/-- A trunk enters a group. -/
theorem Grouped.trunkAdd {hw : McgHw} {t mcg : ℕ}
    (hok : mcg ∉ (r.trunks t).mcg_head →
      ∀ v ∈ r.enabled t, c.isLocal v = true → CanAdd c hw r.toTrunks mcg v)
    (hs : r'.toTrunks = (r.trunkMcgAdd c hw t mcg).2)
    (hd : r'.direct = keep r.direct r'.toTrunks) : r'.Grouped c := by
  by_cases hm : mcg ∈ (r.trunks t).mcg_head
  · have hsame : r'.toTrunks = r.toTrunks := by
      rw [hs]
      unfold trunkMcgAdd
      rw [if_pos hm]
    exact hg.of_same (by rw [hsame]; exact .rfl) (fun _ _ => by rw [hsame]) hd
  · obtain ⟨htrunks, hin⟩ := trunkMcgAdd_of_not_mem c hw hm
    rw [← hs] at htrunks hin
    have hlists : SameLists r.toTrunks r'.toTrunks := by
      rw [hs]
      exact trunkMcgAdd_lists t mcg
    have hhead : ∀ t' mcg', mcg' ∈ (r'.trunks t').mcg_head ↔
        mcg' ∈ (r.trunks t').mcg_head ∨ t' = t ∧ mcg' = mcg := by
      intro t' mcg'
      rw [htrunks]
      by_cases ht : t' = t
      · subst ht
        simp
      · simp [ht]
    refine hg.of_lists hlists (fun t' => ?_) (fun t' v mcg' hl hv hmcg => ?_)
      (fun mcg' v hl hin' => ?_) fun mcg' v hl hin' => ?_
    · rw [htrunks]
      by_cases ht : t' = t
      · subst ht
        rw [update_self]
        exact List.nodup_append.mpr ⟨hg.heads t', List.nodup_singleton _,
          fun a ha b hb hab => hm (List.mem_singleton.mp hb ▸ hab ▸ ha)⟩
      · rw [update_of_ne ht]
        exact hg.heads t'
    · rw [hin]
      rcases (hhead t' mcg').mp hmcg with hmcg | ⟨rfl, rfl⟩
      · exact .inl (hg.enabled t' v mcg' hl hv hmcg)
      · exact .inr ⟨rfl, hv, hok hm v (mem_enabled_iff.mpr hv) hl⟩
    · rcases (hin mcg' v).mp hin' with hin₀ | ⟨rfl, hv, -⟩
      · refine (hg.reason mcg' v hl hin₀).imp (fun hv => ?_) fun ⟨t', hv, hmcg⟩ =>
          ⟨t', hv, (hhead t' mcg').mpr (.inl hmcg)⟩
        rw [hd]
        exact keep_iff.mpr ⟨hv, hin'⟩
      · exact .inr ⟨t, hv, (hhead t mcg').mpr (.inr ⟨rfl, rfl⟩)⟩
    · rcases (hin mcg' v).mp hin' with hin₀ | ⟨rfl, -, hadd⟩
      · rw [hd]
        exact keep_iff.mpr ⟨hg.remote mcg' v hl hin₀, hin'⟩
      · exact absurd hadd.1 hl

/-- A trunk leaves a group. -/
theorem Grouped.trunkDel {hw : McgHw} {t mcg : ℕ}
    (hok : mcg ∈ (r.trunks t).mcg_head →
      ∀ v ∈ r.enabled t, c.isLocal v = true → CanDel c hw mcg v ∨ r.direct mcg v = true)
    (hs : r'.toTrunks = (r.trunkMcgDel c hw t mcg).2)
    (hd : r'.direct = keep r.direct r'.toTrunks) : r'.Grouped c := by
  by_cases hm : mcg ∈ (r.trunks t).mcg_head
  · obtain ⟨htrunks, hin⟩ := trunkMcgDel_of_mem c hw hm
    rw [← hs] at htrunks hin
    have hlists : SameLists r.toTrunks r'.toTrunks := by
      rw [hs]
      exact trunkMcgDel_lists t mcg
    have hhead : ∀ t' mcg', mcg' ∈ (r'.trunks t').mcg_head ↔
        mcg' ∈ (r.trunks t').mcg_head ∧ ¬(t' = t ∧ mcg' = mcg) := by
      intro t' mcg'
      rw [htrunks]
      by_cases ht : t' = t
      · subst ht
        simp [(hg.heads t').mem_erase_iff, and_comm]
      · simp [ht]
    have hdirect : ∀ {mcg' v}, r'.inGroup mcg' v = true → r.direct mcg' v = true →
        r'.direct mcg' v = true := fun hin hv => by
      rw [hd]
      exact keep_iff.mpr ⟨hv, hin⟩
    refine hg.of_lists hlists (fun t' => ?_) (fun t' v mcg' hl hv hmcg => ?_)
      (fun mcg' v hl hin' => ?_) fun mcg' v hl hin' => ?_
    · rw [htrunks]
      by_cases ht : t' = t
      · subst ht
        rw [update_self]
        exact (hg.heads t').erase mcg
      · rw [update_of_ne ht]
        exact hg.heads t'
    · obtain ⟨hmcg, hne⟩ := (hhead t' mcg').mp hmcg
      refine (hin mcg' v).mpr ⟨hg.enabled t' v mcg' hl hv hmcg, ?_⟩
      -- an enabled member of another trunk is no member of this one
      rintro ⟨rfl, hv', -⟩
      exact hne ⟨hg.one_trunk hl (mem_ports_iff.mpr ⟨true, hv⟩)
        (mem_ports_iff.mpr ⟨true, hv'⟩), rfl⟩
    · obtain ⟨hin₀, hno⟩ := (hin mcg' v).mp hin'
      rcases hg.reason mcg' v hl hin₀ with hv | ⟨t', hv, hmcg⟩
      · exact .inl (hdirect hin' hv)
      · by_cases heq : t' = t ∧ mcg' = mcg
        · obtain ⟨rfl, rfl⟩ := heq
          rcases hok hm v (mem_enabled_iff.mpr hv) hl with hdel | hv'
          · exact absurd ⟨rfl, hv, hdel⟩ hno
          · exact .inl (hdirect hin' hv')
        · exact .inr ⟨t', hv, (hhead t' mcg').mpr ⟨hmcg, heq⟩⟩
    · exact hdirect hin' (hg.remote mcg' v hl ((hin mcg' v).mp hin').1)
  · have hsame : r'.toTrunks = r.toTrunks := by
      rw [hs]
      unfold trunkMcgDel
      rw [if_pos hm]
    exact hg.of_same (by rw [hsame]; exact .rfl) (fun _ _ => by rw [hsame]) hd

/-- A port is added to a group. -/
theorem Grouped.portAdd {hw : McgHw} {mcg : ℕ} {w : VifRef}
    (hs : r'.toTrunks = (r.portMcgAdd c hw w mcg).2)
    (hd : r'.direct = if (r.portMcgAdd c hw w mcg).1 = .ST_OK then
        keep (update r.direct mcg (update (r.direct mcg) w true)) r'.toTrunks
      else keep r.direct r'.toTrunks) : r'.Grouped c := by
  have hsame : SameMembers r.toTrunks r'.toTrunks := by
    rw [hs]
    exact portMcgAdd_same w mcg
  have hin : ∀ mcg' v, r'.inGroup mcg' v = true ↔
      r.inGroup mcg' v = true ∨ mcg' = mcg ∧ v = w ∧ CanAdd c hw r.toTrunks mcg w := by
    rw [hs]
    exact inGroup_portMcgAdd w mcg
  have hdirect : ∀ {mcg' v}, r'.inGroup mcg' v = true → r.direct mcg' v = true →
      r'.direct mcg' v = true := fun {mcg' v} hin hv => by
    rw [hd]
    split_ifs
    · refine keep_iff.mpr ⟨?_, hin⟩
      by_cases hm : mcg' = mcg
      · subst hm
        rw [update_self]
        by_cases hvw : v = w
        · rw [hvw, update_self]
        · rw [update_of_ne hvw]
          exact hv
      · rw [update_of_ne hm]
        exact hv
    · exact keep_iff.mpr ⟨hv, hin⟩
  refine hg.of_lists hsame.lists (fun t => ?_) (fun t v mcg' hl hv hmcg => ?_)
    (fun mcg' v hl hin' => ?_) fun mcg' v hl hin' => ?_
  · rw [hsame.trunks]
    exact hg.heads t
  · rw [hsame.trunks] at hmcg
    exact (hin mcg' v).mpr (.inl (hg.enabled t v mcg' hl hv hmcg))
  · rw [hsame.trunks]
    by_cases hin₀ : r.inGroup mcg' v = true
    · exact (hg.reason mcg' v hl hin₀).imp_left (hdirect hin')
    · -- the port was not in the group, so the call has put it there
      obtain ⟨rfl, rfl, hadd⟩ := ((hin mcg' v).mp hin').resolve_left hin₀
      rw [hd, if_pos (portMcgAdd_status hadd hin₀)]
      exact .inl (keep_iff.mpr ⟨by rw [update_self, update_self], hin'⟩)
  · rcases (hin mcg' v).mp hin' with hin₀ | ⟨rfl, rfl, hadd⟩
    · exact hdirect hin' (hg.remote mcg' v hl hin₀)
    · exact absurd hadd.1 hl

/-- A port is deleted from a group. -/
theorem Grouped.portDel {hw : McgHw} {mcg : ℕ} {w : VifRef}
    (hok : ∀ t ∈ r.trunk w, (w, true) ∈ (r.trunks t).vif_port → mcg ∈ (r.trunks t).mcg_head →
      ¬CanDel c hw mcg w)
    (hs : r'.toTrunks = (r.portMcgDel c hw w mcg).2)
    (hd : r'.direct = keep r.direct r'.toTrunks) : r'.Grouped c := by
  have hsame : SameMembers r.toTrunks r'.toTrunks := by
    rw [hs]
    exact portMcgDel_same w mcg
  have hin : ∀ mcg' v, r'.inGroup mcg' v = true ↔
      r.inGroup mcg' v = true ∧ ¬(mcg' = mcg ∧ v = w ∧ CanDel c hw mcg w) := by
    rw [hs]
    exact inGroup_portMcgDel w mcg
  have hdirect : ∀ {mcg' v}, r'.inGroup mcg' v = true → r.direct mcg' v = true →
      r'.direct mcg' v = true := fun hin hv => by
    rw [hd]
    exact keep_iff.mpr ⟨hv, hin⟩
  refine hg.of_lists hsame.lists (fun t => ?_) (fun t v mcg' hl hv hmcg => ?_)
    (fun mcg' v hl hin' => ?_) fun mcg' v hl hin' => ?_
  · rw [hsame.trunks]
    exact hg.heads t
  · rw [hsame.trunks] at hmcg
    refine (hin mcg' v).mpr ⟨hg.enabled t v mcg' hl hv hmcg, ?_⟩
    rintro ⟨rfl, rfl, hdel⟩
    exact hok t ((hg.placed v hl t).mpr (mem_ports_iff.mpr ⟨true, hv⟩)) hv hmcg hdel
  · rw [hsame.trunks]
    exact (hg.reason mcg' v hl ((hin mcg' v).mp hin').1).imp_left (hdirect hin')
  · exact hdirect hin' (hg.remote mcg' v hl ((hin mcg' v).mp hin').1)

/-- **Step.** A call that meets the condition keeps the ports of trunks in their groups. -/
theorem Grouped.step {op : TrunkOp} (hok : GroupsOk c r op) (hs : step c r op = some r') :
    r'.Grouped c := by
  obtain rfl := Option.some_inj.mp hs
  cases op with
  | setMembers hw t mem => exact hg.setMembers hok.2.1 hok.2.2 rfl rfl
  | linkStatus v st =>
    obtain ⟨hsame, hgroups⟩ := vifSetLinkStatus_same (c := c) (s := r.toTrunks) v st
    exact hg.of_same hsame (inGroup_congr hgroups) rfl
  | mcgAdd hw mcg v =>
    cases v with
    | trunk t => exact hg.trunkAdd hok rfl rfl
    | port dev type num => exact hg.portAdd rfl rfl
  | mcgDel hw mcg v =>
    cases v with
    | trunk t => exact hg.trunkDel hok rfl rfl
    | port dev type num => exact hg.portDel hok rfl rfl

end Steps

/-- In every run whose calls the guard admits, the enabled members of the own unit are in the groups
of their trunks, and nothing is in a group for a trunk that it has left or is disabled in. -/
theorem follows (c : VifTable) (groups : ℕ → Option (VifRef → Bool))
    (hr : Guarded.Reach (step c) (GroupsOk c) (init c groups) r) : r.Follows c :=
  (hr.invariant (Grouped c) (grouped_init groups)
    fun _ _ _ hg hok hs => hg.step hok hs).toFollows

/-! ### Runs -/

instance (hw : McgHw) (s : Trunks) (mcg : ℕ) (v : VifRef) : Decidable (CanAdd c hw s mcg v) :=
  inferInstanceAs (Decidable (_ ∧ _))

instance (hw : McgHw) (mcg : ℕ) (v : VifRef) : Decidable (CanDel c hw mcg v) :=
  inferInstanceAs (Decidable (_ ∧ _))

instance (hw : McgHw) (t : ℕ) (mem : List TrunkMember) (r : TrunkRun) (v : VifRef) (mcg : ℕ) :
    Decidable (RegroupOk c hw t mem r v mcg) :=
  inferInstanceAs (Decidable (_ ∧ _))

instance (r : TrunkRun) (op : TrunkOp) : Decidable (GroupsOk c r op) :=
  match op with
  | .setMembers .. => inferInstanceAs (Decidable (_ ∧ _))
  | .linkStatus .. => .isTrue trivial
  | .mcgAdd _ _ (.trunk t) => inferInstanceAs (Decidable (_ → ∀ v ∈ r.enabled t, _ → _))
  | .mcgAdd _ _ (.port ..) => .isTrue trivial
  | .mcgDel _ _ (.trunk t) => inferInstanceAs (Decidable (_ → ∀ v ∈ r.enabled t, _ → _))
  | .mcgDel _ _ (.port ..) => inferInstanceAs (Decidable (∀ t ∈ r.trunk _, _ → _ → _))

/-- Group 100, with no ports. -/
def oneGroup (mcg : ℕ) : Option (VifRef → Bool) := if mcg = 100 then some fun _ => false else none

/-- A member that is enabled after it has joined. -/
theorem follows_enabled : ∃ r, Guarded.Reach (step tenPorts) (GroupsOk tenPorts)
    (init tenPorts oneGroup) r ∧ r.Follows tenPorts ∧
      r.inGroup 100 (.port 1 .VIFT_GE 3) = true := by
  have hlast : (Guarded.run (step tenPorts) (GroupsOk tenPorts) (init tenPorts oneGroup)
      [.mcgAdd reliable 100 (.trunk 1), .setMembers reliable 1 [member 3 false, member 4 false],
        .setMembers reliable 1 [member 3 true, member 4 true],
        .setMembers reliable 1 [member 3 true]]).map
        (fun r => r.inGroup 100 (.port 1 .VIFT_GE 3)) = some true := by
    decide +kernel
  obtain ⟨r, hr, hlast⟩ := Option.map_eq_some_iff.mp hlast
  have hreach := Guarded.Reach.init.of_run hr
  exact ⟨r, hreach, follows _ _ hreach, hlast⟩

/-- A port that joins trunk 1 enabled is not in the group of the trunk. -/
theorem not_follows : ¬∀ (c : VifTable) (groups : ℕ → Option (VifRef → Bool)) (r : TrunkRun),
    Guarded.Reach (step c) Short (init c groups) r → r.Follows c := by
  intro h
  have hlast : (Guarded.run (step tenPorts) Short (init tenPorts oneGroup)
      [.mcgAdd reliable 100 (.trunk 1), .setMembers reliable 1 [member 3 true]]).map
        (fun r => ((r.trunks 1).vif_port, (r.trunks 1).mcg_head, r.inGroup 100 (.port 1 .VIFT_GE 3))) =
      some ([(.port 1 .VIFT_GE 3, true)], [100], false) := by
    decide +kernel
  obtain ⟨r, hr, hlast⟩ := Option.map_eq_some_iff.mp hlast
  obtain ⟨hports, hlast⟩ := Prod.mk.inj hlast
  obtain ⟨hhead, hin⟩ := Prod.mk.inj hlast
  have hf := h tenPorts oneGroup r (Guarded.Reach.init.of_run hr)
  have hmem : EnabledIn r.toTrunks 1 (.port 1 .VIFT_GE 3) := by
    unfold EnabledIn
    rw [hports]
    exact List.mem_singleton_self _
  have hin' := hf.enabled 1 _ 100 rfl hmem (by rw [hhead]; exact List.mem_singleton_self _)
  exact Bool.false_ne_true (hin.symm.trans hin')

end TrunkRun

end Presteramgr
