import Presteramgr.Ret.Mapping

/-!
# Gateways and the groups they are in

The entry of a gateway lists the groups that the gateway is a member of. Groups take their members
in and let them go one by one.

## Main definitions

* `groupsOf`: the groups that the entry of a gateway lists;
* `GwsOk`: no two entries have the same gateway, and the interfaces of valid gateways exist;
* `MembersOk`: the lists of the gateways are those of the groups.

## Main results

* `Adding.addMember`: a new group takes a member in;
* `foldl_retUnref_spec`: a group lets its members go.
-/

namespace Presteramgr

open Function (update update_self update_of_ne)

namespace Router

/-- The groups that the entry of the gateway lists. -/
def groupsOf (s : Router) (gw : Gw) : List ℤ :=
  match s.findGw gw with
  | some re => re.group_ids
  | none => []

/-- No two entries have the same gateway, and the interfaces of valid gateways exist. -/
structure GwsOk (env : RouteEnv) (s : Router) : Prop where
  unique : Keyed.Unique Re.gw s.ret
  vif : ∀ re ∈ s.ret, re.valid = true → (env.vifGetn re.vif_id).isSome = true

/-- The groups have different ids, which are taken, and the gateways list the groups that they are
members of. -/
structure MembersOk (env : RouteEnv) (s : Router) : Prop where
  gws : GwsOk env s
  groups : Keyed.Unique ReGroup.group_id s.re_group
  ids : ∀ g ∈ s.re_group, g.group_id ∈ s.group_id
  nodup : ∀ gw, (s.groupsOf gw).Nodup
  joined : ∀ gw gid, gid ∈ s.groupsOf gw ↔
    ∃ g ∈ s.re_group, g.group_id = gid ∧ gw ∈ g.re_idx.map ReIdx.gw

variable {env : RouteEnv} {s s' : Router} {gw gw' : Gw} {re : Re} {gid gid' : ℤ}

theorem isSome_entry (hvif : re.valid = true → (env.vifGetn re.vif_id).isSome = true) :
    (re.entry env).isSome = re.valid := by
  unfold Re.entry
  cases hv : re.valid with
  | false => rfl
  | true => simpa using hvif hv

theorem entry_of_find (hf : s.findGw gw = some re) : s.entry env gw = re.entry env := by
  rw [entry, hf, Option.bind_some]

theorem GwsOk.isSome_entry (h : GwsOk env s) (hf : s.findGw gw = some re) :
    (s.entry env gw).isSome = re.valid := by
  rw [entry_of_find hf]
  exact Router.isSome_entry (h.vif re (Keyed.mem_of_find hf))

/-- A fan-out keeps the membership. -/
theorem MembersOk.of_fanned (h : MembersOk env s) (hf : Fanned s s') : MembersOk env s' := by
  obtain ⟨g, u, l, t, rfl, hstat⟩ := hf
  have hids : g.map ReGroup.group_id = s.re_group.map ReGroup.group_id := by
    have hfst := congrArg (List.map Prod.fst) hstat
    simpa only [List.map_map, Function.comp_def, ReGroup.static] using hfst
  -- what holds of some group by its static part holds of some group afterwards
  have hex : ∀ p : ℤ × ℤ × ℤ × List Gw × List RoutePfxPbr → Prop,
      (∃ x ∈ g, p x.static) ↔ ∃ x ∈ s.re_group, p x.static := fun p => by
    have hmem : (∃ y ∈ g.map ReGroup.static, p y) ↔ ∃ y ∈ s.re_group.map ReGroup.static, p y := by
      rw [hstat]
    simpa only [List.mem_map, exists_exists_and_eq_and] using hmem
  refine ⟨⟨h.gws.unique, h.gws.vif⟩, ?_, fun x hx => ?_, h.nodup, fun gw gid => ?_⟩
  · rw [Keyed.Unique, hids]
    exact h.groups
  · have hx : x.group_id ∈ s.re_group.map ReGroup.group_id := hids ▸ List.mem_map_of_mem hx
    obtain ⟨y, hy, heq⟩ := List.mem_map.mp hx
    exact heq ▸ h.ids y hy
  · exact (h.joined gw gid).trans (hex fun x => x.1 = gid ∧ gw ∈ x.2.2.2.1).symm

/-! ### A gateway enters a group -/

theorem findGw_modifyGw {f : Re → Re} (hgw : ∀ re, (f re).gw = re.gw) :
    (s.modifyGw gw f).findGw gw' = (s.findGw gw').map fun re => if re.gw = gw then f re else re :=
  Keyed.find_modify hgw

theorem findGw_modifyGw_self {f : Re → Re} (hgw : ∀ re, (f re).gw = re.gw)
    (hf : s.findGw gw = some re) : (s.modifyGw gw f).findGw gw = some (f re) :=
  Keyed.find_modify_self hgw hf

theorem findGw_modifyGw_of_ne {f : Re → Re} (hgw : ∀ re, (f re).gw = re.gw) (hne : gw' ≠ gw) :
    (s.modifyGw gw f).findGw gw' = s.findGw gw' := by
  rw [findGw_modifyGw hgw]
  cases hf : s.findGw gw' with
  | none => rfl
  | some re =>
    have hre : re.gw = gw' := Keyed.key_of_find hf
    rw [Option.map_some, if_neg (hre ▸ hne)]

/-- A gateway enters a group: its list gains the group, and its entry stays. -/
theorem retAdd_spec (env : RouteEnv) (s : Router) (gw : Gw) (gid : ℤ) :
    (s.retAdd gw gid).2.entry env = s.entry env ∧
    (s.retAdd gw gid).1.entry env = s.entry env gw ∧
    (∀ gw', (s.retAdd gw gid).2.groupsOf gw' =
      if gw' = gw then retAddGroupToList (s.groupsOf gw) gid else s.groupsOf gw') ∧
    (GwsOk env s → GwsOk env (s.retAdd gw gid).2 ∧
      (s.retAdd gw gid).1.valid = (s.entry env gw).isSome) := by
  unfold retAdd
  cases hf : s.findGw gw with
  -- the gateway is there, and gets one more group
  | some re =>
    have hkeep : ∀ re : Re, ({ re with
        group_ids := retAddGroupToList re.group_ids gid } : Re).gw = re.gw := fun _ => rfl
    have hself := findGw_modifyGw_self hkeep hf
    refine ⟨funext fun gw' => ?_, (entry_of_find hf).symm, fun gw' => ?_, fun h => ⟨⟨?_, ?_⟩, ?_⟩⟩
    · rcases eq_or_ne gw' gw with rfl | hne
      · rw [entry_of_find hself, entry_of_find hf]
        rfl
      · rw [entry, findGw_modifyGw_of_ne hkeep hne, entry]
    · rcases eq_or_ne gw' gw with rfl | hne
      · rw [if_pos rfl, groupsOf, groupsOf, hself, hf]
      · rw [if_neg hne, groupsOf, findGw_modifyGw_of_ne hkeep hne, groupsOf]
    · exact h.unique.modify hkeep
    · intro x hx
      rcases Keyed.mem_modify_iff.mp hx with ⟨y, hy, -, rfl⟩ | ⟨hx, -⟩
      · exact h.vif y hy
      · exact h.vif x hx
    · exact (h.isSome_entry hf).symm
  -- the gateway is new, and has no address yet
  | none =>
    have hne := Keyed.find_eq_none_iff.mp hf
    have hfind : ∀ gw' : Gw, Keyed.find Re.gw
        (⟨gw, false, 0, 0, 0, retAddGroupToList [] gid⟩ :: s.ret) gw' =
        if gw' = gw then some ⟨gw, false, 0, 0, 0, retAddGroupToList [] gid⟩
        else s.findGw gw' := fun gw' => by
      by_cases hgw : gw' = gw
      · simp [Keyed.find, hgw]
      · simp [Keyed.find, hgw, Ne.symm hgw, findGw]
    have hnone : s.entry env gw = none := by rw [entry, hf, Option.bind_none]
    refine ⟨funext fun gw' => ?_, hnone.symm, fun gw' => ?_, fun h => ⟨⟨?_, ?_⟩, ?_⟩⟩
    · rcases eq_or_ne gw' gw with rfl | hgw
      · rw [hnone, entry, findGw, hfind, if_pos rfl]
        rfl
      · rw [entry, findGw, hfind, if_neg hgw, entry]
    · rcases eq_or_ne gw' gw with rfl | hgw
      · rw [if_pos rfl, groupsOf, findGw, hfind, if_pos rfl, groupsOf, hf]
      · rw [if_neg hgw, groupsOf, findGw, hfind, if_neg hgw, groupsOf]
    · exact h.unique.cons hne
    · intro x hx hv
      rcases List.mem_cons.mp hx with rfl | hx
      · exact absurd hv Bool.false_ne_true
      · exact h.vif x hx hv
    · rw [hnone, Option.isSome_none]

/-- The loop over the gateways of a new group, after the gateways `done`: they are members, those
that have an entry lie in the first indices from `first` on, and nothing else has been written. -/
structure Adding (env : RouteEnv) (s : Router) (gid first : ℤ) (done : List Gw)
    (acc : Router × ℕ × List ReIdx) : Prop where
  gws : GwsOk env acc.1
  entry : acc.1.entry env = s.entry env
  nodup : ∀ gw, (acc.1.groupsOf gw).Nodup
  groups : ∀ gw gid', gid' ∈ acc.1.groupsOf gw ↔ gid' ∈ s.groupsOf gw ∨ gid' = gid ∧ gw ∈ done
  members : acc.2.2.map ReIdx.gw = done
  filled : Packed.Filled memberSlots (fun gw => (s.entry env gw).isSome = true) first acc.2.1
    DROP_RE_IDX acc.2.2
  entries : ∀ m ∈ acc.2.2, ∀ rt, s.entry env m.gw = some rt → acc.1.ucRoute m.idx = rt
  frame : ∀ i, ¬(first ≤ i ∧ i < first + acc.2.1) → acc.1.ucRoute i = s.ucRoute i

/-- A new group takes a member in. -/
theorem Adding.addMember {first : ℤ} {done : List Gw} {acc : Router × ℕ × List ReIdx}
    {idxs : ℕ → ℤ} (h : Adding env s gid first done acc) (hdone : (done ++ [gw]).Nodup)
    (hidx : idxs acc.2.1 = first + acc.2.1) :
    Adding env s gid first (done ++ [gw]) (addMember env gid idxs acc gw) := by
  obtain ⟨t, start, members⟩ := acc
  obtain ⟨hent, hre, hgroups, hgws⟩ := retAdd_spec env t gw gid
  obtain ⟨hgws, hvalid⟩ := hgws h.gws
  have hent' : (t.retAdd gw gid).2.entry env = s.entry env := hent.trans h.entry
  have hre' : (t.retAdd gw gid).1.entry env = s.entry env gw := by rw [hre, h.entry]
  have hvalid' : (t.retAdd gw gid).1.valid = (s.entry env gw).isSome := by rw [hvalid, h.entry]
  have huc : (t.retAdd gw gid).2.ucRoute = t.ucRoute := by
    unfold retAdd
    split <;> rfl
  have hnodup : ∀ gw', ((t.retAdd gw gid).2.groupsOf gw').Nodup := fun gw' => by
    rw [hgroups]
    split_ifs
    · exact nodup_retAddGroupToList (h.nodup gw)
    · exact h.nodup gw'
  have hmem : ∀ gw' gid', gid' ∈ (t.retAdd gw gid).2.groupsOf gw' ↔
      gid' ∈ s.groupsOf gw' ∨ gid' = gid ∧ gw' ∈ done ++ [gw] := fun gw' gid' => by
    have hold : gid' ∈ t.groupsOf gw' ↔ gid' ∈ s.groupsOf gw' ∨ gid' = gid ∧ gw' ∈ done :=
      h.groups gw' gid'
    rw [hgroups, List.mem_append, List.mem_singleton]
    split_ifs with hgw
    · subst hgw
      rw [mem_retAddGroupToList, hold]
      tauto
    · rw [hold]
      tauto
  have hmembers : ∀ i : ℤ, (members ++ [(⟨gw, i⟩ : ReIdx)]).map ReIdx.gw = done ++ [gw] :=
      fun i => by
    rw [List.map_append, show members.map ReIdx.gw = done from h.members]
    rfl
  unfold Router.addMember
  dsimp only
  cases he : s.entry env gw with
  | some rt =>
    -- the gateway is resolved: it takes the next index of the run
    rw [if_pos (by rw [hvalid', he, Option.isSome_some]),
      retSetReToIdx_of_entry (hre'.trans he)]
    have hidx : idxs start = first + start := hidx
    refine ⟨⟨hgws.unique, hgws.vif⟩, hent', hnodup, hmem, hmembers _, ?_, ?_, ?_⟩
    · have hfilled := h.filled.concat (x := (⟨gw, idxs start⟩ : ReIdx))
        (by show (s.entry env gw).isSome = true; rw [he, Option.isSome_some]) hidx
      exact_mod_cast hfilled
    · intro m hm rt' hrt'
      show update (t.retAdd gw gid).2.ucRoute (idxs start) rt m.idx = rt'
      rcases List.mem_append.mp hm with hm | hm
      · have hrange := h.filled.range m hm (Option.isSome_of_eq_some hrt')
        have hne : m.idx ≠ idxs start := by
          rw [hidx]
          exact hrange.2.ne
        rw [update_of_ne hne, huc]
        exact h.entries m hm rt' hrt'
      · rw [List.mem_singleton.mp hm] at hrt' ⊢
        rw [update_self]
        exact Option.some_inj.mp (he.symm.trans hrt')
    · -- no index outside the run is written
      intro i hi
      have hi' : ¬(first ≤ i ∧ i < first + ((start + 1 : ℕ) : ℤ)) := hi
      push_cast at hi'
      have hne : i ≠ idxs start := by omega
      show update (t.retAdd gw gid).2.ucRoute (idxs start) rt i = s.ucRoute i
      rw [update_of_ne hne, huc]
      exact h.frame i (by show ¬(first ≤ i ∧ i < first + (start : ℤ)); omega)
  | none =>
    -- the gateway is not resolved: it takes no index
    rw [if_neg (by rw [hvalid', he]; simp)]
    refine ⟨hgws, hent', hnodup, hmem, hmembers _, ?_, ?_, ?_⟩
    · exact h.filled.concat_off
        (by show ¬(s.entry env gw).isSome = true; rw [he]; simp) rfl
    · intro m hm rt' hrt'
      rcases List.mem_append.mp hm with hm | hm
      · rw [huc]
        exact h.entries m hm rt' hrt'
      · rw [List.mem_singleton.mp hm] at hrt'
        exact absurd (he.symm.trans hrt') (by simp)
    · intro i hi
      rw [huc]
      exact h.frame i hi

/-- All gateways of a new group have become members. -/
theorem Adding.foldl {first : ℤ} (idxs : ℕ → ℤ) (gws done : List Gw)
    (acc : Router × ℕ × List ReIdx) (h : Adding env s gid first done acc)
    (hdone : (done ++ gws).Nodup) (hidx : ∀ k < (done ++ gws).length, idxs k = first + k) :
    Adding env s gid first (done ++ gws) (gws.foldl (Router.addMember env gid idxs) acc) := by
  induction gws generalizing done acc with
  | nil => rwa [List.append_nil]
  | cons gw gws ih =>
    have hassoc : done ++ gw :: gws = (done ++ [gw]) ++ gws := by simp
    have hone : (done ++ [gw]).Nodup := by
      rw [hassoc] at hdone
      exact (List.nodup_append.mp hdone).1
    -- as many indices are taken as there are members, at most
    have hstart : acc.2.1 ≤ done.length := by
      have hunique : Keyed.Unique ReIdx.gw acc.2.2 := by
        rw [Keyed.Unique, h.members]
        exact (List.nodup_append.mp hdone).1
      have hle := h.filled.le_length hunique
      have hlen := congrArg List.length h.members
      rw [List.length_map] at hlen
      omega
    rw [hassoc] at hdone hidx ⊢
    rw [List.foldl_cons]
    refine ih _ _ (h.addMember hone (hidx _ ?_)) hdone hidx
    simp only [List.length_append, List.length_singleton]
    omega

/-! ### A gateway leaves a group -/

/-- What a gateway's entry becomes when the gateway leaves a group. -/
theorem findGw_retUnref (gw : Gw) (gid : ℤ) (hu : Keyed.Unique Re.gw s.ret) :
    Keyed.Unique Re.gw (s.retUnref gw gid).2.ret ∧
    ∀ gw', (s.retUnref gw gid).2.findGw gw' = if gw' = gw then
      (s.findGw gw).bind fun re => if retRemoveGroupFromList re.group_ids gid = [] then none
        else some { re with group_ids := retRemoveGroupFromList re.group_ids gid }
      else s.findGw gw' := by
  unfold retUnref
  cases hf : s.findGw gw with
  | none =>
    refine ⟨hu, fun gw' => ?_⟩
    split_ifs with hgw
    · rw [hgw, hf, Option.bind_none]
    · rfl
  | some re =>
    have hkeep : ∀ re : Re, ({ re with
        group_ids := retRemoveGroupFromList re.group_ids gid } : Re).gw = re.gw := fun _ => rfl
    have hmod := hu.modify (k := gw) hkeep
    have hdel : ∀ gw' : Gw, Keyed.find Re.gw (Keyed.del Re.gw (Keyed.modify Re.gw s.ret gw
        fun re => { re with group_ids := retRemoveGroupFromList re.group_ids gid }) gw) gw' =
        if gw' = gw then none else s.findGw gw' := fun gw' => by
      split_ifs with hgw
      · exact Keyed.find_eq_none_iff.mpr fun x hx => hgw ▸ (hmod.mem_del_iff.mp hx).2
      · rw [Keyed.find_del_of_ne hgw]
        exact findGw_modifyGw_of_ne hkeep hgw
    dsimp only [Option.bind_some]
    by_cases hlast : retRemoveGroupFromList re.group_ids gid = []
    · simp only [if_pos hlast]
      split_ifs
      · exact ⟨hmod.del, hdel⟩
      · exact ⟨hmod.del, hdel⟩
    · simp only [if_neg hlast]
      refine ⟨hmod, fun gw' => ?_⟩
      split_ifs with hgw
      · rw [hgw]
        exact findGw_modifyGw_self hkeep hf
      · exact findGw_modifyGw_of_ne hkeep hgw

/-- A gateway leaves a group: its list loses the group, and only a gateway in no group loses its
entry. -/
theorem retUnref_spec (s : Router) (gw : Gw) (gid : ℤ) (hgws : GwsOk env s)
    (hnodup : ∀ gw', (s.groupsOf gw').Nodup) :
    GwsOk env (s.retUnref gw gid).2 ∧ (∀ gw', ((s.retUnref gw gid).2.groupsOf gw').Nodup) ∧
    (∀ gw' gid', gid' ∈ (s.retUnref gw gid).2.groupsOf gw' ↔
      gid' ∈ s.groupsOf gw' ∧ ¬(gid' = gid ∧ gw' = gw)) ∧
    ∀ gw', (s.retUnref gw gid).2.entry env gw' = s.entry env gw' ∨
      (s.retUnref gw gid).2.groupsOf gw' = [] := by
  obtain ⟨hu, hfind⟩ := findGw_retUnref gw gid hgws.unique
  -- the groups of the gateway lose the group, those of the others stay
  have hgroups : ∀ gw', (s.retUnref gw gid).2.groupsOf gw' =
      if gw' = gw then (s.groupsOf gw).erase gid else s.groupsOf gw' := fun gw' => by
    rw [groupsOf, hfind]
    split_ifs with hgw
    · rw [groupsOf]
      cases hf : s.findGw gw with
      | none => rfl
      | some re =>
        rw [Option.bind_some]
        by_cases hlast : retRemoveGroupFromList re.group_ids gid = []
        · rw [if_pos hlast]
          exact hlast.symm
        · rw [if_neg hlast]
          rfl
    · rfl
  refine ⟨⟨hu, fun x hx => ?_⟩, fun gw' => ?_, fun gw' gid' => ?_, fun gw' => ?_⟩
  · -- the interface of a gateway that stays is the one it had
    have hx := hu.find_eq_some_iff.mpr ⟨hx, rfl⟩
    rw [show Keyed.find Re.gw _ x.gw = (s.retUnref gw gid).2.findGw x.gw from rfl, hfind] at hx
    split_ifs at hx
    · obtain ⟨re, hf, hre⟩ := Option.bind_eq_some_iff.mp hx
      split_ifs at hre
      obtain rfl := Option.some_inj.mp hre
      exact hgws.vif re (Keyed.mem_of_find hf)
    · exact hgws.vif x (Keyed.mem_of_find hx)
  · rw [hgroups]
    split_ifs
    · exact (hnodup gw).erase gid
    · exact hnodup gw'
  · rw [hgroups]
    split_ifs with hgw
    · rw [(hnodup gw).mem_erase_iff, hgw]
      tauto
    · tauto
  · -- a gateway goes with its last group
    rw [hgroups, entry, hfind]
    split_ifs with hgw
    · subst hgw
      rw [groupsOf, entry]
      cases hf : s.findGw gw' with
      | none => exact .inl rfl
      | some re =>
        rw [Option.bind_some]
        by_cases hlast : retRemoveGroupFromList re.group_ids gid = []
        · exact .inr hlast
        · rw [if_neg hlast]
          exact .inl rfl
    · exact .inl rfl

/-- A group lets its members go: their lists lose the group, and only gateways in no group lose
their entries. -/
theorem foldl_retUnref_spec (l : List ReIdx) (s : Router) (gid : ℤ) (hgws : GwsOk env s)
    (hnodup : ∀ gw', (s.groupsOf gw').Nodup) :
    GwsOk env (l.foldl (fun s el => (s.retUnref el.gw gid).2) s) ∧
    (∀ gw', ((l.foldl (fun s el => (s.retUnref el.gw gid).2) s).groupsOf gw').Nodup) ∧
    (∀ gw' gid', gid' ∈ (l.foldl (fun s el => (s.retUnref el.gw gid).2) s).groupsOf gw' ↔
      gid' ∈ s.groupsOf gw' ∧ ¬(gid' = gid ∧ gw' ∈ l.map ReIdx.gw)) ∧
    ∀ gw', (l.foldl (fun s el => (s.retUnref el.gw gid).2) s).entry env gw' = s.entry env gw' ∨
      (l.foldl (fun s el => (s.retUnref el.gw gid).2) s).groupsOf gw' = [] := by
  induction l generalizing s with
  | nil => exact ⟨hgws, hnodup, fun gw' gid' => by simp, fun gw' => .inl rfl⟩
  | cons el l ih =>
    obtain ⟨hgws', hnodup', hmem', hent'⟩ := retUnref_spec s el.gw gid hgws hnodup
    obtain ⟨hgws'', hnodup'', hmem'', hent''⟩ := ih (s.retUnref el.gw gid).2 hgws' hnodup'
    rw [List.foldl_cons]
    refine ⟨hgws'', hnodup'', fun gw' gid' => ?_, fun gw' => ?_⟩
    · rw [hmem'', hmem', List.map_cons, List.mem_cons]
      tauto
    · rcases hent'' gw' with heq | hnil
      · rcases hent' gw' with heq' | hnil'
        · exact .inl (heq.trans heq')
        · -- a gateway in no group stays in none
          refine .inr (List.eq_nil_iff_forall_not_mem.mpr fun gid' hin => ?_)
          have hin := ((hmem'' gw' gid').mp hin).1
          rw [hnil'] at hin
          exact List.not_mem_nil hin
      · exact .inr hnil

end Router

end Presteramgr
