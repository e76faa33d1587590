import Presteramgr.Ret.Tidy

/-!
# Elements over a state

Elements enter groups after a state and leave them again. In between the state shows through: it is
what the tables are without these elements, the groups made for them, and the gateways that only
those groups have.

## Main definitions

* `ReGroup.peel` and `Re.restrict`: a group without the elements, and a gateway with the groups of
  the state;
* `CanEnter`: an element is new to its group, or there are indices for a new one;
* `Above s E t`: the state `t` is `s` with the elements of `E`.

## Main results

* `Above.enter` and `Above.leave`: an element more, and one less;
* `Above.eq`: without elements the tables are those of the state.
-/

namespace Presteramgr

open Router (mem_retAddGroupToList)

/-! ## What shows through -/

/-- The entry of a gateway as far as the groups with `p` know it. -/
def Re.restrict (p : ℤ → Prop) [DecidablePred p] (re : Re) : Option Re :=
  let ids := re.group_ids.filter p
  if ids = [] then none else some { re with group_ids := ids }

/-- The group without the elements of `E`. -/
def ReGroup.peel (E : List (ℤ × RoutePfxPbr)) (g : ReGroup) : Option ReGroup :=
  let els := g.pfx_pbr.filter fun el => (g.group_id, el) ∉ E
  if els = [] then none else some { g with pfx_pbr := els }

namespace Re

variable {p : ℤ → Prop} [DecidablePred p] {re : Re} {l : List Re} {gid : ℤ}

theorem restrict_eq_self (hne : re.group_ids ≠ []) (hall : ∀ gid ∈ re.group_ids, p gid) :
    re.restrict p = some re := by
  have hids : re.group_ids.filter p = re.group_ids :=
    List.filter_eq_self.mpr fun gid hgid => decide_eq_true (hall gid hgid)
  unfold restrict
  dsimp only
  rw [hids, if_neg hne]

/-- A group without `p` does not show when a gateway enters it. -/
theorem filterMap_joinRet (gw : Gw) (hgid : ¬p gid) :
    (joinRet l gw gid).filterMap (restrict p) = l.filterMap (restrict p) := by
  unfold joinRet
  cases Keyed.find Re.gw l gw with
  | none =>
    refine List.filterMap_cons_none ?_
    have hids : (retAddGroupToList [] gid).filter p = [] :=
      List.filter_eq_nil_iff.mpr fun i hi => by
        rw [List.mem_singleton.mp hi]
        simpa using hgid
    unfold restrict
    dsimp only
    rw [hids, if_pos rfl]
  | some re₀ =>
    refine Keyed.filterMap_modify _ fun re => ?_
    have hids : (retAddGroupToList re.group_ids gid).filter p = re.group_ids.filter p := by
      unfold retAddGroupToList
      split_ifs
      · rfl
      · rw [List.filter_append, List.filter_singleton, decide_eq_false hgid]
        exact List.append_nil _
    unfold restrict
    dsimp only
    rw [hids]

/-- A group without `p` does not show when a gateway leaves it. -/
theorem filterMap_leaveRet (gw : Gw) (hgid : ¬p gid) :
    (leaveRet l gw gid).filterMap (restrict p) = l.filterMap (restrict p) := by
  have hids : ∀ ids : List ℤ, (retRemoveGroupFromList ids gid).filter p = ids.filter p := by
    intro ids
    unfold retRemoveGroupFromList
    induction ids with
    | nil => rfl
    | cons i ids ih =>
      by_cases hi : i = gid
      · subst hi
        rw [List.erase_cons_head, List.filter_cons_of_neg (by simpa using hgid)]
      · rw [List.erase_cons_tail (by simpa using hi), List.filter_cons, List.filter_cons, ih]
  have hmod : (Keyed.modify Re.gw l gw fun re => { re with
      group_ids := retRemoveGroupFromList re.group_ids gid }).filterMap (restrict p) =
        l.filterMap (restrict p) := by
    refine Keyed.filterMap_modify _ fun re => ?_
    unfold restrict
    dsimp only
    rw [hids]
  unfold leaveRet
  cases hfind : Keyed.find Re.gw l gw with
  | none => rfl
  | some re₀ =>
    dsimp only
    split_ifs with hnil
    · refine (Keyed.filterMap_del (Keyed.find_modify_self ?_ hfind) ?_).trans hmod
      · exact fun _ => rfl
      · unfold restrict
        dsimp only
        rw [hnil]
        exact if_pos rfl
    · exact hmod

theorem filterMap_foldl_joinRet (gws : List Gw) (hgid : ¬p gid) :
    (gws.foldl (joinRet · · gid) l).filterMap (restrict p) = l.filterMap (restrict p) := by
  induction gws generalizing l with
  | nil => rfl
  | cons gw gws ih => exact ih.trans (filterMap_joinRet gw hgid)

theorem filterMap_foldl_leaveRet (gws : List Gw) (hgid : ¬p gid) :
    (gws.foldl (leaveRet · · gid) l).filterMap (restrict p) = l.filterMap (restrict p) := by
  induction gws generalizing l with
  | nil => rfl
  | cons gw gws ih => exact ih.trans (filterMap_leaveRet gw hgid)

end Re

namespace ReGroup

variable {E E' : List (ℤ × RoutePfxPbr)} {g g' : ReGroup}

/-- Elements of other groups do not matter. -/
theorem peel_congr (h : ∀ el ∈ g.pfx_pbr, (g.group_id, el) ∈ E ↔ (g.group_id, el) ∈ E') :
    g.peel E = g.peel E' := by
  have hels : (g.pfx_pbr.filter fun el => (g.group_id, el) ∉ E) =
      g.pfx_pbr.filter fun el => (g.group_id, el) ∉ E' :=
    List.filter_congr fun el hel => decide_eq_decide.mpr (not_congr (h el hel))
  unfold peel
  rw [hels]

theorem peel_nil (h : g.pfx_pbr ≠ []) : g.peel [] = some g := by
  have hels : (g.pfx_pbr.filter fun el => (g.group_id, el) ∉ ([] : List (ℤ × RoutePfxPbr))) =
      g.pfx_pbr := List.filter_eq_self.mpr fun el _ => decide_eq_true List.not_mem_nil
  unfold peel
  dsimp only
  rw [hels, if_neg h]

theorem peel_eq_none (h : ∀ el ∈ g.pfx_pbr, (g.group_id, el) ∈ E) : g.peel E = none := by
  have hels : (g.pfx_pbr.filter fun el => (g.group_id, el) ∉ E) = [] :=
    List.filter_eq_nil_iff.mpr fun el hel => by simpa using h el hel
  unfold peel
  dsimp only
  rw [hels, if_pos rfl]

theorem group_id_of_peel (h : g.peel E = some g') : g'.group_id = g.group_id := by
  unfold peel at h
  dsimp only at h
  split_ifs at h
  obtain rfl := Option.some_inj.mp h
  rfl

/-- An element of `E` that enters its group does not show. -/
theorem peel_addElem {el : RoutePfxPbr} (hnew : el ∉ g.pfx_pbr) :
    (g.addElem el).peel (E ++ [(g.group_id, el)]) = g.peel E := by
  have hels : ((g.pfx_pbr ++ [el]).filter fun x => (g.group_id, x) ∉ E ++ [(g.group_id, el)]) =
      g.pfx_pbr.filter fun x => (g.group_id, x) ∉ E := by
    rw [List.filter_append, List.filter_singleton, decide_eq_false (by simp)]
    refine (List.append_nil _).trans (List.filter_congr fun x hx => decide_eq_decide.mpr ?_)
    have hne : x ≠ el := fun heq => hnew (heq ▸ hx)
    simp [hne]
  unfold addElem
  rw [if_neg hnew]
  unfold peel
  dsimp only
  rw [hels]

/-- An element of `E` that leaves its group did not show. -/
theorem peel_removeElem {el : RoutePfxPbr} (hnd : g.pfx_pbr.Nodup) :
    (g.removeElem el).peel E = g.peel ((g.group_id, el) :: E) := by
  have hels : ((g.pfx_pbr.erase el).filter fun x => (g.group_id, x) ∉ E) =
      g.pfx_pbr.filter fun x => (g.group_id, x) ∉ (g.group_id, el) :: E := by
    rw [hnd.erase_eq_filter, List.filter_filter]
    refine List.filter_congr fun x _ => ?_
    by_cases hx : x = el <;> simp [hx]
  unfold removeElem peel
  dsimp only
  rw [hels]

end ReGroup

namespace Router

attribute [ext] Router

/-- The indices of the groups that `s` does not have. -/
def newRuns (s t : Router) : List ℤ :=
  t.re_group.flatMap fun g => if g.group_id ∈ s.group_id then [] else g.run

/-- What the groups do not touch. -/
def rest (s : Router) : List ReIpv6 × NhTable × FibIpv6 × List PfxsByGw × (ℕ × Ip6 → Option Ltt) ×
    (ℕ × RowColum → Ltt) :=
  (s.ret_ipv6, s.nh, s.fib_ipv6, s.pfxs_ipv6_by_gw, s.lpmIpv6, s.ltt)

/-- The element is new to the group with the gateways, or there are indices for a new group. -/
def CanEnter (t : Router) (gws : List Gw) (el : RoutePfxPbr) : Prop :=
  match t.re_group.find? fun g => compareLists gws g.re_idx with
  | some g => el ∉ g.pfx_pbr
  | none => Ret.resPop t.ret_indexes_used gws.length ≠ none

instance (t : Router) (gws : List Gw) (el : RoutePfxPbr) : Decidable (t.CanEnter gws el) :=
  match h : t.re_group.find? fun g => compareLists gws g.re_idx with
  | some g => decidable_of_iff (el ∉ g.pfx_pbr) (by rw [CanEnter, h])
  | none => decidable_of_iff (Ret.resPop t.ret_indexes_used gws.length ≠ none) (by rw [CanEnter, h])

/-- The state `t` is `s` with the elements of `E`, the groups made for them, and the gateways that
only these groups have. -/
structure Above (s : Router) (E : List (ℤ × RoutePfxPbr)) (t : Router) : Prop where
  base : s.Tidy
  tidy : t.Tidy
  groups : t.re_group.filterMap (ReGroup.peel E) = s.re_group
  gws : t.ret.filterMap (Re.restrict (· ∈ s.group_id)) = s.ret
  idle : Idle (· ∈ s.group_id) t.ret
  listed : ∀ p ∈ E, ∃ g ∈ t.re_group, g.group_id = p.1 ∧ p.2 ∈ g.pfx_pbr
  used : t.ret_indexes_used = s.ret_indexes_used ++ s.newRuns t
  nodup : (s.newRuns t).Nodup
  fresh : ∀ i ∈ s.newRuns t, i ∉ s.ret_indexes_used
  counts : ∀ g ∈ t.re_group, g.group_id ∉ s.group_id → 0 < g.re_count ∧ g.re_count < 9
  cnt : t.re_cnt - t.ret.length = s.re_cnt - s.ret.length
  rest : t.rest = s.rest

variable {env : RouteEnv} {s t t' : Router} {E : List (ℤ × RoutePfxPbr)} {gws : List Gw}
  {el : RoutePfxPbr} {junk : ℕ → ℤ} {gid : ℤ}

theorem newRuns_modifyGroup (s t : Router) (gid : ℤ) {f : ReGroup → ReGroup}
    (hid : ∀ g, (f g).group_id = g.group_id)
    (hrun : ∀ g, (f g).run = g.run) : s.newRuns (t.modifyGroup gid f) = s.newRuns t := by
  show (Keyed.modify ReGroup.group_id t.re_group gid f).flatMap _ = t.re_group.flatMap _
  rw [Keyed.modify, List.flatMap_map]
  refine List.flatMap_congr fun g _ => ?_
  by_cases hg : g.group_id = gid
  · rw [if_pos hg, hid, hrun]
  · rw [if_neg hg]

/-- Indices that are popped are a free run of regular ones. -/
theorem popIdxs_run (t : Router) (junk : ℕ → ℤ) {n : ℕ}
    (hpop : Ret.resPop t.ret_indexes_used n ≠ none) : ∃ ids first, (0 < n ∧ n < 9) ∧
    ids = Ret.idxRun first n ∧ FIRST_REGULAR_RE_IDX ≤ first ∧
    (∀ i ∈ ids, i ∉ t.ret_indexes_used) ∧
    (t.popIdxs n junk).2 = { t with ret_indexes_used := t.ret_indexes_used ++ ids } ∧
    ∀ k < n, (t.popIdxs n junk).1 k = first + k := by
  obtain ⟨⟨ids, used'⟩, hpop⟩ := Option.ne_none_iff_exists'.mp hpop
  obtain ⟨hpos, hlt, rfl, first, hrun, hge, -, hfree⟩ := Ret.resPop_spec hpop
  rw [Int.toNat_natCast] at hrun
  unfold popIdxs
  rw [hpop]
  refine ⟨ids, first, by omega, hrun, hge, hfree, rfl, fun k hk => ?_⟩
  show ids.getD k (junk k) = first + k
  rw [hrun]
  simp [Ret.idxRun, hk]

namespace Above

theorem refl (h : s.Tidy) : Above s [] s := by
  have hin : ∀ re ∈ s.ret, ∀ gid ∈ re.group_ids, gid ∈ s.group_id := by
    intro re hre gid hgid
    obtain ⟨g, hg, rfl, -⟩ := h.listed.member re hre gid hgid
    exact h.mem_ids hg
  have hnone : s.newRuns s = [] :=
    List.flatMap_eq_nil_iff.mpr fun g hg => if_pos (h.mem_ids hg)
  refine ⟨h, h, ?_, ?_, fun re hre hno => ?_, nofun, ?_, ?_, ?_, fun g hg hno => ?_, rfl, rfl⟩
  · refine (List.filterMap_congr fun g hg => ?_).trans (List.filterMap_some ..)
    exact ReGroup.peel_nil (h.elems g hg).1
  · refine (List.filterMap_congr fun re hre => ?_).trans (List.filterMap_some ..)
    exact Re.restrict_eq_self (h.listed.nonempty re hre) (hin re hre)
  · obtain ⟨gid, hgid⟩ := List.exists_mem_of_ne_nil _ (h.listed.nonempty re hre)
    exact absurd (hin re hre gid hgid) (hno gid hgid)
  · rw [hnone, List.append_nil]
  · rw [hnone]
    exact List.nodup_nil
  · rw [hnone]
    exact fun i hi => absurd hi List.not_mem_nil
  · exact absurd (h.mem_ids hg) hno

/-- The groups of the state are there. -/
theorem exists_group (h : Above s E t) (hgid : gid ∈ s.group_id) :
    ∃ g ∈ t.re_group, g.group_id = gid ∧ (g.peel E).isSome := by
  rw [← h.base.ids, ← h.groups] at hgid
  obtain ⟨g', hg', rfl⟩ := List.mem_map.mp hgid
  obtain ⟨g, hg, hpeel⟩ := List.mem_filterMap.mp hg'
  exact ⟨g, hg, (ReGroup.group_id_of_peel hpeel).symm, Option.isSome_of_eq_some hpeel⟩

theorem mem_ids (h : Above s E t) (hgid : gid ∈ s.group_id) : gid ∈ t.group_id := by
  obtain ⟨g, hg, rfl, -⟩ := h.exists_group hgid
  exact h.tidy.mem_ids hg

/-- Without elements the tables are those of the state. -/
theorem eq (h : Above s [] t) :
    t = { s with fib := t.fib, ucRoute := t.ucRoute, lpm := t.lpm } := by
  have hgroups : t.re_group = s.re_group := by
    rw [← h.groups]
    refine ((List.filterMap_congr fun g hg => ?_).trans (List.filterMap_some ..)).symm
    exact ReGroup.peel_nil (h.tidy.elems g hg).1
  have hids : t.group_id = s.group_id := by rw [← h.tidy.ids, hgroups, h.base.ids]
  have hret : t.ret = s.ret := by
    rw [← h.gws]
    refine ((List.filterMap_congr fun re hre => ?_).trans (List.filterMap_some ..)).symm
    refine Re.restrict_eq_self (h.tidy.listed.nonempty re hre) fun gid hgid => ?_
    obtain ⟨g, hg, rfl, -⟩ := h.tidy.listed.member re hre gid hgid
    exact hids ▸ h.tidy.mem_ids hg
  have hused : t.ret_indexes_used = s.ret_indexes_used := by
    have hnone : s.newRuns t = [] :=
      List.flatMap_eq_nil_iff.mpr fun g hg => if_pos (hids ▸ h.tidy.mem_ids hg)
    rw [h.used, hnone, List.append_nil]
  have hcnt : t.re_cnt = s.re_cnt := by
    have hc := h.cnt
    rw [hret] at hc
    omega
  have hrest := h.rest
  unfold Router.rest at hrest
  simp only [Prod.mk.injEq] at hrest
  obtain ⟨hv6, hnh, hfib6, hpfxs, hlpm6, hltt⟩ := hrest
  exact Router.ext hused hret hv6 hcnt hnh hids hgroups rfl hfib6 hpfxs rfl rfl hlpm6 hltt

/-- An element enters a group that is there. -/
theorem enterOld (h : Above s E t) {g : ReGroup} (hg : g ∈ t.re_group) (hnew : el ∉ g.pfx_pbr)
    (htidy : (t.modifyGroup g.group_id (·.addElem el)).Tidy) :
    Above s (E ++ [(g.group_id, el)]) (t.modifyGroup g.group_id (·.addElem el)) := by
  have hid : ∀ x : ReGroup, (x.addElem el).group_id = x.group_id := by
    intro x
    unfold ReGroup.addElem
    split_ifs <;> rfl
  have hsame : ∀ x : ReGroup, (x.addElem el).run = x.run ∧
      (x.addElem el).re_count = x.re_count := by
    intro x
    unfold ReGroup.addElem
    split_ifs
    · exact ⟨rfl, rfl⟩
    · exact ⟨rfl, rfl⟩
  have hruns := newRuns_modifyGroup s t g.group_id hid fun x => (hsame x).1
  refine ⟨h.base, htidy, ?_, h.gws, h.idle, fun p hp => ?_, ?_, ?_, ?_, fun x hx hno => ?_, h.cnt,
    h.rest⟩
  · refine (Keyed.filterMap_modify_eq (fun x hx hxid => ?_) fun x hx hxid => ?_).trans h.groups
    · obtain rfl := h.tidy.groups.eq_of_mem hx hg hxid
      exact ReGroup.peel_addElem hnew
    · refine ReGroup.peel_congr fun y _ => ?_
      rw [List.mem_append, List.mem_singleton]
      exact or_iff_left fun heq => hxid (congrArg Prod.fst heq)
  · rcases List.mem_append.mp hp with hp | hp
    · obtain ⟨x, hx, hxid, hel⟩ := h.listed p hp
      by_cases hxg : x.group_id = g.group_id
      · refine ⟨x.addElem el, Keyed.mem_modify_iff.mpr (.inl ⟨x, hx, hxg, rfl⟩), (hid x).trans hxid,
          ?_⟩
        unfold ReGroup.addElem
        split_ifs
        · exact hel
        · exact List.mem_append_left _ hel
      · exact ⟨x, Keyed.mem_modify_iff.mpr (.inr ⟨hx, hxg⟩), hxid, hel⟩
    · rw [List.mem_singleton.mp hp]
      refine ⟨g.addElem el, Keyed.mem_modify_iff.mpr (.inl ⟨g, hg, rfl, rfl⟩), hid g, ?_⟩
      unfold ReGroup.addElem
      rw [if_neg hnew]
      exact List.mem_append_right _ (List.mem_singleton_self el)
  · rw [hruns]
    exact h.used
  · rw [hruns]
    exact h.nodup
  · rw [hruns]
    exact h.fresh
  · rcases Keyed.mem_modify_iff.mp hx with ⟨x, hmem, -, rfl⟩ | ⟨hmem, -⟩
    · rw [(hsame x).2]
      exact h.counts x hmem (hid x ▸ hno)
    · exact h.counts x hmem hno

/-- An element enters a group. Below the regular ones no route entry is written. -/
theorem enter (h : Above s E t) (env : RouteEnv) (gws : List Gw) (el : RoutePfxPbr)
    (junk : ℕ → ℤ) (hok : t.CanEnter gws el) :
    Above s (E ++ [((t.enterGroup env gws el junk).1.group_id, el)])
      (t.enterGroup env gws el junk).2 ∧
    (t.enterGroup env gws el junk).2.fib = t.fib ∧ (t.enterGroup env gws el junk).2.lpm = t.lpm ∧
    0 < (t.enterGroup env gws el junk).1.group_id ∧
    ∀ i < FIRST_REGULAR_RE_IDX, (t.enterGroup env gws el junk).2.ucRoute i = t.ucRoute i := by
  have htidy := h.tidy.enterGroup env gws el junk
  rcases t.enterGroup_cases env gws el junk with ⟨g, hg, -, hfind, heq⟩ |
    ⟨hfind, g, c, u, hid, hcount, hfirst, hgws, hpfx, heq, hc, hu⟩
  · rw [heq] at htidy ⊢
    unfold CanEnter at hok
    rw [hfind] at hok
    exact ⟨h.enterOld hg hok htidy, rfl, rfl, h.tidy.pos _ (h.tidy.mem_ids hg), fun _ _ => rfl⟩
  · unfold CanEnter at hok
    rw [hfind] at hok
    -- the new group has the run of indices that was popped
    obtain ⟨ids, first, hcnt, hrun, hge, hfree, hused, hidx⟩ := t.popIdxs_run junk hok
    have hgrun : g.run = ids := by
      unfold ReGroup.run
      rw [hfirst, hidx 0 hcnt.1, hcount, Int.toNat_natCast, hrun, Nat.cast_zero, add_zero]
    have hnew : getNewGroupId t.group_id ∉ s.group_id :=
      fun hin => getNewGroupId_not_mem t.group_id (h.mem_ids hin)
    have hruns : s.newRuns { t with re_group := t.re_group ++ [g] } = s.newRuns t ++ ids := by
      unfold newRuns
      rw [List.flatMap_append, List.flatMap_singleton, hid, if_neg hnew, hgrun]
    rw [heq, hused] at htidy ⊢
    refine ⟨⟨h.base, htidy, ?_, ?_, ?_, fun p hp => ?_, ?_, ?_, ?_, fun x hx hno => ?_, ?_, h.rest⟩,
      rfl, rfl, hid ▸ getNewGroupId_pos t.group_id, fun i hi => hu i fun k hk => ?_⟩
    · show (t.re_group ++ [g]).filterMap _ = s.re_group
      have hnone : g.peel (E ++ [(g.group_id, el)]) = none := ReGroup.peel_eq_none fun x hx => by
        rw [hpfx] at hx
        rw [List.mem_singleton.mp hx]
        exact List.mem_append_right _ (List.mem_singleton_self _)
      rw [List.filterMap_append, List.filterMap_cons_none hnone]
      refine (List.append_nil _).trans ((List.filterMap_congr fun x hx => ?_).trans h.groups)
      refine ReGroup.peel_congr fun y _ => ?_
      rw [List.mem_append, List.mem_singleton]
      refine or_iff_left fun hpair => ?_
      have hxid : x.group_id = g.group_id := congrArg Prod.fst hpair
      exact getNewGroupId_not_mem t.group_id (hid ▸ hxid ▸ h.tidy.mem_ids hx)
    · exact (Re.filterMap_foldl_joinRet gws hnew).trans h.gws
    · exact h.idle.foldl_join gws _
    · rcases List.mem_append.mp hp with hp | hp
      · obtain ⟨x, hx, hpx⟩ := h.listed p hp
        exact ⟨x, List.mem_append_left [g] hx, hpx⟩
      · rw [List.mem_singleton.mp hp]
        refine ⟨g, List.mem_append_right _ (List.mem_singleton_self g), rfl, ?_⟩
        rw [hpfx]
        exact List.mem_singleton_self el
    · show t.ret_indexes_used ++ ids = s.ret_indexes_used ++
        s.newRuns { t with re_group := t.re_group ++ [g] }
      rw [hruns, h.used, List.append_assoc]
    · show (s.newRuns { t with re_group := t.re_group ++ [g] }).Nodup
      rw [hruns]
      refine List.nodup_append.mpr ⟨h.nodup, hrun ▸ Ret.nodup_idxRun, fun i hi j hj hij => ?_⟩
      refine hfree j hj ?_
      rw [h.used]
      exact List.mem_append_right _ (hij ▸ hi)
    · show ∀ i ∈ s.newRuns { t with re_group := t.re_group ++ [g] }, i ∉ s.ret_indexes_used
      rw [hruns]
      intro i hi hin
      rcases List.mem_append.mp hi with hi | hi
      · exact h.fresh i hi hin
      · refine hfree i hi ?_
        rw [h.used]
        exact List.mem_append_left _ hin
    · rcases List.mem_append.mp hx with hx | hx
      · exact h.counts x hx hno
      · rw [List.mem_singleton.mp hx, hcount]
        omega
    · exact hc.trans h.cnt
    · rw [hidx k hk]
      omega

/-- Elements of other groups do not show either way. -/
theorem peel_other (el : RoutePfxPbr) {g x : ReGroup} (hx : x.group_id ≠ g.group_id) :
    x.peel E = x.peel ((g.group_id, el) :: E) := by
  refine ReGroup.peel_congr fun y _ => ?_
  rw [List.mem_cons]
  exact (or_iff_right fun heq => hx (congrArg Prod.fst heq)).symm

/-- An element leaves a group that lists others. -/
theorem leaveOld {g : ReGroup} (h : Above s ((g.group_id, el) :: E) t) (hg : g ∈ t.re_group)
    (hnew : (g.group_id, el) ∉ E) (htidy : (t.modifyGroup g.group_id (·.removeElem el)).Tidy) :
    Above s E (t.modifyGroup g.group_id (·.removeElem el)) := by
  have hnd := (h.tidy.elems g hg).2
  have hruns := newRuns_modifyGroup s t g.group_id (f := (·.removeElem el))
    (fun _ => rfl) fun _ => rfl
  refine ⟨h.base, htidy, ?_, h.gws, h.idle, fun p hp => ?_, ?_, ?_, ?_, fun x hx hno => ?_, h.cnt,
    h.rest⟩
  · refine (Keyed.filterMap_modify_eq (fun x hx hxid => ?_) fun x _ hxid =>
      peel_other el hxid).trans
      h.groups
    obtain rfl := h.tidy.groups.eq_of_mem hx hg hxid
    exact ReGroup.peel_removeElem hnd
  · obtain ⟨x, hx, hxid, hpx⟩ := h.listed p (List.mem_cons_of_mem _ hp)
    by_cases hxg : x.group_id = g.group_id
    · refine ⟨x.removeElem el, Keyed.mem_modify_iff.mpr (.inl ⟨x, hx, hxg, rfl⟩), hxid, ?_⟩
      refine (List.mem_erase_of_ne fun heq => hnew ?_).mpr hpx
      rwa [← hxg, hxid, ← heq]
    · exact ⟨x, Keyed.mem_modify_iff.mpr (.inr ⟨hx, hxg⟩), hxid, hpx⟩
  · rw [hruns]
    exact h.used
  · rw [hruns]
    exact h.nodup
  · rw [hruns]
    exact h.fresh
  · rcases Keyed.mem_modify_iff.mp hx with ⟨x, hmem, -, rfl⟩ | ⟨hmem, -⟩
    · exact h.counts x hmem hno
    · exact h.counts x hmem hno

/-- The last element leaves a group. The group was made for it. -/
theorem leaveLast {g : ReGroup} {c : ℤ} {n : NhTable} (h : Above s ((g.group_id, el) :: E) t)
    (hg : g ∈ t.re_group) (hnew : (g.group_id, el) ∉ E) (hnil : g.pfx_pbr.erase el = [])
    (hfind : t.findGroup g.group_id = some g) (htidy : (t.retGroupDelElem g.group_id el).Tidy)
    (heq : t.retGroupDelElem g.group_id el = { t with
      ret_indexes_used := Ret.resPushCountFirst t.ret_indexes_used g.re_count g.first_idx
      ret := (g.re_idx.map ReIdx.gw).foldl (leaveRet · · g.group_id) t.ret
      re_cnt := c
      nh := n
      group_id := t.group_id.erase g.group_id
      re_group := Keyed.del ReGroup.group_id t.re_group g.group_id })
    (hc : c - ((g.re_idx.map ReIdx.gw).foldl (leaveRet · · g.group_id) t.ret).length =
      t.re_cnt - t.ret.length)
    (hn : ∀ p : ℤ → Prop, ¬p g.group_id → Idle p t.ret → n = t.nh) :
    Above s E (t.retGroupDelElem g.group_id el) := by
  -- the element was the only one, so that the group was made for it
  have honly : ∀ x ∈ g.pfx_pbr, x = el := by
    intro x hx
    by_contra hne
    have hin := (List.mem_erase_of_ne hne).mpr hx
    rw [hnil] at hin
    exact List.not_mem_nil hin
  have hpeel : g.peel ((g.group_id, el) :: E) = none :=
    ReGroup.peel_eq_none fun x hx => honly x hx ▸ List.mem_cons_self
  have hgone : g.group_id ∉ s.group_id := by
    intro hin
    obtain ⟨x, hx, hxid, hsome⟩ := h.exists_group hin
    obtain rfl := h.tidy.groups.eq_of_mem hx hg hxid
    rw [hpeel] at hsome
    exact Bool.false_ne_true hsome
  have hdel : ∀ x ∈ Keyed.del ReGroup.group_id t.re_group g.group_id,
      x ∈ t.re_group ∧ x.group_id ≠ g.group_id :=
    fun x hx => h.tidy.groups.mem_del_iff.mp hx
  -- its indices lie between those of the groups before and after it
  obtain ⟨a, l₁, l₂, -, ha, hl, hl'⟩ := List.exists_of_eraseP
    (p := fun x => decide (x.group_id = g.group_id)) hg (by simp)
  obtain rfl : a = g := h.tidy.groups.eq_of_mem (hl ▸ by simp) hg (by simpa using ha)
  have hruns : s.newRuns t = (l₁.flatMap fun g => if g.group_id ∈ s.group_id then [] else g.run) ++
      (a.run ++ l₂.flatMap fun g => if g.group_id ∈ s.group_id then [] else g.run) := by
    unfold newRuns
    rw [hl, List.flatMap_append, List.flatMap_cons, if_neg hgone]
  have hruns' : s.newRuns (t.retGroupDelElem a.group_id el) =
      (l₁.flatMap fun g => if g.group_id ∈ s.group_id then [] else g.run) ++
        l₂.flatMap fun g => if g.group_id ∈ s.group_id then [] else g.run := by
    have hre : (t.retGroupDelElem a.group_id el).re_group = l₁ ++ l₂ := by
      rw [heq]
      exact hl'
    unfold newRuns
    rw [hre, List.flatMap_append]
  have hsub : List.Sublist (s.newRuns (t.retGroupDelElem a.group_id el)) (s.newRuns t) := by
    rw [hruns, hruns']
    exact List.Sublist.append_left (List.sublist_append_right ..) _
  refine ⟨h.base, htidy, ?_, ?_, ?_, fun p hp => ?_, ?_, h.nodup.sublist hsub,
    fun i hi => h.fresh i (hsub.subset hi), ?_, ?_, ?_⟩
  · rw [heq]
    refine (List.filterMap_congr fun x hx => peel_other el (hdel x hx).2).trans ?_
    exact (Keyed.filterMap_del hfind hpeel).trans h.groups
  · rw [heq]
    exact (Re.filterMap_foldl_leaveRet _ hgone).trans h.gws
  · rw [heq]
    exact h.idle.foldl_leave _ hgone
  · obtain ⟨x, hx, hxid, hpx⟩ := h.listed p (List.mem_cons_of_mem _ hp)
    rw [heq]
    refine ⟨x, h.tidy.groups.mem_del_iff.mpr ⟨hx, fun hxg => hnew ?_⟩, hxid, hpx⟩
    obtain rfl := h.tidy.groups.eq_of_mem hx hg hxg
    rwa [← honly p.2 hpx, hxid]
  · rw [hruns', heq]
    show Ret.resPushCountFirst t.ret_indexes_used a.re_count a.first_idx = _
    rw [Ret.resPushCountFirst, Ret.resPush, if_pos (h.counts a hg hgone), h.used, hruns,
      ← List.append_assoc s.ret_indexes_used, ← List.append_assoc s.ret_indexes_used]
    refine Ret.foldl_erase_append fun i hi hin => ?_
    rcases List.mem_append.mp hin with hin | hin
    · refine h.fresh i ?_ hin
      rw [hruns]
      exact List.mem_append_right _ (List.mem_append_left _ hi)
    · have hnodup := h.nodup
      rw [hruns] at hnodup
      exact (List.nodup_append.mp hnodup).2.2 i hin i (List.mem_append_left _ hi) rfl
  · rw [heq]
    exact fun x hx hno => h.counts x (hdel x hx).1 hno
  · rw [heq]
    exact hc.trans h.cnt
  · rw [heq]
    have hnh : n = t.nh := hn (· ∈ s.group_id) hgone h.idle
    rw [hnh]
    exact h.rest

/-- An element that entered a group leaves it. -/
theorem leave (h : Above s ((gid, el) :: E) t) (hnew : (gid, el) ∉ E) :
    Above s E (t.retGroupDelElem gid el) := by
  have htidy := h.tidy.retGroupDelElem gid el
  obtain ⟨g, hg, hgid, -⟩ := h.listed (gid, el) List.mem_cons_self
  obtain rfl : g.group_id = gid := hgid
  rcases t.retGroupDelElem_cases g.group_id el h.tidy.groups with ⟨hnone, -⟩ | ⟨g', hfind, hcases⟩
  · exact absurd rfl (Keyed.find_eq_none_iff.mp hnone g hg)
  obtain ⟨hg', hgid'⟩ := h.tidy.groups.find_eq_some_iff.mp hfind
  obtain rfl := h.tidy.groups.eq_of_mem hg' hg hgid'
  rcases hcases with ⟨-, heq⟩ | ⟨hnil, c, n, heq, hc, hn⟩
  · rw [heq] at htidy ⊢
    exact h.leaveOld hg hnew htidy
  · exact h.leaveLast hg hnew hnil hfind htidy heq hc hn

/-- Routes and hardware tables do not count. -/
theorem congr (h : Above s E t) (f : Fib) (u : ℤ → UcRoute) (l : ℕ × Ip4 → Option Ltt) :
    Above s E { t with fib := f, ucRoute := u, lpm := l } :=
  ⟨h.base, h.tidy.congr rfl rfl rfl, h.groups, h.gws, h.idle, h.listed, h.used, h.nodup, h.fresh,
    h.counts, h.cnt, h.rest⟩

end Above

end Router

end Presteramgr
