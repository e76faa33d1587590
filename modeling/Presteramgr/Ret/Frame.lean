import Presteramgr.Ret.Group
import Presteramgr.Ret.Ipv6

/-!
# What group operations leave alone

The reaction of the groups to a gateway that has changed moves members between indices and writes
hardware tables. It leaves the gateways, the indices, the next hops and the prefixes of the groups
alone. A new group changes the indices, the ids and the membership of its gateways.

## Main definitions

* `Fanned s s'`: the states differ in the mapping of group members and in hardware tables only.

## Main results

* `fanned_retGroupGwChanged` and `newGroup_spec`.
-/

namespace Presteramgr

open Function (update)

/-- The indices of a group. -/
def ReGroup.run (g : ReGroup) : List ℤ := Ret.idxRun g.first_idx g.re_count.toNat

/-- What the entry of a gateway keeps while its address changes. -/
def Re.lists (re : Re) : Gw × List ℤ := (re.gw, re.group_ids)

/-- What a group keeps while its gateways change. -/
def ReGroup.static (g : ReGroup) : ℤ × ℤ × ℤ × List Gw × List RoutePfxPbr :=
  (g.group_id, g.re_count, g.first_idx, g.re_idx.map ReIdx.gw, g.pfx_pbr)

namespace ReGroup

variable {g g' : ReGroup} {gw : Gw} {idx : ℤ} {p : ReIdx → Bool}

/-- The mapping of a member is not part of what stays. -/
theorem static_setIdx : (g.setIdx p idx).static = g.static := by
  have h : (Keyed.modifyFirst p (fun m => { m with idx := idx }) g.re_idx).map ReIdx.gw =
      g.re_idx.map ReIdx.gw := Keyed.map_modifyFirst ReIdx.gw p fun _ => rfl
  simp only [static, setIdx, h]

/-- Enabling a gateway changes the mapping only. -/
theorem static_enable : (g.enable gw).static = g.static := by
  show (g.setIdx (·.gw = gw) g.nextIdx).static = g.static
  exact static_setIdx

/-- Disabling a gateway changes the mapping only. -/
theorem static_disable : (g.disable gw idx).static = g.static := by
  have h : (g.setIdx (·.gw = gw) DROP_RE_IDX).static = g.static := static_setIdx
  unfold disable
  by_cases h0 : g.numOfPaths = 0
  · simp only [if_pos h0]
    exact h
  · simp only [if_neg h0]
    exact static_setIdx.trans h

/-- Groups with the same fixed part have the same identifier. -/
theorem static_group_id (h : g.static = g'.static) : g.group_id = g'.group_id :=
  congrArg Prod.fst h

/-- Groups with the same fixed part own the same run of indices. -/
theorem run_of_static (h : g.static = g'.static) : g.run = g'.run := by
  simp only [static, Prod.mk.injEq] at h
  rw [run, run, h.2.1, h.2.2.1]

end ReGroup

namespace Router

variable {env : RouteEnv} {s s' s'' : Router} {g : ReGroup} {re : Re} {gw : Gw} {gid idx : ℤ}
  {f : ReGroup → ReGroup} {el : RoutePfxPbr} {changed : Bool}

/-- The states differ in the mapping of group members and in hardware tables only. -/
def Fanned (s s' : Router) : Prop :=
  ∃ g u l t, s' = { s with re_group := g, ucRoute := u, lpm := l, ltt := t } ∧
    g.map ReGroup.static = s.re_group.map ReGroup.static

namespace Fanned

/-- Nothing has changed. -/
theorem refl (s : Router) : Fanned s s := ⟨_, _, _, _, rfl, rfl⟩

/-- Two such steps make one. -/
theorem trans (h : Fanned s s') (h' : Fanned s' s'') : Fanned s s'' := by
  obtain ⟨g, u, l, t, rfl, hg⟩ := h
  obtain ⟨g', u', l', t', rfl, hg'⟩ := h'
  exact ⟨g', u', l', t', rfl, hg'.trans hg⟩

/-- A loop of such steps makes one. -/
theorem foldl {α : Type*} {f : Router → α → Router} (hf : ∀ s x, Fanned s (f s x)) (l : List α)
    (s : Router) : Fanned s (l.foldl f s) := by
  induction l generalizing s with
  | nil => exact refl s
  | cons x l ih => exact (hf s x).trans (ih (f s x))

end Fanned

/-- A change of the mapping of one group. -/
theorem fanned_modifyGroup (hf : ∀ g, (f g).static = g.static) :
    Fanned s (s.modifyGroup gid f) :=
  ⟨_, _, _, _, rfl, Keyed.map_modify ReGroup.static hf⟩

/-- A write of a route entry of the hardware. -/
theorem fanned_ucRouteEntriesWrite {rt : UcRoute} : Fanned s (s.ucRouteEntriesWrite idx rt) :=
  ⟨_, _, _, _, rfl, rfl⟩

/-- A new prefix in the hardware. -/
theorem fanned_lpmIpv4UcPrefixAdd {addr : Ip4} {alen : ℕ} {e : Ltt} :
    Fanned s (s.lpmIpv4UcPrefixAdd addr alen e) :=
  ⟨_, _, _, _, rfl, rfl⟩

/-- `ret_set_re_to_idx` writes to the hardware only. -/
theorem fanned_retSetReToIdx : Fanned s (s.retSetReToIdx env re idx) := by
  unfold retSetReToIdx
  split
  · exact .refl s
  · exact fanned_ucRouteEntriesWrite

/-- `ret_set_re_to_idx_gw` writes to the hardware only. -/
theorem fanned_retSetReToIdxGw : Fanned s (s.retSetReToIdxGw env gw idx) := by
  unfold retSetReToIdxGw
  split
  · exact .refl s
  · exact fanned_retSetReToIdx

/-- `ret_group_ltt_tcam_set` writes to the hardware only. -/
theorem fanned_retGroupLttTcamSet {ix : RowColum} {interface : PclInterface} :
    Fanned s (s.retGroupLttTcamSet env ix interface g).2 := by
  unfold retGroupLttTcamSet
  split
  · exact .foldl (fun _ _ => ⟨_, _, _, _, rfl, rfl⟩) _ _
  · split
    · exact .refl s
    · split_ifs
      · exact .refl s
      · exact ⟨_, _, _, _, rfl, rfl⟩
  · exact .refl s

/-- The update of one element of a group writes to the hardware only. -/
theorem fanned_updateElem : Fanned s (updateElem env g s el) := by
  cases el with
  | pfx addr alen => exact fanned_lpmIpv4UcPrefixAdd
  | pbr ix interface => exact fanned_retGroupLttTcamSet

/-- `ret_group_update_lpm_table` writes to the hardware only. -/
theorem fanned_retGroupUpdateLpmTable : Fanned s (s.retGroupUpdateLpmTable env g) :=
  .foldl (fun _ _ => fanned_updateElem) _ _

/-- `ret_group_gw_changed_disable` changes the mapping and the hardware only. -/
theorem fanned_retGroupGwChangedDisable : Fanned s (s.retGroupGwChangedDisable env g re) := by
  unfold retGroupGwChangedDisable
  cases g.re_idx.find? (·.gw = re.gw) with
  | none => exact .refl s
  | some out =>
    dsimp only
    split_ifs
    · exact fanned_modifyGroup fun _ => ReGroup.static_setIdx
    · have hmod : Fanned s (s.modifyGroup g.group_id (·.disable re.gw out.idx)) :=
        fanned_modifyGroup fun _ => ReGroup.static_disable
      cases g.lastMember re.gw with
      | none => exact hmod.trans fanned_retGroupUpdateLpmTable
      | some last =>
        exact (hmod.trans fanned_retSetReToIdxGw).trans fanned_retGroupUpdateLpmTable

/-- `ret_group_gw_changed` changes the mapping and the hardware only. -/
theorem fanned_retGroupGwChanged : Fanned s (s.retGroupGwChanged env gid re changed) := by
  unfold retGroupGwChanged
  cases s.findGroup gid with
  | none => exact .refl s
  | some g =>
    dsimp only
    split_ifs
    · exact ((fanned_modifyGroup fun _ => ReGroup.static_enable).trans fanned_retSetReToIdx).trans
        fanned_retGroupUpdateLpmTable
    · unfold retGroupGwChangedEnableChanged
      split
      · exact .refl s
      · exact fanned_retSetReToIdx
    · exact fanned_retGroupGwChangedDisable
    · exact .refl s

/-- The fan-out over the groups of a gateway. -/
theorem fanned_foldl_retGroupGwChanged (l : List ℤ) (s : Router) :
    Fanned s (l.foldl (fun s gid => s.retGroupGwChanged env gid re changed) s) :=
  .foldl (fun _ _ => fanned_retGroupGwChanged) l s

/-- A new MAC address changes gateways and next hops before it reaches the groups. -/
theorem retSetMacAddr_foldl (env : RouteEnv) (s : Router) (gw : Gw) (addr : Mac) (vif_id : ℕ)
    (arpOk : Bool) : ∃ r n re changed ids,
    (s.retSetMacAddr env gw addr vif_id arpOk).2 = List.foldl
      (fun s gid => s.retGroupGwChanged env gid re changed) { s with ret := r, nh := n } ids ∧
    r.map Re.lists = s.ret.map Re.lists := by
  have hsame : ∃ r n re changed ids, s = List.foldl
      (fun s gid => s.retGroupGwChanged env gid re changed) { s with ret := r, nh := n } ids ∧
      r.map Re.lists = s.ret.map Re.lists :=
    ⟨s.ret, s.nh, ⟨gw, false, addr, 0, vif_id, []⟩, false, [], rfl, rfl⟩
  unfold retSetMacAddr
  split_ifs
  · exact hsame
  cases s.findGw gw with
  | none => exact hsame
  | some re =>
  dsimp only
  split_ifs
  · exact hsame
  have hmod : (s.modifyGw gw fun re =>
      { re with valid := true, addr := addr, vif_id := vif_id }).ret.map Re.lists =
        s.ret.map Re.lists := by
    refine Keyed.map_modify Re.lists ?_
    exact fun _ => rfl
  rcases NhTable.nhtAdd _ addr arpOk with ⟨_ | nh_idx, nh⟩
  · exact ⟨_, nh, re, false, [], rfl, hmod⟩
  · refine ⟨_, nh, _, _, _, rfl, (Keyed.map_modify Re.lists ?_).trans hmod⟩
    exact fun _ => rfl

@[inherit_doc retSetMacAddr_foldl]
theorem retUnsetMacAddr_foldl (env : RouteEnv) (s : Router) (gw : Gw) : ∃ r n re changed ids,
    (s.retUnsetMacAddr env gw).2 = List.foldl
      (fun s gid => s.retGroupGwChanged env gid re changed) { s with ret := r, nh := n } ids ∧
    r.map Re.lists = s.ret.map Re.lists := by
  have hsame : ∃ r n re changed ids, s = List.foldl
      (fun s gid => s.retGroupGwChanged env gid re changed) { s with ret := r, nh := n } ids ∧
      r.map Re.lists = s.ret.map Re.lists :=
    ⟨s.ret, s.nh, ⟨gw, false, 0, 0, 0, []⟩, false, [], rfl, rfl⟩
  unfold retUnsetMacAddr
  cases s.findGw gw with
  | none => exact hsame
  | some re =>
  dsimp only
  split_ifs
  · refine ⟨_, _, _, _, _, rfl, Keyed.map_modify Re.lists ?_⟩
    exact fun _ => rfl
  · exact hsame

/-- A new MAC address changes the gateways, the next hops and what is fanned out of them. -/
theorem retSetMacAddr_fanned (env : RouteEnv) (s : Router) (gw : Gw) (addr : Mac) (vif_id : ℕ)
    (arpOk : Bool) :
    ∃ r n, Fanned { s with ret := r, nh := n } (s.retSetMacAddr env gw addr vif_id arpOk).2 ∧
      r.map Re.lists = s.ret.map Re.lists := by
  obtain ⟨r, n, re, changed, ids, heq, hr⟩ := retSetMacAddr_foldl env s gw addr vif_id arpOk
  exact ⟨r, n, heq ▸ fanned_foldl_retGroupGwChanged ids _, hr⟩

/-- A lost MAC address changes the gateways, the next hops and what is fanned out of them. -/
theorem retUnsetMacAddr_fanned (env : RouteEnv) (s : Router) (gw : Gw) :
    ∃ r n, Fanned { s with ret := r, nh := n } (s.retUnsetMacAddr env gw).2 ∧
      r.map Re.lists = s.ret.map Re.lists := by
  obtain ⟨r, n, re, changed, ids, heq, hr⟩ := retUnsetMacAddr_foldl env s gw
  exact ⟨r, n, heq ▸ fanned_foldl_retGroupGwChanged ids _, hr⟩

/-- Leaving groups changes gateways and next hops. -/
theorem foldl_retUnref_eq (gid : ℤ) (l : List ReIdx) (s : Router) :
    ∃ r n c, l.foldl (fun s el => (s.retUnref el.gw gid).2) s =
      { s with ret := r, nh := n, re_cnt := c } := by
  induction l generalizing s with
  | nil => exact ⟨_, _, _, rfl⟩
  | cons el l ih =>
    have hone : ∃ r n c, (s.retUnref el.gw gid).2 = { s with ret := r, nh := n, re_cnt := c } := by
      unfold retUnref
      split
      · exact ⟨_, _, _, rfl⟩
      · split_ifs
        · exact ⟨_, _, _, rfl⟩
        · exact ⟨_, _, _, rfl⟩
        · exact ⟨_, _, _, rfl⟩
    obtain ⟨r, n, c, hone⟩ := hone
    obtain ⟨r', n', c', hrest⟩ := ih (s.retUnref el.gw gid).2
    refine ⟨r', n', c', ?_⟩
    rw [List.foldl_cons, hrest, hone]

/-! ### IPv6 -/

/-- The key of the hash table of IPv6 gateways. -/
abbrev keyV6 (re : ReIpv6) : Ip6 := re.gw.hashKey

/-- A change in place is found. -/
theorem findGwV6_modifyGwV6 {gwV6 : GwV6} {reV6 : ReIpv6} {f : ReIpv6 → ReIpv6}
    (hgw : ∀ re, (f re).gw = re.gw) (hf : s.findGwV6 gwV6 = some reV6) :
    (s.modifyGwV6 gwV6 f).findGwV6 gwV6 = some (f reV6) :=
  Keyed.find_modify_self (fun re => congrArg GwV6.hashKey (hgw re)) hf

/-- Claiming the default route sets a flag and writes a hardware entry. -/
theorem claimDefault_eq (env : RouteEnv) (s : Router) (gw : GwV6) (re : ReIpv6) :
    ∃ u, s.claimDefault env gw re =
      { s.modifyGwV6 gw fun re => { re with is_def := true } with ucRoute := u } := by
  unfold claimDefault
  dsimp only
  split
  · exact ⟨_, rfl⟩
  · exact ⟨_, rfl⟩

/-- Giving up the default route clears a flag and writes a hardware entry. -/
theorem resetDefault_eq (s : Router) (gw : GwV6) (re : ReIpv6) :
    ∃ u, s.resetDefault gw re =
      { s.modifyGwV6 gw fun re => { re with is_def := false } with ucRoute := u } := by
  unfold resetDefault
  dsimp only
  split_ifs
  · exact ⟨_, rfl⟩
  · exact ⟨_, rfl⟩

/-- The gateway is found after it, without the flag. -/
theorem findGwV6_resetDefault {gwV6 : GwV6} {re reV6 : ReIpv6}
    (hf : s.findGwV6 gwV6 = some reV6) :
    (s.resetDefault gwV6 re).findGwV6 gwV6 = some { reV6 with is_def := false } := by
  obtain ⟨u, hu⟩ := resetDefault_eq s gwV6 re
  rw [hu]
  exact findGwV6_modifyGwV6 (f := fun re => { re with is_def := false }) (fun _ => rfl) hf

/-- Writing the entry of a gateway touches the hardware only. -/
theorem writeGwV6_eq (s : Router) (idx : ℤ) (is_def : Bool) (rt : UcRoute) :
    ∃ u, s.writeGwV6 idx is_def rt = { s with ucRoute := u } := by
  cases is_def with
  | false => exact ⟨_, rfl⟩
  | true => exact ⟨_, rfl⟩

/-- `route_ipv6_update_table` touches the IPv6 prefixes of the hardware only. -/
theorem routeIpv6UpdateTable_eq (s : Router) (gw : GwV6) (idx : ℤ) :
    ∃ l, s.routeIpv6UpdateTable gw idx = { s with lpmIpv6 := l } := by
  unfold routeIpv6UpdateTable
  cases s.findPfxsByGw gw with
  | none => exact ⟨_, rfl⟩
  | some pbg =>
    dsimp only
    induction pbg.pfxs generalizing s with
    | nil => exact ⟨_, rfl⟩
    | cons pbp pfxs ih =>
      rw [List.foldl_cons]
      split_ifs
      · obtain ⟨l, hl⟩ := ih (s.lpmIpv6UcPrefixAdd pbp.addrv6 pbp.alen ⟨idx, 0⟩)
        exact ⟨l, hl⟩
      · exact ih s

/-! ### Lists of groups -/

/-- `ret_add_group_to_list` adds the group to the list. -/
theorem mem_retAddGroupToList {l : List ℤ} {gid' : ℤ} :
    gid' ∈ retAddGroupToList l gid ↔ gid' ∈ l ∨ gid' = gid := by
  unfold retAddGroupToList
  split_ifs with h
  · exact ⟨.inl, fun hor => hor.elim id fun heq => heq ▸ h⟩
  · simp

/-- The list names no group twice. -/
theorem nodup_retAddGroupToList {l : List ℤ} (hl : l.Nodup) : (retAddGroupToList l gid).Nodup := by
  unfold retAddGroupToList
  split_ifs with h
  · exact hl
  · exact List.nodup_append.mpr ⟨hl, List.nodup_singleton gid, fun a ha b hb heq =>
      h (List.mem_singleton.mp hb ▸ heq ▸ ha)⟩

/-- The list is not empty after it. -/
theorem retAddGroupToList_ne_nil (l : List ℤ) (gid : ℤ) : retAddGroupToList l gid ≠ [] := by
  unfold retAddGroupToList
  split_ifs with h
  · exact List.ne_nil_of_mem h
  · exact List.append_ne_nil_of_right_ne_nil l (List.cons_ne_nil gid [])

/-! ### New groups -/

/-- From an id that is in the list on, one fewer id of the list is left. -/
private theorem countP_le_succ (ids : List ℤ) (i : ℤ) :
    ids.countP (fun j => i + 1 ≤ j) + ids.count i = ids.countP fun j => i ≤ j := by
  induction ids with
  | nil => rfl
  | cons j ids ih =>
    simp only [List.countP_cons, List.count_cons, decide_eq_true_eq, beq_iff_eq]
    rw [← ih]
    split_ifs <;> omega

/-- The scan ends at a free id when it may take as many rounds as there are ids from `i` on. -/
private theorem newGroupIdScan_not_mem {ids : List ℤ} {fuel : ℕ} {i : ℤ}
    (hfuel : ids.countP (fun j => i ≤ j) ≤ fuel) : newGroupIdScan ids fuel i ∉ ids := by
  induction fuel generalizing i with
  | zero =>
    have hnone := List.countP_eq_zero.mp (Nat.le_zero.mp hfuel)
    exact fun hi => hnone i hi (by simp)
  | succ fuel ih =>
    rw [newGroupIdScan]
    split_ifs with hi
    · refine ih ?_
      have hcount := countP_le_succ ids i
      have hpos : 0 < ids.count i := List.count_pos_iff.mpr hi
      omega
    · exact hi

/-- A new group id is free. -/
theorem getNewGroupId_not_mem (ids : List ℤ) : getNewGroupId ids ∉ ids :=
  newGroupIdScan_not_mem List.countP_le_length

/-- A new id is above zero. -/
theorem getNewGroupId_pos (ids : List ℤ) : 0 < getNewGroupId ids := by
  have hscan : ∀ fuel i, i ≤ newGroupIdScan ids fuel i := by
    intro fuel
    induction fuel with
    | zero => exact fun i => le_rfl
    | succ fuel ih =>
      intro i
      rw [newGroupIdScan]
      split_ifs
      · exact (Int.le_of_lt (Int.lt_succ i)).trans (ih (i + 1))
      · exact le_rfl
  exact Int.lt_of_lt_of_le Int.zero_lt_one (hscan ids.length 1)

/-- What the loop over the gateways of a new group changes. -/
theorem foldl_addMember_spec (env : RouteEnv) (gid : ℤ) (idxs : ℕ → ℤ) (gws : List Gw)
    (acc : Router × ℕ × List ReIdx) :
    ∃ r c u, (gws.foldl (addMember env gid idxs) acc).1 =
        { acc.1 with ret := r, re_cnt := c, ucRoute := u } ∧
      (gws.foldl (addMember env gid idxs) acc).2.2.map ReIdx.gw = acc.2.2.map ReIdx.gw ++ gws := by
  induction gws generalizing acc with
  | nil => exact ⟨_, _, _, rfl, (List.append_nil _).symm⟩
  | cons gw gws ih =>
    obtain ⟨s, start, members⟩ := acc
    have hadd : ∃ r c, (s.retAdd gw gid).2 = { s with ret := r, re_cnt := c } := by
      unfold retAdd
      split
      · exact ⟨_, _, rfl⟩
      · exact ⟨_, _, rfl⟩
    have hone : ∃ r c u, (addMember env gid idxs (s, start, members) gw).1 =
        { s with ret := r, re_cnt := c, ucRoute := u } ∧
        (addMember env gid idxs (s, start, members) gw).2.2.map ReIdx.gw =
          members.map ReIdx.gw ++ [gw] := by
      obtain ⟨r, c, hadd⟩ := hadd
      unfold addMember
      dsimp only
      split_ifs
      · rw [hadd]
        unfold retSetReToIdx
        split
        · exact ⟨_, _, _, rfl, by simp⟩
        · exact ⟨_, _, _, rfl, by simp⟩
      · rw [hadd]
        exact ⟨_, _, _, rfl, by simp⟩
    obtain ⟨r, c, u, hs, hm⟩ := hone
    obtain ⟨r', c', u', hs', hm'⟩ := ih (addMember env gid idxs (s, start, members) gw)
    refine ⟨r', c', u', ?_, ?_⟩
    · rw [List.foldl_cons, hs', hs]
    · rw [List.foldl_cons, hm', hm, List.append_assoc, List.singleton_append]

/-- A new group has the id that was free, the gateways it was asked for, and the first index of
`idxs`. -/
theorem newGroup_spec (env : RouteEnv) (s : Router) (gws : List Gw) (el : RoutePfxPbr)
    (junk : ℕ → ℤ) : ∃ r c u,
    (s.newGroup env gws el junk).2 = { (s.popIdxs gws.length junk).2 with
      group_id := s.group_id ++ [getNewGroupId s.group_id], ret := r, re_cnt := c, ucRoute := u } ∧
    (s.newGroup env gws el junk).1.group_id = getNewGroupId s.group_id ∧
    (s.newGroup env gws el junk).1.re_count = gws.length ∧
    (s.newGroup env gws el junk).1.first_idx = (s.popIdxs gws.length junk).1 0 ∧
    (s.newGroup env gws el junk).1.re_idx.map ReIdx.gw = gws ∧
    (s.newGroup env gws el junk).1.pfx_pbr = [el] := by
  have hpop : ({ s with group_id := s.group_id ++ [getNewGroupId s.group_id] } : Router).popIdxs
      gws.length junk = ((s.popIdxs gws.length junk).1, { (s.popIdxs gws.length junk).2 with
        group_id := s.group_id ++ [getNewGroupId s.group_id] }) := by
    unfold popIdxs
    cases Ret.resPop s.ret_indexes_used gws.length with
    | none => rfl
    | some p => rfl
  unfold newGroup
  dsimp only
  rw [hpop]
  obtain ⟨r, c, u, hs, hm⟩ := foldl_addMember_spec env (getNewGroupId s.group_id)
    (s.popIdxs gws.length junk).1 gws
    ({ (s.popIdxs gws.length junk).2 with
      group_id := s.group_id ++ [getNewGroupId s.group_id] }, 0, [])
  exact ⟨r, c, u, hs, rfl, rfl, rfl, hm, rfl⟩

end Router

end Presteramgr
