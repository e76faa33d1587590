import Presteramgr.Lib.Sweep
import Presteramgr.Ret.Tidy

/-!
# The LTT rows of policy routing

A group writes its entry to the LTT rows of the policies that it lists, on the devices of their
interfaces. Each row has one policy, and holds the entry of the group that lists it.

## Main definitions

* `lttDevs`: the devices of an interface;
* `LttInv`: the rows are those of the groups.

## Main results

* `LttInv.gwChanged`: a gateway changes;
* `LttInv.of_lists`: groups come and go, and policies leave them.
-/

namespace Presteramgr

open Function (update update_self update_of_ne)

/-- The devices on which `ret_group_ltt_tcam_set` writes the row of an interface. -/
def lttDevs (env : RouteEnv) (interface : PclInterface) : List ℕ :=
  match interface.type with
  | .VLAN => List.range env.ndevs
  | .PORT =>
    match env.portPtr interface.num with
    | some port => if port.stack then [] else [port.ldev]
    | none => []
  | .other _ => []

/-- The element is a policy with this row. -/
def WritesRow (env : RouteEnv) (p : ℕ × RowColum) : RoutePfxPbr → Prop
  | .pfx _ _ => False
  | .pbr ix interface => p.2 = ix ∧ p.1 ∈ lttDevs env interface

instance (env : RouteEnv) (p : ℕ × RowColum) : ∀ el, Decidable (WritesRow env p el)
  | .pfx _ _ => .isFalse id
  | .pbr ix interface => inferInstanceAs (Decidable (p.2 = ix ∧ p.1 ∈ lttDevs env interface))

namespace Router

variable {env : RouteEnv} {s s' : Router} {gid : ℤ} {g : ReGroup} {re : Re} {changed : Bool}

/-! ## Writes -/

theorem foldl_lttWrite (devs : List ℕ) (s : Router) (ix : RowColum) (e : Ltt) (p : ℕ × RowColum) :
    (devs.foldl (fun s d => s.lttWrite d ix e) s).ltt p =
      if p.2 = ix ∧ p.1 ∈ devs then e else s.ltt p := by
  have hwrite : ∀ (s : Router) (d : ℕ), (s.lttWrite d ix e).ltt p =
      if p = (d, ix) then e else s.ltt p :=
    fun s d => Function.update_apply ..
  rw [Sweep.foldl_writes (fun s : Router => s.ltt p) (fun d => p = (d, ix)) e hwrite]
  refine if_congr ⟨?_, fun h => ⟨p.1, h.2, Prod.ext rfl h.1⟩⟩ rfl rfl
  rintro ⟨d, hd, rfl⟩
  exact ⟨rfl, hd⟩

/-- A policy's row is written on the devices of its interface. -/
theorem retGroupLttTcamSet_ltt (env : RouteEnv) (s : Router) (ix : RowColum)
    (interface : PclInterface) (g : ReGroup) (p : ℕ × RowColum) :
    (s.retGroupLttTcamSet env ix interface g).2.ltt p =
      if p.2 = ix ∧ p.1 ∈ lttDevs env interface then g.lttEntry else s.ltt p := by
  have hnone : s.ltt p = if p.2 = ix ∧ p.1 ∈ ([] : List ℕ) then g.lttEntry else s.ltt p :=
    (if_neg fun h => List.not_mem_nil h.2).symm
  unfold retGroupLttTcamSet lttDevs
  cases interface.type with
  | VLAN => exact foldl_lttWrite (List.range env.ndevs) s ix g.lttEntry p
  | other n => exact hnone
  | PORT =>
    dsimp only
    cases env.portPtr interface.num with
    | none => exact hnone
    | some port =>
      dsimp only
      rcases Bool.eq_false_or_eq_true port.stack with hstack | hstack
      all_goals simp only [hstack]
      · exact hnone
      · exact foldl_lttWrite [port.ldev] s ix g.lttEntry p

/-- The rows of the policies of a group are written. -/
theorem retGroupUpdateLpmTable_ltt (env : RouteEnv) (s : Router) (g : ReGroup) (p : ℕ × RowColum) :
    (s.retGroupUpdateLpmTable env g).ltt p =
      if ∃ el ∈ g.pfx_pbr, WritesRow env p el then g.lttEntry else s.ltt p := by
  refine Sweep.foldl_writes (fun s : Router => s.ltt p) (WritesRow env p) g.lttEntry
    (fun s el => ?_) _ s
  cases el with
  | pfx addr alen => exact (if_neg id).symm
  | pbr ix interface => exact retGroupLttTcamSet_ltt env s ix interface g p

/-- `ret_group_add_pbr` writes the entry of the first group of the table when a group has the
gateways, which makes no difference when that entry is the same or the interface has no devices. -/
def HeadShows (env : RouteEnv) (s : Router) (gws : List Gw) (interface : PclInterface) : Prop :=
  ∀ g ∈ s.re_group.find? fun g => compareLists gws g.re_idx,
    lttDevs env interface = [] ∨ ∀ head ∈ s.re_group.head?, head.lttEntry = g.lttEntry

instance (env : RouteEnv) (s : Router) (gws : List Gw) (interface : PclInterface) :
    Decidable (s.HeadShows env gws interface) :=
  inferInstanceAs (Decidable (∀ g ∈ s.re_group.find? fun g => compareLists gws g.re_idx,
    lttDevs env interface = [] ∨ ∀ head ∈ s.re_group.head?, head.lttEntry = g.lttEntry))

theorem lttEntry_addElem (g : ReGroup) (el : RoutePfxPbr) :
    (g.addElem el).lttEntry = g.lttEntry := by
  unfold ReGroup.addElem
  split_ifs <;> rfl

theorem enterGroup_ltt (env : RouteEnv) (s : Router) (gws : List Gw) (el : RoutePfxPbr)
    (junk : ℕ → ℤ) : (s.enterGroup env gws el junk).2.ltt = s.ltt := by
  rcases s.enterGroup_cases env gws el junk with ⟨g, -, -, -, heq⟩ |
    ⟨-, g, c, u, -, -, -, -, -, heq,
    -, -⟩
  · rw [heq]
    rfl
  · obtain ⟨used, hused⟩ := s.popIdxs_eq gws.length junk
    rw [heq, hused]

/-- A policy that enters a group gets its entry. -/
theorem retGroupAddPbr_ltt {gws : List Gw} {ix : RowColum} {interface : PclInterface}
    (hhead : s.HeadShows env gws interface) (junk : ℕ → ℤ) (p : ℕ × RowColum) :
    (s.retGroupAddPbr env gws ix interface junk).2.ltt p =
      if p.2 = ix ∧ p.1 ∈ lttDevs env interface
        then (s.enterGroup env gws (.pbr ix interface) junk).1.lttEntry else s.ltt p := by
  have hltt := enterGroup_ltt env s gws (.pbr ix interface) junk
  unfold HeadShows at hhead
  unfold retGroupAddPbr enterGroup at *
  cases hfind : s.re_group.find? fun g => compareLists gws g.re_idx with
  | none =>
    rw [hfind] at hltt
    dsimp only at hltt ⊢
    rw [retGroupLttTcamSet_ltt, hltt]
  | some g =>
    dsimp only
    have hg : g ∈ s.re_group := List.mem_of_find?_eq_some hfind
    -- the row is written for the first group, which may be the one that was found
    have hmod : (s.modifyGroup g.group_id (·.addElem (.pbr ix interface))).re_group.head? =
        s.re_group.head?.map fun x => if x.group_id = g.group_id then x.addElem (.pbr ix interface)
          else x := List.head?_map ..
    rw [hmod]
    cases hh : s.re_group.head? with
    | none => exact absurd (List.head?_eq_none_iff.mp hh) (List.ne_nil_of_mem hg)
    | some head =>
      dsimp only [Option.map_some]
      rw [retGroupLttTcamSet_ltt]
      have hentry : (if head.group_id = g.group_id then head.addElem (.pbr ix interface)
          else head).lttEntry = head.lttEntry := by
        split_ifs
        · exact lttEntry_addElem head _
        · rfl
      rw [hentry]
      refine if_ctx_congr Iff.rfl (fun hwrites => ?_) fun _ => rfl
      rcases hhead g hfind with hnil | hsame
      · exact absurd (hnil ▸ hwrites.2) List.not_mem_nil
      · exact hsame head hh

/-! ## The rows are those of the groups -/

/-- Each row has one policy, and holds the entry of the group that lists it. -/
structure LttInv (env : RouteEnv) (s : Router) : Prop where
  rows : ∀ g ∈ s.re_group, ∀ g' ∈ s.re_group, ∀ ix i i', .pbr ix i ∈ g.pfx_pbr →
    .pbr ix i' ∈ g'.pfx_pbr → g = g' ∧ i = i'
  shown : ∀ g ∈ s.re_group, ∀ ix i, .pbr ix i ∈ g.pfx_pbr → ∀ d ∈ lttDevs env i,
    s.ltt (d, ix) = g.lttEntry

namespace LttInv

variable (h : LttInv env s)

include h

/-- Groups come and go, and policies leave them. -/
theorem of_lists (hu : Keyed.Unique ReGroup.group_id s'.re_group) (hltt : s'.ltt = s.ltt)
    (hlists : ∀ g' ∈ s'.re_group, ∀ ix i, .pbr ix i ∈ g'.pfx_pbr →
      ∃ g ∈ s.re_group, .pbr ix i ∈ g.pfx_pbr ∧ g.group_id = g'.group_id ∧
        g.lttEntry = g'.lttEntry) : LttInv env s' := by
  constructor
  · intro g hg g' hg' ix i i' hi hi'
    obtain ⟨x, hx, hxi, hxid, -⟩ := hlists g hg ix i hi
    obtain ⟨x', hx', hxi', hxid', -⟩ := hlists g' hg' ix i' hi'
    obtain ⟨rfl, rfl⟩ := h.rows x hx x' hx' ix i i' hxi hxi'
    exact ⟨hu.eq_of_mem hg hg' (hxid.symm.trans hxid'), rfl⟩
  · intro g hg ix i hi d hd
    obtain ⟨x, hx, hxi, -, hentry⟩ := hlists g hg ix i hi
    rw [hltt, h.shown x hx ix i hxi d hd, hentry]

/-- The entry of a group is written anew to the rows of its policies. -/
theorem update (hu : Keyed.Unique ReGroup.group_id s.re_group) (hg : g ∈ s.re_group)
    {f : ReGroup → ReGroup} (hf : ∀ x, (f x).static = x.static) (u : ℤ → UcRoute) :
    LttInv env (({ s.modifyGroup g.group_id f with ucRoute := u } :
      Router).retGroupUpdateLpmTable env (f g)) := by
  have hpfx : ∀ x, (f x).pfx_pbr = x.pfx_pbr := fun x => congrArg (·.2.2.2.2) (hf x)
  have hid : ∀ x, (f x).group_id = x.group_id := fun x => ReGroup.static_group_id (hf x)
  obtain ⟨l, t, heq⟩ := retGroupUpdateLpmTable_eq env
    ({ s.modifyGroup g.group_id f with ucRoute := u } : Router) (f g)
  have hgroups : (({ s.modifyGroup g.group_id f with ucRoute := u } :
      Router).retGroupUpdateLpmTable env (f g)).re_group =
        Keyed.modify ReGroup.group_id s.re_group g.group_id f := by
    rw [heq]
    rfl
  have hold : ∀ x' ∈ Keyed.modify ReGroup.group_id s.re_group g.group_id f, ∃ x ∈ s.re_group,
      x.pfx_pbr = x'.pfx_pbr ∧ x.group_id = x'.group_id ∧
        (x = g ∧ x' = f g ∨ x' = x ∧ x.group_id ≠ g.group_id) := by
    intro x' hx'
    rcases Keyed.mem_modify_iff.mp hx' with ⟨x, hx, hxid, rfl⟩ | ⟨hx, hne⟩
    · obtain rfl := hu.eq_of_mem hx hg hxid
      exact ⟨x, hx, (hpfx x).symm, (hid x).symm, .inl ⟨rfl, rfl⟩⟩
    · exact ⟨x', hx, rfl, rfl, .inr ⟨rfl, hne⟩⟩
  have hu' : Keyed.Unique ReGroup.group_id
      (Keyed.modify ReGroup.group_id s.re_group g.group_id f) :=
    hu.modify hid
  constructor
  all_goals rw [hgroups]
  · intro x hx x' hx' ix i i' hi hi'
    obtain ⟨y, hy, hypfx, hyid, -⟩ := hold x hx
    obtain ⟨y', hy', hypfx', hyid', -⟩ := hold x' hx'
    obtain ⟨rfl, rfl⟩ := h.rows y hy y' hy' ix i i' (hypfx ▸ hi) (hypfx' ▸ hi')
    exact ⟨hu'.eq_of_mem hx hx' (hyid.symm.trans hyid'), rfl⟩
  · intro x' hx' ix i hi d hd
    rw [retGroupUpdateLpmTable_ltt]
    obtain ⟨x, hx, hxpfx, -, ⟨rfl, rfl⟩ | ⟨rfl, hne⟩⟩ := hold x' hx'
    · exact if_pos ⟨_, hi, rfl, hd⟩
    · -- the row is not one of the group
      rw [if_neg]
      · exact h.shown x' hx ix i hi d hd
      · rintro ⟨el, hel, hwrites⟩
        rw [hpfx] at hel
        cases el with
        | pfx addr alen => exact hwrites
        | pbr ix' i' =>
          obtain rfl : ix = ix' := hwrites.1
          exact hne (congrArg ReGroup.group_id (h.rows x' hx g hg ix i i' hi hel).1)

/-- A gateway changes. -/
theorem gwChanged (hu : Keyed.Unique ReGroup.group_id s.re_group) (gid : ℤ) (re : Re)
    (changed : Bool) : LttInv env (s.retGroupGwChanged env gid re changed) := by
  obtain ⟨f, u, hf, ⟨heq, hkeep⟩ | ⟨g, hfind, heq⟩⟩ := retGroupGwChanged_eq env s gid re changed
  · rw [heq]
    have hid : ∀ x, (f x).group_id = x.group_id := fun x => ReGroup.static_group_id (hf x)
    refine h.of_lists (hu.modify hid) rfl fun x' hx' ix i hi => ?_
    rcases Keyed.mem_modify_iff.mp hx' with ⟨x, hx, hxid, rfl⟩ | ⟨hx, -⟩
    · have hpfx : (f x).pfx_pbr = x.pfx_pbr := congrArg (·.2.2.2.2) (hf x)
      exact ⟨x, hx, hpfx ▸ hi, (hid x).symm,
        (hkeep x (hu.find_eq_some_iff.mpr ⟨hx, hxid⟩)).symm⟩
    · exact ⟨x', hx, hi, rfl, rfl⟩
  · obtain ⟨hg, rfl⟩ := hu.find_eq_some_iff.mp hfind
    rw [heq]
    exact h.update hu hg hf u

theorem foldl_gwChanged (hu : Keyed.Unique ReGroup.group_id s.re_group) (ids : List ℤ) (re : Re)
    (changed : Bool) :
    LttInv env (ids.foldl (fun s gid => s.retGroupGwChanged env gid re changed) s) := by
  induction ids generalizing s with
  | nil => exact h
  | cons gid ids ih =>
    refine ih (h.gwChanged hu gid re changed) ?_
    dsimp only
    have hfan : Fanned s (s.retGroupGwChanged env gid re changed) := fanned_retGroupGwChanged
    obtain ⟨x, u, l, t, heq, hstatic⟩ := hfan
    have hids := congrArg (List.map Prod.fst) hstatic
    simp only [List.map_map, Function.comp_def, ReGroup.static] at hids
    rw [heq, Keyed.Unique, hids]
    exact hu

theorem retSetMacAddr (hu : Keyed.Unique ReGroup.group_id s.re_group) (gw : Gw) (addr : Mac)
    (vif_id : ℕ) (arpOk : Bool) : LttInv env (s.retSetMacAddr env gw addr vif_id arpOk).2 := by
  obtain ⟨r, n, re, changed, ids, heq, -⟩ := retSetMacAddr_foldl env s gw addr vif_id arpOk
  have hsame : LttInv env { s with ret := r, nh := n } := ⟨h.rows, h.shown⟩
  rw [heq]
  exact hsame.foldl_gwChanged hu ids re changed

theorem retUnsetMacAddr (hu : Keyed.Unique ReGroup.group_id s.re_group) (gw : Gw) :
    LttInv env (s.retUnsetMacAddr env gw).2 := by
  obtain ⟨r, n, re, changed, ids, heq, -⟩ := retUnsetMacAddr_foldl env s gw
  have hsame : LttInv env { s with ret := r, nh := n } := ⟨h.rows, h.shown⟩
  rw [heq]
  exact hsame.foldl_gwChanged hu ids re changed

/-- An element enters a group, and when it is a policy its row is written. -/
theorem enter (htidy : s.Tidy) {gws : List Gw} {el : RoutePfxPbr} {junk : ℕ → ℤ}
    (hrow : ∀ ix i, el = .pbr ix i → ∀ g ∈ s.re_group, ∀ i', .pbr ix i' ∈ g.pfx_pbr →
      g.group_id = (s.enterGroup env gws el junk).1.group_id ∧ i' = i)
    (hgroups : s'.re_group = (s.enterGroup env gws el junk).2.re_group)
    (hltt : ∀ p, s'.ltt p = if WritesRow env p el then (s.enterGroup env gws el junk).1.lttEntry
      else s.ltt p) : LttInv env s' := by
  have hu : Keyed.Unique ReGroup.group_id s'.re_group :=
    hgroups ▸ (htidy.enterGroup env gws el junk).groups
  have hmem := htidy.mem_enterGroup env gws el junk
  rw [← hgroups] at hmem
  set e := (s.enterGroup env gws el junk).1 with he
  have hself : ∀ g' ∈ s'.re_group, g'.group_id = e.group_id → g'.lttEntry = e.lttEntry := by
    intro g' hg' hid
    rcases (hmem g').mp hg' with ⟨-, hne⟩ | rfl
    · exact absurd hid hne
    · exact lttEntry_addElem e el
  -- a policy is listed where it was before, or is the one that enters
  have hold : ∀ g' ∈ s'.re_group, ∀ ix i, .pbr ix i ∈ g'.pfx_pbr →
      (∃ g ∈ s.re_group, .pbr ix i ∈ g.pfx_pbr ∧ g.group_id = g'.group_id ∧
        g.lttEntry = g'.lttEntry) ∨ el = .pbr ix i ∧ g'.group_id = e.group_id := by
    intro g' hg' ix i hi
    rcases (hmem g').mp hg' with ⟨hg, -⟩ | rfl
    · exact .inl ⟨g', hg, hi, rfl, rfl⟩
    · have hid : (e.addElem el).group_id = e.group_id := by
        unfold ReGroup.addElem
        split_ifs <;> rfl
      have hin : .pbr ix i ∈ e.pfx_pbr ∨ el = .pbr ix i := by
        unfold ReGroup.addElem at hi
        split_ifs at hi
        · exact .inl hi
        · exact (List.mem_append.mp hi).imp_right fun hx => (List.mem_singleton.mp hx).symm
      rcases htidy.enterGroup_fst env gws el junk with ⟨hg, -⟩ | ⟨-, -, hpfx⟩
      · refine hin.imp (fun hin => ?_) fun hx => ⟨hx, hid⟩
        exact ⟨e, hg, hin, hid.symm, (lttEntry_addElem e el).symm⟩
      · refine .inr ⟨hin.elim (fun hin => ?_) id, hid⟩
        rw [he, hpfx] at hin
        exact (List.mem_singleton.mp hin).symm
  constructor
  · intro g hg g' hg' ix i i' hi hi'
    have hsame : g.group_id = g'.group_id ∧ i = i' := by
      rcases hold g hg ix i hi with ⟨x, hx, hxi, hxid, -⟩ | ⟨hel, hid⟩
      · rcases hold g' hg' ix i' hi' with ⟨x', hx', hxi', hxid', -⟩ | ⟨hel', hid'⟩
        · obtain ⟨rfl, rfl⟩ := h.rows x hx x' hx' ix i i' hxi hxi'
          exact ⟨hxid.symm.trans hxid', rfl⟩
        · obtain ⟨hxe, rfl⟩ := hrow ix i' hel' x hx i hxi
          exact ⟨(hxid.symm.trans hxe).trans hid'.symm, rfl⟩
      · rcases hold g' hg' ix i' hi' with ⟨x', hx', hxi', hxid', -⟩ | ⟨hel', hid'⟩
        · obtain ⟨hxe, rfl⟩ := hrow ix i hel x' hx' i' hxi'
          exact ⟨hid.trans (hxe.symm.trans hxid'), rfl⟩
        · exact ⟨hid.trans hid'.symm, (RoutePfxPbr.pbr.inj (hel.symm.trans hel')).2⟩
    exact ⟨hu.eq_of_mem hg hg' hsame.1, hsame.2⟩
  · intro g' hg' ix i hi d hd
    rw [hltt]
    rcases hold g' hg' ix i hi with ⟨g, hg, hgi, hid, hentry⟩ | ⟨hel, hid⟩
    · by_cases hwrites : WritesRow env (d, ix) el
      · -- the row is written for the same policy
        rw [if_pos hwrites]
        cases el with
        | pfx addr alen => exact hwrites.elim
        | pbr ix' i' =>
          obtain rfl : ix = ix' := hwrites.1
          exact (hself g' hg' (hid.symm.trans (hrow ix i' rfl g hg i hgi).1)).symm
      · rw [if_neg hwrites, h.shown g hg ix i hgi d hd, hentry]
    · rw [if_pos (by rw [hel]; exact ⟨rfl, hd⟩), hself g' hg' hid]

theorem retGroupAdd (htidy : s.Tidy) (gws : List Gw) (ip : Ip4) (alen : ℕ) (junk : ℕ → ℤ) :
    LttInv env (s.retGroupAdd env gws ip alen junk).2 := by
  rw [retGroupAdd_eq]
  refine h.enter htidy (fun ix i hno => by cases hno) rfl fun p => ?_
  exact congrFun (enterGroup_ltt ..) p

theorem retGroupAddPbr (htidy : s.Tidy) {gws : List Gw} {ix : RowColum} {interface : PclInterface}
    {junk : ℕ → ℤ} (hhead : s.HeadShows env gws interface)
    (hrow : ∀ g ∈ s.re_group, ∀ i', .pbr ix i' ∈ g.pfx_pbr →
      g.group_id = (s.enterGroup env gws (.pbr ix interface) junk).1.group_id ∧ i' = interface) :
    LttInv env (s.retGroupAddPbr env gws ix interface junk).2 := by
  obtain ⟨t, heq⟩ := retGroupAddPbr_eq env s gws ix interface junk
  refine h.enter htidy (fun ix' i hel => ?_) (by rw [heq]) fun p => ?_
  · obtain ⟨rfl, rfl⟩ := RoutePfxPbr.pbr.inj hel
    exact hrow
  · exact retGroupAddPbr_ltt hhead junk p

/-- An element leaves a group. -/
theorem retGroupDelElem (htidy : s.Tidy) (gid : ℤ) (el : RoutePfxPbr) :
    LttInv env (s.retGroupDelElem gid el) := by
  have hltt : (s.retGroupDelElem gid el).ltt = s.ltt := by
    rcases s.retGroupDelElem_cases gid el htidy.groups with ⟨-, heq⟩ | ⟨g, -, ⟨-, heq⟩ |
      ⟨-, c, n, heq, -, -⟩⟩
    · rw [heq]
    · rw [heq]
      rfl
    · rw [heq]
  refine h.of_lists (htidy.retGroupDelElem gid el).groups hltt fun g' hg' ix i hi => ?_
  rcases (htidy.mem_retGroupDelElem gid el _).mp hg' with ⟨hg, -⟩ | ⟨g, hg, -, rfl, -⟩
  · exact ⟨g', hg, hi, rfl, rfl⟩
  · exact ⟨g, hg, List.mem_of_mem_erase hi, rfl, rfl⟩

end LttInv

end Router

end Presteramgr
