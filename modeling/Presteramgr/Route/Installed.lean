import Presteramgr.Lib.Sweep
import Presteramgr.Ret.Mapping
import Presteramgr.Route.Unicast

/-!
# What the LPM table holds for the routes

The routes and their children own prefixes of the LPM table. Each owner that is resolved belongs to
a group, whose list of prefixes names it. The table is written by the routes, by the groups when a
gateway changes, and when a route is resolved, each of them with a copy of the same fact.

While a route is changed the prefix of it is a hole, where the table may hold anything.

## Main definitions

* `Owner`: what a route or child is for the LPM table and the groups;
* `Installed`: the table and the lists of the groups are as the owners say. When it is not `strict`,
  a resolved owner may trap packets as well.

## Main results

* `Installed.put`, `Installed.fill` and `Installed.remove`: an owner comes, is resolved, and goes;
* `Installed.gwChanged`: a gateway changes.
-/

namespace Presteramgr

open Function (update update_self update_of_ne)

/-- What a route or a child of a route is for the LPM table and for the groups. -/
structure Owner where
  pfx : Ip4
  len : ℕ
  group_id : ℤ
deriving DecidableEq, Repr

/-- What an entry of the FIB owns. -/
def FibNode.owner (n : FibNode) : Owner := ⟨n.pfx, n.len, n.group_id⟩

namespace Owner

/-- The prefix of the LPM table. -/
def key (o : Owner) : ℕ × Ip4 := (o.len, masked o.len o.pfx)

/-- The element in the list of the group. -/
def elem (o : Owner) : RoutePfxPbr := .pfx o.pfx o.len

end Owner

namespace Router

variable (s : Router)

/-- The LPM entry that an owner should have. -/
def target (o : Owner) : Option Ltt :=
  if o.group_id = 0 then some trapEntry else (s.findGroup o.group_id).map ReGroup.lttEntry

/-- The owner has its LPM entry. -/
def Shows (strict : Prop) (o : Owner) : Prop :=
  s.lpm o.key = s.target o ∨ ¬strict ∧ o.len ≠ 0 ∧ s.lpm o.key = some trapEntry

/-- The LPM table and the groups are as the owners say, but for the table at the keys of `hole`. The
default route is there from the start, and is an owner's when it is resolved. -/
structure Installed (strict : Prop) (hole : Set (ℕ × Ip4)) (owners : List Owner) : Prop where
  unique : Keyed.Unique Owner.key owners
  outside : ∀ o ∈ owners, o.key ∉ hole
  groups : Keyed.Unique ReGroup.group_id s.re_group
  ids : ∀ g ∈ s.re_group, g.group_id ∈ s.group_id
  ids_pos : ∀ id ∈ s.group_id, 0 < id
  nodup : ∀ g ∈ s.re_group, g.pfx_pbr.Nodup
  listed : ∀ g ∈ s.re_group, ∀ a l, .pfx a l ∈ g.pfx_pbr → ⟨a, l, g.group_id⟩ ∈ owners
  owned : ∀ o ∈ owners, o.group_id ≠ 0 → ∃ g ∈ s.re_group, g.group_id = o.group_id ∧
    o.elem ∈ g.pfx_pbr
  shown : ∀ o ∈ owners, o.len ≠ 0 ∨ o.group_id ≠ 0 → s.Shows strict o
  bare : ∀ k : ℕ × Ip4, k.1 ≠ 0 → k ∉ hole → s.lpm k ≠ none → ∃ o ∈ owners, o.key = k

variable {s} {s' : Router} {env : RouteEnv} {strict : Prop} {hole : Set (ℕ × Ip4)}
  {owners owners' : List Owner} {o : Owner} {k : ℕ × Ip4} {e : Ltt} {gid : ℤ} {g : ReGroup}

/-! ## Writes to the LPM table -/

@[simp] theorem lpmIpv4UcPrefixAdd_lpm (addr : Ip4) (alen : ℕ) :
    (s.lpmIpv4UcPrefixAdd addr alen e).lpm = update s.lpm (alen, masked alen addr) (some e) := rfl

@[simp] theorem lpmIpv4UcPrefixDel_lpm (addr : Ip4) (alen : ℕ) :
    (s.lpmIpv4UcPrefixDel addr alen).lpm = update s.lpm (alen, masked alen addr) none := rfl

/-- The LPM prefix that an element of a group's list names. -/
def elemKey : RoutePfxPbr → Option (ℕ × Ip4)
  | .pfx addr alen => some (alen, masked alen addr)
  | .pbr _ _ => none

/-- An update of a group writes its entry at the prefixes of its list. -/
theorem retGroupUpdateLpmTable_lpm (env : RouteEnv) (s : Router) (g : ReGroup) (k : ℕ × Ip4) :
    (s.retGroupUpdateLpmTable env g).lpm k =
      if ∃ el ∈ g.pfx_pbr, elemKey el = some k then some g.lttEntry else s.lpm k := by
  refine Sweep.foldl_writes (fun s : Router => s.lpm k) (fun el => elemKey el = some k)
    (some g.lttEntry)
    (fun s el => ?_) _ s
  cases el with
  | pfx addr alen =>
    have hkey : (elemKey (.pfx addr alen) = some k) ↔ k = (alen, masked alen addr) :=
      Option.some_inj.trans eq_comm
    rw [if_congr hkey rfl rfl, updateElem, lpmIpv4UcPrefixAdd_lpm]
    exact Function.update_apply ..
  | pbr ix interface =>
    -- a row of the LTT is none of the LPM table
    obtain ⟨t, ht⟩ := retGroupLttTcamSet_eq env s ix interface g
    rw [updateElem, ht, if_neg fun hkey => by cases hkey]

/-! ## Groups -/

/-- What `ret_group_add` does to the groups and the LPM table: it finds a group or makes one. -/
theorem retGroupAdd_cases (env : RouteEnv) (s : Router) (gws : List Gw) (ip : Ip4) (alen : ℕ)
    (junk : ℕ → ℤ) : ∃ g,
    (s.retGroupAdd env gws ip alen junk).1 = g.group_id ∧
    (s.retGroupAdd env gws ip alen junk).2.lpm =
      update s.lpm (alen, masked alen ip) (some g.lttEntry) ∧
    (s.retGroupAdd env gws ip alen junk).2.fib = s.fib ∧
    (g ∈ s.re_group ∧
      (s.retGroupAdd env gws ip alen junk).2.re_group =
        Keyed.modify ReGroup.group_id s.re_group g.group_id (·.addElem (.pfx ip alen)) ∧
      (s.retGroupAdd env gws ip alen junk).2.group_id = s.group_id ∨
    g.group_id = getNewGroupId s.group_id ∧ g.pfx_pbr = [.pfx ip alen] ∧
      (s.retGroupAdd env gws ip alen junk).2.re_group = s.re_group ++ [g] ∧
      (s.retGroupAdd env gws ip alen junk).2.group_id = s.group_id ++ [g.group_id]) := by
  unfold retGroupAdd
  cases hfind : s.re_group.find? fun el => compareLists gws el.re_idx with
  | some g =>
    exact ⟨g, rfl, rfl, rfl, .inl ⟨List.mem_of_find?_eq_some hfind, rfl, rfl⟩⟩
  | none =>
    obtain ⟨r, c, u, hs, hid, -, -, -, hpfx⟩ := newGroup_spec env s gws (.pfx ip alen) junk
    have hpop : ∃ used, (s.popIdxs gws.length junk).2 = { s with ret_indexes_used := used } := by
      unfold popIdxs
      split
      · exact ⟨_, rfl⟩
      · exact ⟨_, rfl⟩
    obtain ⟨used, hpop⟩ := hpop
    dsimp only
    refine ⟨(s.newGroup env gws (.pfx ip alen) junk).1, rfl, ?_, ?_, .inr ⟨hid, hpfx, ?_, ?_⟩⟩
    all_goals rw [hs, hpop]
    · rfl
    · rfl
    · rfl
    · rw [hid]
      rfl

/-- A group that loses an element keeps the LPM table and the routes. -/
theorem retGroupDel_frame (s : Router) (gid : ℤ) (pfx : Ip4) (len : ℕ) :
    (s.retGroupDel gid pfx len).lpm = s.lpm ∧ (s.retGroupDel gid pfx len).fib = s.fib := by
  unfold retGroupDel retGroupDelElem
  cases s.findGroup gid with
  | none => exact ⟨rfl, rfl⟩
  | some g =>
    dsimp only
    split_ifs
    · unfold retGroupDel2
      obtain ⟨r, n, c, hfold⟩ := foldl_retUnref_eq (g.removeElem (.pfx pfx len)).group_id
        (g.removeElem (.pfx pfx len)).re_idx (s.modifyGroup gid (·.removeElem (.pfx pfx len)))
      rw [hfold]
      exact ⟨rfl, rfl⟩
    · exact ⟨rfl, rfl⟩

/-- What `ret_group_del` does to the groups: the element is gone from the list of the group, and the
group when the list is empty. -/
theorem retGroupDel_cases (s : Router) (gid : ℤ) (pfx : Ip4) (len : ℕ)
    (hu : Keyed.Unique ReGroup.group_id s.re_group) :
    (s.findGroup gid = none ∧ s.retGroupDel gid pfx len = s) ∨
    ∃ g, s.findGroup gid = some g ∧
      ((g.pfx_pbr.erase (.pfx pfx len) ≠ [] ∧
        (s.retGroupDel gid pfx len).re_group =
          Keyed.modify ReGroup.group_id s.re_group gid (·.removeElem (.pfx pfx len)) ∧
        (s.retGroupDel gid pfx len).group_id = s.group_id) ∨
      (g.pfx_pbr.erase (.pfx pfx len) = [] ∧
        (s.retGroupDel gid pfx len).re_group = Keyed.del ReGroup.group_id s.re_group gid ∧
        (s.retGroupDel gid pfx len).group_id = s.group_id.erase gid)) := by
  unfold retGroupDel retGroupDelElem
  cases hfind : s.findGroup gid with
  | none => exact .inl ⟨rfl, rfl⟩
  | some g =>
    have hgid : g.group_id = gid := Keyed.key_of_find hfind
    dsimp only
    by_cases hnil : (g.removeElem (.pfx pfx len)).pfx_pbr = []
    · rw [if_pos hnil]
      unfold retGroupDel2
      obtain ⟨r, n, c, hfold⟩ := foldl_retUnref_eq (g.removeElem (.pfx pfx len)).group_id
        (g.removeElem (.pfx pfx len)).re_idx
        (s.modifyGroup gid (·.removeElem (.pfx pfx len)))
      rw [hfold]
      refine .inr ⟨g, rfl, .inr ⟨hnil, ?_, ?_⟩⟩
      · exact hu.del_modify fun _ => rfl
      · show s.group_id.erase g.group_id = s.group_id.erase gid
        rw [hgid]
    · rw [if_neg hnil]
      exact .inr ⟨g, rfl, .inl ⟨hnil, rfl, rfl⟩⟩

/-- What the reaction of a group to a gateway does to the groups and the LPM table: the entry of the
group stays, or is written anew for all its prefixes. -/
theorem retGroupGwChanged_cases (env : RouteEnv) (s : Router) (gid : ℤ) (re : Re)
    (changed : Bool) : ∃ f : ReGroup → ReGroup, (∀ x, (f x).static = x.static) ∧
    (s.retGroupGwChanged env gid re changed).re_group =
      Keyed.modify ReGroup.group_id s.re_group gid f ∧
    (((s.retGroupGwChanged env gid re changed).lpm = s.lpm ∧
        ∀ g, s.findGroup gid = some g → (f g).lttEntry = g.lttEntry) ∨
      ∃ g, s.findGroup gid = some g ∧
        ∀ k, (s.retGroupGwChanged env gid re changed).lpm k =
          if ∃ el ∈ g.pfx_pbr, elemKey el = some k then some (f g).lttEntry else s.lpm k) := by
  obtain ⟨f, u, hf, ⟨heq, hentry⟩ | ⟨g, hfind, heq⟩⟩ := retGroupGwChanged_eq env s gid re changed
  · rw [heq]
    exact ⟨f, hf, rfl, .inl ⟨rfl, hentry⟩⟩
  · obtain ⟨l, t, hupd⟩ :=
      retGroupUpdateLpmTable_eq env { s.modifyGroup gid f with ucRoute := u } (f g)
    refine ⟨f, hf, ?_, .inr ⟨g, hfind, fun k => ?_⟩⟩
    · rw [heq, hupd]
      rfl
    · have hpfx : (f g).pfx_pbr = g.pfx_pbr := congrArg (·.2.2.2.2) (hf g)
      rw [heq, retGroupUpdateLpmTable_lpm, hpfx]
      rfl

/-! ## Owners come and go -/

namespace Installed

/-- Only the groups and the LPM table count. -/
theorem congr (h : s.Installed strict hole owners) (hg : s'.re_group = s.re_group)
    (hid : s'.group_id = s.group_id) (hlpm : s'.lpm = s.lpm) :
    s'.Installed strict hole owners := by
  have htarget : ∀ o, s'.target o = s.target o := by
    intro o
    unfold target findGroup
    rw [hg]
  refine ⟨h.unique, h.outside, by rw [hg]; exact h.groups, by rw [hg, hid]; exact h.ids,
    by rw [hid]; exact h.ids_pos, by rw [hg]; exact h.nodup, by rw [hg]; exact h.listed,
    by rw [hg]; exact h.owned, fun o ho hlen => ?_, by rw [hlpm]; exact h.bare⟩
  have hshown := h.shown o ho hlen
  unfold Shows at hshown ⊢
  rwa [htarget, hlpm]

/-- The order of the owners does not matter. -/
theorem perm (h : s.Installed strict hole owners) (hp : owners.Perm owners') :
    s.Installed strict hole owners' := by
  refine ⟨(hp.map Owner.key).nodup_iff.mp h.unique, fun o ho => h.outside o (hp.mem_iff.mpr ho),
    h.groups, h.ids, h.ids_pos, h.nodup, fun g hg a l hel => hp.mem_iff.mp (h.listed g hg a l hel),
    fun o ho => h.owned o (hp.mem_iff.mpr ho), fun o ho => h.shown o (hp.mem_iff.mpr ho),
    fun k hk hhole hlpm => ?_⟩
  obtain ⟨o, ho, hok⟩ := h.bare k hk hhole hlpm
  exact ⟨o, hp.mem_iff.mp ho, hok⟩

/-- The group of an owner is found. -/
theorem findGroup (h : s.Installed strict hole owners) (ho : o ∈ owners) (hgid : o.group_id ≠ 0) :
    ∃ g, s.findGroup o.group_id = some g ∧ g ∈ s.re_group ∧ o.elem ∈ g.pfx_pbr := by
  obtain ⟨g, hg, hid, hel⟩ := h.owned o ho hgid
  exact ⟨g, h.groups.find_eq_some_iff.mpr ⟨hg, hid⟩, hg, hel⟩

/-- No group has the id 0. -/
theorem group_id_ne_zero (h : s.Installed strict hole owners) (hg : g ∈ s.re_group) :
    g.group_id ≠ 0 :=
  (h.ids_pos _ (h.ids g hg)).ne'

/-- An owner that is not resolved is taken out of the list; its prefix becomes a hole. -/
theorem hollow (h : s.Installed strict ∅ (o :: owners)) (hgid : o.group_id = 0) :
    s.Installed strict {o.key} owners := by
  obtain ⟨hother, hunique⟩ := Keyed.unique_cons.mp h.unique
  refine ⟨hunique, fun x hx => hother x hx, h.groups, h.ids, h.ids_pos, h.nodup,
    fun g hg a l hel => ?_, fun x hx => h.owned x (List.mem_cons_of_mem o hx),
    fun x hx => h.shown x (List.mem_cons_of_mem o hx), fun k hk hhole hlpm => ?_⟩
  · rcases List.mem_cons.mp (h.listed g hg a l hel) with heq | hmem
    · exact absurd ((congrArg Owner.group_id heq).trans hgid) (h.group_id_ne_zero hg)
    · exact hmem
  · obtain ⟨x, hx, hxk⟩ := h.bare k hk (Set.notMem_empty k) hlpm
    rcases List.mem_cons.mp hx with rfl | hx
    · exact absurd hxk.symm hhole
    · exact ⟨x, hx, hxk⟩

/-- A prefix that nobody owns is a hole. -/
theorem free (h : s.Installed strict ∅ owners) (hk : ∀ o ∈ owners, o.key ≠ k) :
    s.Installed strict {k} owners :=
  ⟨h.unique, hk, h.groups, h.ids, h.ids_pos, h.nodup, h.listed, h.owned, h.shown,
    fun k' hk' _ => h.bare k' hk' (Set.notMem_empty k')⟩

/-- In a hole the table may hold anything. -/
theorem writeHole (h : s.Installed strict {k} owners) (hg : s'.re_group = s.re_group)
    (hid : s'.group_id = s.group_id) (hlpm : ∀ k' ≠ k, s'.lpm k' = s.lpm k') :
    s'.Installed strict {k} owners := by
  have hsame : { s' with lpm := s.lpm }.Installed strict {k} owners := h.congr hg hid rfl
  refine ⟨hsame.unique, hsame.outside, hsame.groups, hsame.ids, hsame.ids_pos, hsame.nodup,
    hsame.listed, hsame.owned, fun o ho hlen => ?_, fun k' hk' hhole hne => ?_⟩
  · have hshown := hsame.shown o ho hlen
    unfold Shows at hshown ⊢
    rwa [hlpm o.key (h.outside o ho)]
  · rw [hlpm k' hhole] at hne
    exact h.bare k' hk' hhole hne

/-- A prefix that traps packets gets an owner. -/
theorem put (h : s.Installed strict {o.key} owners) (hgid : o.group_id = 0)
    (htrap : o.len ≠ 0 → s.lpm o.key = some trapEntry) :
    s.Installed strict ∅ (o :: owners) := by
  refine ⟨h.unique.cons fun x hx => h.outside x hx, fun _ _ => Set.notMem_empty _, h.groups, h.ids,
    h.ids_pos, h.nodup, fun g hg a l hel => List.mem_cons_of_mem o (h.listed g hg a l hel),
    fun x hx hx0 => ?_, fun x hx hlen => ?_, fun k hk _ hlpm => ?_⟩
  · rcases List.mem_cons.mp hx with rfl | hx
    · exact absurd hgid hx0
    · exact h.owned x hx hx0
  · rcases List.mem_cons.mp hx with rfl | hx
    · refine .inl ?_
      unfold target
      rw [if_pos hgid]
      exact htrap (hlen.resolve_right fun hne => hne hgid)
    · exact h.shown x hx hlen
  · by_cases hko : k = o.key
    · exact ⟨o, List.mem_cons_self, hko.symm⟩
    · obtain ⟨x, hx, hxk⟩ := h.bare k hk hko hlpm
      exact ⟨x, List.mem_cons_of_mem o hx, hxk⟩

/-- A prefix traps packets again that is not resolved, or may do so. -/
theorem retrap (h : s.Installed strict ∅ (o :: owners)) (hlen : o.len ≠ 0)
    (hok : ¬strict ∨ o.group_id = 0) :
    (s.lpmIpv4UcPrefixAdd o.pfx o.len trapEntry).Installed strict ∅ (o :: owners) := by
  obtain ⟨hother, -⟩ := Keyed.unique_cons.mp h.unique
  have hlpm : (s.lpmIpv4UcPrefixAdd o.pfx o.len trapEntry).lpm =
    update s.lpm o.key (some trapEntry) := rfl
  refine ⟨h.unique, h.outside, h.groups, h.ids, h.ids_pos, h.nodup, h.listed, h.owned,
    fun x hx hxlen => ?_, fun k hk hhole hne => ?_⟩
  · unfold Shows
    rw [hlpm]
    rcases List.mem_cons.mp hx with rfl | hx
    · rw [update_self]
      refine hok.elim (fun hweak => .inr ⟨hweak, hlen, rfl⟩) fun hgid => .inl ?_
      exact (if_pos hgid).symm
    · rw [update_of_ne (hother x hx)]
      exact h.shown x (List.mem_cons_of_mem o hx) hxlen
  · rw [hlpm] at hne
    by_cases hko : k = o.key
    · exact ⟨o, List.mem_cons_self, hko.symm⟩
    · rw [update_of_ne hko] at hne
      exact h.bare k hk hhole hne

/-- The entry that an owner should have is that of its group. -/
theorem target_eq (hu : Keyed.Unique ReGroup.group_id s.re_group) (hg : g ∈ s.re_group)
    (hid : g.group_id = o.group_id) (hgid : o.group_id ≠ 0) : s.target o = some g.lttEntry := by
  have hfind : s.findGroup o.group_id = some g := hu.find_eq_some_iff.mpr ⟨hg, hid⟩
  rw [target, if_neg hgid, hfind, Option.map_some]

/-- The owner of a prefix of a group's list is known. -/
theorem eq_of_elemKey (h : s.Installed strict hole owners) (hg : g ∈ s.re_group) (ho : o ∈ owners)
    {el : RoutePfxPbr} (hel : el ∈ g.pfx_pbr) (hk : elemKey el = some o.key) :
    o.group_id = g.group_id ∧ el = o.elem := by
  cases el with
  | pbr ix interface => exact nomatch hk
  | pfx a l =>
    have hmem := h.listed g hg a l hel
    have heq : (⟨a, l, g.group_id⟩ : Owner) = o :=
      h.unique.eq_of_mem hmem ho (Option.some_inj.mp hk)
    rw [← heq]
    exact ⟨rfl, rfl⟩

/-- The reaction of a group to a gateway. -/
theorem gwChanged (h : s.Installed strict hole owners) (gid : ℤ) (re : Re) (changed : Bool) :
    (s.retGroupGwChanged env gid re changed).Installed strict hole owners := by
  obtain ⟨f, hf, hgroup, hlpm⟩ := retGroupGwChanged_cases env s gid re changed
  obtain ⟨_, _, _, _, hfan, -⟩ : Fanned s (s.retGroupGwChanged env gid re changed) :=
    fanned_retGroupGwChanged
  have hids : (s.retGroupGwChanged env gid re changed).group_id = s.group_id := by rw [hfan]
  generalize s.retGroupGwChanged env gid re changed = s' at hgroup hlpm hids ⊢
  have hfid : ∀ x, (f x).group_id = x.group_id := fun x => ReGroup.static_group_id (hf x)
  have hfpfx : ∀ x, (f x).pfx_pbr = x.pfx_pbr := fun x => congrArg (·.2.2.2.2) (hf x)
  have hunique : Keyed.Unique ReGroup.group_id s'.re_group := by
    rw [hgroup]
    exact h.groups.modify hfid
  -- a group after the reaction is one before, with the same id and list
  have hold : ∀ g ∈ s'.re_group, ∃ x ∈ s.re_group, x.group_id = g.group_id ∧
      x.pfx_pbr = g.pfx_pbr := by
    intro g hg
    rw [hgroup] at hg
    rcases Keyed.mem_modify_iff.mp hg with ⟨x, hx, -, rfl⟩ | ⟨hg, -⟩
    · exact ⟨x, hx, (hfid x).symm, (hfpfx x).symm⟩
    · exact ⟨g, hg, rfl, rfl⟩
  have hnew : ∀ x ∈ s.re_group, (if x.group_id = gid then f x else x) ∈ s'.re_group := by
    intro x hx
    rw [hgroup]
    exact List.mem_map_of_mem hx
  refine ⟨h.unique, h.outside, hunique, fun g hg => ?_, by rw [hids]; exact h.ids_pos,
    fun g hg => ?_, fun g hg a l hel => ?_, fun o ho hgid => ?_, fun o ho hlen => ?_,
    fun k hk hhole hne => ?_⟩
  · obtain ⟨x, hx, hid, -⟩ := hold g hg
    rw [hids, ← hid]
    exact h.ids x hx
  · obtain ⟨x, hx, -, hpfx⟩ := hold g hg
    rw [← hpfx]
    exact h.nodup x hx
  · obtain ⟨x, hx, hid, hpfx⟩ := hold g hg
    rw [← hid]
    exact h.listed x hx a l (by rwa [hpfx])
  · obtain ⟨x, hx, hid, hel⟩ := h.owned o ho hgid
    refine ⟨_, hnew x hx, ?_, ?_⟩ <;> split_ifs
    · rw [hfid, hid]
    · exact hid
    · rwa [hfpfx]
    · exact hel
  · have hshown := h.shown o ho hlen
    unfold Shows at hshown ⊢
    by_cases hgid : o.group_id = 0
    · -- the prefix of an owner without a group is not written
      have hkeep : s'.lpm o.key = s.lpm o.key := by
        rcases hlpm with ⟨hsame, -⟩ | ⟨g, hfind, hupd⟩
        · rw [hsame]
        · rw [hupd, if_neg]
          rintro ⟨el, hel, hk⟩
          have hg := Keyed.mem_of_find hfind
          exact h.group_id_ne_zero hg ((h.eq_of_elemKey hg ho hel hk).1.symm.trans hgid)
      have htarget : s'.target o = s.target o := (if_pos hgid).trans (if_pos hgid).symm
      rwa [hkeep, htarget]
    · obtain ⟨x, hx, hid, hel⟩ := h.owned o ho hgid
      rw [target_eq h.groups hx hid hgid] at hshown
      by_cases hxg : x.group_id = gid
      · have hfx : f x ∈ s'.re_group := by simpa [hxg] using hnew x hx
        have hxfind : s.findGroup gid = some x := h.groups.find_eq_some_iff.mpr ⟨hx, hxg⟩
        rw [target_eq hunique hfx ((hfid x).trans hid) hgid]
        rcases hlpm with ⟨hsame, hentry⟩ | ⟨g, hfind, hupd⟩
        · rwa [hsame, hentry x hxfind]
        · -- all prefixes of the group are written
          obtain rfl := Option.some_inj.mp (hfind.symm.trans hxfind)
          refine .inl ?_
          rw [hupd, if_pos ⟨o.elem, hel, rfl⟩]
      · have hxs : x ∈ s'.re_group := by simpa [hxg] using hnew x hx
        have hkeep : s'.lpm o.key = s.lpm o.key := by
          rcases hlpm with ⟨hsame, -⟩ | ⟨g, hfind, hupd⟩
          · rw [hsame]
          · rw [hupd, if_neg]
            rintro ⟨el, hel', hk⟩
            have hg := (h.eq_of_elemKey (Keyed.mem_of_find hfind) ho hel' hk).1
            exact hxg (hid.trans (hg.trans (Keyed.key_of_find hfind)))
        rw [target_eq hunique hxs hid hgid, hkeep]
        exact hshown
  · rcases hlpm with ⟨hsame, -⟩ | ⟨g, hfind, hupd⟩
    · rw [hsame] at hne
      exact h.bare k hk hhole hne
    · rw [hupd] at hne
      by_cases hwritten : ∃ el ∈ g.pfx_pbr, elemKey el = some k
      · obtain ⟨el, hel, hkey⟩ := hwritten
        cases el with
        | pbr ix interface => exact nomatch hkey
        | pfx a l =>
          exact ⟨_, h.listed g (Keyed.mem_of_find hfind) a l hel, Option.some_inj.mp hkey⟩
      · rw [if_neg hwritten] at hne
        exact h.bare k hk hhole hne

/-- The reaction of all groups of a gateway. -/
theorem fanOut (h : s.Installed strict hole owners) (gids : List ℤ) (re : Re) (changed : Bool) :
    (gids.foldl (fun s gid => s.retGroupGwChanged env gid re changed) s).Installed strict hole
      owners := by
  induction gids generalizing s with
  | nil => exact h
  | cons gid gids ih => exact ih (h.gwChanged gid re changed)

/-- A gateway gets an address. -/
theorem setMacAddr (h : s.Installed strict hole owners) (env : RouteEnv) (gw : Gw) (addr : Mac)
    (vif_id : ℕ) (arpOk : Bool) :
    (s.retSetMacAddr env gw addr vif_id arpOk).2.Installed strict hole owners := by
  unfold retSetMacAddr
  split_ifs
  · exact h
  · cases s.findGw gw with
    | none => exact h
    | some re =>
      dsimp only
      split_ifs
      · exact h
      · rcases NhTable.nhtAdd _ addr arpOk with ⟨_ | nh_idx, nh⟩
        · exact h.congr rfl rfl rfl
        · refine Installed.fanOut ?_ _ _ _
          exact h.congr rfl rfl rfl

/-- A gateway loses its address. -/
theorem unsetMacAddr (h : s.Installed strict hole owners) (env : RouteEnv) (gw : Gw) :
    (s.retUnsetMacAddr env gw).2.Installed strict hole owners := by
  unfold retUnsetMacAddr
  cases s.findGw gw with
  | none => exact h
  | some re =>
    dsimp only
    split_ifs
    · refine Installed.fanOut ?_ _ _ _
      exact h.congr rfl rfl rfl
    · exact h

/-! ## Owners are resolved and go -/

/-- A hole where the table has nothing is none, nor is the default route. -/
theorem close (h : s.Installed strict {k} owners) (hk : k.1 ≠ 0 → s.lpm k = none) :
    s.Installed strict ∅ owners := by
  refine ⟨h.unique, fun _ _ => Set.notMem_empty _, h.groups, h.ids, h.ids_pos, h.nodup, h.listed,
    h.owned, h.shown, fun k' hk' _ hne => h.bare k' hk' ?_ hne⟩
  rintro rfl
  exact hne (hk hk')

/-- An owner keeps showing its entry when neither its prefix nor its group's entry changes. -/
theorem shows_congr (hs : s.Shows strict o) (hlpm : s'.lpm o.key = s.lpm o.key)
    (htarget : s'.target o = s.target o) : s'.Shows strict o := by
  unfold Shows at hs ⊢
  rwa [hlpm, htarget]

/-- The owner of a hole is resolved. -/
theorem fill (h : s.Installed strict {o.key} owners) (env : RouteEnv) (gws : List Gw)
    (junk : ℕ → ℤ) : (s.retGroupAdd env gws o.pfx o.len junk).2.Installed strict ∅
      ({ o with group_id := (s.retGroupAdd env gws o.pfx o.len junk).1 } :: owners) := by
  obtain ⟨g, hret, hlpm, -, hcases⟩ := retGroupAdd_cases env s gws o.pfx o.len junk
  rw [hret]
  generalize (s.retGroupAdd env gws o.pfx o.len junk).2 = s' at hlpm hcases ⊢
  replace hlpm : s'.lpm = update s.lpm o.key (some g.lttEntry) := hlpm
  -- the prefixes of the other owners are shown as before
  have hkeep : ∀ x ∈ owners, s'.lpm x.key = s.lpm x.key := by
    intro x hx
    rw [hlpm, update_of_ne (h.outside x hx)]
  have hbare : ∀ k : ℕ × Ip4, k.1 ≠ 0 → k ∉ (∅ : Set (ℕ × Ip4)) → s'.lpm k ≠ none →
      ∃ x ∈ { o with group_id := g.group_id } :: owners, Owner.key x = k := by
    intro k hk _ hne
    by_cases hko : k = o.key
    · exact ⟨_, List.mem_cons_self, hko.symm⟩
    · rw [hlpm, update_of_ne hko] at hne
      obtain ⟨x, hx, hxk⟩ := h.bare k hk hko hne
      exact ⟨x, List.mem_cons_of_mem _ hx, hxk⟩
  have hunique : Keyed.Unique Owner.key ({ o with group_id := g.group_id } :: owners) :=
    h.unique.cons fun x hx => h.outside x hx
  rcases hcases with ⟨hg, hgroup, hids⟩ | ⟨hid, hpfx, hgroup, hids⟩
  · -- a group with the gateways is there, and does not list the prefix yet
    have hno : o.elem ∉ g.pfx_pbr := fun hel =>
      h.outside _ (h.listed g hg o.pfx o.len hel) rfl
    have hadd : g.addElem o.elem = { g with pfx_pbr := g.pfx_pbr ++ [o.elem] } := if_neg hno
    have haddid : ∀ x : ReGroup, (x.addElem o.elem).group_id = x.group_id := by
      intro x
      unfold ReGroup.addElem
      split_ifs <;> rfl
    have hmem : ∀ x, x ∈ s'.re_group ↔
        x = g.addElem o.elem ∨ x ∈ s.re_group ∧ x.group_id ≠ g.group_id := by
      intro x
      rw [hgroup]
      refine Keyed.mem_modify_iff.trans (or_congr_left ⟨?_, ?_⟩)
      · rintro ⟨y, hy, hyg, rfl⟩
        rw [h.groups.eq_of_mem hy hg hyg]
        rfl
      · rintro rfl
        exact ⟨g, hg, rfl, rfl⟩
    have hgs : g.addElem o.elem ∈ s'.re_group := (hmem _).mpr (.inl rfl)
    have hgroups : Keyed.Unique ReGroup.group_id s'.re_group := by
      rw [hgroup]
      exact h.groups.modify haddid
    -- field by field: of the groups only `g` has changed, by the element of `o`
    refine ⟨hunique, fun _ _ => Set.notMem_empty _, hgroups, fun x hx => ?_,
      by rw [hids]; exact h.ids_pos, fun x hx => ?_, fun x hx a l hel => ?_, fun x hx hgid => ?_,
      fun x hx hlen => ?_, hbare⟩
    · rw [hids]
      rcases (hmem x).mp hx with rfl | ⟨hx, -⟩
      · rw [haddid]
        exact h.ids g hg
      · exact h.ids x hx
    · rcases (hmem x).mp hx with rfl | ⟨hx, -⟩
      · rw [hadd]
        exact (h.nodup g hg).append (List.nodup_singleton _)
          (List.disjoint_singleton.mpr hno)
      · exact h.nodup x hx
    · rcases (hmem x).mp hx with rfl | ⟨hx, -⟩
      · rw [hadd] at hel ⊢
        rcases List.mem_append.mp hel with hold | hnew
        · exact List.mem_cons_of_mem _ (h.listed g hg a l hold)
        · cases List.mem_singleton.mp hnew
          exact List.mem_cons_self
      · exact List.mem_cons_of_mem _ (h.listed x hx a l hel)
    · rcases List.mem_cons.mp hx with rfl | hx
      · refine ⟨_, hgs, haddid g, ?_⟩
        rw [hadd]
        exact List.mem_append_right _ List.mem_cons_self
      · obtain ⟨y, hy, hyx, hel⟩ := h.owned x hx hgid
        by_cases hyg : y.group_id = g.group_id
        · obtain rfl := h.groups.eq_of_mem hy hg hyg
          refine ⟨_, hgs, (haddid y).trans hyx, ?_⟩
          rw [hadd]
          exact List.mem_append_left _ hel
        · exact ⟨y, (hmem y).mpr (.inr ⟨hy, hyg⟩), hyx, hel⟩
    · -- what the hardware shows: `o` gets the entry of `g`, the others keep theirs
      have hentry : (g.addElem o.elem).lttEntry = g.lttEntry := by rw [hadd]; rfl
      rcases List.mem_cons.mp hx with rfl | hx
      · refine .inl ?_
        rw [target_eq hgroups hgs (haddid g) (h.group_id_ne_zero hg), hentry, hlpm]
        exact update_self ..
      · refine shows_congr (h.shown x hx hlen) (hkeep x hx) ?_
        by_cases hgid : x.group_id = 0
        · exact (if_pos hgid).trans (if_pos hgid).symm
        · obtain ⟨y, hy, hyx, -⟩ := h.owned x hx hgid
          rw [target_eq h.groups hy hyx hgid]
          by_cases hyg : y.group_id = g.group_id
          · obtain rfl := h.groups.eq_of_mem hy hg hyg
            rw [target_eq hgroups hgs ((haddid y).trans hyx) hgid, hentry]
          · exact target_eq hgroups ((hmem y).mpr (.inr ⟨hy, hyg⟩)) hyx hgid
  · -- a new group, with an id that no group has
    have hfresh : ∀ x ∈ s.re_group, x.group_id ≠ g.group_id := by
      intro x hx heq
      have hin := h.ids x hx
      rw [heq, hid] at hin
      exact getNewGroupId_not_mem _ hin
    have hpos : 0 < g.group_id := by
      rw [hid]
      exact getNewGroupId_pos _
    have hmem : ∀ x, x ∈ s'.re_group ↔ x ∈ s.re_group ∨ x = g := by
      intro x
      rw [hgroup, List.mem_append, List.mem_singleton]
    have hgs : g ∈ s'.re_group := (hmem g).mpr (.inr rfl)
    have hgroups : Keyed.Unique ReGroup.group_id s'.re_group := by
      have hcons := h.groups.cons hfresh
      have hperm : (g :: s.re_group).Perm s'.re_group := by
        rw [hgroup]
        exact (List.perm_append_singleton g s.re_group).symm
      exact (hperm.map ReGroup.group_id).nodup_iff.mp hcons
    -- field by field: the groups are those before and `g`, which has the one element
    refine ⟨hunique, fun _ _ => Set.notMem_empty _, hgroups, fun x hx => ?_, fun id hin => ?_,
      fun x hx => ?_, fun x hx a l hel => ?_, fun x hx hgid => ?_, fun x hx hlen => ?_, hbare⟩
    · rw [hids]
      rcases (hmem x).mp hx with hx | rfl
      · exact List.mem_append_left _ (h.ids x hx)
      · exact List.mem_append_right _ List.mem_cons_self
    · rw [hids] at hin
      rcases List.mem_append.mp hin with hin | hin
      · exact h.ids_pos id hin
      · rwa [List.mem_singleton.mp hin]
    · rcases (hmem x).mp hx with hx | rfl
      · exact h.nodup x hx
      · rw [hpfx]
        exact List.nodup_singleton _
    · rcases (hmem x).mp hx with hx | rfl
      · exact List.mem_cons_of_mem _ (h.listed x hx a l hel)
      · rw [hpfx] at hel
        cases List.mem_singleton.mp hel
        exact List.mem_cons_self
    · rcases List.mem_cons.mp hx with rfl | hx
      · refine ⟨g, hgs, rfl, ?_⟩
        rw [hpfx]
        exact List.mem_cons_self
      · obtain ⟨y, hy, hrest⟩ := h.owned x hx hgid
        exact ⟨y, (hmem y).mpr (.inl hy), hrest⟩
    · -- what the hardware shows: `o` gets the entry of the new group
      rcases List.mem_cons.mp hx with rfl | hx
      · refine .inl ?_
        rw [target_eq hgroups hgs rfl hpos.ne', hlpm]
        exact update_self ..
      · refine shows_congr (h.shown x hx hlen) (hkeep x hx) ?_
        by_cases hgid : x.group_id = 0
        · exact (if_pos hgid).trans (if_pos hgid).symm
        · obtain ⟨y, hy, hyx, -⟩ := h.owned x hx hgid
          rw [target_eq h.groups hy hyx hgid]
          exact target_eq hgroups ((hmem y).mpr (.inl hy)) hyx hgid

/-- An owner leaves its group; its prefix becomes a hole. -/
theorem ungroup (h : s.Installed strict ∅ (o :: owners)) :
    (s.retGroupDel o.group_id o.pfx o.len).Installed strict {o.key} owners := by
  obtain ⟨hother, hunique⟩ := Keyed.unique_cons.mp h.unique
  obtain ⟨hlpm, -⟩ := retGroupDel_frame s o.group_id o.pfx o.len
  obtain ⟨hnone, hsame⟩ | ⟨g, hfind, hcases⟩ :=
    retGroupDel_cases s o.group_id o.pfx o.len h.groups
  · rw [hsame]
    refine h.hollow ?_
    by_contra hgid
    obtain ⟨g, hg, -⟩ := h.findGroup List.mem_cons_self hgid
    exact nomatch hnone.symm.trans hg
  have hg : g ∈ s.re_group := Keyed.mem_of_find hfind
  have hid : g.group_id = o.group_id := Keyed.key_of_find hfind
  have hgid : o.group_id ≠ 0 := by
    rw [← hid]
    exact h.group_id_ne_zero hg
  have hel : ∀ el, el ∈ g.pfx_pbr.erase o.elem ↔ el ≠ o.elem ∧ el ∈ g.pfx_pbr :=
    fun el => (h.nodup g hg).mem_erase_iff
  have helem : ∀ x ∈ owners, x.elem ≠ o.elem := by
    intro x hx heq
    obtain ⟨hp, hl⟩ := RoutePfxPbr.pfx.inj heq
    refine hother x hx ?_
    unfold Owner.key
    rw [hp, hl]
  -- an owner that a list names is `o` only in the list of `g`
  have hlisted : ∀ x ∈ s.re_group, ∀ a l, .pfx a l ∈ x.pfx_pbr →
      (x.group_id = o.group_id → RoutePfxPbr.pfx a l ≠ o.elem) →
        ⟨a, l, x.group_id⟩ ∈ owners := by
    intro x hx a l hmem hne
    rcases List.mem_cons.mp (h.listed x hx a l hmem) with heq | hin
    · cases heq
      exact absurd rfl (hne rfl)
    · exact hin
  generalize s.retGroupDel o.group_id o.pfx o.len = s' at hlpm hcases ⊢
  have hbare : ∀ k : ℕ × Ip4, k.1 ≠ 0 → k ∉ ({o.key} : Set (ℕ × Ip4)) → s'.lpm k ≠ none →
      ∃ x ∈ owners, x.key = k := by
    intro k hk hhole hne
    rw [hlpm] at hne
    obtain ⟨x, hx, hxk⟩ := h.bare k hk (Set.notMem_empty k) hne
    rcases List.mem_cons.mp hx with rfl | hx
    · exact absurd hxk.symm hhole
    · exact ⟨x, hx, hxk⟩
  rcases hcases with ⟨-, hgroup, hids⟩ | ⟨hnil, hgroup, hids⟩
  · have hmem : ∀ x, x ∈ s'.re_group ↔
        x = g.removeElem o.elem ∨ x ∈ s.re_group ∧ x.group_id ≠ o.group_id := by
      intro x
      rw [hgroup]
      refine Keyed.mem_modify_iff.trans (or_congr_left ⟨?_, ?_⟩)
      · rintro ⟨y, hy, hyg, rfl⟩
        rw [h.groups.eq_of_mem hy hg (hyg.trans hid.symm)]
        rfl
      · rintro rfl
        exact ⟨g, hg, hid, rfl⟩
    have hgs : g.removeElem o.elem ∈ s'.re_group := (hmem _).mpr (.inl rfl)
    have hgroups : Keyed.Unique ReGroup.group_id s'.re_group := by
      rw [hgroup]
      exact h.groups.modify fun _ => rfl
    refine ⟨hunique, fun x hx => hother x hx, hgroups, fun x hx => ?_,
      by rw [hids]; exact h.ids_pos, fun x hx => ?_, fun x hx a l hmema => ?_,
      fun x hx hxgid => ?_, fun x hx hlen => ?_, hbare⟩
    · rw [hids]
      rcases (hmem x).mp hx with rfl | ⟨hx, -⟩
      · exact h.ids g hg
      · exact h.ids x hx
    · rcases (hmem x).mp hx with rfl | ⟨hx, -⟩
      · exact (h.nodup g hg).erase _
      · exact h.nodup x hx
    · rcases (hmem x).mp hx with rfl | ⟨hx, hxne⟩
      · obtain ⟨hne, hin⟩ := (hel _).mp hmema
        exact hlisted g hg a l hin fun _ => hne
      · exact hlisted x hx a l hmema fun heq => absurd heq hxne
    · obtain ⟨y, hy, hyx, hyel⟩ := h.owned x (List.mem_cons_of_mem o hx) hxgid
      by_cases hyg : y.group_id = o.group_id
      · obtain rfl := h.groups.eq_of_mem hy hg (hyg.trans hid.symm)
        exact ⟨_, hgs, hyx, (hel _).mpr ⟨helem x hx, hyel⟩⟩
      · exact ⟨y, (hmem y).mpr (.inr ⟨hy, hyg⟩), hyx, hyel⟩
    · refine shows_congr (h.shown x (List.mem_cons_of_mem o hx) hlen) (by rw [hlpm]) ?_
      by_cases hxgid : x.group_id = 0
      · exact (if_pos hxgid).trans (if_pos hxgid).symm
      · obtain ⟨y, hy, hyx, -⟩ := h.owned x (List.mem_cons_of_mem o hx) hxgid
        rw [target_eq h.groups hy hyx hxgid]
        by_cases hyg : y.group_id = o.group_id
        · obtain rfl := h.groups.eq_of_mem hy hg (hyg.trans hid.symm)
          have hto : s'.target x = some (y.removeElem o.elem).lttEntry :=
            target_eq hgroups hgs hyx hxgid
          exact hto
        · exact target_eq hgroups ((hmem y).mpr (.inr ⟨hy, hyg⟩)) hyx hxgid
  · -- the owner was the last one in the group
    have hmem : ∀ x, x ∈ s'.re_group ↔ x ∈ s.re_group ∧ x.group_id ≠ o.group_id := by
      intro x
      rw [hgroup]
      exact h.groups.mem_del_iff
    have hgroups : Keyed.Unique ReGroup.group_id s'.re_group := by
      rw [hgroup]
      exact h.groups.del
    have hleft : ∀ x ∈ owners, x.group_id ≠ 0 → ∃ y ∈ s'.re_group, y ∈ s.re_group ∧
        y.group_id = x.group_id ∧ x.elem ∈ y.pfx_pbr := by
      intro x hx hxgid
      obtain ⟨y, hy, hyx, hyel⟩ := h.owned x (List.mem_cons_of_mem o hx) hxgid
      refine ⟨y, (hmem y).mpr ⟨hy, fun hyg => ?_⟩, hy, hyx, hyel⟩
      obtain rfl := h.groups.eq_of_mem hy hg (hyg.trans hid.symm)
      have hin := (hel x.elem).mpr ⟨helem x hx, hyel⟩
      exact absurd hin (by rw [Owner.elem, hnil]; exact List.not_mem_nil)
    refine ⟨hunique, fun x hx => hother x hx, hgroups, fun x hx => ?_, fun id hin => ?_,
      fun x hx => h.nodup x ((hmem x).mp hx).1, fun x hx a l hmema => ?_, fun x hx hxgid => ?_,
      fun x hx hlen => ?_, hbare⟩
    · obtain ⟨hx, hxne⟩ := (hmem x).mp hx
      rw [hids]
      exact (List.mem_erase_of_ne hxne).mpr (h.ids x hx)
    · rw [hids] at hin
      exact h.ids_pos id (List.mem_of_mem_erase hin)
    · obtain ⟨hx, hxne⟩ := (hmem x).mp hx
      exact hlisted x hx a l hmema fun heq => absurd heq hxne
    · obtain ⟨y, hy, -, hyx, hyel⟩ := hleft x hx hxgid
      exact ⟨y, hy, hyx, hyel⟩
    · refine shows_congr (h.shown x (List.mem_cons_of_mem o hx) hlen) (by rw [hlpm]) ?_
      by_cases hxgid : x.group_id = 0
      · exact (if_pos hxgid).trans (if_pos hxgid).symm
      · obtain ⟨y, hy, hys, hyx, -⟩ := hleft x hx hxgid
        rw [target_eq h.groups hys hyx hxgid]
        exact target_eq hgroups hy hyx hxgid

/-- The prefix of a route or child that has left its group is deleted. -/
theorem unroute {n : FibNode}
    (h : (s.retGroupDel n.group_id n.pfx n.len).Installed strict {n.owner.key} owners) :
    (s.routeDelFibEntry n).Installed strict ∅ owners := by
  unfold routeDelFibEntry
  dsimp only
  split_ifs with hlen
  · have hwrite : ((s.retGroupDel n.group_id n.pfx n.len).lpmIpv4UcPrefixDel n.pfx n.len).Installed
        strict {n.owner.key} owners :=
      h.writeHole rfl rfl fun k' hk' => by rw [lpmIpv4UcPrefixDel_lpm]; exact update_of_ne hk' ..
    exact hwrite.close fun _ => update_self ..
  · have hwrite : ((s.retGroupDel n.group_id n.pfx n.len).lpmIpv4UcPrefixAdd n.pfx n.len
        ⟨DEFAULT_UC_RE_IDX, 0⟩).Installed strict {n.owner.key} owners :=
      h.writeHole rfl rfl fun k' hk' => by rw [lpmIpv4UcPrefixAdd_lpm]; exact update_of_ne hk' ..
    exact hwrite.close fun hne => absurd hne hlen

/-- A route or child is deleted. -/
theorem remove {n : FibNode} (h : s.Installed strict ∅ (n.owner :: owners)) :
    (s.routeDelFibEntry n).Installed strict ∅ owners :=
  unroute h.ungroup

/-- A route is deleted that has no group and whose prefix nobody owns. -/
theorem removeBare {n : FibNode} (h : s.Installed strict ∅ owners) (hgid : n.group_id = 0)
    (hfree : ∀ o ∈ owners, o.key ≠ n.owner.key) :
    (s.routeDelFibEntry n).Installed strict ∅ owners := by
  refine unroute ?_
  obtain ⟨-, hsame⟩ | ⟨g, hfind, -⟩ := retGroupDel_cases s n.group_id n.pfx n.len h.groups
  · rw [hsame]
    exact h.free hfree
  · refine absurd (Keyed.key_of_find hfind) ?_
    rw [hgid]
    exact h.group_id_ne_zero (Keyed.mem_of_find hfind)

end Installed

end Router

end Presteramgr
