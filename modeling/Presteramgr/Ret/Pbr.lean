import Presteramgr.Ret.Ecmp
import Presteramgr.Ret.Ltt

/-!
# Policies and their groups (`pbr.c`)

A policy routes what arrives at an interface to a next hop. It is listed by the group of the next
hop, whose entry stands in the LTT row of the policy. When a policy is set again with another next
hop, the group of the old one lists it still.

## Main definitions

* `PbrRouter`, `pbrRouteSet` and `pbrRouteUnset`;
* `Lists` and `HasGws`: what a group lists, and its gateways;
* `PbrOk`: calls that set no policy to another next hop, and find the entry to write;
* `Linked` and `Unsets`: the group of a policy while it lives, and after it is unset.

## Main results

* `policies_linked`: the policies of all states that such calls reach are linked.
-/

namespace Presteramgr

open Function (update update_self update_of_ne)
open Guarded (Reach run)

/-! ## The policies -/

/-- `struct pbr_entry`. -/
structure PbrEntry where
  interface : PclInterface
  gw : Ip4
  vid : ℕ
  group_id : ℤ
  ltt_index : RowColum
deriving DecidableEq, Repr

/-- What the groups list of a policy. -/
def PbrEntry.elem (pe : PbrEntry) : RoutePfxPbr := .pbr pe.ltt_index pe.interface

/-- The routing tables with those of `pbr.c`. -/
structure PbrRouter where
  router : Router
  pbr_entry : List PbrEntry

namespace PbrRouter

/-- `pbr_route_set`. An entry that is there keeps its gateway and its row. -/
def pbrRouteSet (env : RouteEnv) (s : PbrRouter) (ltt_index : RowColum) (nextHop : Ip4) (vid : ℕ)
    (interface : PclInterface) (junk : ℕ → ℤ) : Status × PbrRouter :=
  let (pe, pbr_entry) := match Keyed.find PbrEntry.interface s.pbr_entry interface with
    | some pe => (pe, s.pbr_entry)
    | none =>
      let pe : PbrEntry := ⟨interface, nextHop, vid, 0, ltt_index⟩
      (pe, s.pbr_entry ++ [pe])
  let (group_id, router) :=
    s.router.retGroupAddPbr env [⟨nextHop, vid⟩] pe.ltt_index pe.interface junk
  (.ST_OK, ⟨router, Keyed.modify PbrEntry.interface pbr_entry interface fun pe =>
    { pe with group_id := group_id }⟩)

/-- `pbr_route_unset`. -/
def pbrRouteUnset (s : PbrRouter) (interface : PclInterface) : Status × PbrRouter :=
  match Keyed.find PbrEntry.interface s.pbr_entry interface with
  | none => (.ST_OK, s)
  | some pe => (.ST_OK, ⟨s.router.retGroupDelPbr pe.group_id pe.ltt_index pe.interface,
      Keyed.del PbrEntry.interface s.pbr_entry interface⟩)

end PbrRouter

/-! ## What a group lists -/

namespace Router

variable {env : RouteEnv} {s s' : Router} {gid gid' : ℤ} {gws gws' : List Gw} {gw : Gw}
  {el el' : RoutePfxPbr} {junk : ℕ → ℤ}

/-- The group lists the element. -/
def Lists (s : Router) (gid : ℤ) (el : RoutePfxPbr) : Prop :=
  ∃ g ∈ s.re_group, g.group_id = gid ∧ el ∈ g.pfx_pbr

/-- The group has the gateways. -/
def HasGws (s : Router) (gid : ℤ) (gws : List Gw) : Prop :=
  ∃ g ∈ s.re_group, g.group_id = gid ∧ g.re_idx.map ReIdx.gw = gws

/-- The elements of the groups depend on what is fixed in them. -/
theorem lists_congr (hg : s'.re_group.map ReGroup.static = s.re_group.map ReGroup.static) :
    s'.Lists gid el ↔ s.Lists gid el := by
  have hview : ∀ s : Router, s.Lists gid el ↔ ∃ x ∈ s.re_group.map ReGroup.static,
      x.1 = gid ∧ el ∈ x.2.2.2.2 := fun s => by simp [Lists, ReGroup.static]
  rw [hview, hview, hg]

/-- The gateways of the groups depend on what is fixed in them. -/
theorem hasGws_congr (hg : s'.re_group.map ReGroup.static = s.re_group.map ReGroup.static) :
    s'.HasGws gid gws ↔ s.HasGws gid gws := by
  have hview : ∀ s : Router, s.HasGws gid gws ↔ ∃ x ∈ s.re_group.map ReGroup.static,
      x.1 = gid ∧ x.2.2.2.1 = gws := fun s => by simp [HasGws, ReGroup.static]
  rw [hview, hview, hg]

/-- One gateway is found in the groups that have it alone. -/
theorem compareLists_singleton {l : List ReIdx} :
    compareLists [gw] l = true ↔ l.map ReIdx.gw = [gw] := by
  unfold compareLists
  match l with
  | [] => simp
  | [m] => simp
  | m :: m' :: l => simp

namespace Tidy

variable (h : s.Tidy)

include h

/-- The element is in the group that it entered. -/
theorem enterGroup_lists : (s.enterGroup env gws el junk).2.Lists gid el' ↔
    s.Lists gid el' ∨ gid = (s.enterGroup env gws el junk).1.group_id ∧ el' = el := by
  have hmem := h.mem_enterGroup env gws el junk
  have hfst := h.enterGroup_fst env gws el junk
  set e := (s.enterGroup env gws el junk).1
  have hid : (e.addElem el).group_id = e.group_id := by
    unfold ReGroup.addElem
    split_ifs <;> rfl
  have hin : el' ∈ (e.addElem el).pfx_pbr ↔ el' ∈ e.pfx_pbr ∨ el' = el := by
    unfold ReGroup.addElem
    split_ifs with hel
    · exact (or_iff_left_of_imp fun heq => heq ▸ hel).symm
    · exact List.mem_append.trans (or_congr_right List.mem_singleton)
  constructor
  · rintro ⟨g', hg', rfl, hel'⟩
    rcases (hmem g').mp hg' with ⟨hg, -⟩ | rfl
    · exact .inl ⟨g', hg, rfl, hel'⟩
    · rcases hin.mp hel' with hel' | heq
      · rcases hfst with ⟨hg, -⟩ | ⟨-, -, hpfx⟩
        · exact .inl ⟨e, hg, hid.symm, hel'⟩
        · exact .inr ⟨hid, List.mem_singleton.mp (hpfx ▸ hel')⟩
      · exact .inr ⟨hid, heq⟩
  · rintro (⟨g, hg, rfl, hel'⟩ | ⟨rfl, rfl⟩)
    · by_cases hne : g.group_id = e.group_id
      · rcases hfst with ⟨he, -⟩ | ⟨hno, -, -⟩
        · obtain rfl := h.groups.eq_of_mem hg he hne
          exact ⟨_, (hmem _).mpr (.inr rfl), hid, hin.mpr (.inl hel')⟩
        · exact absurd hne (hno g hg).1
      · exact ⟨g, (hmem g).mpr (.inl ⟨hg, hne⟩), rfl, hel'⟩
    · exact ⟨_, (hmem _).mpr (.inr rfl), hid, hin.mpr (.inr rfl)⟩

/-- The group that was entered has its gateways. -/
theorem enterGroup_hasGws : (s.enterGroup env gws el junk).2.HasGws gid gws' ↔
    s.HasGws gid gws' ∨ gid = (s.enterGroup env gws el junk).1.group_id ∧
      (s.enterGroup env gws el junk).1.re_idx.map ReIdx.gw = gws' := by
  have hmem := h.mem_enterGroup env gws el junk
  have hfst := h.enterGroup_fst env gws el junk
  set e := (s.enterGroup env gws el junk).1
  have hsame : (e.addElem el).group_id = e.group_id ∧ (e.addElem el).re_idx = e.re_idx := by
    unfold ReGroup.addElem
    split_ifs <;> exact ⟨rfl, rfl⟩
  constructor
  · rintro ⟨g', hg', rfl, hgws⟩
    rcases (hmem g').mp hg' with ⟨hg, -⟩ | rfl
    · exact .inl ⟨g', hg, rfl, hgws⟩
    · exact .inr ⟨hsame.1, hsame.2 ▸ hgws⟩
  · rintro (⟨g, hg, rfl, hgws⟩ | ⟨rfl, hgws⟩)
    · by_cases hne : g.group_id = e.group_id
      · rcases hfst with ⟨he, -⟩ | ⟨hno, -, -⟩
        · obtain rfl := h.groups.eq_of_mem hg he hne
          exact ⟨_, (hmem _).mpr (.inr rfl), hsame.1, hsame.2.symm ▸ hgws⟩
        · exact absurd hne (hno g hg).1
      · exact ⟨g, (hmem g).mpr (.inl ⟨hg, hne⟩), rfl, hgws⟩
    · exact ⟨_, (hmem _).mpr (.inr rfl), hsame.1, hsame.2.symm ▸ hgws⟩

/-- The group that a gateway of its own finds has that gateway. -/
theorem enterGroup_gws_singleton :
    (s.enterGroup env [gw] el junk).1.re_idx.map ReIdx.gw = [gw] := by
  rcases h.enterGroup_fst env [gw] el junk with ⟨-, hgws⟩ | ⟨-, hgws, -⟩
  · exact compareLists_singleton.mp hgws
  · exact hgws

/-- The element is in its group no more. -/
theorem retGroupDelElem_lists : (s.retGroupDelElem gid el).Lists gid' el' ↔
    s.Lists gid' el' ∧ ¬(gid' = gid ∧ el' = el) := by
  have hmem := h.mem_retGroupDelElem gid el
  have hin : ∀ g ∈ s.re_group, el' ∈ (g.removeElem el).pfx_pbr ↔ el' ∈ g.pfx_pbr ∧ el' ≠ el :=
    fun g hg => ((h.elems g hg).2.mem_erase_iff).trans And.comm
  constructor
  · rintro ⟨g', hg', rfl, hel'⟩
    rcases (hmem g').mp hg' with ⟨hg, hne⟩ | ⟨g, hg, -, rfl, -⟩
    · exact ⟨⟨g', hg, rfl, hel'⟩, fun hx => hne hx.1⟩
    · obtain ⟨hold, hne⟩ := (hin g hg).mp hel'
      exact ⟨⟨g, hg, rfl, hold⟩, fun hx => hne hx.2⟩
  · rintro ⟨⟨g, hg, rfl, hel'⟩, hno⟩
    by_cases hgid : g.group_id = gid
    · have hold := (hin g hg).mpr ⟨hel', fun hx => hno ⟨hgid, hx⟩⟩
      exact ⟨_, (hmem _).mpr (.inr ⟨g, hg, hgid, rfl, List.ne_nil_of_mem hold⟩), rfl, hold⟩
    · exact ⟨g, (hmem g).mpr (.inl ⟨hg, hgid⟩), rfl, hel'⟩

/-- The groups that are left have the gateways they had. -/
theorem retGroupDelElem_hasGws (hgws : (s.retGroupDelElem gid el).HasGws gid' gws) :
    s.HasGws gid' gws := by
  obtain ⟨g', hg', rfl, hgws⟩ := hgws
  rcases (h.mem_retGroupDelElem gid el _).mp hg' with ⟨hg, -⟩ | ⟨g, hg, -, rfl, -⟩
  · exact ⟨g', hg, rfl, hgws⟩
  · exact ⟨g, hg, rfl, hgws⟩

/-- A group that lists something keeps its gateways. -/
theorem retGroupDelElem_keeps (hlists : (s.retGroupDelElem gid el).Lists gid' el')
    (hgws : s.HasGws gid' gws) : (s.retGroupDelElem gid el).HasGws gid' gws := by
  obtain ⟨g', hg', rfl, -⟩ := hlists
  obtain ⟨g₀, hg₀, hid, hgws⟩ := hgws
  refine ⟨g', hg', rfl, ?_⟩
  rcases (h.mem_retGroupDelElem gid el _).mp hg' with ⟨hg, -⟩ | ⟨g, hg, -, rfl, -⟩
  · rwa [← h.groups.eq_of_mem hg₀ hg hid]
  · obtain rfl := h.groups.eq_of_mem hg₀ hg hid
    exact hgws

end Tidy

/-! ## Groups of one gateway -/

/-- One group has a gateway of its own. -/
def Solo (s : Router) : Prop :=
  ∀ gid gid' gw, s.HasGws gid [gw] → s.HasGws gid' [gw] → gid = gid'

namespace Solo

/-- Groups with one gateway depend on the gateways of the groups. -/
theorem congr (h : s.Solo) (hgws : ∀ gid gw, s'.HasGws gid [gw] → s.HasGws gid [gw]) : s'.Solo :=
  fun gid gid' gw hg hg' => h gid gid' gw (hgws gid gw hg) (hgws gid' gw hg')

/-- A group is not made when there is one with the gateways. -/
theorem enterGroup (h : s.Solo) (htidy : s.Tidy) (env : RouteEnv) (gws : List Gw) (el : RoutePfxPbr)
    (junk : ℕ → ℤ) : (s.enterGroup env gws el junk).2.Solo := by
  have hnew : ∀ gid gw, s.HasGws gid [gw] →
      (s.enterGroup env gws el junk).1.re_idx.map ReIdx.gw = [gw] →
      gid = (s.enterGroup env gws el junk).1.group_id := by
    intro gid gw hg hgws
    rcases htidy.enterGroup_fst env gws el junk with ⟨he, -⟩ | ⟨hno, hgws', -⟩
    · exact h gid _ gw hg ⟨_, he, rfl, hgws⟩
    · obtain ⟨g, hg, -, hgws₀⟩ := hg
      have hfalse := (hno g hg).2
      rw [hgws'.symm.trans hgws, compareLists_singleton.mpr hgws₀] at hfalse
      exact Bool.noConfusion hfalse
  intro gid gid' gw hg hg'
  rcases htidy.enterGroup_hasGws.mp hg with hg | ⟨rfl, hgws⟩
  · rcases htidy.enterGroup_hasGws.mp hg' with hg' | ⟨rfl, hgws'⟩
    · exact h gid gid' gw hg hg'
    · exact hnew gid gw hg hgws'
  · rcases htidy.enterGroup_hasGws.mp hg' with hg' | ⟨rfl, -⟩
    · exact (hnew gid' gw hg' hgws).symm
    · rfl

end Solo

end Router

/-! ## Runs -/

/-- The tables with the next hop and VLAN of the last `pbr_route_set` of each interface. -/
structure PbrRun extends PbrRouter where
  asked : PclInterface → Option Gw

/-- A call for a policy, or one of the gateways and their groups. -/
inductive PbrOp
  | pbrRouteSet (ltt_index : RowColum) (nextHop : Ip4) (vid : ℕ) (interface : PclInterface)
      (junk : ℕ → ℤ)
  | pbrRouteUnset (interface : PclInterface)
  | gw (op : GwOp)

/-- One call. All of them return. -/
def pbrStep (env : RouteEnv) (s : PbrRun) : PbrOp → Option PbrRun
  | .pbrRouteSet ltt_index nextHop vid interface junk =>
    some ⟨(s.pbrRouteSet env ltt_index nextHop vid interface junk).2,
      update s.asked interface (some ⟨nextHop, vid⟩)⟩
  | .pbrRouteUnset interface => some ⟨(s.pbrRouteUnset interface).2, s.asked⟩
  | .gw op => (Router.gwStep env s.router op).map fun router => { s with router := router }

/-- The state before the first policy. -/
def pbrStart (router : Router) : PbrRun := ⟨⟨router, []⟩, fun _ => none⟩

/-- A call for a route or a gateway, not for a policy. -/
def GwOp.IsRoute : GwOp → Prop
  | .retGroupAdd _ _ _ _ | .retGroupDel _ _ _ | .retSetMacAddr _ _ _ _ | .retUnsetMacAddr _ => True
  | _ => False

instance : ∀ op, Decidable (GwOp.IsRoute op)
  | .retGroupAdd _ _ _ _ | .retGroupDel _ _ _ | .retSetMacAddr _ _ _ _ | .retUnsetMacAddr _ =>
    .isTrue trivial
  | .retAdd _ _ | .retUnref _ _ | .retGroupAddPbr _ _ _ _ | .retGroupDelPbr _ _ _
  | .retIpv6Add _ _ _ | .retIpv6Unref _ _ | .retIpv6SetMacAddr _ _ _ _ _ => .isFalse id

/-- The policy is new and has a row of its own, or it is set to what it is. -/
def PbrRouter.Keeps (s : PbrRouter) (ltt_index : RowColum) (nextHop : Ip4) (vid : ℕ)
    (interface : PclInterface) : Prop :=
  (∀ pe ∈ s.pbr_entry, pe.interface ≠ interface ∧ pe.ltt_index ≠ ltt_index) ∨
    ∃ pe ∈ s.pbr_entry, pe.interface = interface ∧ pe.gw = nextHop ∧ pe.vid = vid

instance (s : PbrRouter) (ltt_index : RowColum) (nextHop : Ip4) (vid : ℕ)
    (interface : PclInterface) : Decidable (s.Keeps ltt_index nextHop vid interface) :=
  inferInstanceAs (Decidable (
    (∀ pe ∈ s.pbr_entry, pe.interface ≠ interface ∧ pe.ltt_index ≠ ltt_index) ∨
      ∃ pe ∈ s.pbr_entry, pe.interface = interface ∧ pe.gw = nextHop ∧ pe.vid = vid))

/-- Calls of the gateway groups that find indices and next hops, in which no policy is set to
another next hop, and the entry that is written for a policy is that of its group. -/
def PbrOk (env : RouteEnv) (s : PbrRun) : PbrOp → Prop
  | .pbrRouteSet ltt_index nextHop vid interface junk =>
    s.Keeps ltt_index nextHop vid interface ∧ s.router.HeadShows env [⟨nextHop, vid⟩] interface ∧
      Router.GroupCall env s.router (.retGroupAddPbr [⟨nextHop, vid⟩] ltt_index interface junk)
  | .pbrRouteUnset _ => True
  | .gw op => op.IsRoute ∧ Router.GroupCall env s.router op

instance (env : RouteEnv) (s : PbrRun) : ∀ op, Decidable (PbrOk env s op)
  | .pbrRouteSet ltt_index nextHop vid interface junk => inferInstanceAs (Decidable (
    s.Keeps ltt_index nextHop vid interface ∧ s.router.HeadShows env [⟨nextHop, vid⟩] interface ∧
      Router.GroupCall env s.router (.retGroupAddPbr [⟨nextHop, vid⟩] ltt_index interface junk)))
  | .pbrRouteUnset _ => .isTrue trivial
  | .gw op => inferInstanceAs (Decidable (op.IsRoute ∧ Router.GroupCall env s.router op))

/-! ## The invariant -/

/-- The policies have rows of their own, and each is listed by one group, that of its next hop. -/
structure PbrInv (env : RouteEnv) (s : PbrRun) : Prop where
  ecmp : Router.EcmpInv env s.router
  tidy : s.router.Tidy
  ltt : Router.LttInv env s.router
  solo : s.router.Solo
  unique : Keyed.Unique PbrEntry.interface s.pbr_entry
  rows : Keyed.Unique PbrEntry.ltt_index s.pbr_entry
  asked : ∀ pe ∈ s.pbr_entry, s.asked pe.interface = some ⟨pe.gw, pe.vid⟩
  linked : ∀ pe ∈ s.pbr_entry, s.router.Lists pe.group_id pe.elem ∧
    s.router.HasGws pe.group_id [⟨pe.gw, pe.vid⟩]
  only : ∀ gid ix i, s.router.Lists gid (.pbr ix i) →
    ∃ pe ∈ s.pbr_entry, pe.ltt_index = ix ∧ pe.interface = i ∧ pe.group_id = gid

namespace PbrInv

variable {env : RouteEnv} {s s' : PbrRun} (h : PbrInv env s)

include h

/-- The gateways and their groups change, and no policy enters or leaves one. -/
theorem router {router : Router} (hecmp : Router.EcmpInv env router) (htidy : router.Tidy)
    (hltt : Router.LttInv env router) (hsolo : router.Solo)
    (hlists : ∀ gid ix i, router.Lists gid (.pbr ix i) ↔ s.router.Lists gid (.pbr ix i))
    (hgws : ∀ gid el gws, router.Lists gid el → s.router.HasGws gid gws → router.HasGws gid gws) :
    PbrInv env { s with router := router } := by
  refine ⟨hecmp, htidy, hltt, hsolo, h.unique, h.rows, h.asked, fun pe hpe => ?_,
    fun gid ix i hlist => h.only gid ix i ((hlists gid ix i).mp hlist)⟩
  obtain ⟨hlist, hhas⟩ := h.linked pe hpe
  have hlist' := (hlists pe.group_id pe.ltt_index pe.interface).mpr hlist
  exact ⟨hlist', hgws pe.group_id pe.elem _ hlist' hhas⟩

/-- The address of a gateway changes. -/
theorem of_fanned {router : Router} (hecmp : Router.EcmpInv env router) (htidy : router.Tidy)
    (hltt : Router.LttInv env router)
    (hstatic : router.re_group.map ReGroup.static = s.router.re_group.map ReGroup.static) :
    PbrInv env { s with router := router } :=
  h.router hecmp htidy hltt (h.solo.congr fun _ _ => (Router.hasGws_congr hstatic).mp)
    (fun _ _ _ => Router.lists_congr hstatic) fun _ _ _ _ => (Router.hasGws_congr hstatic).mpr

/-- A prefix enters a group. -/
theorem retGroupAdd (gws : List Gw) (ip : Ip4) (alen : ℕ) (junk : ℕ → ℤ)
    (hok : Router.GroupCall env s.router (.retGroupAdd gws ip alen junk)) :
    PbrInv env { s with router := (s.router.retGroupAdd env gws ip alen junk).2 } := by
  have hecmp : Router.EcmpInv env (s.router.retGroupAdd env gws ip alen junk).2 :=
    h.ecmp.gwStep hok rfl
  have hltt := h.ltt.retGroupAdd h.tidy gws ip alen junk
  have hsolo := h.solo.enterGroup h.tidy env gws (.pfx ip alen) junk
  have htidy := h.tidy.enterGroup env gws (.pfx ip alen) junk
  rw [Router.retGroupAdd_eq] at hecmp hltt ⊢
  refine h.router hecmp (htidy.congr rfl rfl rfl) hltt hsolo (fun gid ix i => ?_)
    fun gid el gws' _ hgws => h.tidy.enterGroup_hasGws.mpr (.inl hgws)
  exact h.tidy.enterGroup_lists.trans (or_iff_left fun hx => by cases hx.2)

/-- A prefix leaves a group. -/
theorem retGroupDel (gid : ℤ) (pfx : Ip4) (alen : ℕ) :
    PbrInv env { s with router := s.router.retGroupDel gid pfx alen } := by
  have hecmp : Router.EcmpInv env (s.router.retGroupDel gid pfx alen) := h.ecmp.retGroupDelElem
  refine h.router hecmp (h.tidy.retGroupDelElem gid _) (h.ltt.retGroupDelElem h.tidy gid _)
    (h.solo.congr fun _ _ => h.tidy.retGroupDelElem_hasGws) (fun gid' ix i => ?_)
    fun gid' el gws => h.tidy.retGroupDelElem_keeps
  exact h.tidy.retGroupDelElem_lists.trans (and_iff_left fun hx => by cases hx.2)

/-- A policy that is unset leaves its group. -/
theorem pbrRouteUnset (interface : PclInterface) :
    PbrInv env ⟨(s.pbrRouteUnset interface).2, s.asked⟩ := by
  unfold PbrRouter.pbrRouteUnset
  cases hfind : Keyed.find PbrEntry.interface s.pbr_entry interface with
  | none => exact h
  | some pe =>
    obtain ⟨hpe, rfl⟩ := h.unique.find_eq_some_iff.mp hfind
    have hlists : ∀ gid el, (s.router.retGroupDelElem pe.group_id pe.elem).Lists gid el ↔ _ :=
      fun gid el => h.tidy.retGroupDelElem_lists
    have hmem : ∀ x, x ∈ Keyed.del PbrEntry.interface s.pbr_entry pe.interface →
        x ∈ s.pbr_entry ∧ x.interface ≠ pe.interface := fun x hx => h.unique.mem_del_iff.mp hx
    -- no policy but the one of the interface goes
    have hkeep : (Keyed.del PbrEntry.interface s.pbr_entry pe.interface).Sublist s.pbr_entry :=
      List.eraseP_sublist
    refine ⟨h.ecmp.retGroupDelElem, h.tidy.retGroupDelElem _ _, h.ltt.retGroupDelElem h.tidy _ _,
      h.solo.congr fun _ _ => h.tidy.retGroupDelElem_hasGws, h.unique.del,
      List.Nodup.sublist (hkeep.map _) h.rows, fun x hx => h.asked x (hmem x hx).1, fun x hx => ?_,
      fun gid ix i hlist => ?_⟩
    · obtain ⟨hx, hne⟩ := hmem x hx
      obtain ⟨hlist, hgws⟩ := h.linked x hx
      have hlist' := (hlists x.group_id x.elem).mpr
        ⟨hlist, fun heq => hne (RoutePfxPbr.pbr.inj heq.2).2⟩
      exact ⟨hlist', h.tidy.retGroupDelElem_keeps hlist' hgws⟩
    · -- an element that is left belongs to another policy
      obtain ⟨hlist, hno⟩ := (hlists gid (.pbr ix i)).mp hlist
      obtain ⟨x, hx, rfl, rfl, rfl⟩ := h.only gid ix i hlist
      refine ⟨x, h.unique.mem_del_iff.mpr ⟨hx, fun heq => hno ?_⟩, rfl, rfl, rfl⟩
      obtain rfl := h.unique.eq_of_mem hx hpe heq
      exact ⟨rfl, rfl⟩

/-! ### A policy is set -/

/-- The tables after a policy has entered the group of its next hop, and its row is written. -/
theorem entered {gw : Gw} (ix : RowColum) {interface : PclInterface} {junk : ℕ → ℤ}
    (hhead : s.router.HeadShows env [gw] interface)
    (hok : Router.GroupCall env s.router (.retGroupAddPbr [gw] ix interface junk))
    (hrow : ∀ gid i', s.router.Lists gid (.pbr ix i') →
      gid = (s.router.retGroupAddPbr env [gw] ix interface junk).1 ∧ i' = interface) :
    Router.EcmpInv env (s.router.retGroupAddPbr env [gw] ix interface junk).2 ∧
    (s.router.retGroupAddPbr env [gw] ix interface junk).2.Tidy ∧
    Router.LttInv env (s.router.retGroupAddPbr env [gw] ix interface junk).2 ∧
    (s.router.retGroupAddPbr env [gw] ix interface junk).2.Solo ∧
    (∀ gid el, (s.router.retGroupAddPbr env [gw] ix interface junk).2.Lists gid el ↔
      s.router.Lists gid el ∨ gid = (s.router.retGroupAddPbr env [gw] ix interface junk).1 ∧
        el = .pbr ix interface) ∧
    (∀ gid gws, s.router.HasGws gid gws →
      (s.router.retGroupAddPbr env [gw] ix interface junk).2.HasGws gid gws) ∧
    (s.router.retGroupAddPbr env [gw] ix interface junk).2.HasGws
      (s.router.retGroupAddPbr env [gw] ix interface junk).1 [gw] := by
  have hecmp : Router.EcmpInv env (s.router.retGroupAddPbr env [gw] ix interface junk).2 :=
    h.ecmp.gwStep hok rfl
  obtain ⟨t, heq⟩ := Router.retGroupAddPbr_eq env s.router [gw] ix interface junk
  -- the row is in no other group
  have hltt : Router.LttInv env (s.router.retGroupAddPbr env [gw] ix interface junk).2 := by
    refine h.ltt.retGroupAddPbr h.tidy hhead fun g hg i' hi' => ?_
    obtain ⟨hgid, hi⟩ := hrow g.group_id i' ⟨g, hg, rfl, hi'⟩
    rw [heq] at hgid
    exact ⟨hgid, hi⟩
  rw [heq] at hecmp hltt ⊢
  exact ⟨hecmp, (h.tidy.enterGroup env _ _ junk).congr rfl rfl rfl, hltt,
    h.solo.enterGroup h.tidy env _ _ junk,
    fun gid el => h.tidy.enterGroup_lists, fun gid gws hgws =>
      h.tidy.enterGroup_hasGws.mpr (.inl hgws),
    h.tidy.enterGroup_hasGws.mpr (.inr ⟨rfl, h.tidy.enterGroup_gws_singleton⟩)⟩

omit h in
/-- A policy that is new. -/
theorem pbrRouteSet_new {s : PbrRouter} {interface : PclInterface}
    (hnew : ∀ pe ∈ s.pbr_entry, pe.interface ≠ interface) (ix : RowColum) (nextHop : Ip4) (vid : ℕ)
    (junk : ℕ → ℤ) : (s.pbrRouteSet env ix nextHop vid interface junk).2 =
      ⟨(s.router.retGroupAddPbr env [⟨nextHop, vid⟩] ix interface junk).2, s.pbr_entry ++
        [⟨interface, nextHop, vid,
          (s.router.retGroupAddPbr env [⟨nextHop, vid⟩] ix interface junk).1, ix⟩]⟩ := by
  have hold : ∀ f, Keyed.modify PbrEntry.interface s.pbr_entry interface f = s.pbr_entry :=
    fun f => Keyed.modify_of_forall_ne hnew
  unfold PbrRouter.pbrRouteSet
  rw [Keyed.find_eq_none_iff.mpr hnew]
  dsimp only
  generalize s.router.retGroupAddPbr env [⟨nextHop, vid⟩] ix interface junk = r at *
  unfold Keyed.modify at *
  rw [List.map_append, hold]
  simp

/-- **Step.** `pbr_route_set` keeps the entries linked. -/
theorem pbrRouteSet (ix : RowColum) (nextHop : Ip4) (vid : ℕ) (interface : PclInterface)
    (junk : ℕ → ℤ) (hok : PbrOk env s (.pbrRouteSet ix nextHop vid interface junk)) :
    PbrInv env ⟨(s.pbrRouteSet env ix nextHop vid interface junk).2,
      update s.asked interface (some ⟨nextHop, vid⟩)⟩ := by
  obtain ⟨hkeeps, hhead, hcall⟩ := hok
  rcases hkeeps with hnew | ⟨pe, hpe, rfl, rfl, rfl⟩
  · -- the row has no policy, so that none is listed with it
    obtain ⟨hecmp, htidy, hltt, hsolo, hlists, hgws, hself⟩ :=
      h.entered ix hhead hcall fun gid i' hlist => by
      obtain ⟨pe, hpe, hix, -, -⟩ := h.only gid ix i' hlist
      exact absurd hix (hnew pe hpe).2
    rw [pbrRouteSet_new fun pe hpe => (hnew pe hpe).1]
    -- field by field: the new entry is linked, and the others are as they were
    refine ⟨hecmp, htidy, hltt, hsolo, h.unique.snoc fun pe hpe => (hnew pe hpe).1,
      h.rows.snoc fun pe hpe => (hnew pe hpe).2, fun pe hpe => ?_, fun pe hpe => ?_,
      fun gid ix' i hlist => ?_⟩
    · rcases List.mem_append.mp hpe with hpe | hpe
      · exact (update_of_ne (hnew pe hpe).1 ..).trans (h.asked pe hpe)
      · obtain rfl := List.mem_singleton.mp hpe
        exact update_self ..
    · rcases List.mem_append.mp hpe with hpe | hpe
      · obtain ⟨hlist, hhas⟩ := h.linked pe hpe
        exact ⟨(hlists _ _).mpr (.inl hlist), hgws _ _ hhas⟩
      · obtain rfl := List.mem_singleton.mp hpe
        exact ⟨(hlists _ _).mpr (.inr ⟨rfl, rfl⟩), hself⟩
    · rcases (hlists gid (.pbr ix' i)).mp hlist with hlist | ⟨rfl, hel⟩
      · obtain ⟨pe, hpe, hfields⟩ := h.only gid ix' i hlist
        exact ⟨pe, List.mem_append_left _ hpe, hfields⟩
      · obtain ⟨rfl, rfl⟩ := RoutePfxPbr.pbr.inj hel
        exact ⟨_, List.mem_append_right _ (List.mem_singleton_self _), rfl, rfl, rfl⟩
  · -- the group that it enters is the one that lists it already
    have hgid : (s.router.retGroupAddPbr env [⟨pe.gw, pe.vid⟩] pe.ltt_index pe.interface junk).1 =
        pe.group_id := by
      obtain ⟨t, heq⟩ := Router.retGroupAddPbr_eq env s.router [⟨pe.gw, pe.vid⟩] pe.ltt_index
        pe.interface junk
      rw [heq]
      refine h.solo.enterGroup h.tidy env _ _ junk _ _ ⟨pe.gw, pe.vid⟩
        (h.tidy.enterGroup_hasGws.mpr (.inr ⟨rfl, h.tidy.enterGroup_gws_singleton⟩))
        (h.tidy.enterGroup_hasGws.mpr (.inl (h.linked pe hpe).2))
    obtain ⟨hecmp, htidy, hltt, hsolo, hlists, hgws, -⟩ := h.entered pe.ltt_index hhead hcall
      fun gid i' hlist => by
        obtain ⟨x, hx, hix, rfl, rfl⟩ := h.only gid pe.ltt_index i' hlist
        obtain rfl := h.rows.eq_of_mem hx hpe hix
        exact ⟨hgid.symm, rfl⟩
    -- entering the group again changes no element
    have hsame : ∀ gid el, (s.router.retGroupAddPbr env [⟨pe.gw, pe.vid⟩] pe.ltt_index pe.interface
        junk).2.Lists gid el ↔ s.router.Lists gid el := by
      refine fun gid el => (hlists gid el).trans (or_iff_left_of_imp ?_)
      rintro ⟨rfl, rfl⟩
      exact hgid.symm ▸ (h.linked pe hpe).1
    have hentries : Keyed.modify PbrEntry.interface s.pbr_entry pe.interface (fun x =>
        { x with group_id := pe.group_id }) = s.pbr_entry := h.unique.modify_self hpe rfl
    have hasked : update s.asked pe.interface (some ⟨pe.gw, pe.vid⟩) = s.asked := by
      rw [← h.asked pe hpe, Function.update_eq_self]
    have hset : (s.pbrRouteSet env ix pe.gw pe.vid pe.interface junk).2 =
        ⟨(s.router.retGroupAddPbr env
        [⟨pe.gw, pe.vid⟩] pe.ltt_index pe.interface junk).2, s.pbr_entry⟩ := by
      unfold PbrRouter.pbrRouteSet
      rw [h.unique.find_eq_some_iff.mpr ⟨hpe, rfl⟩]
      dsimp only
      rw [hgid, hentries]
    rw [hset, hasked]
    exact h.router hecmp htidy hltt hsolo (fun gid ix i => hsame gid (.pbr ix i))
      fun gid el gws _ => hgws gid gws

/-- **Step.** Every call keeps the entries linked. -/
theorem step {op : PbrOp} (hok : PbrOk env s op) (hstep : pbrStep env s op = some s') :
    PbrInv env s' := by
  cases op with
  | pbrRouteSet ix nextHop vid interface junk =>
    obtain rfl := Option.some_inj.mp hstep
    exact h.pbrRouteSet ix nextHop vid interface junk hok
  | pbrRouteUnset interface =>
    obtain rfl := Option.some_inj.mp hstep
    exact h.pbrRouteUnset interface
  | gw op =>
    obtain ⟨router, hrouter, rfl⟩ := Option.map_eq_some_iff.mp hstep
    -- the other users of the groups: routes, and answers of gateways
    obtain ⟨hroute, hcall⟩ := hok
    have hecmp := h.ecmp.gwStep hcall hrouter
    cases op with
    | retGroupAdd gws ip alen junk =>
      obtain rfl := Option.some_inj.mp hrouter
      exact h.retGroupAdd gws ip alen junk hcall
    | retGroupDel gid pfx alen =>
      obtain rfl := Option.some_inj.mp hrouter
      exact h.retGroupDel gid pfx alen
    | retSetMacAddr gw addr vif_id arpOk =>
      obtain rfl := Option.some_inj.mp hrouter
      obtain ⟨r, n, hf, -⟩ := Router.retSetMacAddr_fanned env s.router gw addr vif_id arpOk
      obtain ⟨g, u, l, t, heq, hstatic⟩ := hf
      exact h.of_fanned hecmp (h.tidy.retSetMacAddr env gw addr vif_id arpOk)
        (h.ltt.retSetMacAddr h.tidy.groups gw addr vif_id arpOk) (heq ▸ hstatic)
    | retUnsetMacAddr gw =>
      obtain rfl := Option.some_inj.mp hrouter
      obtain ⟨r, n, hf, -⟩ := Router.retUnsetMacAddr_fanned env s.router gw
      obtain ⟨g, u, l, t, heq, hstatic⟩ := hf
      exact h.of_fanned hecmp (h.tidy.retUnsetMacAddr env gw)
        (h.ltt.retUnsetMacAddr h.tidy.groups gw) (heq ▸ hstatic)
    | retAdd gw gid => exact hroute.elim
    | retUnref gw gid => exact hroute.elim
    | retGroupAddPbr gws ix interface junk => exact hroute.elim
    | retGroupDelPbr gid ix interface => exact hroute.elim
    | retIpv6Add gw is_def ret_key => exact hroute.elim
    | retIpv6Unref gw is_def => exact hroute.elim
    | retIpv6SetMacAddr gw addr vif_id arpOk reOk => exact hroute.elim

end PbrInv

/-! ## What the invariant says -/

/-- The policy is listed, once, by the one group with its id, which has the gateway that was asked
for last. Its row holds the paths of that group, or drops when the gateway has no address. -/
structure Linked (env : RouteEnv) (s : PbrRun) (pe : PbrEntry) (g : ReGroup) : Prop where
  mem : g ∈ s.router.re_group
  id : ∀ g' ∈ s.router.re_group, g'.group_id = pe.group_id ↔ g' = g
  listed : ∀ g' ∈ s.router.re_group, g'.pfx_pbr.count pe.elem = if g' = g then 1 else 0
  shown : ∃ gw, s.asked pe.interface = some gw ∧ g.re_idx.map ReIdx.gw = [gw] ∧
    ∀ d ∈ lttDevs env pe.interface, s.router.ltt (d, pe.ltt_index) =
      if s.router.validGw gw then ⟨g.first_idx, g.numOfPaths⟩ else ⟨DROP_RE_IDX, 0⟩

/-- When the policy is unset, no group lists it, and the group that did is gone if it listed nothing
else. -/
structure Unsets (s : PbrRouter) (pe : PbrEntry) (g : ReGroup) : Prop where
  gone : ∀ pe' ∈ (s.pbrRouteUnset pe.interface).2.pbr_entry, pe'.interface ≠ pe.interface
  unlisted : ∀ g' ∈ (s.pbrRouteUnset pe.interface).2.router.re_group, pe.elem ∉ g'.pfx_pbr
  freed : (s.pbrRouteUnset pe.interface).2.router.findGroup pe.group_id = none ↔
    g.pfx_pbr = [pe.elem]

namespace PbrInv

variable {env : RouteEnv} {s : PbrRun} {pe : PbrEntry} {g : ReGroup} (h : PbrInv env s)

include h

/-- The group of a policy. -/
theorem exists_group (hpe : pe ∈ s.pbr_entry) : ∃ g ∈ s.router.re_group,
    g.group_id = pe.group_id ∧ pe.elem ∈ g.pfx_pbr ∧
      g.re_idx.map ReIdx.gw = [⟨pe.gw, pe.vid⟩] := by
  obtain ⟨⟨g, hg, hgid, hel⟩, ⟨g', hg', hgid', hgws⟩⟩ := h.linked pe hpe
  obtain rfl := h.tidy.groups.eq_of_mem hg hg' (hgid.trans hgid'.symm)
  exact ⟨g, hg, hgid, hel, hgws⟩

/-- An entry is linked to the group that holds its element. -/
theorem linked_group (hpe : pe ∈ s.pbr_entry) (hg : g ∈ s.router.re_group)
    (hgid : g.group_id = pe.group_id) (hel : pe.elem ∈ g.pfx_pbr)
    (hgws : g.re_idx.map ReIdx.gw = [⟨pe.gw, pe.vid⟩]) : Linked env s pe g := by
  refine ⟨hg, fun g' hg' => ⟨fun hid => h.tidy.groups.eq_of_mem hg' hg (hid.trans hgid.symm), ?_⟩,
    fun g' hg' => ?_, ⟨pe.gw, pe.vid⟩, h.asked pe hpe, hgws, fun d hd => ?_⟩
  · exact fun heq => heq ▸ hgid
  · split_ifs with heq
    · exact List.count_eq_one_of_mem (h.tidy.elems g' hg').2 (heq ▸ hel)
    · exact List.count_eq_zero.mpr fun hel' => heq
        (h.ltt.rows g' hg' g hg pe.ltt_index pe.interface pe.interface hel' hel).1
  · rw [h.ltt.shown g hg pe.ltt_index pe.interface hel d hd]
    -- a group of one gateway shows its route entry if and only if the gateway is valid
    have hcount := (h.ecmp.balanced hg).count
    obtain ⟨m, hm, hgw⟩ := List.map_eq_singleton_iff.mp hgws
    rw [hm, List.countP_singleton, hgw] at hcount
    unfold ReGroup.lttEntry
    refine if_congr ?_ rfl rfl |>.trans (ite_not ..)
    cases hv : s.router.validGw ⟨pe.gw, pe.vid⟩ with
    | true =>
      rw [hv, if_pos rfl] at hcount
      refine iff_of_false (fun hn => ?_) fun hno => hno rfl
      omega
    | false =>
      rw [hv, if_neg Bool.false_ne_true] at hcount
      refine iff_of_true ?_ Bool.false_ne_true
      omega

/-- Unsetting an entry takes its element out of its group. -/
theorem unsets_group (hpe : pe ∈ s.pbr_entry) (hg : g ∈ s.router.re_group)
    (hgid : g.group_id = pe.group_id) (hel : pe.elem ∈ g.pfx_pbr) :
    Unsets s.toPbrRouter pe g := by
  have hunset : (s.pbrRouteUnset pe.interface).2 = ⟨s.router.retGroupDelElem pe.group_id pe.elem,
      Keyed.del PbrEntry.interface s.pbr_entry pe.interface⟩ := by
    unfold PbrRouter.pbrRouteUnset
    rw [h.unique.find_eq_some_iff.mpr ⟨hpe, rfl⟩]
    rfl
  have hmem := h.tidy.mem_retGroupDelElem pe.group_id pe.elem
  constructor
  all_goals rw [hunset]
  · exact fun pe' hpe' => (h.unique.mem_del_iff.mp hpe').2
  · intro g' hg' hel'
    have hlist := h.tidy.retGroupDelElem_lists.mp ⟨g', hg', rfl, hel'⟩
    obtain ⟨x, hx, hxid, hxel⟩ := hlist.1
    have hsame := (h.ltt.rows x hx g hg pe.ltt_index pe.interface pe.interface hxel hel).1
    exact hlist.2 ⟨hxid.symm.trans (hsame ▸ hgid), rfl⟩
  · refine Keyed.find_eq_none_iff.trans ⟨fun hno => ?_, fun hlast g' hg' hid => ?_⟩
    · by_contra hne
      -- elements that stay keep the group
      have hrest : g.pfx_pbr.erase pe.elem ≠ [] := by
        rw [Ne, List.erase_eq_nil_iff, not_or]
        exact ⟨List.ne_nil_of_mem hel, hne⟩
      exact hno (g.removeElem pe.elem) ((hmem _).mpr (.inr ⟨g, hg, hgid, rfl, hrest⟩)) hgid
    · rcases (hmem g').mp hg' with ⟨-, hne⟩ | ⟨x, hx, hxid, rfl, hrest⟩
      · exact hne hid
      · obtain rfl := h.tidy.groups.eq_of_mem hx hg (hxid.trans hgid.symm)
        refine hrest ?_
        show x.pfx_pbr.erase pe.elem = []
        rw [hlast, List.erase_cons_head]

end PbrInv

variable {env : RouteEnv} {s : PbrRun} {uc : ℤ → UcRoute} {arp : ℕ → Mac} {ltt : ℕ × RowColum → Ltt}

/-- In the beginning there are no entries. -/
theorem pbrInv_start : PbrInv env (pbrStart (.init uc arp ltt)) := by
  have hno : ∀ {p : ReGroup → Prop}, ¬∃ g ∈ (Router.init uc arp ltt).re_group, p g :=
    fun ⟨g, hg, _⟩ => List.not_mem_nil hg
  exact ⟨Router.ecmpInv_init, .init uc arp ltt, ⟨fun g hg => absurd hg List.not_mem_nil,
    fun g hg => absurd hg List.not_mem_nil⟩, fun gid gid' gw hgws => absurd hgws hno,
      List.nodup_nil,
    List.nodup_nil, fun pe hpe => absurd hpe List.not_mem_nil,
    fun pe hpe => absurd hpe List.not_mem_nil, fun gid ix i hlist => absurd hlist hno⟩

/-- In every state that such calls reach, each policy is linked to one group, and leaves it when it
is unset. -/
theorem policies_linked
    (hr : Reach (pbrStep env) (PbrOk env) (pbrStart (.init uc arp ltt)) s) :
    ∀ pe ∈ s.pbr_entry, ∃ g, Linked env s pe g ∧ Unsets s.toPbrRouter pe g := by
  have h : PbrInv env s :=
    hr.invariant (PbrInv env) pbrInv_start fun _ _ _ h hok hs => h.step hok hs
  intro pe hpe
  obtain ⟨g, hg, hgid, hel, hgws⟩ := h.exists_group hpe
  exact ⟨g, h.linked_group hpe hg hgid hel hgws, h.unsets_group hpe hg hgid hel⟩

/-- A policy is set to one next hop and then to another. The group of the first one lists it
still. -/
theorem not_policies_linked : ∃ s, Reach (pbrStep .onePort) (fun _ _ => True) (pbrStart .blank) s ∧
    ¬∀ pe ∈ s.pbr_entry, ∃ g, Linked .onePort s pe g ∧ Unsets s.toPbrRouter pe g := by
  have hrun : (run (pbrStep .onePort) (fun _ _ => True) (pbrStart .blank)
      [.pbrRouteSet ⟨0, 0⟩ 1 10 ⟨.VLAN, 5⟩ fun _ => 0,
        .pbrRouteSet ⟨0, 1⟩ 2 10 ⟨.VLAN, 5⟩ fun _ => 0]).map
        (fun s => (s.pbr_entry, s.router.re_group)) =
      some ([⟨⟨.VLAN, 5⟩, 1, 10, 2, ⟨0, 0⟩⟩],
        [⟨1, 1, 5, -1, [⟨⟨1, 10⟩, DROP_RE_IDX⟩], [.pbr ⟨0, 0⟩ ⟨.VLAN, 5⟩]⟩,
          ⟨2, 1, 6, -1, [⟨⟨2, 10⟩, DROP_RE_IDX⟩], [.pbr ⟨0, 0⟩ ⟨.VLAN, 5⟩]⟩]) := by
    decide
  obtain ⟨s, hs, hprobe⟩ := Option.map_eq_some_iff.mp hrun
  simp only [Prod.mk.injEq] at hprobe
  obtain ⟨hentry, hgroups⟩ := hprobe
  refine ⟨s, Reach.init.of_run hs, fun hc => ?_⟩
  obtain ⟨g, hlinked, -⟩ := hc _ (by rw [hentry]; exact List.mem_singleton_self _)
  -- the row is in the lists of two groups
  have hone : ∀ g' ∈ s.router.re_group, g'.pfx_pbr = [.pbr ⟨0, 0⟩ ⟨.VLAN, 5⟩] → g' = g := by
    intro g' hg' hpfx
    have hcount := hlinked.listed g' hg'
    by_contra hne
    rw [if_neg hne, hpfx] at hcount
    exact absurd hcount (by decide)
  rw [hgroups] at hone
  have hboth := (hone _ List.mem_cons_self rfl).trans
    (hone _ (List.mem_cons_of_mem _ List.mem_cons_self) rfl).symm
  exact absurd (congrArg ReGroup.group_id hboth) (by decide)

/-- Two policies share the next hop of a route, which learns its address; one is unset again. -/
theorem policies_linked_sharedRun : ∃ s : PbrRun,
    s.pbr_entry = [⟨⟨.VLAN, 6⟩, 1, 10, 1, ⟨0, 1⟩⟩] ∧ s.router.ltt (0, ⟨0, 1⟩) = ⟨5, 0⟩ ∧
    ∀ pe ∈ s.pbr_entry, ∃ g, Linked .onePort s pe g ∧ Unsets s.toPbrRouter pe g := by
  have hrun : (run (pbrStep .onePort) (PbrOk .onePort) (pbrStart .blank)
      [.pbrRouteSet ⟨0, 0⟩ 1 10 ⟨.VLAN, 5⟩ fun _ => 0, .gw (.retGroupAdd [⟨1, 10⟩] 0 8 fun _ => 0),
        .pbrRouteSet ⟨0, 1⟩ 1 10 ⟨.VLAN, 6⟩ fun _ => 0, .gw (.retSetMacAddr ⟨1, 10⟩ 0xA 1 true),
        .pbrRouteUnset ⟨.VLAN, 5⟩]).map (fun s => (s.pbr_entry, s.router.ltt (0, ⟨0, 1⟩))) =
      some ([⟨⟨.VLAN, 6⟩, 1, 10, 1, ⟨0, 1⟩⟩], ⟨5, 0⟩) := by
    decide
  obtain ⟨s, hs, hprobe⟩ := Option.map_eq_some_iff.mp hrun
  simp only [Prod.mk.injEq] at hprobe
  exact ⟨s, hprobe.1, hprobe.2, policies_linked (Reach.init.of_run hs)⟩

end Presteramgr
