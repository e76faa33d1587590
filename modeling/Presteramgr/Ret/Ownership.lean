import Mathlib.Algebra.Order.Group.Multiset
import Mathlib.Tactic.Abel
import Presteramgr.Lib.Guarded
import Presteramgr.Ret.Frame
import Presteramgr.Ret.Mcre
import Presteramgr.Ret.Run

/-!
# Owners of route-entry indices

Groups of gateways, multicast route entries and valid IPv6 gateways take their indices from one
allocator. Each index in use should belong to one of them.

## Main definitions

* `RouteEntries` and `idxStep`: the operations of all three on the indices they share;
* `owned`: the indices of the live owners;
* `OwnInv s L`: the indices in use are the owned ones and the lost ones `L`;
* `Backed`: the calls that neither take indices nobody gave them nor lose one.

## Main results

* `indices_owned`: in runs of backed calls every index in use has exactly one owner.
-/

namespace Presteramgr

open Guarded

/-- The unicast and the multicast tables. The indices in use are those of the unicast tables. -/
structure RouteEntries where
  uc : Router
  mc : McState

/-- A call of either family. -/
inductive IdxOp
  | gw (op : GwOp)
  | mcreCreate (key : McreKey) (mcg vid : ℕ) (wrOk reOk : Bool)
  | mcreAddNode (idx : ℤ) (mcg vid : ℕ) (wrOk : Bool)
  | mcreDelNode (idx : ℤ) (via vid : ℕ)

/-- The index of an IPv6 gateway that is valid. -/
def ReIpv6.index (re : ReIpv6) : Option ℤ := if re.valid then some re.idx else none

namespace RouteEntries

/-- The multicast tables with the indices that are in use. -/
def mcast (s : RouteEntries) : McState :=
  { s.mc with ret_indexes_used := s.uc.ret_indexes_used }

/-- The state after a multicast operation. -/
def setMcast (s : RouteEntries) (mc : McState) : RouteEntries :=
  ⟨{ s.uc with ret_indexes_used := mc.ret_indexes_used }, mc⟩

/-- One call. -/
def idxStep (env : RouteEnv) (s : RouteEntries) : IdxOp → Option RouteEntries
  | .gw op => (s.uc.gwStep env op).map fun uc => { s with uc := uc }
  | .mcreCreate key mcg vid wrOk reOk =>
    (s.mcast.mcreCreate key mcg vid wrOk reOk).map fun r => s.setMcast r.2
  | .mcreAddNode idx mcg vid wrOk =>
    (s.mcast.mcreAddNode idx mcg vid wrOk).map fun r => s.setMcast r.2
  | .mcreDelNode idx via vid => (s.mcast.mcreDelNode idx via vid).map fun r => s.setMcast r.2

/-- The indices of the live groups, valid IPv6 gateways and multicast route entries. -/
def owned (s : RouteEntries) : List ℤ :=
  s.uc.re_group.flatMap ReGroup.run ++ s.uc.ret_ipv6.filterMap ReIpv6.index ++
    s.mc.mcret.map Mcre.idx

end RouteEntries

/-! ### Unicast owners -/

namespace Router

/-- The indices of the live groups and valid IPv6 gateways. -/
def owned (s : Router) : Multiset ℤ :=
  (s.re_group.flatMap ReGroup.run : Multiset ℤ) + (s.ret_ipv6.filterMap ReIpv6.index : Multiset ℤ)

/-- The indices in use are the owned ones and those of `L`. -/
structure OwnInv (s : Router) (L : Multiset ℤ) : Prop where
  uniqueV6 : Keyed.Unique (fun re : ReIpv6 => re.gw.hashKey) s.ret_ipv6
  counts : ∀ g ∈ s.re_group, 0 ≤ g.re_count ∧ g.re_count < 9
  used : (s.ret_indexes_used : Multiset ℤ) = s.owned + L
  nodup : s.ret_indexes_used.Nodup
  regular : ∀ i ∈ s.ret_indexes_used, FIRST_REGULAR_RE_IDX ≤ i ∧ i < 4096

variable {env : RouteEnv} {s s' : Router} {L : Multiset ℤ} {gid : ℤ} {gw : Gw} {gwV6 : GwV6}
  {re : ReIpv6} {el : RoutePfxPbr} {f : ReGroup → ReGroup} {arpOk reOk is_def : Bool}

namespace OwnInv

variable (h : OwnInv s L)

include h

/-- Operations that keep the indices in use, the runs of the groups and the IPv6 gateways. -/
theorem keep (hused : s'.ret_indexes_used = s.ret_indexes_used)
    (hruns : s'.re_group.map (fun g => (g.run, g.re_count)) =
      s.re_group.map fun g => (g.run, g.re_count))
    (hv6 : s'.ret_ipv6 = s.ret_ipv6) : OwnInv s' L := by
  have hrun : s'.re_group.flatMap ReGroup.run = s.re_group.flatMap ReGroup.run := by
    have hmap := congrArg (List.map Prod.fst) hruns
    simp only [List.map_map, Function.comp_def] at hmap
    rw [List.flatMap_def, List.flatMap_def]
    exact congrArg List.flatten hmap
  refine ⟨hv6 ▸ h.uniqueV6, fun g hg => ?_, ?_, hused ▸ h.nodup, hused ▸ h.regular⟩
  · have hmem : (g.run, g.re_count) ∈ s'.re_group.map fun g => (g.run, g.re_count) :=
      List.mem_map_of_mem hg
    rw [hruns] at hmem
    obtain ⟨g', hg', heq⟩ := List.mem_map.mp hmem
    rw [← (Prod.mk.inj heq).2]
    exact h.counts g' hg'
  · rw [hused, h.used, owned, owned, hrun, hv6]

/-- What is fanned out owns no index. -/
theorem of_fanned (hf : Fanned s s') : OwnInv s' L := by
  obtain ⟨g, u, l, t, rfl, hstat⟩ := hf
  refine h.keep rfl ?_ rfl
  have hpair : ∀ g : ReGroup, (g.run, g.re_count) =
      (Ret.idxRun g.static.2.2.1 g.static.2.1.toNat, g.static.2.1) := fun _ => rfl
  simp only [hpair]
  have hmap := congrArg (List.map fun x : ℤ × ℤ × ℤ × List Gw × List RoutePfxPbr =>
    (Ret.idxRun x.2.2.1 x.2.1.toNat, x.2.1)) hstat
  simpa only [List.map_map, Function.comp_def] using hmap

/-- A change in place that keeps the run. -/
theorem modifyGroup (hf : ∀ g, ((f g).run, (f g).re_count) = (g.run, g.re_count)) :
    OwnInv (s.modifyGroup gid f) L :=
  h.keep rfl (Keyed.map_modify (fun g : ReGroup => (g.run, g.re_count)) hf) rfl

/-- A new element owns no index. -/
theorem addElem : OwnInv (s.modifyGroup gid (·.addElem el)) L :=
  h.modifyGroup fun g => by
    unfold ReGroup.addElem
    split_ifs <;> rfl

/-- An element that goes owns no index. -/
theorem removeElem : OwnInv (s.modifyGroup gid (·.removeElem el)) L :=
  h.modifyGroup fun _ => rfl

/-! ### Groups -/

/-- A new group whose indices were allocated owns them, and a group without gateways owns none. -/
theorem newGroup (env : RouteEnv) {gws : List Gw} (el : RoutePfxPbr) (junk : ℕ → ℤ)
    (hpop : gws ≠ [] → (Ret.resPop s.ret_indexes_used gws.length).isSome) :
    OwnInv { (s.newGroup env gws el junk).2 with
      re_group := (s.newGroup env gws el junk).2.re_group ++ [(s.newGroup env gws el junk).1] }
      L := by
  obtain ⟨r, c, u, hs, -, hcount, hfirst, -, -⟩ := newGroup_spec env s gws el junk
  have hrun : (s.newGroup env gws el junk).1.run =
      Ret.idxRun ((s.popIdxs gws.length junk).1 0) gws.length := by
    rw [ReGroup.run, hcount, hfirst, Int.toNat_natCast]
  cases hp : Ret.resPop s.ret_indexes_used gws.length with
  | none =>
    -- only without gateways
    have hnil : gws = [] := by
      by_contra hne
      have := hpop hne
      simp [hp] at this
    have hpi : (s.popIdxs gws.length junk).2 = s := by simp [popIdxs, hp]
    have hempty : (s.newGroup env gws el junk).1.run = [] := by
      rw [hrun, hnil]
      rfl
    rw [hs, hpi]
    refine ⟨h.uniqueV6, fun g hg => ?_, ?_, h.nodup, h.regular⟩
    · rcases List.mem_append.mp hg with hg | hg
      · exact h.counts g hg
      · rw [List.mem_singleton.mp hg, hcount, hnil]
        decide
    · rw [h.used]
      simp [owned, hempty]
  | some p =>
    obtain ⟨ids, used⟩ := p
    obtain ⟨hpos, hlt, rfl, first, rfl, hreg, hle, hnot⟩ := Ret.resPop_spec hp
    have hpi : (s.popIdxs gws.length junk).2 = { s with
        ret_indexes_used := s.ret_indexes_used ++ Ret.idxRun first (gws.length : ℤ).toNat } := by
      simp [popIdxs, hp]
    have hzero : (s.popIdxs gws.length junk).1 0 = first := by
      obtain ⟨n, hn⟩ : ∃ n, (gws.length : ℤ).toNat = n + 1 := ⟨gws.length - 1, by omega⟩
      simp [popIdxs, hp, hn, Ret.idxRun, List.range_succ_eq_map]
    have hown : (s.newGroup env gws el junk).1.run =
        Ret.idxRun first (gws.length : ℤ).toNat := by
      rw [hrun, hzero, Int.toNat_natCast]
    rw [hs, hpi]
    refine ⟨h.uniqueV6, fun g hg => ?_, ?_, Ret.nodup_resPop h.nodup hp, fun i hi => ?_⟩
    · rcases List.mem_append.mp hg with hg | hg
      · exact h.counts g hg
      · rw [List.mem_singleton.mp hg, hcount]
        exact ⟨hpos.le, hlt⟩
    · simp only [owned, List.flatMap_append, List.flatMap_singleton, hown, ← Multiset.coe_add]
      rw [h.used, owned]
      abel
    · have hi : i ∈ s.ret_indexes_used ++ Ret.idxRun first (gws.length : ℤ).toNat := hi
      rcases List.mem_append.mp hi with hi | hi
      · exact h.regular i hi
      · rw [Ret.mem_idxRun, Int.toNat_of_nonneg hpos.le] at hi
        exact ⟨by omega, by omega⟩

/-- `ret_group_add` takes the indices of a new group. -/
theorem retGroupAdd {gws : List Gw} {ip : Ip4} {alen : ℕ} {junk : ℕ → ℤ}
    (hpop : gws ≠ [] → (∃ g ∈ s.re_group, compareLists gws g.re_idx = true) ∨
      (Ret.resPop s.ret_indexes_used gws.length).isSome) :
    OwnInv (s.retGroupAdd env gws ip alen junk).2 L := by
  unfold Router.retGroupAdd
  cases hf : s.re_group.find? fun el => compareLists gws el.re_idx with
  | some g => exact h.addElem.of_fanned fanned_lpmIpv4UcPrefixAdd
  | none =>
    have hnone := List.find?_eq_none.mp hf
    have hnew := h.newGroup env (.pfx ip alen) junk fun hne =>
      (hpop hne).resolve_left fun ⟨g, hg, hc⟩ => hnone g hg hc
    exact hnew.keep rfl rfl rfl

/-- `ret_group_add_pbr` takes the indices of a new group. -/
theorem retGroupAddPbr {gws : List Gw} {ix : RowColum} {interface : PclInterface}
    {junk : ℕ → ℤ} (hpop : gws ≠ [] → (∃ g ∈ s.re_group, compareLists gws g.re_idx = true) ∨
      (Ret.resPop s.ret_indexes_used gws.length).isSome) :
    OwnInv (s.retGroupAddPbr env gws ix interface junk).2 L := by
  unfold Router.retGroupAddPbr
  cases hf : s.re_group.find? fun el => compareLists gws el.re_idx with
  | some g =>
    dsimp only
    split
    · exact h.addElem
    · exact h.addElem.of_fanned fanned_retGroupLttTcamSet
  | none =>
    have hnone := List.find?_eq_none.mp hf
    have hnew := h.newGroup env (.pbr ix interface) junk fun hne =>
      (hpop hne).resolve_left fun ⟨g, hg, hc⟩ => hnone g hg hc
    have hfan : Fanned (s.newGroup env gws (.pbr ix interface) junk).2
        ((s.newGroup env gws (.pbr ix interface) junk).2.retGroupLttTcamSet env ix interface
          (s.newGroup env gws (.pbr ix interface) junk).1).2 := fanned_retGroupLttTcamSet
    obtain ⟨g, u, l, t, heq, hstat⟩ := hfan
    dsimp only
    rw [heq]
    refine hnew.of_fanned ⟨_, _, _, _, rfl, ?_⟩
    simp only [List.map_append, hstat]

/-- A group that goes gives its run back, and only that. -/
theorem dropGroup {g : ReGroup} (hf : s.findGroup gid = some g) :
    OwnInv { s with
      ret_indexes_used := Ret.resPushCountFirst s.ret_indexes_used g.re_count g.first_idx
      re_group := Keyed.del ReGroup.group_id s.re_group gid } L := by
  have hcoe := Ret.coe_resPushCountFirst s.ret_indexes_used g.first_idx
    (h.counts g (Keyed.mem_of_find hf))
  have hperm := Multiset.coe_eq_coe.mpr ((Keyed.perm_cons_del hf).flatMap_right ReGroup.run)
  refine ⟨h.uniqueV6, fun g hg => h.counts g (Keyed.mem_of_mem_del hg), ?_,
    Ret.nodup_resPush h.nodup, fun i hi => h.regular i (Ret.mem_of_mem_resPush hi)⟩
  rw [hcoe, h.used, owned, hperm, List.flatMap_cons, ← Multiset.coe_add]
  have hassoc : (g.run : Multiset ℤ) +
        ((Keyed.del ReGroup.group_id s.re_group gid).flatMap ReGroup.run : List ℤ) +
        (s.ret_ipv6.filterMap ReIpv6.index : List ℤ) + L = g.run +
        (((Keyed.del ReGroup.group_id s.re_group gid).flatMap ReGroup.run : List ℤ) +
        (s.ret_ipv6.filterMap ReIpv6.index : List ℤ) + L) := by abel
  rw [hassoc]
  exact add_tsub_cancel_left (g.run : Multiset ℤ) _

/-- The last element of a group gives its indices back. -/
theorem retGroupDelElem : OwnInv (s.retGroupDelElem gid el) L := by
  unfold Router.retGroupDelElem
  cases hf : s.findGroup gid with
  | none => exact h
  | some g =>
  have hmod : OwnInv (s.modifyGroup gid (·.removeElem el)) L := h.removeElem
  dsimp only
  split_ifs
  · unfold retGroupDel2
    obtain ⟨r, n, c, heq⟩ := foldl_retUnref_eq (g.removeElem el).group_id
      (g.removeElem el).re_idx (s.modifyGroup gid (·.removeElem el))
    dsimp only
    rw [heq]
    have hfind : (s.modifyGroup gid (·.removeElem el)).findGroup gid =
        some (g.removeElem el) := Keyed.find_modify_self (fun _ => rfl) hf
    exact (hmod.dropGroup hfind).keep rfl rfl rfl
  · exact hmod

/-! ### Gateways -/

/-- `ret_add` owns no index. -/
theorem retAdd : OwnInv (s.retAdd gw gid).2 L := by
  unfold Router.retAdd
  split
  · exact h.keep rfl rfl rfl
  · exact h.keep rfl rfl rfl

/-- `ret_unref` owns no index. -/
theorem retUnref : OwnInv (s.retUnref gw gid).2 L := by
  obtain ⟨r, n, c, heq⟩ := foldl_retUnref_eq gid [⟨gw, 0⟩] s
  have heq : (s.retUnref gw gid).2 = { s with ret := r, nh := n, re_cnt := c } := heq
  rw [heq]
  exact h.keep rfl rfl rfl

/-- A MAC address owns no index. -/
theorem retSetMacAddr {addr : Mac} {vif_id : ℕ} :
    OwnInv (s.retSetMacAddr env gw addr vif_id arpOk).2 L := by
  obtain ⟨r, n, hf, -⟩ := retSetMacAddr_fanned env s gw addr vif_id arpOk
  have hret : OwnInv { s with ret := r, nh := n } L := h.keep rfl rfl rfl
  exact hret.of_fanned hf

/-- A lost MAC address owns no index. -/
theorem retUnsetMacAddr : OwnInv (s.retUnsetMacAddr env gw).2 L := by
  obtain ⟨r, n, hf, -⟩ := retUnsetMacAddr_fanned env s gw
  have hret : OwnInv { s with ret := r, nh := n } L := h.keep rfl rfl rfl
  exact hret.of_fanned hf

/-! ### IPv6 gateways -/

/-- A change of an IPv6 gateway. It keeps the index, or takes one that is free and leaves the old
one behind. -/
theorem modifyGwV6 {f : ReIpv6 → ReIpv6} (hf : s.findGwV6 gwV6 = some re)
    (hgw : ∀ re, (f re).gw = re.gw) (hidx : (f re).index = re.index)
    (hused : s'.ret_indexes_used = s.ret_indexes_used) (hgroup : s'.re_group = s.re_group)
    (hv6 : s'.ret_ipv6 = (s.modifyGwV6 gwV6 f).ret_ipv6) : OwnInv s' L := by
  have hcoe := h.uniqueV6.coe_filterMap_modify (f := f) ReIpv6.index hf
  refine ⟨?_, hgroup ▸ h.counts, ?_, hused ▸ h.nodup, hused ▸ h.regular⟩
  · rw [hv6]
    exact h.uniqueV6.modify fun re => congrArg GwV6.hashKey (hgw re)
  · rw [hused, h.used, owned, owned, hgroup, hv6, Router.modifyGwV6, hcoe, hidx,
      ← Keyed.coe_filterMap_of_find ReIpv6.index hf]

/-- An IPv6 gateway gets a new index. The one it had so far is lost. -/
theorem takeIndex {f : ReIpv6 → ReIpv6} {p : List ℤ × List ℤ} (hf : s.findGwV6 gwV6 = some re)
    (hgw : ∀ re, (f re).gw = re.gw) (hpop : Ret.resPop s.ret_indexes_used 1 = some p)
    (hidx : (f re).index = some p.1.headI) (hused : s'.ret_indexes_used = p.2)
    (hgroup : s'.re_group = s.re_group)
    (hv6 : s'.ret_ipv6 = (s.modifyGwV6 gwV6 f).ret_ipv6) :
    OwnInv s' ((re.index.toList : Multiset ℤ) + L) := by
  obtain ⟨ids, used⟩ := p
  obtain ⟨-, -, rfl, first, rfl, hreg, hle, -⟩ := Ret.resPop_spec hpop
  have hids : Ret.idxRun first (1 : ℤ).toNat = [first] := by simp [Ret.idxRun]
  rw [hids] at hpop hused hidx
  simp only [List.headI_cons] at hidx hused
  have hcoe := h.uniqueV6.coe_filterMap_modify (f := f) ReIpv6.index hf
  have hold := Keyed.coe_filterMap_of_find ReIpv6.index hf
  refine ⟨?_, hgroup ▸ h.counts, ?_, ?_, fun i hi => ?_⟩
  · rw [hv6]
    exact h.uniqueV6.modify fun re => congrArg GwV6.hashKey (hgw re)
  · rw [hused, ← Multiset.coe_add, h.used, owned, owned, hgroup, hv6, Router.modifyGwV6, hcoe,
      hidx, hold]
    simp only [Option.toList_some]
    abel
  · rw [hused]
    exact Ret.nodup_resPop h.nodup hpop
  · rw [hused] at hi
    rcases List.mem_append.mp hi with hi | hi
    · exact h.regular i hi
    · rw [List.mem_singleton.mp hi]
      exact ⟨hreg, by omega⟩

/-- An IPv6 gateway that is added owns one index. -/
theorem retIpv6Add (ret_key : GwV6) : OwnInv (s.retIpv6Add env gwV6 is_def ret_key).2.2 L := by
  unfold Router.retIpv6Add
  cases hf : s.findGwV6 gwV6 with
  | none =>
    dsimp only
    split_ifs
    · exact h
    · -- a new gateway is not valid and has no index
      exact ⟨h.uniqueV6.cons (Keyed.find_eq_none_iff.mp hf), h.counts, h.used, h.nodup, h.regular⟩
  | some re =>
    obtain ⟨s₁, heq, h₁, re₁, hf₁⟩ : ∃ s₁, (if ret_key.vid = 0 then
        s.modifyGwV6 gwV6 fun re => { re with refc := re.refc + 1 } else s) = s₁ ∧
          OwnInv s₁ L ∧ ∃ re₁, s₁.findGwV6 gwV6 = some re₁ := by
      split_ifs
      · exact ⟨_, rfl, h.modifyGwV6 (f := fun re => { re with refc := re.refc + 1 }) hf
          (fun _ => rfl) rfl rfl rfl rfl, _, findGwV6_modifyGwV6 (fun _ => rfl) hf⟩
      · exact ⟨_, rfl, h, _, hf⟩
    dsimp only
    rw [heq]
    cases is_def with
    | false => exact h₁
    | true =>
      obtain ⟨u, hu⟩ := claimDefault_eq env s₁ gwV6 re
      simp only [if_true]
      rw [hu]
      exact h₁.modifyGwV6 (f := fun re => { re with is_def := true }) hf₁ (fun _ => rfl) rfl rfl
        rfl rfl

/-- The entry of an IPv6 gateway goes with its index. -/
theorem deleteGwV6 {re' : ReIpv6} (hf : s.findGwV6 gwV6 = some re) (hv : re.valid = re'.valid)
    (hidx : re.idx = re'.idx) : OwnInv (s.deleteGwV6 gwV6 re') L := by
  have hold := Keyed.coe_filterMap_of_find ReIpv6.index hf
  have hused := h.used
  rw [owned, hold] at hused
  unfold Router.deleteGwV6
  dsimp only
  split_ifs with hre
  · have hown : re.index = some re'.idx := by simp [ReIpv6.index, hv, hre, hidx]
    have hreg : ∀ i ∈ Ret.resPush s.ret_indexes_used 1 [re'.idx],
        FIRST_REGULAR_RE_IDX ≤ i ∧ i < 4096 := fun i hi =>
      h.regular i (Ret.mem_of_mem_resPush hi)
    have hnd : (Ret.resPush s.ret_indexes_used 1 [re'.idx]).Nodup := Ret.nodup_resPush h.nodup
    refine ⟨h.uniqueV6.del, h.counts, ?_, hnd, hreg⟩
    rw [Ret.coe_resPush (by decide), hused, hown, owned]
    have hassoc : (s.re_group.flatMap ReGroup.run : Multiset ℤ) + ((some re'.idx).toList +
        ((Keyed.del keyV6 s.ret_ipv6 gwV6.hashKey).filterMap ReIpv6.index : List ℤ)) + L =
        ([re'.idx] : List ℤ) + ((s.re_group.flatMap ReGroup.run : Multiset ℤ) +
        ((Keyed.del keyV6 s.ret_ipv6 gwV6.hashKey).filterMap ReIpv6.index : List ℤ) + L) := by
      rw [Option.toList_some]
      abel
    rw [hassoc]
    exact add_tsub_cancel_left ([re'.idx] : Multiset ℤ) _
  · have hown : re.index = none := by simp [ReIpv6.index, hv, hre]
    refine ⟨h.uniqueV6.del, h.counts, ?_, h.nodup, h.regular⟩
    rw [hused, hown, owned]
    simp

/-- An IPv6 gateway that is let go gives its index back. -/
theorem retIpv6Unref : OwnInv (s.retIpv6Unref gwV6 is_def).2 L := by
  unfold Router.retIpv6Unref
  cases hf : s.findGwV6 gwV6 with
  | none => exact h
  | some re =>
    obtain ⟨s₁, heq, h₁, re₁, hf₁, hv, hidx⟩ : ∃ s₁,
        (if is_def = true then s.resetDefault gwV6 re else s) = s₁ ∧ OwnInv s₁ L ∧
          ∃ re₁, s₁.findGwV6 gwV6 = some re₁ ∧ re₁.valid = re.valid ∧ re₁.idx = re.idx := by
      cases is_def with
      | true =>
        obtain ⟨u, hu⟩ := resetDefault_eq s gwV6 re
        refine ⟨_, rfl, ?_, _, findGwV6_resetDefault hf, rfl, rfl⟩
        simp only [if_true]
        rw [hu]
        exact h.modifyGwV6 (f := fun re => { re with is_def := false }) hf (fun _ => rfl) rfl rfl
          rfl rfl
      | false => exact ⟨_, rfl, h, _, hf, rfl, rfl⟩
    have h₂ : OwnInv (s₁.modifyGwV6 gwV6 fun re => { re with refc := re.refc - 1 }) L :=
      h₁.modifyGwV6 (f := fun re => { re with refc := re.refc - 1 }) hf₁ (fun _ => rfl) rfl rfl
        rfl rfl
    have hf₂ := findGwV6_modifyGwV6 (f := fun re => { re with refc := re.refc - 1 })
      (fun _ => rfl) hf₁
    dsimp only
    rw [heq]
    split_ifs
    · exact h₂.deleteGwV6 hf₂ hv hidx
    · exact h₂

/-- A valid IPv6 gateway that gets another address loses its index. -/
theorem retIpv6SetMacAddr (env : RouteEnv) (gwV6 : GwV6) (addr : Mac) (vif_id : ℕ)
    (arpOk reOk : Bool) :
    ∃ L', OwnInv (s.retIpv6SetMacAddr env gwV6 addr vif_id arpOk reOk).2 L' ∧
      ((env.vifGetn vif_id ≠ none → ∀ re, s.findGwV6 gwV6 = some re → re.valid = true →
        re.addr = addr ∨ ¬s.nh.Accepts addr arpOk ∨ Ret.resPop s.ret_indexes_used 1 = none) →
          L' = L) := by
  unfold Router.retIpv6SetMacAddr
  cases hvif : env.vifGetn vif_id with
  | none => exact ⟨L, h, fun _ => rfl⟩
  | some vif =>
  cases hf : s.findGwV6 gwV6 with
  | none => exact ⟨L, h, fun _ => rfl⟩
  | some re =>
  dsimp only
  -- the address is known already: nothing but the interface changes
  split_ifs with hsame
  · obtain ⟨u, hu⟩ := writeGwV6_eq (s.modifyGwV6 gwV6 fun re => { re with vif_id := vif_id })
      re.idx re.is_def (.route vif re.nh_idx gwV6.vid)
    refine ⟨L, ?_, fun _ => rfl⟩
    rw [hu]
    exact h.modifyGwV6 (f := fun re => { re with vif_id := vif_id }) hf (fun _ => rfl) rfl rfl rfl
      rfl
  · exact ⟨L, h, fun _ => rfl⟩
  have hadd' : (s.modifyGwV6 gwV6 fun re =>
      { re with addr := addr, vif_id := vif_id }).nh.nhtAdd addr arpOk =
        s.nh.nhtAdd addr arpOk := rfl
  rw [hadd']
  have hkeep : ∀ nh, OwnInv { s.modifyGwV6 gwV6 fun re =>
      { re with addr := addr, vif_id := vif_id } with nh := nh } L := fun nh =>
    h.modifyGwV6 (f := fun re => { re with addr := addr, vif_id := vif_id }) hf (fun _ => rfl)
      rfl rfl rfl rfl
  -- the next hop and then an index are taken, and each may be exhausted
  rcases hadd : s.nh.nhtAdd addr arpOk with ⟨_ | nh_idx, nh⟩
  · exact ⟨L, hkeep nh, fun _ => rfl⟩
  have hpop' : Ret.resPop (s.modifyGwV6 gwV6 fun re =>
      { re with addr := addr, vif_id := vif_id }).ret_indexes_used 1 =
        Ret.resPop s.ret_indexes_used 1 := rfl
  dsimp only
  rw [hpop']
  cases hpop : Ret.resPop s.ret_indexes_used 1 with
  | none => exact ⟨L, hkeep nh, fun _ => rfl⟩
  | some p =>
  dsimp only
  -- the index that the gateway had is not given back: it is left over
  refine ⟨(re.index.toList : Multiset ℤ) + L, ?_, fun hbacked => ?_⟩
  · obtain ⟨l, hl⟩ := routeIpv6UpdateTable_eq _ gwV6 p.1.headI
    rw [hl]
    obtain ⟨u, hu⟩ := writeGwV6_eq _ p.1.headI re.is_def (.route vif nh_idx gwV6.vid)
    rw [hu]
    refine h.takeIndex hf (f := fun re => { re with
        addr := addr, vif_id := vif_id, idx := p.1.headI, nh_idx := nh_idx, valid := true })
      (fun _ => rfl) hpop rfl rfl rfl ?_
    exact Keyed.modify_modify
      (f := fun re : ReIpv6 => { re with addr := addr, vif_id := vif_id }) fun _ => rfl
  · have hv : re.valid = false := by
      by_contra hv
      have hv : re.valid = true := by simpa using hv
      rcases hbacked (Option.some_ne_none _) re rfl hv with haddr | hno | hnone
      · exact hsame ⟨hv, haddr⟩
      · exact hno ((s.nh.nhtAdd_ne_none_iff addr arpOk).mp
          (by rw [hadd]; exact Option.some_ne_none _))
      · exact Option.some_ne_none _ hnone
    simp [ReIpv6.index, hv]

end OwnInv

/-- The unicast calls that neither take indices nobody gave them nor lose one: a new group with
gateways gets a run of free indices, and an IPv6 gateway that is valid gets no second index. -/
def Backed (env : RouteEnv) (s : Router) : GwOp → Prop
  | .retGroupAdd gws _ _ _ | .retGroupAddPbr gws _ _ _ => gws ≠ [] →
      (∃ g ∈ s.re_group, compareLists gws g.re_idx = true) ∨
        (Ret.resPop s.ret_indexes_used gws.length).isSome
  | .retIpv6SetMacAddr gw addr vif_id arpOk _ => env.vifGetn vif_id ≠ none →
      ∀ re ∈ s.findGwV6 gw, re.valid = true → re.addr = addr ∨ ¬s.nh.Accepts addr arpOk ∨
        Ret.resPop s.ret_indexes_used 1 = none
  | _ => True

instance (env : RouteEnv) (s : Router) (op : GwOp) : Decidable (Backed env s op) :=
  match op with
  | .retGroupAdd gws _ _ _ | .retGroupAddPbr gws _ _ _ => inferInstanceAs (Decidable (gws ≠ [] →
      (∃ g ∈ s.re_group, compareLists gws g.re_idx = true) ∨
        (Ret.resPop s.ret_indexes_used gws.length).isSome))
  | .retIpv6SetMacAddr gw addr vif_id arpOk _ =>
    inferInstanceAs (Decidable (env.vifGetn vif_id ≠ none →
      ∀ re ∈ s.findGwV6 gw, re.valid = true → re.addr = addr ∨ ¬s.nh.Accepts addr arpOk ∨
        Ret.resPop s.ret_indexes_used 1 = none))
  | .retAdd _ _ | .retUnref _ _ | .retGroupDel _ _ _ | .retGroupDelPbr _ _ _
  | .retSetMacAddr _ _ _ _ | .retUnsetMacAddr _ | .retIpv6Add _ _ _ | .retIpv6Unref _ _ =>
    .isTrue trivial

/-- A backed call keeps the indices in use owned. -/
theorem OwnInv.gwStep (h : OwnInv s L) {op : GwOp} (hok : Backed env s op)
    (hstep : gwStep env s op = some s') : OwnInv s' L := by
  cases op with
  | retAdd gw gid => exact Option.some_inj.mp hstep ▸ h.retAdd
  | retUnref gw gid => exact Option.some_inj.mp hstep ▸ h.retUnref
  | retGroupAdd gws ip alen junk => exact Option.some_inj.mp hstep ▸ h.retGroupAdd hok
  | retGroupAddPbr gws ix interface junk => exact Option.some_inj.mp hstep ▸ h.retGroupAddPbr hok
  | retGroupDel gid pfx alen => exact Option.some_inj.mp hstep ▸ h.retGroupDelElem
  | retGroupDelPbr gid ix interface => exact Option.some_inj.mp hstep ▸ h.retGroupDelElem
  | retSetMacAddr gw addr vif_id arpOk => exact Option.some_inj.mp hstep ▸ h.retSetMacAddr
  | retUnsetMacAddr gw => exact Option.some_inj.mp hstep ▸ h.retUnsetMacAddr
  | retIpv6Add gw is_def ret_key => exact Option.some_inj.mp hstep ▸ h.retIpv6Add ret_key
  | retIpv6Unref gw is_def => exact Option.some_inj.mp hstep ▸ h.retIpv6Unref
  | retIpv6SetMacAddr gw addr vif_id arpOk reOk =>
    obtain ⟨L', h', heq⟩ := h.retIpv6SetMacAddr env gw addr vif_id arpOk reOk
    rw [heq hok] at h'
    exact Option.some_inj.mp hstep ▸ h'

end Router

/-! ### Multicast owners -/

namespace McState

variable {m m' : McState} {key : McreKey} {mcg via vid : ℕ} {wrOk reOk : Bool} {r idx : ℤ}

/-- The indices in use and those of the entries are as they were. -/
def SameIdx (m m' : McState) : Prop :=
  m'.ret_indexes_used = m.ret_indexes_used ∧
    (m'.mcret.map Mcre.idx : Multiset ℤ) = m.mcret.map Mcre.idx

/-- Replacing an entry keeps the indices. -/
private theorem sameIdx_replace (re re' : Mcre) (hf : m.hashFind key = some re)
    (hidx : re'.idx = re.idx) (hused : m'.ret_indexes_used = m.ret_indexes_used)
    (hmcret : m'.mcret = re' :: Keyed.del Mcre.key m.mcret re.key) : SameIdx m m' := by
  have hkey : re.key = key := Keyed.key_of_find hf
  have hperm := (Keyed.perm_cons_del hf).map Mcre.idx
  refine ⟨hused, Multiset.coe_eq_coe.mpr ?_⟩
  rw [hmcret, hkey, List.map_cons, hidx]
  exact hperm.symm

/-- `mcre_create` takes one index for the new entry, or none. -/
theorem mcreCreate_idx (hc : m.mcreCreate key mcg vid wrOk reOk = some (r, m')) :
    SameIdx m m' ∨ ∃ p, Ret.resPop m.ret_indexes_used 1 = some p ∧ m'.ret_indexes_used = p.2 ∧
      m'.mcret.map Mcre.idx = p.1.headI :: m.mcret.map Mcre.idx := by
  unfold mcreCreate mcreNew at hc
  cases hpop : Ret.resPop m.ret_indexes_used 1 with
  | none =>
    simp only [hpop, Option.map_some, Option.some.injEq, Prod.mk.injEq] at hc
    rw [← hc.2]
    exact .inl ⟨rfl, rfl⟩
  | some p =>
    obtain ⟨ids, used⟩ := p
    obtain ⟨-, -, rfl, first, rfl, -, -, hnot⟩ := Ret.resPop_spec hpop
    have hids : Ret.idxRun first (1 : ℤ).toNat = [first] := by simp [Ret.idxRun]
    rw [hids] at hpop hnot ⊢
    -- a failure gives the index back
    have hback : Ret.resPush (m.ret_indexes_used ++ [first]) 1 [first] = m.ret_indexes_used := by
      show (m.ret_indexes_used ++ [first]).erase first = m.ret_indexes_used
      rw [List.erase_append_right _ (hnot first (by simp))]
      simp
    simp only [hpop, Option.map_map, Option.map_eq_some_iff, List.headI_cons] at hc
    obtain ⟨⟨i, mll⟩, -, hc⟩ := hc
    simp only [Function.comp_apply] at hc
    split_ifs at hc
    · obtain ⟨-, rfl⟩ := Prod.mk.inj hc
      exact .inl ⟨hback, rfl⟩
    · obtain ⟨-, rfl⟩ := Prod.mk.inj hc
      exact .inr ⟨_, rfl, rfl, rfl⟩
    · obtain ⟨-, rfl⟩ := Prod.mk.inj hc
      exact .inl ⟨hback, rfl⟩

/-- One more node of a multicast entry keeps its index. -/
theorem mcreAddNode_idx (hc : m.mcreAddNode idx mcg vid wrOk = some (r, m')) : SameIdx m m' := by
  unfold mcreAddNode at hc
  obtain ⟨re, hf, hc⟩ := Option.bind_eq_some_iff.mp hc
  obtain ⟨⟨i, mll⟩, -, hc⟩ := Option.map_eq_some_iff.mp hc
  obtain ⟨-, rfl⟩ := Prod.mk.inj hc
  exact sameIdx_replace re { re with refc := re.refc + 1 } hf rfl rfl rfl

/-- `mcre_del_node` gives the index of the entry back when it deletes the entry. -/
theorem mcreDelNode_idx (hc : m.mcreDelNode idx via vid = some (r, m')) :
    SameIdx m m' ∨ ∃ re : Mcre, m'.ret_indexes_used = Ret.resPush m.ret_indexes_used 1 [re.idx] ∧
      (m.mcret.map Mcre.idx : Multiset ℤ) = re.idx ::ₘ (m'.mcret.map Mcre.idx : List ℤ) := by
  unfold mcreDelNode at hc
  cases hf : m.hashFind (m.mcre_key_bp idx) with
  | none =>
    simp only [hf, Option.some.injEq, Prod.mk.injEq] at hc
    rw [← hc.2]
    exact .inl ⟨rfl, rfl⟩
  | some re =>
    simp only [hf, Option.map_eq_some_iff] at hc
    obtain ⟨⟨new_head, mll⟩, -, hc⟩ := hc
    dsimp only at hc
    split_ifs at hc
    · obtain ⟨-, rfl⟩ := Prod.mk.inj hc
      have hkey : re.key = m.mcre_key_bp idx := Keyed.key_of_find hf
      have hperm := Multiset.coe_eq_coe.mpr ((Keyed.perm_cons_del hf).map Mcre.idx)
      refine .inr ⟨re, rfl, ?_⟩
      rw [hperm, List.map_cons, ← Multiset.cons_coe, ← hkey]
      rfl
    · obtain ⟨-, rfl⟩ := Prod.mk.inj hc
      exact .inl ⟨rfl, rfl⟩
    · obtain ⟨-, rfl⟩ := Prod.mk.inj hc
      exact .inl (sameIdx_replace re { re with refc := re.refc - 1, mll_idx := new_head } hf rfl
        rfl rfl)
    · obtain ⟨-, rfl⟩ := Prod.mk.inj hc
      exact .inl (sameIdx_replace re { re with refc := re.refc - 1 } hf rfl rfl rfl)

end McState

namespace RouteEntries

open Router (OwnInv)

variable {env : RouteEnv} {s s' : RouteEntries} {L : Multiset ℤ} {mc : McState} {op : IdxOp}
  {uc : ℤ → UcRoute} {arp : ℕ → Mac} {ltt : ℕ × RowColum → Ltt} {ts : ℕ} {hw : ℤ → HwPair}

/-- The indices in use are those of the unicast owners and of the multicast route entries. -/
def EntriesInv (s : RouteEntries) : Prop := OwnInv s.uc (s.mc.mcret.map Mcre.idx : List ℤ)

/-- The calls that neither take indices nobody gave them nor lose one. -/
def Backed (env : RouteEnv) (s : RouteEntries) : IdxOp → Prop
  | .gw op => s.uc.Backed env op
  | _ => True

instance (env : RouteEnv) (s : RouteEntries) (op : IdxOp) : Decidable (Backed env s op) := by
  cases op <;> unfold Backed <;> infer_instance

/-- A change of the multicast nodes keeps the indices. -/
private theorem setMcast_sameIdx (h : EntriesInv s) (hs : s.mcast.SameIdx mc) :
    EntriesInv (s.setMcast mc) := by
  obtain ⟨hused, hidx⟩ := hs
  refine ⟨h.uniqueV6, h.counts, ?_, ?_, ?_⟩
  · show (mc.ret_indexes_used : Multiset ℤ) = _ + ↑(mc.mcret.map Mcre.idx)
    rw [hused, hidx]
    exact h.used
  · show mc.ret_indexes_used.Nodup
    rw [hused]
    exact h.nodup
  · show ∀ i ∈ mc.ret_indexes_used, _
    rw [hused]
    exact h.regular

/-- A backed call keeps every index in use with its one owner. -/
theorem EntriesInv.idxStep (h : EntriesInv s) (hok : Backed env s op)
    (hstep : idxStep env s op = some s') : EntriesInv s' := by
  cases op with
  | gw op =>
    obtain ⟨uc, huc, rfl⟩ := Option.map_eq_some_iff.mp hstep
    exact OwnInv.gwStep h hok huc
  | mcreCreate key mcg vid wrOk reOk =>
    obtain ⟨⟨r, mc⟩, hc, rfl⟩ := Option.map_eq_some_iff.mp hstep
    -- either no index is taken, or the new entry owns it
    rcases McState.mcreCreate_idx hc with hsame | ⟨⟨ids, used⟩, hpop, hused, hidx⟩
    · exact setMcast_sameIdx h hsame
    obtain ⟨-, -, rfl, first, rfl, hreg, hle, -⟩ := Ret.resPop_spec hpop
    have hids : Ret.idxRun first (1 : ℤ).toNat = [first] := by simp [Ret.idxRun]
    have hnd := Ret.nodup_resPop h.nodup hpop
    rw [hids] at hused hidx hnd
    have hin := h.used
    refine ⟨h.uniqueV6, h.counts, ?_, ?_, ?_⟩
    · show (mc.ret_indexes_used : Multiset ℤ) = s.uc.owned + ↑(mc.mcret.map Mcre.idx)
      have hlist : (mc.mcret.map Mcre.idx : Multiset ℤ) =
          {first} + (s.mc.mcret.map Mcre.idx : List ℤ) :=
        congrArg (fun l : List ℤ => (l : Multiset ℤ)) hidx
      have hpopped : (mc.ret_indexes_used : Multiset ℤ) = s.uc.ret_indexes_used + {first} :=
        congrArg (fun l : List ℤ => (l : Multiset ℤ)) hused
      rw [hpopped, hlist, hin]
      abel
    · show mc.ret_indexes_used.Nodup
      rw [hused]
      exact hnd
    · show ∀ i ∈ mc.ret_indexes_used, _
      intro i hi
      rw [hused] at hi
      rcases List.mem_append.mp hi with hi | hi
      · exact h.regular i hi
      · rw [List.mem_singleton.mp hi]
        exact ⟨hreg, by omega⟩
  | mcreAddNode idx mcg vid wrOk =>
    obtain ⟨⟨r, mc⟩, hc, rfl⟩ := Option.map_eq_some_iff.mp hstep
    exact setMcast_sameIdx h (McState.mcreAddNode_idx hc)
  | mcreDelNode idx via vid =>
    obtain ⟨⟨r, mc⟩, hc, rfl⟩ := Option.map_eq_some_iff.mp hstep
    -- either the entry stays, or its index goes back with it
    rcases McState.mcreDelNode_idx hc with hsame | ⟨re, hused, hidx⟩
    · exact setMcast_sameIdx h hsame
    have hin := h.used
    refine ⟨h.uniqueV6, h.counts, ?_, ?_, ?_⟩
    · show (mc.ret_indexes_used : Multiset ℤ) = s.uc.owned + ↑(mc.mcret.map Mcre.idx)
      have hidx : (s.mc.mcret.map Mcre.idx : Multiset ℤ) =
          re.idx ::ₘ (mc.mcret.map Mcre.idx : List ℤ) := hidx
      rw [hused, Ret.coe_resPush (by decide)]
      show (s.uc.ret_indexes_used : Multiset ℤ) - _ = _
      rw [hin, hidx, Multiset.add_cons, ← Multiset.singleton_add]
      exact add_tsub_cancel_left ({re.idx} : Multiset ℤ) _
    · show mc.ret_indexes_used.Nodup
      rw [hused]
      exact Ret.nodup_resPush h.nodup
    · show ∀ i ∈ mc.ret_indexes_used, _
      rw [hused]
      exact fun i hi => h.regular i (Ret.mem_of_mem_resPush hi)

/-- The state before the first route. -/
def start (uc : ℤ → UcRoute) (arp : ℕ → Mac) (ltt : ℕ × RowColum → Ltt) (ts : ℕ)
    (hw : ℤ → HwPair) : RouteEntries :=
  ⟨.init uc arp ltt, .init ts hw⟩

/-- In the beginning no index is used. -/
theorem entriesInv_start : EntriesInv (start uc arp ltt ts hw) :=
  ⟨Keyed.unique_nil, fun _ hg => absurd hg List.not_mem_nil, rfl, List.nodup_nil,
    fun _ hi => absurd hi List.not_mem_nil⟩

/-- The owners' indices are disjoint and regular, and they are exactly the indices in use. -/
structure IndicesOwned (s : RouteEntries) : Prop where
  nodup : s.owned.Nodup
  regular : ∀ i ∈ s.owned, FIRST_REGULAR_RE_IDX ≤ i ∧ i < 4096
  used : ∀ i, i ∈ s.uc.ret_indexes_used ↔ i ∈ s.owned

/-- Where the invariant holds each used index has its owner. -/
theorem EntriesInv.indicesOwned (h : EntriesInv s) : IndicesOwned s := by
  have hperm : s.uc.ret_indexes_used.Perm s.owned := by
    refine Multiset.coe_eq_coe.mp (h.used.trans ?_)
    rw [Router.owned, RouteEntries.owned, ← Multiset.coe_add, ← Multiset.coe_add]
  exact ⟨hperm.nodup_iff.mp h.nodup, fun i hi => h.regular i (hperm.mem_iff.mpr hi),
    fun i => hperm.mem_iff⟩

/-- In every state that backed calls reach, each index in use has one owner, and a further backed
call frees only indices that have lost theirs. -/
theorem indices_owned (hr : Reach (idxStep env) (Backed env) (start uc arp ltt ts hw) s) :
    IndicesOwned s ∧ ∀ op s', Backed env s op → idxStep env s op = some s' →
      ∀ i ∈ s.uc.ret_indexes_used, i ∉ s'.uc.ret_indexes_used → i ∈ s.owned ∧ i ∉ s'.owned := by
  have hinv : EntriesInv s := hr.invariant EntriesInv entriesInv_start
    fun _ _ _ h hok hstep => h.idxStep hok hstep
  refine ⟨hinv.indicesOwned, fun op s' hok hstep i hi hno => ?_⟩
  have hnext := (hinv.idxStep hok hstep).indicesOwned
  exact ⟨(hinv.indicesOwned.used i).mp hi, fun hown => hno ((hnext.used i).mpr hown)⟩

/-- An IPv6 gateway that changes its address while it is valid loses its first index. -/
theorem not_indices_owned : ∃ s, Reach (idxStep .onePort) (fun _ _ => True)
    (start (fun _ => .drop) (fun _ => 0) (fun _ => ⟨0, 0⟩) 8 fun _ => ⟨⟨0, 0, false⟩,
      ⟨0, 0, false⟩, 0⟩) s ∧ ¬IndicesOwned s := by
  have hrun : (run (idxStep .onePort) (fun _ _ => True)
      (start (fun _ => .drop) (fun _ => 0) (fun _ => ⟨0, 0⟩) 8 fun _ => ⟨⟨0, 0, false⟩,
        ⟨0, 0, false⟩, 0⟩)
      [.gw (.retIpv6Add ⟨1, 10⟩ false ⟨0, 0⟩), .gw (.retIpv6SetMacAddr ⟨1, 10⟩ 0xA 1 true true),
        .gw (.retIpv6SetMacAddr ⟨1, 10⟩ 0xB 1 true true)]).map
        (fun s => (s.uc.ret_indexes_used, s.owned)) = some ([5, 6], [6]) := by
    decide
  obtain ⟨s, hs, hprobe⟩ := Option.map_eq_some_iff.mp hrun
  simp only [Prod.mk.injEq] at hprobe
  refine ⟨s, Reach.init.of_run hs, fun hc => ?_⟩
  have hown := (hc.used 5).mp (by rw [hprobe.1]; decide)
  rw [hprobe.2] at hown
  exact absurd hown (by decide)

/-- A group, a multicast route and an IPv6 gateway, and the group deleted again. -/
theorem indices_owned_three : ∃ s : RouteEntries,
    s.uc.ret_indexes_used = [7, 8] ∧ IndicesOwned s := by
  have hrun : (run (idxStep .onePort) (Backed .onePort)
      (start (fun _ => .drop) (fun _ => 0) (fun _ => ⟨0, 0⟩) 8 fun _ => ⟨⟨0, 0, false⟩,
        ⟨0, 0, false⟩, 0⟩)
      [.gw (.retGroupAdd [⟨1, 10⟩, ⟨2, 10⟩] 0 8 fun _ => 0), .mcreCreate ⟨1, 2, 5⟩ 7 10 true true,
        .gw (.retIpv6Add ⟨1, 10⟩ false ⟨0, 0⟩), .gw (.retIpv6SetMacAddr ⟨1, 10⟩ 0xA 1 true true),
        .gw (.retGroupDel 1 0 8)]).map (·.uc.ret_indexes_used) = some [7, 8] := by
    decide
  obtain ⟨s, hs, hprobe⟩ := Option.map_eq_some_iff.mp hrun
  exact ⟨s, hprobe, (indices_owned (Reach.init.of_run hs)).1⟩

end RouteEntries

end Presteramgr
