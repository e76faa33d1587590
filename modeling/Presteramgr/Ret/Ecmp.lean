import Mathlib.Data.Set.Function
import Presteramgr.Ret.Members
import Presteramgr.Ret.Ownership

/-!
# Groups of gateways over runs

Groups come and go and gateways learn and lose their MAC addresses in any order. Each group keeps
its valid members in the first indices of its run, and the route entries there forward to them.

## Main definitions

* `Balanced env s g`: the members of `g` are balanced over the first indices of its run;
* `EcmpInv`: the invariant of runs;
* `GroupCall`: the calls that keep it.

## Main results

* `groups_balanced`: in runs of these calls all groups are balanced.
-/

namespace Presteramgr

open Function (update update_self update_of_ne)
open Guarded

namespace Router

variable {env : RouteEnv} {s s' : Router} {gw : Gw} {re : Re} {gid : ℤ} {g : ReGroup}
  {el : RoutePfxPbr} {gws : List Gw} {junk : ℕ → ℤ} {f : ReGroup → ReGroup}

/-- The groups own their indices, know their members, and are mapped. -/
structure EcmpInv (env : RouteEnv) (s : Router) : Prop where
  own : OwnInv s 0
  members : MembersOk env s
  mapped : ∀ g ∈ s.re_group, Mapped (s.entry env) s.ucRoute g

/-- Groups have no index in common, because each index in use has one owner. -/
theorem OwnInv.runsDisjoint {L : Multiset ℤ} (h : OwnInv s L) : s.RunsDisjoint := by
  have hnodup : (s.re_group.flatMap ReGroup.run).Nodup := by
    have hle : (s.re_group.flatMap ReGroup.run : Multiset ℤ) ≤ s.ret_indexes_used := by
      rw [h.used, owned, add_assoc]
      exact Multiset.le_add_right _ _
    exact Multiset.coe_nodup.mp (Multiset.nodup_of_le hle (Multiset.coe_nodup.mpr h.nodup))
  have hpair := (List.nodup_flatMap.mp hnodup).2
  intro g hg g' hg' hne
  have hsymm : Std.Symm (Function.onFun List.Disjoint ReGroup.run) := ⟨fun _ _ hd => hd.symm⟩
  exact hpair.forall hg hg' fun heq => hne (congrArg ReGroup.group_id heq)

namespace EcmpInv

variable (h : EcmpInv env s)

include h

/-- Writes to the LPM, to LTT rows and changes of the prefixes of groups matter not. -/
theorem keep (hused : s'.ret_indexes_used = s.ret_indexes_used) (hret : s'.ret = s.ret)
    (hv6 : s'.ret_ipv6 = s.ret_ipv6) (hgid : s'.group_id = s.group_id)
    (huc : s'.ucRoute = s.ucRoute)
    (hgroups : ∃ f : ReGroup → ReGroup, s'.re_group = s.re_group.map f ∧
      ∀ g, ∃ p, f g = { g with pfx_pbr := p }) : EcmpInv env s' := by
  obtain ⟨f, hmap, hf⟩ := hgroups
  have hid : ∀ g, (f g).group_id = g.group_id := fun g => by
    obtain ⟨p, hp⟩ := hf g
    rw [hp]
  have hmem : ∀ g, (f g).re_idx = g.re_idx := fun g => by
    obtain ⟨p, hp⟩ := hf g
    rw [hp]
  have hgroupsOf : ∀ gw, s'.groupsOf gw = s.groupsOf gw := fun gw => by
    rw [groupsOf, groupsOf, findGw, findGw, hret]
  have hentry : s'.entry env = s.entry env := funext fun gw => by
    rw [entry, entry, findGw, findGw, hret]
  refine ⟨h.own.keep hused ?_ hv6, ⟨⟨hret ▸ h.members.gws.unique, hret ▸ h.members.gws.vif⟩, ?_,
    ?_, fun gw => hgroupsOf gw ▸ h.members.nodup gw, fun gw gid => ?_⟩, ?_⟩
  · rw [hmap, List.map_map]
    refine List.map_congr_left fun g _ => ?_
    obtain ⟨p, hp⟩ := hf g
    rw [Function.comp_apply, hp]
    rfl
  · rw [Keyed.Unique, hmap, List.map_map, show ReGroup.group_id ∘ f = ReGroup.group_id from
      funext hid]
    exact h.members.groups
  · intro g hg
    rw [hmap] at hg
    obtain ⟨x, hx, rfl⟩ := List.mem_map.mp hg
    rw [hid, hgid]
    exact h.members.ids x hx
  · rw [hgroupsOf, h.members.joined, hmap]
    simp only [List.mem_map, exists_exists_and_eq_and, hid, hmem]
  · intro g hg
    rw [hmap] at hg
    obtain ⟨x, hx, rfl⟩ := List.mem_map.mp hg
    obtain ⟨p, hp⟩ := hf x
    have hok := h.mapped x hx
    rw [hentry, huc, hp]
    exact ⟨hok.unique, hok.count, hok.first, hok.filled, hok.entries⟩

/-- A change of the prefixes of one group, and writes to the LPM and to LTT rows. -/
theorem modifyGroup (hf : ∀ g, ∃ p, f g = { g with pfx_pbr := p }) (l : ℕ × Ip4 → Option Ltt)
    (t : ℕ × RowColum → Ltt) :
    EcmpInv env { s.modifyGroup gid f with lpm := l, ltt := t } := by
  refine h.keep rfl rfl rfl rfl rfl ⟨_, rfl, fun g => ?_⟩
  split_ifs
  · exact hf g
  · exact ⟨g.pfx_pbr, rfl⟩

omit h in
theorem addElem_eq (g : ReGroup) : ∃ p, g.addElem el = { g with pfx_pbr := p } := by
  unfold ReGroup.addElem
  split_ifs
  · exact ⟨g.pfx_pbr, rfl⟩
  · exact ⟨_, rfl⟩

/-! ### New groups -/

omit h in
/-- The indices of a new group follow one another, after the one that drops. -/
theorem popIdxs_spec (junk : ℕ → ℤ)
    (hpop : gws ≠ [] → (Ret.resPop s.ret_indexes_used gws.length).isSome) :
    (∀ k < gws.length, (s.popIdxs gws.length junk).1 k =
      (s.popIdxs gws.length junk).1 0 + k) ∧
    (gws ≠ [] → DROP_RE_IDX < (s.popIdxs gws.length junk).1 0) := by
  by_cases hne : gws = []
  · refine ⟨fun k hk => absurd hk (by simp [hne]), fun hno => absurd hne hno⟩
  · obtain ⟨⟨ids, used⟩, hp⟩ := Option.isSome_iff_exists.mp (hpop hne)
    obtain ⟨hpos, -, -, first, rfl, hreg, -, -⟩ := Ret.resPop_spec hp
    have hget : ∀ k < gws.length, (s.popIdxs gws.length junk).1 k = first + k := fun k hk => by
      simp [popIdxs, hp, Ret.idxRun, List.getD, hk]
    have hzero := hget 0 (by omega)
    rw [Nat.cast_zero, add_zero] at hzero
    rw [hzero]
    refine ⟨hget, fun _ => ?_⟩
    have hfirst : (3 : ℤ) < 5 := by decide
    exact lt_of_lt_of_le hfirst hreg

/-- A new group takes its gateways in. -/
theorem newGroup_adding (el : RoutePfxPbr) (junk : ℕ → ℤ) (hnd : gws.Nodup)
    (hpop : gws ≠ [] → (Ret.resPop s.ret_indexes_used gws.length).isSome) :
    ∃ start : ℕ, (s.newGroup env gws el junk).1.numOfPaths = start - 1 ∧
      Adding env s (getNewGroupId s.group_id) (s.newGroup env gws el junk).1.first_idx gws
        ((s.newGroup env gws el junk).2, start, (s.newGroup env gws el junk).1.re_idx) := by
  have hsame : ({ s with group_id := s.group_id ++ [getNewGroupId s.group_id] } :
      Router).popIdxs gws.length junk = ((s.popIdxs gws.length junk).1,
      { (s.popIdxs gws.length junk).2 with
        group_id := s.group_id ++ [getNewGroupId s.group_id] }) := by
    unfold popIdxs
    cases Ret.resPop s.ret_indexes_used gws.length with
    | none => rfl
    | some p => rfl
  have hpi : (s.popIdxs gws.length junk).2.ret = s.ret ∧
      (s.popIdxs gws.length junk).2.ucRoute = s.ucRoute := by
    unfold popIdxs
    split
    · exact ⟨rfl, rfl⟩
    · exact ⟨rfl, rfl⟩
  obtain ⟨hret, huc⟩ := hpi
  -- no gateway is a member yet
  have hstart : Adding env s (getNewGroupId s.group_id) ((s.popIdxs gws.length junk).1 0) []
      ({ (s.popIdxs gws.length junk).2 with
        group_id := s.group_id ++ [getNewGroupId s.group_id] }, 0, []) := by
    have hgroupsOf : ∀ gw, ({ (s.popIdxs gws.length junk).2 with
        group_id := s.group_id ++ [getNewGroupId s.group_id] } : Router).groupsOf gw =
        s.groupsOf gw := fun gw => by
      simp only [groupsOf, findGw, hret]
    refine ⟨⟨?_, ?_⟩, ?_, fun gw => ?_, fun gw gid' => ?_, rfl, Packed.filled_nil,
      fun m hm => absurd hm List.not_mem_nil, fun i _ => ?_⟩
    · simp only [hret]
      exact h.members.gws.unique
    · simp only [hret]
      exact h.members.gws.vif
    · funext gw
      simp only [entry, findGw, hret]
    · rw [hgroupsOf]
      exact h.members.nodup gw
    · rw [hgroupsOf]
      simp
    · simp only [huc]
  have hall := hstart.foldl (s.popIdxs gws.length junk).1 gws [] _ hnd
    (popIdxs_spec junk hpop).1
  unfold Router.newGroup
  dsimp only
  rw [hsame]
  exact ⟨_, rfl, hall⟩

/-- A new group of different gateways is mapped, and the others stay so. -/
theorem newGroup (el : RoutePfxPbr) (junk : ℕ → ℤ) (hnd : gws.Nodup)
    (hpop : gws ≠ [] → (Ret.resPop s.ret_indexes_used gws.length).isSome) :
    EcmpInv env { (s.newGroup env gws el junk).2 with
      re_group := (s.newGroup env gws el junk).2.re_group ++
        [(s.newGroup env gws el junk).1] } := by
  obtain ⟨start, hpaths, hadd⟩ := h.newGroup_adding el junk hnd hpop
  obtain ⟨r, c, u, hs, hid, hcount, hfirst, hmembers, -⟩ := newGroup_spec env s gws el junk
  have hown := h.own.newGroup env el junk hpop
  have hfirst' := (popIdxs_spec junk hpop).2
  have hgroup : (s.newGroup env gws el junk).2.re_group = s.re_group := by
    rw [hs]
    unfold popIdxs
    split <;> rfl
  have hgids : (s.newGroup env gws el junk).2.group_id =
      s.group_id ++ [getNewGroupId s.group_id] := by rw [hs]
  generalize (s.newGroup env gws el junk).1 = g at *
  generalize (s.newGroup env gws el junk).2 = t at *
  -- the identifier of the new group is not in use
  have hfresh : ∀ x ∈ s.re_group, x.group_id ≠ g.group_id := fun x hx heq => by
    have hin := h.members.ids x hx
    rw [heq, hid] at hin
    exact getNewGroupId_not_mem s.group_id hin
  have hlen : g.re_idx.length = gws.length := by
    have := congrArg List.length hmembers
    rwa [List.length_map] at this
  have hunique : Keyed.Unique ReIdx.gw g.re_idx := by rwa [Keyed.Unique, hmembers]
  have hentry : ({ t with re_group := t.re_group ++ [g] } : Router).entry env = s.entry env :=
    hadd.entry
  refine ⟨hown, ⟨⟨hadd.gws.unique, hadd.gws.vif⟩, ?_, fun x hx => ?_, hadd.nodup,
    fun gw gid => ?_⟩, fun x hx => ?_⟩
  · -- no identifier is in use twice
    rw [Keyed.Unique, hgroup, List.map_append, List.nodup_append]
    refine ⟨h.members.groups, List.nodup_singleton _, fun i hi j hj => ?_⟩
    obtain ⟨x, hx, rfl⟩ := List.mem_map.mp hi
    rw [List.mem_singleton.mp hj]
    exact hfresh x hx
  · show x.group_id ∈ t.group_id
    have hx : x ∈ t.re_group ++ [g] := hx
    rw [hgids]
    rw [hgroup] at hx
    rcases List.mem_append.mp hx with hx | hx
    · exact List.mem_append_left _ (h.members.ids x hx)
    · rw [List.mem_singleton.mp hx, hid]
      exact List.mem_append_right _ (List.mem_singleton_self _)
  · -- the gateways list the group when they are its members
    refine (hadd.groups gw gid).trans ?_
    rw [h.members.joined, hgroup]
    simp only [List.mem_append, List.mem_singleton, or_and_right, exists_or, exists_eq_left,
      hid, hmembers]
    exact or_congr_right (and_congr_left' eq_comm)
  · -- the members of each group are mapped
    rw [hentry]
    show Mapped (s.entry env) t.ucRoute x
    have hx' : x ∈ t.re_group ++ [g] := hx
    rw [hgroup] at hx'
    rcases List.mem_append.mp hx' with hxs | hxg
    · -- the indices of another group are not written
      have hg : g ∈ ({ t with re_group := t.re_group ++ [g] } : Router).re_group :=
        List.mem_append_right _ (List.mem_singleton_self g)
      have hdisj := hown.runsDisjoint x hx g hg (hfresh x hxs)
      refine (h.mapped x hxs).congr (fun _ _ => rfl) fun i hi => hadd.frame i fun hin => ?_
      have hle := hadd.filled.le_length hunique
      have hin' : g.first_idx ≤ i ∧ i < g.first_idx + start := hin
      have hle' : (start : ℤ) ≤ g.re_idx.length := hle
      refine hdisj hi ?_
      rw [ReGroup.run, Ret.mem_idxRun, hcount, Int.toNat_natCast]
      omega
    · obtain rfl := List.mem_singleton.mp hxg
      refine ⟨hunique, by rw [hcount, hlen], fun hne => ?_, ?_, hadd.entries⟩
      · rw [hfirst]
        refine hfirst' fun hnil => hne ?_
        rw [hnil, List.length_nil] at hlen
        exact List.eq_nil_of_length_eq_zero hlen
      · rw [hpaths, sub_add_cancel]
        exact hadd.filled

theorem retGroupAdd {ip : Ip4} {alen : ℕ}
    (hok : (∃ g ∈ s.re_group, compareLists gws g.re_idx = true) ∨ gws.Nodup ∧
      (gws ≠ [] → (Ret.resPop s.ret_indexes_used gws.length).isSome)) :
    EcmpInv env (s.retGroupAdd env gws ip alen junk).2 := by
  unfold Router.retGroupAdd
  cases hf : s.re_group.find? fun el => compareLists gws el.re_idx with
  | some g => exact h.modifyGroup addElem_eq _ s.ltt
  | none =>
    have hnone := List.find?_eq_none.mp hf
    obtain ⟨hnd, hpop⟩ := hok.resolve_left fun ⟨g, hg, hc⟩ => hnone g hg hc
    have hnew := h.newGroup (.pfx ip alen) junk hnd hpop
    exact hnew.keep rfl rfl rfl rfl rfl ⟨id, (List.map_id _).symm, fun g => ⟨g.pfx_pbr, rfl⟩⟩

theorem retGroupAddPbr {ix : RowColum} {interface : PclInterface}
    (hok : (∃ g ∈ s.re_group, compareLists gws g.re_idx = true) ∨ gws.Nodup ∧
      (gws ≠ [] → (Ret.resPop s.ret_indexes_used gws.length).isSome)) :
    EcmpInv env (s.retGroupAddPbr env gws ix interface junk).2 := by
  unfold Router.retGroupAddPbr
  cases hf : s.re_group.find? fun el => compareLists gws el.re_idx with
  | some g =>
    dsimp only
    split
    · exact h.modifyGroup addElem_eq s.lpm s.ltt
    · obtain ⟨t, ht⟩ := retGroupLttTcamSet_eq env
        (s.modifyGroup g.group_id (·.addElem (.pbr ix interface))) ix interface _
      rw [ht]
      exact h.modifyGroup addElem_eq s.lpm t
  | none =>
    have hnone := List.find?_eq_none.mp hf
    obtain ⟨hnd, hpop⟩ := hok.resolve_left fun ⟨g, hg, hc⟩ => hnone g hg hc
    have hnew := h.newGroup (.pbr ix interface) junk hnd hpop
    obtain ⟨t, ht⟩ := retGroupLttTcamSet_eq env (s.newGroup env gws (.pbr ix interface) junk).2 ix
      interface (s.newGroup env gws (.pbr ix interface) junk).1
    dsimp only
    rw [ht]
    exact hnew.keep rfl rfl rfl rfl rfl ⟨id, (List.map_id _).symm, fun g => ⟨g.pfx_pbr, rfl⟩⟩

/-! ### Deleted groups -/

/-- A group that goes lets its members go. -/
theorem retGroupDel2 (hf : s.findGroup g.group_id = some g)
    (hown : OwnInv { s.retGroupDel2 g with
      re_group := Keyed.del ReGroup.group_id (s.retGroupDel2 g).re_group g.group_id } 0) :
    EcmpInv env { s.retGroupDel2 g with
      re_group := Keyed.del ReGroup.group_id (s.retGroupDel2 g).re_group g.group_id } := by
  have hg := Keyed.mem_of_find hf
  obtain ⟨hgws, hnodup, hmem, hent⟩ := foldl_retUnref_spec g.re_idx s g.group_id
    h.members.gws h.members.nodup
  obtain ⟨r, n, c, heq⟩ := foldl_retUnref_eq g.group_id g.re_idx s
  unfold Router.retGroupDel2 at hown ⊢
  dsimp only at hown ⊢
  rw [heq] at hgws hnodup hmem hent hown ⊢
  have hdel : ∀ x, x ∈ Keyed.del ReGroup.group_id s.re_group g.group_id ↔
      x ∈ s.re_group ∧ x.group_id ≠ g.group_id := fun x => h.members.groups.mem_del_iff
  refine ⟨hown, ⟨⟨hgws.unique, hgws.vif⟩, h.members.groups.del, fun x hx => ?_, hnodup,
    fun gw gid => ?_⟩, fun x hx => ?_⟩
  · obtain ⟨hx, hne⟩ := (hdel x).mp hx
    exact (List.mem_erase_of_ne hne).mpr (h.members.ids x hx)
  · refine (hmem gw gid).trans ?_
    rw [h.members.joined]
    constructor
    · rintro ⟨⟨x, hx, rfl, hgw⟩, hno⟩
      refine ⟨x, (hdel x).mpr ⟨hx, fun heq => hno ⟨heq, ?_⟩⟩, rfl, hgw⟩
      rwa [← h.members.groups.eq_of_mem hx hg heq]
    · rintro ⟨x, hx, rfl, hgw⟩
      obtain ⟨hx, hne⟩ := (hdel x).mp hx
      exact ⟨⟨x, hx, rfl, hgw⟩, fun hno => hne hno.1⟩
  · obtain ⟨hx, hne⟩ := (hdel x).mp hx
    refine (h.mapped x hx).congr (fun m hm => ?_) fun _ _ => rfl
    -- a member of another group keeps its entry
    refine (hent m.gw).resolve_right fun hnil => ?_
    have hin := (hmem m.gw x.group_id).mpr ⟨(h.members.joined m.gw x.group_id).mpr
      ⟨x, hx, rfl, List.mem_map_of_mem hm⟩, fun hno => hne hno.1⟩
    rw [hnil] at hin
    exact List.not_mem_nil hin

/-- A group that has no prefix any more goes. -/
theorem retGroupDelElem : EcmpInv env (s.retGroupDelElem gid el) := by
  have hown : OwnInv (s.retGroupDelElem gid el) 0 := h.own.retGroupDelElem
  unfold Router.retGroupDelElem at hown ⊢
  cases hf : s.findGroup gid with
  | none => exact h
  | some g =>
  have hg := Keyed.mem_of_find hf
  obtain rfl : g.group_id = gid := Keyed.key_of_find hf
  have hmod : EcmpInv env (s.modifyGroup g.group_id (·.removeElem el)) :=
    h.modifyGroup (fun g => ⟨_, rfl⟩) s.lpm s.ltt
  rw [hf] at hown
  dsimp only at hown ⊢
  split_ifs at hown ⊢
  · exact hmod.retGroupDel2 (g := g.removeElem el) (Keyed.find_modify_self (fun _ => rfl) hf) hown
  · exact hmod

/-! ### MAC addresses -/

/-- The gateway has changed, and its groups react. -/
theorem fanOut {re' : Re} {s₁ : Router} {changed : Bool} (hf : s.findGw gw = some re)
    (hown : OwnInv (re.group_ids.foldl
      (fun s gid => s.retGroupGwChanged env gid re' changed) s₁) 0)
    (hs₁ : s₁.re_group = s.re_group ∧ s₁.ucRoute = s.ucRoute ∧ s₁.group_id = s.group_id)
    (hgws : GwsOk env s₁)
    (hfind : ∀ gw', s₁.findGw gw' = if gw' = gw then some re' else s.findGw gw')
    (hgroups : re'.group_ids = re.group_ids) (hgw : re'.gw = gw)
    (hch : changed = (re.valid != re'.valid)) :
    EcmpInv env (re.group_ids.foldl
      (fun s gid => s.retGroupGwChanged env gid re' changed) s₁) := by
  obtain ⟨hgroup, huc, hgid⟩ := hs₁
  -- only the entry of the gateway itself may have changed
  have hent : s₁.entry env = update (s.entry env) re'.gw (re'.entry env) := by
    funext gw'
    rw [entry, hfind, hgw]
    split_ifs with hgw'
    · rw [hgw', update_self, Option.bind_some]
    · rw [update_of_ne hgw', entry]
  have hgroupsOf : ∀ gw', s₁.groupsOf gw' = s.groupsOf gw' := fun gw' => by
    rw [groupsOf, groupsOf, hfind]
    split_ifs with hgw'
    · rw [hgw', hf]
      exact hgroups
    · rfl
  have hre : s.groupsOf gw = re.group_ids := by rw [groupsOf, hf]
  have hmembers : MembersOk env s₁ := by
    refine ⟨hgws, hgroup ▸ h.members.groups, fun g hg => ?_, fun gw' => ?_, fun gw' gid' => ?_⟩
    · rw [hgid]
      exact h.members.ids g (hgroup ▸ hg)
    · exact hgroupsOf gw' ▸ h.members.nodup gw'
    · rw [hgroupsOf, hgroup]
      exact h.members.joined gw' gid'
  -- the loop over its groups changes their mapping and the hardware
  have hfan : Fanned s₁ (re.group_ids.foldl
      (fun s gid => s.retGroupGwChanged env gid re' changed) s₁) :=
    fanned_foldl_retGroupGwChanged re.group_ids s₁
  have hentfan : (re.group_ids.foldl
      (fun s gid => s.retGroupGwChanged env gid re' changed) s₁).entry env = s₁.entry env := by
    obtain ⟨g, u, l, t, heq, -⟩ := hfan
    rw [heq]
    rfl
  refine ⟨hown, hmembers.of_fanned hfan, ?_⟩
  rw [hentfan]
  refine mapped_foldl_retGroupGwChanged re.group_ids s₁
    (hre ▸ h.members.nodup gw) hmembers.groups ?_ hent ?_ ?_ (fun g hg hin => ?_)
    (fun g hg _ => huc ▸ h.mapped g (hgroup ▸ hg)) fun g hg hno => ?_
  · rw [RunsDisjoint, hgroup]
    exact h.own.runsDisjoint
  · have hre' : s₁.findGw gw = some re' := by rw [hfind, if_pos rfl]
    exact (isSome_entry (hgws.vif re' (Keyed.mem_of_find hre'))).symm
  · rw [hch, hgw, h.members.gws.isSome_entry hf]
  · -- the groups that the entry lists are those with the gateway
    rw [hgw]
    rw [hgroup] at hg
    obtain ⟨x, hx, hid, hgw'⟩ := (h.members.joined gw g.group_id).mp (hre ▸ hin)
    rwa [← h.members.groups.eq_of_mem hx hg hid]
  · -- a group without the gateway keeps what it shows
    rw [hgroup] at hg
    refine (h.mapped g hg).congr (fun m hm => ?_) fun i _ => congrFun huc i
    have hne : m.gw ≠ re'.gw := fun heq => hno <| hre ▸
      (h.members.joined gw g.group_id).mpr ⟨g, hg, rfl, hgw ▸ heq ▸ List.mem_map_of_mem hm⟩
    rw [hent, update_of_ne hne]

omit h in
/-- A valid gateway whose interface exists may take the place of an entry. -/
theorem gwsOk_modify {f : Re → Re} (hgws : GwsOk env s) (hgw : ∀ re, (f re).gw = re.gw)
    (hvif : ∀ re ∈ s.ret, (f re).valid = true → (env.vifGetn (f re).vif_id).isSome = true) :
    GwsOk env (s.modifyGw gw f) := by
  refine ⟨hgws.unique.modify hgw, fun x hx => ?_⟩
  rcases Keyed.mem_modify_iff.mp hx with ⟨y, hy, -, rfl⟩ | ⟨hx, -⟩
  · exact hvif y hy
  · exact hgws.vif x hx

omit h in
theorem findGw_modifyGw_ite {f : Re → Re} (hgw : ∀ re, (f re).gw = re.gw)
    (hf : s.findGw gw = some re) (gw' : Gw) :
    (s.modifyGw gw f).findGw gw' = if gw' = gw then some (f re) else s.findGw gw' := by
  split_ifs with hgw'
  · rw [hgw', findGw_modifyGw_self hgw hf]
  · exact findGw_modifyGw_of_ne hgw hgw'

theorem retSetMacAddr {addr : Mac} {vif_id : ℕ} {arpOk : Bool}
    (hok : ∀ re, s.findGw gw = some re → s.nh.Accepts addr arpOk ∨
      re.valid = true ∧ env.vifGetn re.vif_id = env.vifGetn vif_id) :
    EcmpInv env (s.retSetMacAddr env gw addr vif_id arpOk).2 := by
  have hown : OwnInv (s.retSetMacAddr env gw addr vif_id arpOk).2 0 := h.own.retSetMacAddr
  unfold Router.retSetMacAddr at hown ⊢
  by_cases hvif : env.vifGetn vif_id = none
  · rw [if_pos hvif]
    exact h
  rw [if_neg hvif] at hown ⊢
  have hsome : (env.vifGetn vif_id).isSome = true := Option.isSome_iff_ne_none.mpr hvif
  cases hf : s.findGw gw with
  | none => exact h
  | some re =>
  rw [hf] at hown
  dsimp only at hown ⊢
  -- a gateway that has the address already is not touched
  by_cases hsame : re.valid = true ∧ re.addr = addr ∧ re.vif_id = vif_id
  · rw [if_pos hsame]
    exact h
  rw [if_neg hsame] at hown ⊢
  have hnh : (s.modifyGw gw fun re =>
    { re with valid := true, addr := addr, vif_id := vif_id }).nh =
      s.nh := rfl
  rw [hnh] at hown ⊢
  have hgws : GwsOk env
      (s.modifyGw gw fun re => { re with valid := true, addr := addr, vif_id := vif_id }) :=
    gwsOk_modify h.members.gws (fun _ => rfl) fun _ _ _ => hsome
  have hfind := findGw_modifyGw_ite
    (f := fun re => { re with valid := true, addr := addr, vif_id := vif_id }) (fun _ => rfl) hf
  rcases hadd : s.nh.nhtAdd addr arpOk with ⟨_ | nh_idx, nh⟩
  · -- the gateway was valid, and keeps its next hop and its interface
    obtain ⟨hv, hif⟩ := (hok re hf).resolve_left fun hacc =>
      (s.nh.nhtAdd_ne_none_iff addr arpOk).mpr hacc (by rw [hadd])
    have hgroupsOf : ∀ gw', (s.modifyGw gw fun re =>
        { re with valid := true, addr := addr, vif_id := vif_id }).groupsOf gw' =
        s.groupsOf gw' := fun gw' => by
      rw [groupsOf, groupsOf, hfind]
      split_ifs with hgw
      · rw [hgw, hf]
      · rfl
    have hentry : (s.modifyGw gw fun re =>
        { re with valid := true, addr := addr, vif_id := vif_id }).entry env = s.entry env := by
      funext gw'
      rw [entry, entry, hfind]
      split_ifs with hgw
      · rw [hgw, hf, Option.bind_some, Option.bind_some, Re.entry, Re.entry, if_pos rfl, if_pos hv,
          hif]
      · rfl
    rw [hadd] at hown
    refine ⟨hown, ⟨⟨hgws.unique, hgws.vif⟩, h.members.groups, h.members.ids,
      fun gw' => (hgroupsOf gw').symm ▸ h.members.nodup gw', fun gw' gid' => ?_⟩, ?_⟩
    · exact (hgroupsOf gw').symm ▸ h.members.joined gw' gid'
    · exact hentry.symm ▸ h.mapped
  · -- the gateway gets its next hop, and its groups are updated
    rw [hadd] at hown
    dsimp only at hown ⊢
    have hmod : Keyed.modify Re.gw (Keyed.modify Re.gw s.ret gw fun re =>
        { re with valid := true, addr := addr, vif_id := vif_id }) gw
        (fun re => { re with nh_idx := nh_idx }) = Keyed.modify Re.gw s.ret gw fun re =>
          { re with valid := true, addr := addr, vif_id := vif_id, nh_idx := nh_idx } :=
      Keyed.modify_modify fun _ => rfl
    have hgws' : GwsOk env (s.modifyGw gw fun re =>
        { re with valid := true, addr := addr, vif_id := vif_id, nh_idx := nh_idx }) :=
      gwsOk_modify h.members.gws (fun _ => rfl) fun _ _ _ => hsome
    have hfind' := findGw_modifyGw_ite (f := fun re =>
      { re with valid := true, addr := addr, vif_id := vif_id, nh_idx := nh_idx })
      (fun _ => rfl) hf
    simp only [modifyGw] at hown hfind' hgws' ⊢
    rw [hmod] at hown ⊢
    exact h.fanOut hf hown ⟨rfl, rfl, rfl⟩ ⟨hgws'.unique, hgws'.vif⟩ hfind' rfl
      (Keyed.key_of_find (x := re) hf) (by cases re.valid <;> rfl)

theorem retUnsetMacAddr : EcmpInv env (s.retUnsetMacAddr env gw).2 := by
  have hown : OwnInv (s.retUnsetMacAddr env gw).2 0 := h.own.retUnsetMacAddr
  unfold Router.retUnsetMacAddr at hown ⊢
  cases hf : s.findGw gw with
  | none => exact h
  | some re =>
  rw [hf] at hown
  dsimp only at hown ⊢
  by_cases hv : re.valid = true
  · rw [if_pos hv] at hown ⊢
    dsimp only at hown ⊢
    have hgws : GwsOk env (s.modifyGw gw fun re => { re with valid := false }) :=
      gwsOk_modify h.members.gws (fun _ => rfl) fun _ _ hno => absurd hno Bool.false_ne_true
    have hfind := findGw_modifyGw_ite (f := fun re => { re with valid := false }) (fun _ => rfl) hf
    exact h.fanOut hf hown ⟨rfl, rfl, rfl⟩ ⟨hgws.unique, hgws.vif⟩ hfind rfl
      (Keyed.key_of_find (x := re) hf) (by rw [hv]; rfl)
  · rw [if_neg hv]
    exact h

end EcmpInv

/-! ### Runs -/

/-- Calls of the gateway groups, in which a new group has different gateways and gets its indices,
and a gateway that is not valid yet, or changes its interface, gets its next hop. -/
def GroupCall (env : RouteEnv) (s : Router) : GwOp → Prop
  | .retGroupAdd gws _ _ _ | .retGroupAddPbr gws _ _ _ =>
    (∃ g ∈ s.re_group, compareLists gws g.re_idx = true) ∨ gws.Nodup ∧
      (gws ≠ [] → (Ret.resPop s.ret_indexes_used gws.length).isSome)
  | .retGroupDel _ _ _ | .retGroupDelPbr _ _ _ | .retUnsetMacAddr _ => True
  | .retSetMacAddr gw addr vif_id arpOk => env.vifGetn vif_id = none ∨
    ∀ re ∈ s.findGw gw, s.nh.Accepts addr arpOk ∨
      re.valid = true ∧ env.vifGetn re.vif_id = env.vifGetn vif_id
  | _ => False

instance (env : RouteEnv) (s : Router) (op : GwOp) : Decidable (GroupCall env s op) :=
  match op with
  | .retGroupAdd gws _ _ _ | .retGroupAddPbr gws _ _ _ =>
    inferInstanceAs (Decidable ((∃ g ∈ s.re_group, compareLists gws g.re_idx = true) ∨ gws.Nodup ∧
      (gws ≠ [] → (Ret.resPop s.ret_indexes_used gws.length).isSome)))
  | .retSetMacAddr gw addr vif_id arpOk => inferInstanceAs (Decidable (env.vifGetn vif_id = none ∨
      ∀ re ∈ s.findGw gw, s.nh.Accepts addr arpOk ∨
        re.valid = true ∧ env.vifGetn re.vif_id = env.vifGetn vif_id))
  | .retGroupDel _ _ _ | .retGroupDelPbr _ _ _ | .retUnsetMacAddr _ => .isTrue trivial
  | .retAdd _ _ | .retUnref _ _ | .retIpv6Add _ _ _ | .retIpv6Unref _ _
  | .retIpv6SetMacAddr _ _ _ _ _ => .isFalse id

theorem EcmpInv.gwStep (h : EcmpInv env s) {op : GwOp} (hok : GroupCall env s op)
    (hstep : gwStep env s op = some s') : EcmpInv env s' := by
  cases op with
  | retGroupAdd gws ip alen junk =>
    obtain rfl := Option.some_inj.mp hstep
    exact h.retGroupAdd hok
  | retGroupAddPbr gws ix interface junk =>
    obtain rfl := Option.some_inj.mp hstep
    exact h.retGroupAddPbr hok
  | retGroupDel gid pfx alen =>
    obtain rfl := Option.some_inj.mp hstep
    exact h.retGroupDelElem
  | retGroupDelPbr gid ix interface =>
    obtain rfl := Option.some_inj.mp hstep
    exact h.retGroupDelElem
  | retSetMacAddr gw addr vif_id arpOk =>
    obtain rfl := Option.some_inj.mp hstep
    rcases hok with hno | hok
    · have hsame : (s.retSetMacAddr env gw addr vif_id arpOk).2 = s := by
        unfold Router.retSetMacAddr
        rw [if_pos hno]
      exact hsame.symm ▸ h
    · exact h.retSetMacAddr hok
  | retUnsetMacAddr gw =>
    obtain rfl := Option.some_inj.mp hstep
    exact h.retUnsetMacAddr
  | retAdd gw gid => exact hok.elim
  | retUnref gw gid => exact hok.elim
  | retIpv6Add gw is_def ret_key => exact hok.elim
  | retIpv6Unref gw is_def => exact hok.elim
  | retIpv6SetMacAddr gw addr vif_id arpOk reOk => exact hok.elim

variable {uc : ℤ → UcRoute} {arp : ℕ → Mac} {ltt : ℕ × RowColum → Ltt}

theorem ecmpInv_init : EcmpInv env (init uc arp ltt) := by
  refine ⟨⟨Keyed.unique_nil, fun g hg => absurd hg List.not_mem_nil, rfl, List.nodup_nil,
    fun i hi => absurd hi List.not_mem_nil⟩, ⟨⟨Keyed.unique_nil,
    fun re hre => absurd hre List.not_mem_nil⟩, Keyed.unique_nil,
    fun g hg => absurd hg List.not_mem_nil, fun gw => List.nodup_nil, fun gw gid => ?_⟩,
    fun g hg => absurd hg List.not_mem_nil⟩
  exact ⟨fun hin => absurd hin List.not_mem_nil, fun ⟨g, hg, _⟩ => absurd hg List.not_mem_nil⟩

/-- The entry of the gateway is valid. -/
def validGw (s : Router) (gw : Gw) : Bool := (s.findGw gw).any Re.valid

/-- The valid members of a group are mapped one-to-one to its paths, which forward to them, and the
other members to the index that drops. The gateways that list the group are its members. -/
structure Balanced (env : RouteEnv) (s : Router) (g : ReGroup) : Prop where
  bij : Set.BijOn ReIdx.idx {m | m ∈ g.re_idx ∧ s.validGw m.gw = true}
    {i | g.first_idx ≤ i ∧ i ≤ g.first_idx + g.numOfPaths}
  drop : ∀ m ∈ g.re_idx, s.validGw m.gw = false → m.idx = DROP_RE_IDX
  count : g.numOfPaths + 1 = g.re_idx.countP fun m => s.validGw m.gw
  known : ∀ m ∈ g.re_idx, ∃ re ∈ s.ret, re.gw = m.gw
  joined : ∀ re ∈ s.ret, g.group_id ∈ re.group_ids ↔ re.gw ∈ g.re_idx.map ReIdx.gw
  entries : ∀ m ∈ g.re_idx, ∀ re ∈ s.ret, re.gw = m.gw → re.valid = true →
    ∃ vif, env.vifGetn re.vif_id = some vif ∧
      s.ucRoute m.idx = .route vif re.nh_idx re.gw.vid

theorem EcmpInv.validGw_eq (h : EcmpInv env s) (gw : Gw) :
    s.validGw gw = (s.entry env gw).isSome := by
  unfold validGw
  cases hf : s.findGw gw with
  | none =>
    rw [entry, hf]
    rfl
  | some re => exact (h.members.gws.isSome_entry hf).symm

theorem EcmpInv.balanced (h : EcmpInv env s) (hg : g ∈ s.re_group) : Balanced env s g := by
  have hok := h.mapped g hg
  have hjoined : ∀ gw, g.group_id ∈ s.groupsOf gw ↔ gw ∈ g.re_idx.map ReIdx.gw := fun gw => by
    rw [h.members.joined]
    constructor
    · rintro ⟨x, hx, hid, hgw⟩
      rwa [← h.members.groups.eq_of_mem hx hg hid]
    · exact fun hgw => ⟨g, hg, rfl, hgw⟩
  have hfind : ∀ re ∈ s.ret, s.findGw re.gw = some re := fun re hre =>
    h.members.gws.unique.find_eq_some_iff.mpr ⟨hre, rfl⟩
  refine ⟨⟨?_, ?_, ?_⟩, ?_, ?_, fun m hm => ?_, fun re hre => ?_, fun m hm re hre hgw hv => ?_⟩
  · rintro m ⟨hm, hv⟩
    have hrange := hok.filled.range m hm (h.validGw_eq m.gw ▸ hv)
    exact ⟨hrange.1, by have : m.idx < _ := hrange.2; omega⟩
  · rintro m ⟨hm, hv⟩ m' ⟨hm', hv'⟩ heq
    exact hok.unique.eq_of_mem hm hm' (hok.filled.inj m hm m' hm' (h.validGw_eq m.gw ▸ hv)
      (h.validGw_eq m'.gw ▸ hv') heq)
  · rintro i ⟨hi, hi'⟩
    obtain ⟨m, hm, hv, hidx⟩ := hok.filled.surj i hi (by omega)
    have hv : (s.entry env m.gw).isSome = true := hv
    exact ⟨m, ⟨hm, by rw [h.validGw_eq, hv]⟩, hidx⟩
  · intro m hm hv
    refine hok.filled.off m hm ?_
    show ¬(s.entry env m.gw).isSome = true
    rw [← h.validGw_eq, hv]
    exact Bool.false_ne_true
  · rw [← hok.filled.countP_eq hok.unique]
    have hcount : (fun m : ReIdx => s.validGw m.gw) = fun m =>
        decide ((s.entry env (memberSlots.key m)).isSome = true) := by
      funext m
      rw [h.validGw_eq]
      exact Bool.decide_eq_true.symm
    rw [hcount]
  · have hin := (hjoined m.gw).mpr (List.mem_map_of_mem hm)
    unfold groupsOf at hin
    cases hf : s.findGw m.gw with
    | none =>
      rw [hf] at hin
      exact absurd hin List.not_mem_nil
    | some re => exact ⟨re, Keyed.mem_of_find hf, Keyed.key_of_find hf⟩
  · have hre' : s.groupsOf re.gw = re.group_ids := by rw [groupsOf, hfind re hre]
    rw [← hre', hjoined]
  · obtain ⟨vif, hvif⟩ := Option.isSome_iff_exists.mp (h.members.gws.vif re hre hv)
    refine ⟨vif, hvif, hok.entries m hm _ ?_⟩
    rw [← hgw, entry_of_find (hfind re hre), Re.entry, if_pos hv, hvif, Option.map_some]

/-- In every state that runs of group calls reach, all groups are balanced. -/
theorem groups_balanced (hr : Reach (gwStep env) (GroupCall env) (init uc arp ltt) s) :
    ∀ g ∈ s.re_group, Balanced env s g := by
  have hinv : EcmpInv env s := hr.invariant (EcmpInv env) ecmpInv_init
    fun _ _ _ h hok hstep => h.gwStep hok hstep
  exact fun g hg => hinv.balanced hg

/-- The first MAC address of a gateway finds no next hop. The gateway is valid from then on, but
its group has not heard of it. -/
theorem not_groups_balanced : ∃ s, Reach (gwStep .onePort) (fun _ _ => True) blank s ∧
    ¬∀ g ∈ s.re_group, Balanced .onePort s g := by
  have hrun : (run (gwStep .onePort) (fun _ _ => True) blank
      [.retGroupAdd [⟨1, 10⟩] 0 8 fun _ => 0, .retSetMacAddr ⟨1, 10⟩ 0xA 1 false]).map
        (fun s => (s.re_group, s.validGw ⟨1, 10⟩)) =
      some ([⟨1, 1, 5, -1, [⟨⟨1, 10⟩, DROP_RE_IDX⟩], [.pfx 0 8]⟩], true) := by
    decide
  obtain ⟨s, hs, hprobe⟩ := Option.map_eq_some_iff.mp hrun
  simp only [Prod.mk.injEq] at hprobe
  refine ⟨s, Reach.init.of_run hs, fun hc => ?_⟩
  have hcount := (hc _ (by rw [hprobe.1]; exact List.mem_singleton_self _)).count
  rw [List.countP_singleton, hprobe.2] at hcount
  exact absurd hcount (by decide)

/-- Two gateways learn their MAC addresses in a group of three, and one loses it again. -/
theorem groups_balanced_three : ∃ s : Router,
    s.re_group.map (·.re_idx.map ReIdx.idx) = [[DROP_RE_IDX, 5, DROP_RE_IDX]] ∧
    ∀ g ∈ s.re_group, Balanced .onePort s g := by
  have hrun : (run (gwStep .onePort) (GroupCall .onePort) blank
      [.retGroupAdd [⟨1, 10⟩, ⟨2, 10⟩, ⟨3, 10⟩] 0 8 fun _ => 0,
        .retSetMacAddr ⟨3, 10⟩ 0xC 1 true, .retSetMacAddr ⟨2, 10⟩ 0xB 1 true,
        .retUnsetMacAddr ⟨3, 10⟩]).map (·.re_group.map (·.re_idx.map ReIdx.idx)) =
      some [[DROP_RE_IDX, 5, DROP_RE_IDX]] := by
    decide
  obtain ⟨s, hs, hprobe⟩ := Option.map_eq_some_iff.mp hrun
  exact ⟨s, hprobe, groups_balanced (Reach.init.of_run hs)⟩

end Router

end Presteramgr
