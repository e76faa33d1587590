import Mathlib.Algebra.Order.Group.Multiset
import Mathlib.Tactic.Abel
import Presteramgr.Lib.Guarded
import Presteramgr.Ret.Frame
import Presteramgr.Ret.Run

/-!
# References to next hops

A gateway whose MAC address is known uses the next hop of that address. The next-hop table should
count exactly these uses, so that an ARP entry is taken as long as a gateway needs it and no longer.

## Main definitions

* `users`: the addresses that valid gateways use;
* `UsersInv s X`: the table counts the users, and references `X` that no gateway holds any more;
* `Paired`: the calls that take and release one reference each.

## Main results

* `next_hops_counted`: in runs of paired calls the table counts exactly the users.
-/

namespace Presteramgr

open Guarded

/-- The address that a gateway uses. -/
def Re.user (re : Re) : Option Mac := if re.valid then some re.addr else none

@[inherit_doc Re.user]
def ReIpv6.user (re : ReIpv6) : Option Mac := if re.valid then some re.addr else none

namespace Router

/-- The addresses that valid gateways use, one for each. -/
def users (s : Router) : Multiset Mac :=
  (s.ret.filterMap Re.user : Multiset Mac) + (s.ret_ipv6.filterMap ReIpv6.user : Multiset Mac)

/-- The table counts the users and the references `X` that no gateway holds any more. -/
structure UsersInv (s : Router) (X : Multiset Mac) : Prop where
  unique : Keyed.Unique Re.gw s.ret
  uniqueV6 : Keyed.Unique keyV6 s.ret_ipv6
  nh : s.nh.NhInv (s.users + X)

variable {env : RouteEnv} {s s' : Router} {X : Multiset Mac} {gw : Gw} {gwV6 : GwV6} {re : Re}
  {reV6 : ReIpv6} {gid : ℤ} {addr : Mac} {vif_id : ℕ} {arpOk reOk is_def : Bool}

/-- What is fanned out of the gateways uses no next hop. -/
theorem Fanned.usersInv (hf : Fanned s s') (h : UsersInv s X) : UsersInv s' X := by
  obtain ⟨g, u, l, t, rfl, -⟩ := hf
  exact ⟨h.unique, h.uniqueV6, h.nh⟩

/-! ### The users of one entry and the rest -/

/-- The users besides the gateway `gw`. -/
def usersBut (s : Router) (gw : Gw) : Multiset Mac :=
  ((Keyed.del Re.gw s.ret gw).filterMap Re.user : Multiset Mac) +
    (s.ret_ipv6.filterMap ReIpv6.user : Multiset Mac)

/-- The users besides the IPv6 gateway `gw`. -/
def usersButV6 (s : Router) (gw : GwV6) : Multiset Mac :=
  (s.ret.filterMap Re.user : Multiset Mac) +
    ((Keyed.del keyV6 s.ret_ipv6 gw.hashKey).filterMap ReIpv6.user : Multiset Mac)

/-- The users are that of one gateway and those of the others. -/
theorem users_eq (hf : s.findGw gw = some re) :
    s.users = (re.user.toList : Multiset Mac) + s.usersBut gw := by
  rw [users, usersBut, Keyed.coe_filterMap_of_find Re.user hf, add_assoc]

/-- A change of one gateway changes its own use only. -/
theorem users_modifyGw (hu : Keyed.Unique Re.gw s.ret) (hf : s.findGw gw = some re)
    (f : Re → Re) :
    (s.modifyGw gw f).users = ((f re).user.toList : Multiset Mac) + s.usersBut gw := by
  rw [users, usersBut, modifyGw, hu.coe_filterMap_modify Re.user hf, add_assoc]

/-- The users are that of one IPv6 gateway and those of the others. -/
theorem users_eq_v6 (hf : s.findGwV6 gwV6 = some reV6) :
    s.users = (reV6.user.toList : Multiset Mac) + s.usersButV6 gwV6 := by
  rw [users, usersButV6, Keyed.coe_filterMap_of_find ReIpv6.user hf, add_left_comm]

/-- A change of one IPv6 gateway changes its own use only. -/
theorem users_modifyGwV6 (hu : Keyed.Unique keyV6 s.ret_ipv6) (hf : s.findGwV6 gwV6 = some reV6)
    (f : ReIpv6 → ReIpv6) :
    (s.modifyGwV6 gwV6 f).users =
      ((f reV6).user.toList : Multiset Mac) + s.usersButV6 gwV6 := by
  rw [users, usersButV6, modifyGwV6, hu.coe_filterMap_modify ReIpv6.user hf, add_left_comm]

namespace UsersInv

variable (h : UsersInv s X)

include h

/-! ### Gateways of groups -/

/-- A change that keeps the gateway, its validity and its address. -/
theorem modifyGw {f : Re → Re} (hgw : ∀ re, (f re).gw = re.gw)
    (huser : ∀ re, (f re).user = re.user) : UsersInv (s.modifyGw gw f) X := by
  have husers : (s.modifyGw gw f).users = s.users := by
    simp only [users, Router.modifyGw, Keyed.filterMap_modify Re.user huser]
  exact ⟨h.unique.modify hgw, h.uniqueV6, by rw [husers]; exact h.nh⟩

/-- A gateway that is added has no address yet and uses nothing. -/
theorem retAdd : UsersInv (s.retAdd gw gid).2 X := by
  unfold Router.retAdd
  cases hf : s.findGw gw with
  | some re => exact h.modifyGw (fun _ => rfl) fun _ => rfl
  | none =>
    -- a new gateway is not valid
    exact ⟨h.unique.cons (Keyed.find_eq_none_iff.mp hf), h.uniqueV6, h.nh⟩

/-- A gateway that is let go gives back the next hop it used. -/
theorem retUnref : UsersInv (s.retUnref gw gid).2 X := by
  unfold Router.retUnref
  cases hf : s.findGw gw with
  | none => exact h
  | some re =>
    have hkeep : UsersInv (s.modifyGw gw fun re =>
        { re with group_ids := retRemoveGroupFromList re.group_ids gid }) X :=
      h.modifyGw (fun _ => rfl) fun _ => rfl
    by_cases hlast : retRemoveGroupFromList re.group_ids gid = []
    · have hdel : Keyed.del Re.gw (Keyed.modify Re.gw s.ret gw fun re =>
          { re with group_ids := retRemoveGroupFromList re.group_ids gid }) gw =
          Keyed.del Re.gw s.ret gw := h.unique.del_modify fun _ => rfl
      have husers := users_eq hf
      simp only [if_pos hlast, Router.modifyGw, hdel]
      by_cases hv : re.valid = true
      · simp only [if_pos hv]
        refine ⟨h.unique.del, h.uniqueV6, ?_⟩
        have hmem : re.addr ∈ s.users + X := by simp [husers, Re.user, hv]
        have herase : (s.users + X).erase re.addr = s.usersBut gw + X := by
          simp [husers, Re.user, hv, Multiset.singleton_add]
        have hunref := (h.nh.nhtUnref hmem).2
        rw [herase] at hunref
        exact hunref
      · simp only [if_neg hv]
        have hsame : s.users = s.usersBut gw := by simp [husers, Re.user, hv]
        refine ⟨h.unique.del, h.uniqueV6, ?_⟩
        have hnh := h.nh
        rw [hsame] at hnh
        exact hnh
    · simp only [if_neg hlast]
      exact hkeep

omit h in
/-- The members of a group are added one after the other. -/
theorem foldl_addMember {idxs : ℕ → ℤ} (gws : List Gw) (acc : Router × ℕ × List ReIdx)
    (hacc : UsersInv acc.1 X) : UsersInv (gws.foldl (addMember env gid idxs) acc).1 X := by
  induction gws generalizing acc with
  | nil => exact hacc
  | cons gw gws ih =>
    refine ih _ ?_
    obtain ⟨s, start, members⟩ := acc
    have hadd : UsersInv (s.retAdd gw gid).2 X := hacc.retAdd
    unfold addMember
    dsimp only
    split_ifs
    · exact fanned_retSetReToIdx.usersInv hadd
    · exact hadd

/-- Taking the indices of a group uses no next hop. -/
theorem popIdxs {count : ℕ} {junk : ℕ → ℤ} : UsersInv (s.popIdxs count junk).2 X := by
  unfold Router.popIdxs
  split
  · exact h
  · exact ⟨h.unique, h.uniqueV6, h.nh⟩

/-- A new group adds its gateways only. -/
theorem newGroup (env : RouteEnv) (gws : List Gw) (el : RoutePfxPbr) (junk : ℕ → ℤ) :
    UsersInv (s.newGroup env gws el junk).2 X := by
  refine foldl_addMember gws _ (popIdxs ?_)
  exact ⟨h.unique, h.uniqueV6, h.nh⟩

/-- `ret_group_add` keeps the count. -/
theorem retGroupAdd (gws : List Gw) (ip : Ip4) (alen : ℕ) (junk : ℕ → ℤ) :
    UsersInv (s.retGroupAdd env gws ip alen junk).2 X := by
  unfold Router.retGroupAdd
  split
  · exact ⟨h.unique, h.uniqueV6, h.nh⟩
  · have hnew := h.newGroup env gws (.pfx ip alen) junk
    exact ⟨hnew.unique, hnew.uniqueV6, hnew.nh⟩

/-- `ret_group_add_pbr` keeps the count. -/
theorem retGroupAddPbr (gws : List Gw) (ix : RowColum) (interface : PclInterface)
    (junk : ℕ → ℤ) : UsersInv (s.retGroupAddPbr env gws ix interface junk).2 X := by
  unfold Router.retGroupAddPbr
  split
  · dsimp only
    split
    · exact ⟨h.unique, h.uniqueV6, h.nh⟩
    · exact fanned_retGroupLttTcamSet.usersInv ⟨h.unique, h.uniqueV6, h.nh⟩
  · have hnew : UsersInv ((s.newGroup env gws (.pbr ix interface) junk).2.retGroupLttTcamSet env ix
        interface (s.newGroup env gws (.pbr ix interface) junk).1).2 X :=
      fanned_retGroupLttTcamSet.usersInv (h.newGroup env gws (.pbr ix interface) junk)
    exact ⟨hnew.unique, hnew.uniqueV6, hnew.nh⟩

omit h in
/-- The gateways of a group are let go one after the other. -/
private theorem foldl_retUnref (gid : ℤ) (l : List ReIdx) (s : Router) (hs : UsersInv s X) :
    UsersInv (l.foldl (fun s el => (s.retUnref el.gw gid).2) s) X := by
  induction l generalizing s with
  | nil => exact hs
  | cons el l ih => exact ih _ hs.retUnref

/-- The last prefix of a group lets its gateways go. -/
theorem retGroupDelElem (el : RoutePfxPbr) : UsersInv (s.retGroupDelElem gid el) X := by
  unfold Router.retGroupDelElem
  split
  · exact h
  · rename_i g _
    have hmod : UsersInv (s.modifyGroup gid (·.removeElem el)) X :=
      ⟨h.unique, h.uniqueV6, h.nh⟩
    dsimp only
    split_ifs
    · have hdel := foldl_retUnref (g.removeElem el).group_id (g.removeElem el).re_idx _ hmod
      exact ⟨hdel.unique, hdel.uniqueV6, hdel.nh⟩
    · exact hmod

/-! ### MAC addresses -/

/-- A gateway takes the reference to `addr`. The one it has held so far stays in the table. -/
theorem announce {f : Re → Re} (hf : s.findGw gw = some re) (hgw : ∀ re, (f re).gw = re.gw)
    (huser : (f re).user = some addr) {t : NhTable} (ht : t.NhInv (addr ::ₘ (s.users + X)))
    (hret : s'.ret = Keyed.modify Re.gw s.ret gw f) (hv6 : s'.ret_ipv6 = s.ret_ipv6)
    (hnh : s'.nh = t) : UsersInv s' ((re.user.toList : Multiset Mac) + X) := by
  have husers : s'.users = {addr} + s.usersBut gw := by
    have hmod := users_modifyGw h.unique hf f
    rw [huser, Option.toList_some, Multiset.coe_singleton] at hmod
    rw [← hmod, users, users, hret, hv6]
    rfl
  refine ⟨by rw [hret]; exact h.unique.modify hgw, by rw [hv6]; exact h.uniqueV6, ?_⟩
  rw [hnh, husers]
  rw [users_eq hf, ← Multiset.singleton_add] at ht
  have heq : {addr} + s.usersBut gw + (↑re.user.toList + X) =
      {addr} + (↑re.user.toList + s.usersBut gw + X) := by abel
  rw [heq]
  exact ht

/-- A gateway that is valid and gets another address or interface leaves a reference behind. -/
theorem retSetMacAddr (gw : Gw)
    (hok : env.vifGetn vif_id ≠ none → ∀ re, s.findGw gw = some re →
      re.valid = true ∧ re.addr = addr ∧ re.vif_id = vif_id ∨ s.nh.Accepts addr arpOk) :
    ∃ X', UsersInv (s.retSetMacAddr env gw addr vif_id arpOk).2 X' ∧
      ((env.vifGetn vif_id ≠ none → ∀ re, s.findGw gw = some re → re.valid = true →
        re.addr = addr ∧ re.vif_id = vif_id) → X' = X) := by
  unfold Router.retSetMacAddr
  split_ifs with hvif
  · exact ⟨X, h, fun _ => rfl⟩
  cases hf : s.findGw gw with
  | none => exact ⟨X, h, fun _ => rfl⟩
  | some re =>
  dsimp only
  split_ifs with hsame
  · exact ⟨X, h, fun _ => rfl⟩
  have hsome := (s.nh.nhtAdd_ne_none_iff addr arpOk).mpr ((hok hvif re hf).resolve_left hsame)
  obtain ⟨nh, t, hadd, -, ht⟩ := (h.nh.nhtAdd addr arpOk).resolve_right fun ⟨t, hadd, _⟩ =>
    hsome (by rw [hadd])
  have hadd' : (s.modifyGw gw fun re =>
      { re with valid := true, addr := addr, vif_id := vif_id }).nh.nhtAdd addr arpOk =
        (some nh.idx, t) := hadd
  rw [hadd']
  refine ⟨(re.user.toList : Multiset Mac) + X, ?_, fun hpaired => ?_⟩
  · refine (fanned_foldl_retGroupGwChanged _ _).usersInv (h.announce hf
      (f := fun re => { re with
        valid := true, addr := addr, vif_id := vif_id, nh_idx := nh.idx })
      (fun _ => rfl) rfl ht ?_ rfl rfl)
    exact Keyed.modify_modify
      (f := fun re : Re => { re with valid := true, addr := addr, vif_id := vif_id }) fun _ => rfl
  · have hv : re.valid = false := by
      by_contra hv
      have hv : re.valid = true := by simpa using hv
      exact hsame ⟨hv, hpaired hvif re rfl hv⟩
    simp [Re.user, hv]

/-- A lost MAC address gives back the one reference that was taken for it. -/
theorem retUnsetMacAddr : UsersInv (s.retUnsetMacAddr env gw).2 X := by
  unfold Router.retUnsetMacAddr
  cases hf : s.findGw gw with
  | none => exact h
  | some re =>
    dsimp only
    split_ifs with hv
    · refine (fanned_foldl_retGroupGwChanged _ _).usersInv ⟨?_, h.uniqueV6, ?_⟩
      · exact h.unique.modify (f := fun re => { re with valid := false }) fun _ => rfl
      · have husers := users_eq hf
        have husers' := users_modifyGw h.unique hf fun re => { re with valid := false }
        have hmem : re.addr ∈ s.users + X := by simp [husers, Re.user, hv]
        have hunref := (h.nh.nhtUnref hmem).2
        have herase : (s.users + X).erase re.addr =
            (s.modifyGw gw fun re => { re with valid := false }).users + X := by
          simp [husers, husers', Re.user, hv, Multiset.singleton_add]
        rw [herase] at hunref
        exact hunref
    · exact h

/-! ### IPv6 gateways -/

/-- The IPv6 gateways are found by their keys after a change that keeps these. -/
theorem uniqueV6_modify {f : ReIpv6 → ReIpv6} (hgw : ∀ re, (f re).gw = re.gw) :
    Keyed.Unique keyV6 (s.modifyGwV6 gwV6 f).ret_ipv6 :=
  h.uniqueV6.modify fun re => congrArg GwV6.hashKey (hgw re)

/-- A change that keeps the address of an IPv6 gateway keeps the count. -/
theorem modifyGwV6 {f : ReIpv6 → ReIpv6} (hgw : ∀ re, (f re).gw = re.gw)
    (huser : ∀ re, (f re).user = re.user) : UsersInv (s.modifyGwV6 gwV6 f) X := by
  have husers : (s.modifyGwV6 gwV6 f).users = s.users := by
    simp only [users, Router.modifyGwV6]
    rw [Keyed.filterMap_modify ReIpv6.user huser]
  exact ⟨h.unique, h.uniqueV6_modify hgw, by rw [husers]; exact h.nh⟩

/-- Claiming the default route uses no next hop. -/
theorem claimDefault : UsersInv (s.claimDefault env gwV6 reV6) X := by
  have hmod : UsersInv (s.modifyGwV6 gwV6 fun re => { re with is_def := true }) X :=
    h.modifyGwV6 (fun _ => rfl) fun _ => rfl
  obtain ⟨u, hu⟩ := claimDefault_eq env s gwV6 reV6
  rw [hu]
  exact ⟨hmod.unique, hmod.uniqueV6, hmod.nh⟩

/-- An IPv6 gateway that is added keeps the count. -/
theorem retIpv6Add (ret_key : GwV6) :
    UsersInv (s.retIpv6Add env gwV6 is_def ret_key).2.2 X := by
  unfold Router.retIpv6Add
  cases hf : s.findGwV6 gwV6 with
  | none =>
    dsimp only
    split_ifs
    · exact h
    · exact ⟨h.unique, h.uniqueV6.cons (Keyed.find_eq_none_iff.mp hf), h.nh⟩
  | some re =>
    have hkeep : UsersInv (if ret_key.vid = 0 then
        s.modifyGwV6 gwV6 fun re => { re with refc := re.refc + 1 } else s) X := by
      split_ifs
      · exact h.modifyGwV6 (fun _ => rfl) fun _ => rfl
      · exact h
    cases is_def with
    | false => exact hkeep
    | true => exact hkeep.claimDefault

/-- Giving up the default route uses no next hop. -/
theorem resetDefault : UsersInv (s.resetDefault gwV6 reV6) X := by
  have hmod : UsersInv (s.modifyGwV6 gwV6 fun re => { re with is_def := false }) X :=
    h.modifyGwV6 (fun _ => rfl) fun _ => rfl
  obtain ⟨u, hu⟩ := resetDefault_eq s gwV6 reV6
  rw [hu]
  exact ⟨hmod.unique, hmod.uniqueV6, hmod.nh⟩

/-- The entry of an IPv6 gateway goes with its reference. -/
theorem deleteGwV6 {re : ReIpv6} (hf : s.findGwV6 gwV6 = some reV6) (hv : reV6.valid = re.valid)
    (haddr : reV6.addr = re.addr) : UsersInv (s.deleteGwV6 gwV6 re) X := by
  have husers := users_eq_v6 hf
  have hnh := h.nh
  unfold Router.deleteGwV6
  dsimp only
  split_ifs with hre
  · have hmem : re.addr ∈ s.users + X := by simp [husers, ReIpv6.user, hv, hre, haddr]
    have herase : (s.users + X).erase re.addr = s.usersButV6 gwV6 + X := by
      simp [husers, ReIpv6.user, hv, hre, haddr, Multiset.singleton_add]
    have hunref := (hnh.nhtUnref hmem).2
    rw [herase] at hunref
    exact ⟨h.unique, h.uniqueV6.del, hunref⟩
  · have hsame : s.users = s.usersButV6 gwV6 := by simp [husers, ReIpv6.user, hv, hre]
    rw [hsame] at hnh
    exact ⟨h.unique, h.uniqueV6.del, hnh⟩

/-- An IPv6 gateway that is let go gives back the next hop it used. -/
theorem retIpv6Unref : UsersInv (s.retIpv6Unref gwV6 is_def).2 X := by
  unfold Router.retIpv6Unref
  cases hf : s.findGwV6 gwV6 with
  | none => exact h
  | some re =>
    -- the entry after the part for the default route
    obtain ⟨s₁, heq, h₁, re₁, hf₁, hv, haddr⟩ : ∃ s₁,
        (if is_def = true then s.resetDefault gwV6 re else s) = s₁ ∧ UsersInv s₁ X ∧
          ∃ re₁, s₁.findGwV6 gwV6 = some re₁ ∧ re₁.valid = re.valid ∧ re₁.addr = re.addr := by
      cases is_def with
      | true => exact ⟨_, rfl, h.resetDefault, _, findGwV6_resetDefault hf, rfl, rfl⟩
      | false => exact ⟨_, rfl, h, _, hf, rfl, rfl⟩
    have h₂ : UsersInv (s₁.modifyGwV6 gwV6 fun re => { re with refc := re.refc - 1 }) X :=
      h₁.modifyGwV6 (fun _ => rfl) fun _ => rfl
    have hf₂ := findGwV6_modifyGwV6 (f := fun re => { re with refc := re.refc - 1 })
      (fun _ => rfl) hf₁
    dsimp only
    rw [heq]
    split_ifs
    · exact h₂.deleteGwV6 hf₂ hv haddr
    · exact h₂

/-- An IPv6 gateway takes the reference to `addr`. -/
theorem announceV6 {f : ReIpv6 → ReIpv6} (hf : s.findGwV6 gwV6 = some reV6)
    (hgw : ∀ re, (f re).gw = re.gw) (huser : (f reV6).user = some addr) {t : NhTable}
    (ht : t.NhInv (addr ::ₘ (s.users + X))) (hret : s'.ret = s.ret)
    (hv6 : s'.ret_ipv6 = Keyed.modify keyV6 s.ret_ipv6 gwV6.hashKey f) (hnh : s'.nh = t) :
    UsersInv s' ((reV6.user.toList : Multiset Mac) + X) := by
  have husers : s'.users = {addr} + s.usersButV6 gwV6 := by
    have hmod := users_modifyGwV6 h.uniqueV6 hf f
    rw [huser, Option.toList_some, Multiset.coe_singleton] at hmod
    rw [← hmod, users, users, hret, hv6]
    rfl
  refine ⟨by rw [hret]; exact h.unique, ?_, ?_⟩
  · rw [hv6]
    exact h.uniqueV6.modify fun re => congrArg GwV6.hashKey (hgw re)
  · rw [hnh, husers]
    rw [users_eq_v6 hf, ← Multiset.singleton_add] at ht
    have heq : {addr} + s.usersButV6 gwV6 + (↑reV6.user.toList + X) =
        {addr} + (↑reV6.user.toList + s.usersButV6 gwV6 + X) := by abel
    rw [heq]
    exact ht

/-- A valid IPv6 gateway that gets another address leaves a reference behind. -/
theorem retIpv6SetMacAddr (gwV6 : GwV6) (reOk : Bool)
    (hok : env.vifGetn vif_id ≠ none → ∀ re, s.findGwV6 gwV6 = some re → re.valid = true →
      re.addr = addr ∨ s.nh.Accepts addr arpOk)
    (hpop : env.vifGetn vif_id ≠ none → ∀ re, s.findGwV6 gwV6 = some re →
      ¬(re.valid = true ∧ re.addr = addr) →
        ¬s.nh.Accepts addr arpOk ∨ Ret.resPop s.ret_indexes_used 1 ≠ none) :
    ∃ X', UsersInv (s.retIpv6SetMacAddr env gwV6 addr vif_id arpOk reOk).2 X' ∧
      ((env.vifGetn vif_id ≠ none → ∀ re, s.findGwV6 gwV6 = some re → re.valid = true →
        re.addr = addr) → X' = X) := by
  unfold Router.retIpv6SetMacAddr
  cases hvif : env.vifGetn vif_id with
  | none => exact ⟨X, h, fun _ => rfl⟩
  | some vif =>
  have hvif' : env.vifGetn vif_id ≠ none := by simp [hvif]
  cases hf : s.findGwV6 gwV6 with
  | none => exact ⟨X, h, fun _ => rfl⟩
  | some re =>
  dsimp only
  split_ifs with hsame
  · -- the address is known, and only the interface changes
    have hmod : UsersInv (s.modifyGwV6 gwV6 fun re => { re with vif_id := vif_id }) X :=
      h.modifyGwV6 (fun _ => rfl) fun _ => rfl
    obtain ⟨u, hu⟩ := writeGwV6_eq (s.modifyGwV6 gwV6 fun re => { re with vif_id := vif_id })
      re.idx re.is_def (.route vif re.nh_idx gwV6.vid)
    refine ⟨X, ?_, fun _ => rfl⟩
    rw [hu]
    exact ⟨hmod.unique, hmod.uniqueV6, hmod.nh⟩
  · exact ⟨X, h, fun _ => rfl⟩
  have hadd' : (s.modifyGwV6 gwV6 fun re =>
      { re with addr := addr, vif_id := vif_id }).nh.nhtAdd addr arpOk =
        s.nh.nhtAdd addr arpOk := rfl
  rw [hadd']
  -- either the address gets a next hop, or none is left
  rcases h.nh.nhtAdd addr arpOk with ⟨nh, t, hadd, -, ht⟩ | ⟨t, hadd, -, -, ht⟩
  · rw [hadd]
    have hacc := (s.nh.nhtAdd_ne_none_iff addr arpOk).mp (by rw [hadd]; exact Option.some_ne_none _)
    have hne := (hpop hvif' re hf hsame).resolve_left (not_not_intro hacc)
    obtain ⟨p, hp⟩ := Option.ne_none_iff_exists'.mp hne
    have hp' : Ret.resPop (s.modifyGwV6 gwV6 fun re =>
        { re with addr := addr, vif_id := vif_id }).ret_indexes_used 1 = some p := hp
    simp only [hp']
    -- the reference to the address used before is not given back: it is left over
    refine ⟨(re.user.toList : Multiset Mac) + X, ?_, fun hpaired => ?_⟩
    · obtain ⟨l, hl⟩ := routeIpv6UpdateTable_eq _ gwV6 p.1.headI
      rw [hl]
      obtain ⟨u, hu⟩ := writeGwV6_eq _ p.1.headI re.is_def (.route vif nh.idx gwV6.vid)
      rw [hu]
      refine h.announceV6 hf
        (f := fun re => { re with
          addr := addr, vif_id := vif_id, idx := p.1.headI, nh_idx := nh.idx, valid := true })
        (fun _ => rfl) rfl ht rfl ?_ rfl
      exact Keyed.modify_modify
        (f := fun re : ReIpv6 => { re with addr := addr, vif_id := vif_id }) fun _ => rfl
    · have hv : re.valid = false := by
        by_contra hv
        have hv : re.valid = true := by simpa using hv
        exact hsame ⟨hv, hpaired (Option.some_ne_none _) re rfl hv⟩
      simp [ReIpv6.user, hv]
  · -- no next hop: the gateway is not valid, so its address does not count
    rw [hadd]
    have hv : re.valid = false := by
      by_contra hv
      have hv : re.valid = true := by simpa using hv
      rcases hok hvif' re hf hv with haddr | hsome
      · exact hsame ⟨hv, haddr⟩
      · exact (s.nh.nhtAdd_ne_none_iff addr arpOk).mpr hsome (by rw [hadd])
    refine ⟨X, ⟨h.unique, ?_, ?_⟩, fun _ => rfl⟩
    · exact (h.uniqueV6_modify (f := fun re => { re with addr := addr, vif_id := vif_id })
        fun _ => rfl)
    · have husers := users_modifyGwV6 h.uniqueV6 hf fun re =>
        { re with addr := addr, vif_id := vif_id }
      have hsame' : (s.modifyGwV6 gwV6 fun re =>
          { re with addr := addr, vif_id := vif_id }).users = s.users := by
        rw [husers, users_eq_v6 hf]
        simp [ReIpv6.user, hv]
      show t.NhInv ((s.modifyGwV6 gwV6 fun re =>
          { re with addr := addr, vif_id := vif_id }).users + X)
      rw [hsame']
      exact ht

end UsersInv

/-! ### Runs -/

/-- The calls that take and release one reference each. A gateway that is valid keeps its address,
and an IPv4 gateway its interface as well. A gateway that is not gets a next hop and, of IPv6, a
route entry, or an IPv6 gateway gets no next hop. -/
def Paired (env : RouteEnv) (s : Router) : GwOp → Prop
  | .retSetMacAddr gw addr vif_id arpOk => env.vifGetn vif_id ≠ none → ∀ re ∈ s.findGw gw,
      if re.valid then re.addr = addr ∧ re.vif_id = vif_id else s.nh.Accepts addr arpOk
  | .retIpv6SetMacAddr gw addr vif_id arpOk _ => env.vifGetn vif_id ≠ none →
      ∀ re ∈ s.findGwV6 gw, if re.valid then re.addr = addr
        else ¬s.nh.Accepts addr arpOk ∨ Ret.resPop s.ret_indexes_used 1 ≠ none
  | _ => True

instance (env : RouteEnv) (s : Router) (op : GwOp) : Decidable (Paired env s op) := by
  cases op <;> unfold Paired <;> infer_instance

/-- Each next hop counts the valid gateways with its address, there is one for each such address,
and each index is taken by one next hop or lies on the stack once. -/
structure NextHopsCounted (s : Router) : Prop where
  refc : ∀ nh ∈ s.nh.nht, nh.refc =
    (s.ret.countP fun re => re.valid && re.addr = nh.addr) +
      (s.ret_ipv6.countP fun re => re.valid && re.addr = nh.addr)
  taken : ∀ addr, (∃ nh ∈ s.nh.nht, nh.addr = addr) ↔
    (∃ re ∈ s.ret, re.valid = true ∧ re.addr = addr) ∨
      ∃ re ∈ s.ret_ipv6, re.valid = true ∧ re.addr = addr
  unique : Keyed.Unique Nexthop.addr s.nh.nht
  indices : (s.nh.nht.map Nexthop.idx ++ s.nh.free).Perm (List.range MAX_NH)

/-- A paired call keeps the table exact. -/
theorem UsersInv.gwStep (h : UsersInv s 0) {op : GwOp} (hok : Paired env s op)
    (hstep : gwStep env s op = some s') : UsersInv s' 0 := by
  cases op with
  | retAdd gw gid => exact Option.some_inj.mp hstep ▸ h.retAdd
  | retUnref gw gid => exact Option.some_inj.mp hstep ▸ h.retUnref
  | retGroupAdd gws ip alen junk => exact Option.some_inj.mp hstep ▸ h.retGroupAdd gws ip alen junk
  | retGroupAddPbr gws ix interface junk =>
    exact Option.some_inj.mp hstep ▸ h.retGroupAddPbr gws ix interface junk
  | retGroupDel gid pfx alen => exact Option.some_inj.mp hstep ▸ h.retGroupDelElem _
  | retGroupDelPbr gid ix interface => exact Option.some_inj.mp hstep ▸ h.retGroupDelElem _
  | retSetMacAddr gw addr vif_id arpOk =>
    have hone : ∀ re, env.vifGetn vif_id ≠ none → s.findGw gw = some re →
        if re.valid then re.addr = addr ∧ re.vif_id = vif_id else s.nh.Accepts addr arpOk :=
      fun re hvif hf => hok hvif re hf
    obtain ⟨X, hX, heq⟩ := h.retSetMacAddr gw fun hvif re hf => by
      have hre := hone re hvif hf
      split_ifs at hre with hv
      · exact .inl ⟨hv, hre⟩
      · exact .inr hre
    have hzero : X = 0 := heq fun hvif re hf hv => by
      have hre := hone re hvif hf
      rwa [if_pos hv] at hre
    rw [hzero] at hX
    exact Option.some_inj.mp hstep ▸ hX
  | retUnsetMacAddr gw => exact Option.some_inj.mp hstep ▸ h.retUnsetMacAddr
  | retIpv6Add gw is_def ret_key => exact Option.some_inj.mp hstep ▸ h.retIpv6Add ret_key
  | retIpv6Unref gw is_def => exact Option.some_inj.mp hstep ▸ h.retIpv6Unref
  | retIpv6SetMacAddr gw addr vif_id arpOk reOk =>
    have hone : ∀ re, env.vifGetn vif_id ≠ none → s.findGwV6 gw = some re →
        if re.valid then re.addr = addr
        else ¬s.nh.Accepts addr arpOk ∨ Ret.resPop s.ret_indexes_used 1 ≠ none :=
      fun re hvif hf => hok hvif re hf
    obtain ⟨X, hX, heq⟩ := h.retIpv6SetMacAddr gw reOk
      (fun hvif re hf hv => by
        have hre := hone re hvif hf
        rw [if_pos hv] at hre
        exact .inl hre)
      (fun hvif re hf hsame => by
        have hre := hone re hvif hf
        split_ifs at hre with hv
        · exact absurd ⟨hv, hre⟩ hsame
        · exact hre)
    have hzero : X = 0 := heq fun hvif re hf hv => by
      have hre := hone re hvif hf
      rwa [if_pos hv] at hre
    rw [hzero] at hX
    exact Option.some_inj.mp hstep ▸ hX

/-- The table counts the users when no reference is left over. -/
theorem UsersInv.nextHopsCounted (h : UsersInv s 0) : NextHopsCounted s := by
  have hcounts := h.nh.counts
  rw [add_zero] at hcounts
  have hv4 : ∀ (addr : Mac) (re : Re), re.user = some addr ↔ re.valid = true ∧ re.addr = addr :=
    fun addr re => by cases hv : re.valid <;> simp [Re.user, hv]
  have hv6 : ∀ (addr : Mac) (re : ReIpv6),
      re.user = some addr ↔ re.valid = true ∧ re.addr = addr :=
    fun addr re => by cases hv : re.valid <;> simp [ReIpv6.user, hv]
  refine ⟨fun nh hnh => ?_, fun addr => ?_, hcounts.unique, h.nh.indices⟩
  · rw [hcounts.refc_eq hnh, users, Multiset.count_add, Multiset.coe_count, Multiset.coe_count,
      List.count_filterMap, List.count_filterMap]
    push_cast
    congr 2
    · refine List.countP_congr fun re _ => ?_
      simp [hv4]
    · refine List.countP_congr fun re _ => ?_
      simp [hv6]
  · have hmem : (∃ nh ∈ s.nh.nht, nh.addr = addr) ↔ addr ∈ s.users := by
      constructor
      · rintro ⟨nh, hnh, rfl⟩
        exact hcounts.mem_users hnh
      · intro hu
        obtain ⟨nh, hf⟩ := hcounts.find_isSome hu
        exact ⟨nh, Keyed.mem_of_find hf, Keyed.key_of_find hf⟩
    simp only [hmem, users, Multiset.mem_add, Multiset.mem_coe, List.mem_filterMap, hv4, hv6]

variable {uc : ℤ → UcRoute} {arp : ℕ → Mac} {ltt : ℕ × RowColum → Ltt}

/-- In the beginning nothing is used. -/
theorem usersInv_init : UsersInv (init uc arp ltt) 0 :=
  ⟨Keyed.unique_nil, Keyed.unique_nil, NhTable.nhInv_nhtInit arp⟩

/-- In every state that paired calls reach, the next-hop table counts the gateways that use it. -/
theorem next_hops_counted (hr : Reach (gwStep env) (Paired env) (init uc arp ltt) s) :
    NextHopsCounted s :=
  (hr.invariant (UsersInv · 0) usersInv_init fun _ _ _ h hok hstep =>
    h.gwStep hok hstep).nextHopsCounted

/-- A gateway that changes its address while it is valid keeps the old next hop for ever. -/
theorem not_next_hops_counted : ∃ s, Reach (gwStep .onePort) (fun _ _ => True) blank s ∧
    ¬NextHopsCounted s := by
  have hrun : (run (gwStep .onePort) (fun _ _ => True) blank [.retGroupAdd [⟨1, 10⟩] 0 8 fun _ => 0,
      .retSetMacAddr ⟨1, 10⟩ 0xA 1 true, .retSetMacAddr ⟨1, 10⟩ 0xB 1 true]).map
        (fun s => (s.nh.nht, s.ret.map Re.addr, s.ret_ipv6)) =
      some ([⟨0xB, 1, 1⟩, ⟨0xA, 0, 1⟩], [0xB], []) := by
    decide
  obtain ⟨s, hs, hprobe⟩ := Option.map_eq_some_iff.mp hrun
  simp only [Prod.mk.injEq] at hprobe
  obtain ⟨hnht, hret, hv6⟩ := hprobe
  refine ⟨s, Reach.init.of_run hs, fun hc => ?_⟩
  have huser := (hc.taken 0xA).mp ⟨⟨0xA, 0, 1⟩, by simp [hnht], rfl⟩
  rcases huser with ⟨re, hre, -, haddr⟩ | ⟨re, hre, -⟩
  · have hmem : re.addr ∈ s.ret.map Re.addr := List.mem_map_of_mem hre
    rw [hret, haddr] at hmem
    exact absurd hmem (by decide)
  · rw [hv6] at hre
    exact absurd hre List.not_mem_nil

/-- Two gateways share a next hop, and one of them is withdrawn. -/
theorem next_hops_counted_shared : ∃ s : Router, s.nh.nht = [⟨0xA, 0, 1⟩] ∧ NextHopsCounted s := by
  have hrun : (run (gwStep .onePort) (Paired .onePort) blank
      [.retGroupAdd [⟨1, 10⟩, ⟨2, 10⟩] 0 8 fun _ => 0, .retSetMacAddr ⟨1, 10⟩ 0xA 1 true,
        .retSetMacAddr ⟨2, 10⟩ 0xA 1 true, .retUnsetMacAddr ⟨1, 10⟩]).map (·.nh.nht) =
      some [⟨0xA, 0, 1⟩] := by
    decide
  obtain ⟨s, hs, hprobe⟩ := Option.map_eq_some_iff.mp hrun
  exact ⟨s, hprobe, next_hops_counted (Reach.init.of_run hs)⟩

end Router

end Presteramgr
