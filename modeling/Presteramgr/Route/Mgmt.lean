import Presteramgr.Lib.Sweep
import Presteramgr.Route.Run

/-!
# Addresses of the unit itself

A management address has a host entry in the LPM table that brings packets to the CPU. Routes for
one address, hosts of connected routes, and the groups that list them write the same entries without
knowing of it.

## Main definitions

* `Router.WritesHost`: a call of the routes writes the host entry of an address;
* `MgmtRouter`, `MgmtOp` and `mgmtStep`: the routes with the management addresses.

## Main results

* `mgmt_reachable`: in runs of calls that meet `MgmtOk` the management addresses have their entries,
  and an address that is deleted leaves what the FIB calls for.
-/

namespace Presteramgr

open Function (update update_self update_of_ne)
open Guarded

/-- The LTT entry of management addresses. -/
def mgmtEntry : Ltt := ⟨MGMT_IP_RE_IDX, 0⟩

namespace Fib

/-- The route that `route_del` deletes. -/
def found (f : Fib) (rt : Route) : Option FibEntry := (fibGet f rt.addr rt.alen).toOption.join

/-- The prefix of the route or of one of its hosts is the address. -/
def Deletes (f : Fib) (rt : Route) (a : Ip4) : Prop :=
  ∃ e ∈ f.found rt, ∃ n ∈ e.toFibNode :: e.children, n.len = 32 ∧ n.pfx = a

/-- What is resolved for `daddr` gets the address as its prefix. -/
def Resolves (f : Fib) (daddr a : Ip4) : Prop :=
  ∃ p ∈ (fibRoute f daddr).1, p.2.group_id = 0 ∧ (p.2.gw = [] ∨ p.2.len = 32) ∧ p.2.pfx = a

/-- The FIB in which `route_change` resolves the route. -/
def changed (f : Fib) (rt : Route) : Option Fib :=
  (fibAdd ((f.found rt).elim f f.remove) rt).toOption

/-- The route for the address alone, or the host with the address. -/
def hostNode (f : Fib) (a : Ip4) : Option FibNode := f.nodes.find? fun n => n.len = 32 ∧ n.pfx = a

end Fib

namespace Router

variable (env : RouteEnv) (s : Router)

/-- A group of the gateway lists the address. -/
def ListsHost (re : Re) (a : Ip4) : Prop :=
  ∃ gid ∈ re.group_ids, ∃ g ∈ s.findGroup gid, ∃ el ∈ g.pfx_pbr, elemKey el = some (32, a)

/-- The call writes the host entry of the address. -/
def WritesHost : RouteOp → Ip4 → Prop
  | .routeAdd rt, a => rt.alen = 32 ∧ rt.addr = a
  | .routeDel rt, a => s.fib.Deletes rt a
  | .routeChange rt _, a => s.fib.Deletes rt a ∨ rt.alen = 32 ∧ rt.addr = a ∨
    s.fib.IsResolved rt ∧ ∃ f ∈ s.fib.changed rt, f.Resolves rt.addr a
  | .routeHandleUdaddr daddr _, a => s.fib.Resolves daddr a
  | .retSetMacAddr gw addr vif_id arpOk, a => env.vifGetn vif_id ≠ none ∧
    ∃ re ∈ s.findGw gw, re.valid = false ∧ (s.nh.nhtAdd addr arpOk).1 ≠ none ∧ s.ListsHost re a
  | .retUnsetMacAddr gw, a => ∃ re ∈ s.findGw gw, re.valid = true ∧ s.ListsHost re a

instance (re : Re) (a : Ip4) : Decidable (s.ListsHost re a) :=
  inferInstanceAs (Decidable (∃ gid ∈ re.group_ids, ∃ g ∈ s.findGroup gid, ∃ el ∈ g.pfx_pbr,
    elemKey el = some (32, a)))

instance : ∀ op a, Decidable (s.WritesHost env op a)
  | .routeAdd rt, a => inferInstanceAs (Decidable (rt.alen = 32 ∧ rt.addr = a))
  | .routeDel rt, a => inferInstanceAs (Decidable (∃ e ∈ s.fib.found rt,
      ∃ n ∈ e.toFibNode :: e.children, n.len = 32 ∧ n.pfx = a))
  | .routeChange rt _, a => inferInstanceAs (Decidable ((∃ e ∈ s.fib.found rt,
      ∃ n ∈ e.toFibNode :: e.children, n.len = 32 ∧ n.pfx = a) ∨ rt.alen = 32 ∧ rt.addr = a ∨
      s.fib.IsResolved rt ∧ ∃ f ∈ s.fib.changed rt, ∃ p ∈ (fibRoute f rt.addr).1,
        p.2.group_id = 0 ∧ (p.2.gw = [] ∨ p.2.len = 32) ∧ p.2.pfx = a))
  | .routeHandleUdaddr daddr _, a => inferInstanceAs (Decidable (∃ p ∈ (fibRoute s.fib daddr).1,
      p.2.group_id = 0 ∧ (p.2.gw = [] ∨ p.2.len = 32) ∧ p.2.pfx = a))
  | .retSetMacAddr gw addr vif_id arpOk, a =>
    inferInstanceAs (Decidable (env.vifGetn vif_id ≠ none ∧
      ∃ re ∈ s.findGw gw, re.valid = false ∧ (s.nh.nhtAdd addr arpOk).1 ≠ none ∧ s.ListsHost re a))
  | .retUnsetMacAddr gw, a =>
    inferInstanceAs (Decidable (∃ re ∈ s.findGw gw, re.valid = true ∧ s.ListsHost re a))

/-- The host entry that the FIB and the groups call for. -/
def hostTarget (a : Ip4) : Option Ltt := (s.fib.hostNode a).bind fun n => s.target n.owner

variable {env s} {s' : Router} {a : Ip4} {rt : Route} {junk : ℕ → ℤ} {re : Re} {changed : Bool}

/-! ## What a call does not write -/

/-- A prefix of another length, or of another address, leaves the host entry. -/
theorem host_ne {n : ℕ} {addr : Ip4} (h : ¬(n = 32 ∧ addr = a)) : (32, a) ≠ (n, masked n addr) := by
  rintro heq
  obtain rfl : 32 = n := congrArg Prod.fst heq
  have haddr : a = masked 32 addr := congrArg Prod.snd heq
  rw [masked_thirtyTwo] at haddr
  exact h ⟨rfl, haddr.symm⟩

theorem announceRoute_host {re : Ltt} (h : ¬(rt.alen = 32 ∧ rt.addr = a)) :
    (s.announceRoute rt re).lpm (32, a) = s.lpm (32, a) := by
  unfold announceRoute
  split_ifs
  · rfl
  · rw [lpmIpv4UcPrefixAdd_lpm]
    exact update_of_ne (host_ne h) ..

theorem routeDelFibEntry_host {n : FibNode} (h : ¬(n.len = 32 ∧ n.pfx = a)) :
    (s.routeDelFibEntry n).lpm (32, a) = s.lpm (32, a) := by
  obtain ⟨hlpm, -⟩ := retGroupDel_frame s n.group_id n.pfx n.len
  unfold routeDelFibEntry
  dsimp only
  split_ifs
  · rw [lpmIpv4UcPrefixDel_lpm, hlpm]
    exact update_of_ne (host_ne h) ..
  · rw [lpmIpv4UcPrefixAdd_lpm, hlpm]
    exact update_of_ne (host_ne h) ..

/-- A deletion leaves the host entry, and the FIB without the route. -/
theorem routeDel_host (hok : s.routeDel rt = .ok s') (h : ¬s.fib.Deletes rt a) :
    s'.lpm (32, a) = s.lpm (32, a) ∧ s'.fib = (s.fib.found rt).elim s.fib s.fib.remove := by
  obtain ⟨r, hget, rfl⟩ := Except.map_eq_ok_iff.mp hok
  have hfound : s.fib.found rt = r := by
    unfold Fib.found
    rw [hget]
    rfl
  unfold Fib.Deletes at h
  rw [hfound] at h ⊢
  cases r with
  | none => exact ⟨rfl, rfl⟩
  | some e =>
    refine ⟨?_, fibDelEntryWithChildren_fib ..⟩
    have hno : ∀ n ∈ e.toFibNode :: e.children, ¬(n.len = 32 ∧ n.pfx = a) :=
      fun n hn hna => h ⟨e, rfl, n, hn, hna⟩
    show (fibDelEntryWithChildren _ e).lpm (32, a) = s.lpm (32, a)
    unfold fibDelEntryWithChildren
    rw [routeDelFibEntry_host (hno _ List.mem_cons_self),
      Sweep.foldl_keeps (fun s : Router => s.lpm (32, a)) fun s c hc =>
        routeDelFibEntry_host (hno c (List.mem_cons_of_mem _ hc))]

theorem routeHandleUdaddr_host {daddr : Ip4} (hok : s.routeHandleUdaddr env daddr junk = .ok s')
    (h : ¬s.fib.Resolves daddr a) : s'.lpm (32, a) = s.lpm (32, a) := by
  unfold Fib.Resolves at h
  unfold routeHandleUdaddr at hok
  generalize fibRoute s.fib daddr = r at hok h
  obtain ⟨_ | ⟨ref, n⟩, f₀⟩ := r
  · obtain rfl := Except.ok.inj hok
    rfl
  · dsimp only at hok
    by_cases hgid : n.group_id = 0
    · rw [if_neg (not_not_intro hgid)] at hok
      unfold routeRequestMacAddr at hok
      split_ifs at hok with hbig hnil
      -- the entry of the group goes to the prefix of what is resolved
      all_goals
        obtain rfl := Except.ok.inj hok
        obtain ⟨g, -, hlpm, -⟩ := retGroupAdd_cases env { s with fib := f₀ }
          (List.zipWith Gw.mk n.gw n.vid) n.pfx (if n.gw = [] then 32 else n.len) junk
      · rw [if_pos hnil] at hlpm
        refine (congrFun hlpm (32, a)).trans (update_of_ne (host_ne fun hx => ?_) ..)
        exact h ⟨(ref, n), rfl, hgid, .inl hnil, hx.2⟩
      · rw [if_neg hnil] at hlpm
        refine (congrFun hlpm (32, a)).trans (update_of_ne (host_ne fun hx => ?_) ..)
        exact h ⟨(ref, n), rfl, hgid, .inr hx.1, hx.2⟩
    · rw [if_pos hgid] at hok
      obtain rfl := Except.ok.inj hok
      rfl

/-- Groups that do not list the address leave its host entry when a gateway changes. -/
theorem foldl_retGroupGwChanged_host (gids : List ℤ) (hno : ∀ gid ∈ gids, ∀ g,
    s.findGroup gid = some g → ∀ el ∈ g.pfx_pbr, elemKey el ≠ some (32, a)) :
    (gids.foldl (fun s gid => s.retGroupGwChanged env gid re changed) s).lpm (32, a) =
      s.lpm (32, a) := by
  induction gids generalizing s with
  | nil => rfl
  | cons gid gids ih =>
    obtain ⟨f, hf, hgroup, hlpm⟩ := retGroupGwChanged_cases env s gid re changed
    rw [List.foldl_cons, ih]
    · rcases hlpm with ⟨hsame, -⟩ | ⟨g, hfind, hupd⟩
      · rw [hsame]
      · rw [hupd, if_neg]
        rintro ⟨el, hel, hk⟩
        exact hno gid List.mem_cons_self g hfind el hel hk
    · -- the lists of the groups stay
      intro gid' hgid' g' hfind' el hel
      have hfid : ∀ x, (f x).group_id = x.group_id := fun x => ReGroup.static_group_id (hf x)
      unfold findGroup at hfind'
      rw [hgroup, Keyed.find_modify hfid] at hfind'
      obtain ⟨x, hx, rfl⟩ := Option.map_eq_some_iff.mp hfind'
      refine hno gid' (List.mem_cons_of_mem gid hgid') x hx el ?_
      split_ifs at hel
      · have hpfx : (f x).pfx_pbr = x.pfx_pbr := congrArg (·.2.2.2.2) (hf x)
        rwa [← hpfx]
      · exact hel

/-- A gateway that stays valid changes no prefixes. -/
theorem foldl_retGroupGwChanged_lpm (gids : List ℤ) (hvalid : re.valid = true) :
    (gids.foldl (fun s gid => s.retGroupGwChanged env gid re false) s).lpm = s.lpm := by
  induction gids generalizing s with
  | nil => rfl
  | cons gid gids ih =>
    refine (ih (s := s.retGroupGwChanged env gid re false)).trans ?_
    unfold retGroupGwChanged
    cases s.findGroup gid with
    | none => rfl
    | some g =>
      dsimp only
      rw [if_neg fun hx => Bool.false_ne_true hx.2, if_pos hvalid]
      unfold retGroupGwChangedEnableChanged
      cases g.re_idx.find? (·.gw = re.gw) with
      | none => rfl
      | some out =>
        obtain ⟨u, hset⟩ := retSetReToIdx_eq env s re out.idx
        dsimp only
        rw [hset]

/-- A gateway of which no group lists the address leaves its host entry. -/
theorem foldl_group_ids_host {re' : Re} (h : ¬s.ListsHost re a) (hg : s'.re_group = s.re_group)
    (hlpm : s'.lpm = s.lpm) :
    (re.group_ids.foldl (fun s gid => s.retGroupGwChanged env gid re' changed) s').lpm (32, a) =
      s.lpm (32, a) := by
  rw [foldl_retGroupGwChanged_host, hlpm]
  intro gid hgid g hfind el hel hk
  unfold findGroup at hfind
  rw [hg] at hfind
  exact h ⟨gid, hgid, g, hfind, el, hel, hk⟩

theorem retSetMacAddr_host {gw : Gw} {addr : Mac} {vif_id : ℕ} {arpOk : Bool}
    (h : ¬s.WritesHost env (.retSetMacAddr gw addr vif_id arpOk) a) :
    (s.retSetMacAddr env gw addr vif_id arpOk).2.lpm (32, a) = s.lpm (32, a) := by
  unfold WritesHost at h
  unfold retSetMacAddr
  by_cases hvif : env.vifGetn vif_id = none
  · rw [if_pos hvif]
  rw [if_neg hvif]
  cases hfind : s.findGw gw with
  | none => rfl
  | some re =>
    dsimp only
    split_ifs
    · rfl
    rcases hnht : NhTable.nhtAdd _ addr arpOk with ⟨_ | nh_idx, nh⟩
    · rfl
    · dsimp only
      cases hvalid : re.valid with
      | true => exact congrFun (foldl_retGroupGwChanged_lpm _ rfl) _
      | false =>
        refine foldl_group_ids_host (fun hlists => h ⟨hvif, re, hfind, hvalid, ?_, hlists⟩) rfl rfl
        have hsome : (s.nh.nhtAdd addr arpOk).1 = some nh_idx := congrArg Prod.fst hnht
        rw [hsome]
        exact Option.some_ne_none nh_idx

theorem retUnsetMacAddr_host {gw : Gw} (h : ¬s.WritesHost env (.retUnsetMacAddr gw) a) :
    (s.retUnsetMacAddr env gw).2.lpm (32, a) = s.lpm (32, a) := by
  unfold WritesHost at h
  unfold retUnsetMacAddr
  cases hfind : s.findGw gw with
  | none => rfl
  | some re =>
    dsimp only
    split_ifs with hvalid
    · exact foldl_group_ids_host (fun hlists => h ⟨re, hfind, hvalid, hlists⟩) rfl rfl
    · rfl

/-- A call that does not write the host entry of an address leaves it. -/
theorem routeStep_host {op : RouteOp} (hs : s.routeStep env op = some s')
    (h : ¬s.WritesHost env op a) : s'.lpm (32, a) = s.lpm (32, a) := by
  cases op with
  | routeAdd rt =>
    obtain ⟨f, -, rfl⟩ := Except.map_eq_ok_iff.mp (Except.toOption_eq_some_iff.mp hs)
    exact announceRoute_host h
  | routeDel rt => exact (routeDel_host (Except.toOption_eq_some_iff.mp hs) h).1
  | routeHandleUdaddr daddr junk =>
    exact routeHandleUdaddr_host (Except.toOption_eq_some_iff.mp hs) h
  | retSetMacAddr gw addr vif_id arpOk =>
    obtain rfl := Option.some_inj.mp hs
    exact retSetMacAddr_host h
  | retUnsetMacAddr gw =>
    obtain rfl := Option.some_inj.mp hs
    exact retUnsetMacAddr_host h
  | routeChange rt junk =>
    obtain ⟨hdel, hrest⟩ := not_or.mp h
    obtain ⟨hnew, hresolve⟩ := not_or.mp hrest
    obtain ⟨s₁, hok, hcases⟩ := routeChange_cases (Except.toOption_eq_some_iff.mp hs)
    obtain ⟨hlpm, hfib⟩ := routeDel_host hok hdel
    rw [← hlpm]
    rcases hcases with ⟨-, hadd⟩ | ⟨hres, s₂, hadd, hudaddr⟩
    · obtain ⟨f, -, rfl⟩ := Except.map_eq_ok_iff.mp hadd
      exact announceRoute_host hnew
    · obtain ⟨f, hf, rfl⟩ := Except.map_eq_ok_iff.mp hadd
      have hkeep : ({ s₁ with fib := f }.announceRoute rt dropEntry).lpm (32, a) = s₁.lpm (32, a) :=
        announceRoute_host hnew
      have hfib₂ : ({ s₁ with fib := f }.announceRoute rt dropEntry).fib = f := by
        unfold announceRoute
        split_ifs <;> rfl
      rw [← hkeep]
      refine routeHandleUdaddr_host hudaddr ?_
      rw [hfib₂]
      refine fun hf' => hresolve ⟨hres, f, ?_, hf'⟩
      show (fibAdd _ rt).toOption = some f
      rw [← hfib, hf]
      rfl

end Router

/-! ## Management addresses -/

/-- The routes and the configured management addresses. -/
structure MgmtRouter where
  router : Router
  mgmtIps : List Ip4

/-- A call of the routes, or one for a management address. -/
inductive MgmtOp
  | route (op : RouteOp)
  | routeAddMgmtIp (addr : Ip4)
  | routeDelMgmtIp (addr : Ip4)

namespace MgmtRouter

/-- One call. -/
def mgmtStep (env : RouteEnv) (s : MgmtRouter) : MgmtOp → Option MgmtRouter
  | .route op => (s.router.routeStep env op).map fun r => { s with router := r }
  | .routeAddMgmtIp addr => some ⟨s.router.routeAddMgmtIp addr, addr :: s.mgmtIps⟩
  | .routeDelMgmtIp addr =>
    some ⟨s.router.routeDelMgmtIp addr, s.mgmtIps.filter (· ≠ addr)⟩

/-- A call of the routes does not write the host entry of a management address, and an address that
is deleted is neither that of a route nor that of a host. -/
def MgmtOk (env : RouteEnv) (s : MgmtRouter) : MgmtOp → Prop
  | .route op => ∀ a ∈ s.mgmtIps, ¬s.router.WritesHost env op a
  | .routeAddMgmtIp _ => True
  | .routeDelMgmtIp addr => s.router.fib.hostNode addr = none

instance (env : RouteEnv) (s : MgmtRouter) : ∀ op, Decidable (s.MgmtOk env op)
  | .route op => List.decidableBAll (fun a => ¬s.router.WritesHost env op a) s.mgmtIps
  | .routeAddMgmtIp _ => .isTrue trivial
  | .routeDelMgmtIp addr => inferInstanceAs (Decidable (s.router.fib.hostNode addr = none))

/-- Each management address has its host entry. -/
def Reachable (s : MgmtRouter) : Prop := ∀ a ∈ s.mgmtIps, s.router.lpm (32, a) = some mgmtEntry

/-- The LPM after a deletion of the address has what the FIB and the groups call for. -/
def Restores (env : RouteEnv) (s : MgmtRouter) (a : Ip4) : Prop :=
  ∀ s', s.mgmtStep env (.routeDelMgmtIp a) = some s' →
    s'.router.lpm (32, a) = s'.router.hostTarget a

variable {env : RouteEnv} {s s' : MgmtRouter} {op : MgmtOp}

/-- A call that meets `MgmtOk` keeps the host entries of management addresses. -/
theorem Reachable.step (h : s.Reachable) (hok : s.MgmtOk env op)
    (hs : s.mgmtStep env op = some s') : s'.Reachable := by
  cases op with
  | route op =>
    obtain ⟨r, hr, rfl⟩ := Option.map_eq_some_iff.mp hs
    intro a ha
    exact (Router.routeStep_host hr (hok a ha)).trans (h a ha)
  | routeAddMgmtIp addr =>
    obtain rfl := Option.some_inj.mp hs
    intro a ha
    show (s.router.routeAddMgmtIp addr).lpm (32, a) = some mgmtEntry
    unfold Router.routeAddMgmtIp
    rw [Router.lpmIpv4UcPrefixAdd_lpm, masked_thirtyTwo]
    by_cases haddr : a = addr
    · rw [haddr]
      exact update_self ..
    · have hne : (32, a) ≠ ((32, addr) : ℕ × Ip4) := fun hx => haddr (congrArg Prod.snd hx)
      rw [update_of_ne hne]
      exact h a ((List.mem_cons.mp ha).resolve_left haddr)
  | routeDelMgmtIp addr =>
    obtain rfl := Option.some_inj.mp hs
    intro a ha
    obtain ⟨ha, hne⟩ := List.mem_filter.mp ha
    show (s.router.routeDelMgmtIp addr).lpm (32, a) = some mgmtEntry
    unfold Router.routeDelMgmtIp
    have hkey : (32, a) ≠ ((32, addr) : ℕ × Ip4) := fun hx =>
      of_decide_eq_true hne (congrArg Prod.snd hx)
    rw [Router.lpmIpv4UcPrefixDel_lpm, masked_thirtyTwo, update_of_ne hkey]
    exact h a ha

/-- Deleting an address that neither a route nor a host has leaves no entry, as the FIB calls
for. -/
theorem restores_of_hostNode {a : Ip4} (h : s.router.fib.hostNode a = none) : s.Restores env a := by
  intro s' hs
  obtain rfl := Option.some_inj.mp hs
  have htarget : (s.router.routeDelMgmtIp a).hostTarget a = none := by
    unfold Router.hostTarget
    rw [show (s.router.routeDelMgmtIp a).fib = s.router.fib from rfl, h]
    rfl
  show (s.router.routeDelMgmtIp a).lpm (32, a) = _
  unfold Router.routeDelMgmtIp at htarget ⊢
  rw [htarget, Router.lpmIpv4UcPrefixDel_lpm, masked_thirtyTwo]
  exact update_self ..

/-- In runs of calls that meet `MgmtOk` management addresses are reachable until they are deleted,
and then the host entry is what the FIB and the groups call for. -/
theorem mgmt_reachable {uc : ℤ → UcRoute} {arp : ℕ → Mac} {ltt : ℕ × RowColum → Ltt}
    (hr : Reach (mgmtStep env) (MgmtOk env) ⟨.init uc arp ltt, []⟩ s) :
    s.Reachable ∧ ∀ a, s.MgmtOk env (.routeDelMgmtIp a) → s.Restores env a := by
  refine ⟨?_, fun a ha => restores_of_hostNode ha⟩
  exact hr.invariant Reachable (fun a ha => absurd ha List.not_mem_nil)
    fun s op s' h hok hs => h.step hok hs

/-- A gateway event overwrites the entry of a management address that was a host before. -/
theorem not_mgmt_reachable : ∃ s, Reach (mgmtStep .onePort) (fun _ _ => True) ⟨.blank, []⟩ s ∧
    ¬s.Reachable := by
  have hrun : (run (mgmtStep .onePort) (fun _ _ => True) ⟨.blank, []⟩
      [.route (.routeAdd ⟨0x0A000000, 8, 1, fun _ => ⟨0, 10⟩⟩),
        .route (.routeHandleUdaddr 0x0A000001 fun _ => 0), .routeAddMgmtIp 0x0A000001,
        .route (.retSetMacAddr ⟨0x0A000001, 10⟩ 0xA 1 true)]).map
          (fun s => (s.mgmtIps, s.router.lpm (32, 0x0A000001))) =
      some ([0x0A000001], some ⟨5, 0⟩) := by
    decide +kernel
  obtain ⟨s, hs, hprobe⟩ := Option.map_eq_some_iff.mp hrun
  obtain ⟨hips, hlpm⟩ := Prod.mk.injEq .. ▸ hprobe
  refine ⟨s, Reach.init.of_run hs, fun h => ?_⟩
  have hentry := h 0x0A000001 (hips ▸ List.mem_cons_self)
  exact absurd (hlpm.symm.trans hentry) (by decide)

/-- A management address beside a connected route with a host. -/
theorem mgmt_reachable_beside : ∃ s : MgmtRouter, s.mgmtIps = [0x0A000001] ∧ s.Reachable ∧
    s.Restores .onePort 0x0A000001 := by
  have hrun : (run (mgmtStep .onePort) (MgmtOk .onePort) ⟨.blank, []⟩
      [.route (.routeAdd ⟨0x0A000000, 8, 1, fun _ => ⟨0, 10⟩⟩), .routeAddMgmtIp 0x0A000001,
        .route (.routeHandleUdaddr 0x0A000002 fun _ => 0),
        .route (.retSetMacAddr ⟨0x0A000002, 10⟩ 0xA 1 true)]).map
          (fun s => (s.mgmtIps, decide (s.MgmtOk .onePort (.routeDelMgmtIp 0x0A000001)))) =
      some ([0x0A000001], true) := by
    decide +kernel
  obtain ⟨s, hs, hprobe⟩ := Option.map_eq_some_iff.mp hrun
  obtain ⟨hips, hok⟩ := Prod.mk.injEq .. ▸ hprobe
  obtain ⟨hreach, hrestores⟩ := mgmt_reachable (Reach.init.of_run hs)
  exact ⟨s, hips, hreach, hrestores _ (of_decide_eq_true hok)⟩

end MgmtRouter

end Presteramgr
