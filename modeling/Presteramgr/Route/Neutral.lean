import Presteramgr.Lib.Lockstep
import Presteramgr.Ret.Above
import Presteramgr.Route.Run

/-!
# A route that is added and deleted

A route is added, packets that it routes resolve it or hosts in it, and it is deleted. The groups,
the gateways and the indices are as before, if each prefix is new to its group and there are indices
for new groups. The default route leaves its route entry trapping, and a connected route takes the
host entries of others with it.

## Main definitions

* `RouterOp` and `routerStep`: the calls that make the states that the route is added to;
* `Fib.put`: the table with one more route;
* `addUseDel`: a route is added, used, and deleted;
* `UseOk`: a packet that the route routes, whose prefix can enter a group;
* `Restored`: all tables are as before, but for route entries that are free.

## Main results

* `neutral_iff`: the route entry of the default route and the host entries of connected routes
  decide whether the state is restored.
-/

namespace Presteramgr

open Function (update update_self update_of_ne)

/-! ## Routes in the table -/

namespace Fib

variable {f : Fib} {e e' : FibEntry} {k : ℕ × Ip4} {a : Ip4} {rt : Route}

/-- The table with the route, the default route or another one. -/
def put (f : Fib) (e : FibEntry) : Fib :=
  if e.len = 0 then { f with dflt := some e } else { f with e := e :: f.e }

/-- No route has the prefix. -/
def Lacks (f : Fib) (rt : Route) : Prop := fibGet f rt.addr rt.alen = .ok none

instance (f : Fib) (rt : Route) : Decidable (f.Lacks rt) :=
  inferInstanceAs (Decidable (fibGet f rt.addr rt.alen = .ok none))

/-- A lacking route has a prefix length. -/
theorem Lacks.le (h : f.Lacks rt) : rt.alen ≤ 32 := by
  unfold Lacks fibGet at h
  split_ifs at h with hbig
  · exact not_lt.mp hbig
  · exact not_lt.mp hbig

/-- Where the default route is lacking there is none. -/
theorem Lacks.dflt (h : f.Lacks rt) (halen : rt.alen = 0) : f.dflt = none := by
  unfold Lacks fibGet at h
  rw [if_neg (by omega), if_pos halen] at h
  exact Except.ok.inj h

/-- Where a prefix is lacking no entry has its key. -/
theorem Lacks.hashFind (h : f.Lacks rt) (halen : rt.alen ≠ 0) : f.hashFind rt.key = none := by
  have hle := h.le
  unfold Lacks fibGet at h
  rw [if_neg (not_lt.mpr hle), if_neg halen] at h
  exact Except.ok.inj h

/-- The entry of a route when it is new. -/
def newEntry (rt : Route) (gws : List Gw) : FibEntry :=
  if rt.alen = 0 then ⟨(⟨0, 0, [], [], 0, 0, []⟩ : FibNode).addGws gws, []⟩
  else ⟨rt.node.addGws gws, []⟩

/-- A new entry has no children. -/
theorem newEntry_children (rt : Route) (gws : List Gw) : (newEntry rt gws).children = [] := by
  unfold newEntry
  split_ifs <;> rfl

/-- A new entry has no group. -/
theorem newEntry_group_id (rt : Route) (gws : List Gw) : (newEntry rt gws).group_id = 0 := by
  unfold newEntry
  split_ifs
  · exact FibNode.addGws_group_id ..
  · exact FibNode.addGws_group_id ..

/-- A new entry has the key of its route. -/
theorem newEntry_key (rt : Route) (gws : List Gw) : (newEntry rt gws).key = rt.key := by
  unfold newEntry FibEntry.key Route.key
  split_ifs with halen
  · rw [FibNode.addGws_len, FibNode.addGws_addr, halen, masked_zero]
  · rw [FibNode.addGws_len, FibNode.addGws_addr]
    rfl

/-- A new entry belongs to its own prefix. -/
theorem newEntry_owner (rt : Route) (gws : List Gw) : (newEntry rt gws).owner.key = rt.key := by
  unfold newEntry Owner.key Route.key
  split_ifs with halen
  · rw [FibNode.addGws_owner, halen]
    exact congrArg (Prod.mk 0) ((masked_zero _).trans (masked_zero _).symm)
  · rw [FibNode.addGws_owner]
    rfl

/-- Adding a lacking route puts its new entry. -/
theorem fibAdd_eq_put (h : f.Lacks rt) {gws : List Gw} (hgws : rt.gws = .ok gws) :
    fibAdd f rt = .ok (f.put (newEntry rt gws)) := by
  have hlen : (newEntry rt gws).len = rt.alen := congrArg Prod.fst (newEntry_key rt gws)
  unfold put
  rw [hlen]
  by_cases halen : rt.alen = 0
  · refine (fibAdd_of_zero halen).mpr ⟨gws, hgws, ?_⟩
    rw [if_pos halen, h.dflt halen]
    unfold newEntry
    rw [if_pos halen]
    rfl
  · refine (fibAdd_of_none halen (h.hashFind halen)).mpr ⟨h.le, gws, hgws, ?_⟩
    unfold newEntry
    rw [if_neg halen, if_neg halen]

/-- The entry that was put is found by its key. -/
theorem hashFind_put_self (hlen : e.len ≠ 0) : (f.put e).hashFind e.key = some e := by
  unfold put hashFind
  rw [if_neg hlen]
  exact Keyed.find_cons.trans (if_pos rfl)

/-- `fib_get` finds the entry that was put. -/
theorem fibGet_put (hle : rt.alen ≤ 32) (hkey : e.key = rt.key) :
    fibGet (f.put e) rt.addr rt.alen = .ok (some e) := by
  have hlen : e.len = rt.alen := congrArg Prod.fst hkey
  unfold fibGet
  rw [if_neg (not_lt.mpr hle)]
  split_ifs with halen
  · unfold put
    rw [if_pos (hlen.trans halen)]
  · show Except.ok ((f.put e).hashFind rt.key) = _
    rw [← hkey, hashFind_put_self (hlen ▸ halen)]

/-- Removing the entry that was put gives the table back. -/
theorem remove_put (h : f.Lacks rt) (hkey : e.key = rt.key) : (f.put e).remove e = f := by
  have hlen : e.len = rt.alen := congrArg Prod.fst hkey
  unfold remove put
  split_ifs with hzero
  · have hnone := h.dflt (hlen.symm.trans hzero)
    cases f
    cases hnone
    rfl
  · unfold Keyed.del
    rw [List.eraseP_cons_of_pos (by simp)]

/-- Changing the entry that was put is putting the changed one. -/
theorem modify_put (h : f.Lacks rt) (hkey : e.key = rt.key) (hlen : e.len ≠ 0)
    {g : FibEntry → FibEntry} (hg : (g e).len = e.len) :
    (f.put e).modify rt.key g = f.put (g e) := by
  have halen : rt.alen ≠ 0 := fun h0 => hlen ((congrArg Prod.fst hkey).trans h0)
  have hne := Keyed.find_eq_none_iff.mp (h.hashFind halen)
  unfold modify put
  rw [if_neg hlen, if_neg (hg ▸ hlen)]
  have hrest : Keyed.modify FibEntry.key f.e rt.key g = f.e := Keyed.modify_of_forall_ne hne
  show ({ f with e := Keyed.modify FibEntry.key (e :: f.e) rt.key g } : Fib) = _
  rw [Keyed.modify, List.map_cons, if_pos hkey]
  exact congrArg (fun l => ({ f with e := g e :: l } : Fib)) hrest

/-- The loop returns what the table of some length has. -/
theorem hashFind_of_scan {n : ℕ} (h : f.scan n a = some e) : f.hashFind e.key = some e := by
  induction n generalizing a with
  | zero => exact nomatch h
  | succ n ih =>
    rw [scan] at h
    cases hfind : f.hashFind (n + 1, a) with
    | some e' =>
      rw [hfind] at h
      obtain rfl := Option.some_inj.mp h
      have hkey : e'.key = (n + 1, a) := Keyed.key_of_find hfind
      rw [hkey, hfind]
    | none =>
      rw [hfind] at h
      exact ih h

end Fib

/-- Hosts in the route are reached directly, each by a child of its own. -/
def FibEntry.Connected (e : FibEntry) : Prop := e.gw = [0] ∧ e.len ≠ 0

/-- What a resolved entry has in the list of its group. -/
def FibNode.elem (n : FibNode) : ℤ × RoutePfxPbr := (n.group_id, .pfx n.pfx n.len)

/-- The elements of a route and its hosts. -/
def FibEntry.elems (e : FibEntry) : List (ℤ × RoutePfxPbr) :=
  e.children.map FibNode.elem ++ if e.group_id = 0 then [] else [e.elem]

/-- An entry without a group owns the elements of its children only. -/
theorem FibEntry.elems_of_zero {e : FibEntry} (h : e.group_id = 0) :
    e.elems = e.children.map FibNode.elem := by
  unfold elems
  rw [if_pos h, List.append_nil]

/-- The route, or a host in it. -/
def Route.Refers (rt : Route) : FibRef → Prop
  | .dflt => rt.alen = 0
  | .entry k => k = rt.key
  | .child k _ => k = rt.key

instance (rt : Route) : ∀ ref, Decidable (rt.Refers ref)
  | .dflt => inferInstanceAs (Decidable (rt.alen = 0))
  | .entry k => inferInstanceAs (Decidable (k = rt.key))
  | .child k _ => inferInstanceAs (Decidable (k = rt.key))

namespace Fib

variable {f : Fib} {e e' : FibEntry} {a : Ip4} {rt : Route} {ref : FibRef} {n : FibNode}

/-- A route of an address is the one with the key. -/
theorem eq_of_scan_put (hkey : e.key = rt.key) (hscan : (f.put e).scan 32 a = some e')
    (hkey' : e'.key = rt.key) : e' = e ∧ e.len ≠ 0 := by
  have hfind := hashFind_of_scan hscan
  have hlen : e.len ≠ 0 := by
    have hpos : ∀ m b, (f.put e).scan m b = some e' → e'.len ≠ 0 := by
      intro m
      induction m with
      | zero => exact fun b hb => nomatch hb
      | succ m ih =>
        intro b hb
        rw [scan] at hb
        cases hm : (f.put e).hashFind (m + 1, b) with
        | some x =>
          rw [hm] at hb
          obtain rfl := Option.some_inj.mp hb
          have hxkey : x.key = (m + 1, b) := Keyed.key_of_find hm
          have hxlen : x.len = m + 1 := congrArg Prod.fst hxkey
          omega
        | none =>
          rw [hm] at hb
          exact ih _ hb
    have hsame : e'.len = e.len := congrArg Prod.fst (hkey'.trans hkey.symm)
    exact hsame ▸ hpos 32 a hscan
  rw [hkey', ← hkey, hashFind_put_self hlen] at hfind
  exact ⟨(Option.some_inj.mp hfind).symm, hlen⟩

/-- What a packet for the route picks: the route, a host in it, or a new host. -/
theorem fibRoute_put (h : f.Lacks rt) (hkey : e.key = rt.key)
    (hpick : (fibRoute (f.put e) a).1 = some (ref, n)) (href : rt.Refers ref) :
    (¬e.Connected ∧ n = e.toFibNode ∧ (fibRoute (f.put e) a).2 = f.put e ∧
      ∀ gid, (f.put e).setGroupId gid ref = f.put { e with group_id := gid }) ∨
    e.Connected ∧
      ((n ∈ e.children ∧ n.addr = a ∧ (fibRoute (f.put e) a).2 = f.put e) ∨
      ((∀ c ∈ e.children, c.addr ≠ a) ∧ n = e.newChild a ∧
        ∀ gid, (fibRoute (f.put e) a).2.setGroupId gid ref = f.put (e.withChild a gid))) := by
  have hcases := fibRoute_pick (f.put e) a
  generalize fibRoute (f.put e) a = r at hcases hpick
  obtain ⟨r, f'⟩ := r
  obtain rfl : r = some (ref, n) := hpick
  -- the lookup finds the default route, the route, or a host of it
  cases hcases with
  | dflt e' hscan hdflt =>
    have hlen : e.len = 0 := (congrArg Prod.fst hkey).trans href
    have hput : ∀ x : FibEntry, x.len = 0 → f.put x = { f with dflt := some x } :=
      fun x hx => if_pos hx
    rw [hput e hlen] at hdflt
    obtain rfl := Option.some_inj.mp hdflt
    refine .inl ⟨fun hx => hx.2 hlen, rfl, rfl, fun gid => ?_⟩
    rw [hput e hlen, hput { e with group_id := gid } hlen]
    rfl
  | entry e' hscan hgw =>
    obtain ⟨rfl, hlen⟩ := eq_of_scan_put hkey hscan href
    refine .inl ⟨fun hx => hgw hx.1, rfl, rfl, fun gid => ?_⟩
    show (f.put e').modify e'.key _ = _
    rw [hkey]
    exact modify_put (g := fun e => { e with group_id := gid }) h hkey hlen rfl
  | child e' c hscan hgw hc haddr =>
    obtain ⟨rfl, hlen⟩ := eq_of_scan_put hkey hscan href
    exact .inr ⟨⟨hgw, hlen⟩, .inl ⟨hc, haddr, rfl⟩⟩
  -- the host is new, and gets its group in the child just added
  | newChild e' f'' hscan hgw hno hf' =>
    obtain ⟨rfl, hlen⟩ := eq_of_scan_put hkey hscan href
    refine .inr ⟨⟨hgw, hlen⟩, .inr ⟨hno, rfl, fun gid => ?_⟩⟩
    have hput : f' = f.put { e' with children := e'.children ++ [e'.newChild a] } := by
      refine hf'.trans ?_
      rw [hkey]
      exact modify_put (g := fun e'' => { e'' with children := e''.children ++ [e'.newChild a] })
        h hkey hlen rfl
    show f'.modify e'.key _ = _
    rw [hput, hkey]
    refine (modify_put (e := { e' with children := e'.children ++ [e'.newChild a] })
      (g := fun e => { e with
        children := Keyed.modify FibNode.addr e.children a fun c => { c with group_id := gid } })
      h hkey hlen rfl).trans (congrArg f.put ?_)
    have hchildren : Keyed.modify FibNode.addr (e'.children ++ [e'.newChild a]) a
        (fun c => { c with group_id := gid }) =
          e'.children ++ [{ e'.newChild a with group_id := gid }] := by
      have hold : Keyed.modify FibNode.addr e'.children a
          (fun c => { c with group_id := gid }) = e'.children := Keyed.modify_of_forall_ne hno
      unfold Keyed.modify at hold ⊢
      rw [List.map_append, hold, List.map_singleton]
      exact congrArg (fun c => e'.children ++ [c]) (if_pos rfl)
    exact congrArg (fun cs => ({ e' with children := cs } : FibEntry)) hchildren

end Fib

/-! ## The states before -/

/-- A call of the routing code, with the outcomes that the hardware and the stack contribute. -/
inductive RouterOp
  | route (op : RouteOp)
  | routeResetPrefixes4gw (addr : Ip4) (alen : ℕ) (rt : Route)
  | retGroupAddPbr (gws : List Gw) (ix : RowColum) (interface : PclInterface) (junk : ℕ → ℤ)
  | retGroupDelPbr (group_id : ℤ) (ix : RowColum) (interface : PclInterface)
  | others (uc : Router)

namespace Router

variable {env : RouteEnv} {s s' t t' : Router} {rt : Route} {a : Ip4} {junk : ℕ → ℤ}

/-- The work of the other families: everything but the gateways, the groups and the routes of IPv4
may be another. -/
def others (s uc : Router) : Router :=
  { uc with ret := s.ret, group_id := s.group_id, re_group := s.re_group, fib := s.fib }

/-- One call, `none` when it runs into an `assert` or beyond an array. -/
def routerStep (env : RouteEnv) (s : Router) : RouterOp → Option Router
  | .route op => s.routeStep env op
  | .routeResetPrefixes4gw addr alen rt => (s.routeResetPrefixes4gw addr alen rt).toOption
  | .retGroupAddPbr gws ix interface junk => some (s.retGroupAddPbr env gws ix interface junk).2
  | .retGroupDelPbr group_id ix interface => some (s.retGroupDelPbr group_id ix interface)
  | .others uc => some (s.others uc)

namespace Tidy

/-- Routes and other tables do not count. -/
theorem of_eq (h : s.Tidy) (hg : s'.re_group = s.re_group) (hid : s'.group_id = s.group_id)
    (hret : s'.ret = s.ret) : s'.Tidy :=
  h.congr (by rw [hg]) hid (by rw [hret])

/-- Announcing a route keeps the lists of elements tidy. -/
theorem announceRoute (h : s.Tidy) (rt : Route) (re : Ltt) : (s.announceRoute rt re).Tidy := by
  unfold Router.announceRoute
  split_ifs
  · exact h.of_eq rfl rfl rfl
  · exact h.of_eq rfl rfl rfl

/-- Deleting an entry keeps the lists of elements tidy. -/
theorem routeDelFibEntry (h : s.Tidy) (n : FibNode) : (s.routeDelFibEntry n).Tidy := by
  have hdel := h.retGroupDelElem n.group_id (.pfx n.pfx n.len)
  unfold Router.routeDelFibEntry Router.retGroupDel
  dsimp only
  split_ifs
  · exact hdel.of_eq rfl rfl rfl
  · exact hdel.of_eq rfl rfl rfl

/-- `route_del` keeps the lists of elements tidy. -/
theorem routeDel (h : s.Tidy) (hs : s.routeDel rt = .ok s') : s'.Tidy := by
  obtain ⟨r, -, rfl⟩ := Except.map_eq_ok_iff.mp hs
  cases r with
  | none => exact h
  | some e =>
    have hfold : ∀ (ns : List FibNode) (s : Router), s.Tidy →
        (ns.foldl Router.routeDelFibEntry s).Tidy := by
      intro ns
      induction ns with
      | nil => exact fun s h => h
      | cons n ns ih => exact fun s h => ih _ (h.routeDelFibEntry n)
    have hfib : ({ s with fib := s.fib.remove e } : Router).Tidy := h.of_eq rfl rfl rfl
    exact (hfold e.children _ hfib).routeDelFibEntry e.toFibNode

/-- `route_add` keeps the lists of elements tidy. -/
theorem routeAdd (h : s.Tidy) (hs : s.routeAdd rt = .ok s') : s'.Tidy := by
  obtain ⟨f, -, rfl⟩ := Except.map_eq_ok_iff.mp hs
  have hfib : ({ s with fib := f } : Router).Tidy := h.of_eq rfl rfl rfl
  exact hfib.announceRoute rt trapEntry

/-- An unresolved destination keeps the lists of elements tidy. -/
theorem routeHandleUdaddr (h : s.Tidy) (hs : s.routeHandleUdaddr env a junk = .ok s') :
    s'.Tidy := by
  unfold Router.routeHandleUdaddr at hs
  generalize fibRoute s.fib a = r at hs
  obtain ⟨_ | ⟨ref, n⟩, f⟩ := r
  · obtain rfl := Except.ok.inj hs
    exact h.of_eq rfl rfl rfl
  · dsimp only at hs
    have hfib : ({ s with fib := f } : Router).Tidy := h.of_eq rfl rfl rfl
    split_ifs at hs
    all_goals try exact (Except.ok.inj hs) ▸ hfib
    all_goals
      unfold routeRequestMacAddr at hs
      split_ifs at hs
      rw [retGroupAdd_eq] at hs
      obtain rfl := Except.ok.inj hs
      exact (hfib.enterGroup env _ _ junk).of_eq rfl rfl rfl

/-- **Step.** The calls for routes keep the lists of elements tidy. -/
theorem routeStep (h : s.Tidy) {op : RouteOp} (hs : s.routeStep env op = some s') : s'.Tidy := by
  cases op with
  | routeAdd rt => exact h.routeAdd (Except.toOption_eq_some_iff.mp hs)
  | routeDel rt => exact h.routeDel (Except.toOption_eq_some_iff.mp hs)
  | routeHandleUdaddr daddr junk => exact h.routeHandleUdaddr (Except.toOption_eq_some_iff.mp hs)
  | retSetMacAddr gw addr vif_id arpOk =>
    obtain rfl := Option.some_inj.mp hs
    exact h.retSetMacAddr env gw addr vif_id arpOk
  | retUnsetMacAddr gw =>
    obtain rfl := Option.some_inj.mp hs
    exact h.retUnsetMacAddr env gw
  | routeChange rt junk =>
    obtain ⟨s₁, hdel, ⟨-, hadd⟩ | ⟨-, s₂, hadd, hudaddr⟩⟩ :=
      routeChange_cases (Except.toOption_eq_some_iff.mp hs)
    · exact (h.routeDel hdel).routeAdd hadd
    · obtain ⟨f, -, rfl⟩ := Except.map_eq_ok_iff.mp hadd
      have hfib : ({ s₁ with fib := f } : Router).Tidy := (h.routeDel hdel).of_eq rfl rfl rfl
      exact (hfib.announceRoute rt dropEntry).routeHandleUdaddr hudaddr

/-- **Step.** All calls keep the lists of elements tidy. -/
theorem routerStep (h : s.Tidy) {op : RouterOp} (hs : s.routerStep env op = some s') : s'.Tidy := by
  cases op with
  | route op => exact h.routeStep hs
  | routeResetPrefixes4gw addr alen rt =>
    obtain ⟨r, -, hs⟩ := Except.bind_eq_ok_iff.mp (Except.toOption_eq_some_iff.mp hs)
    obtain ⟨rt', -, hs⟩ := Except.bind_eq_ok_iff.mp hs
    obtain ⟨s₁, hdel, hadd⟩ := Except.bind_eq_ok_iff.mp hs
    exact (h.routeDel hdel).routeAdd hadd
  | retGroupAddPbr gws ix interface junk =>
    obtain rfl := Option.some_inj.mp hs
    obtain ⟨t, ht⟩ := retGroupAddPbr_eq env s gws ix interface junk
    rw [ht]
    exact (h.enterGroup env gws (.pbr ix interface) junk).of_eq rfl rfl rfl
  | retGroupDelPbr group_id ix interface =>
    obtain rfl := Option.some_inj.mp hs
    exact h.retGroupDelElem group_id (.pbr ix interface)
  | others uc =>
    obtain rfl := Option.some_inj.mp hs
    exact h.of_eq rfl rfl rfl

/-- The tables agree in every state, whatever the calls and their outcomes were. -/
theorem of_reach {uc : ℤ → UcRoute} {arp : ℕ → Mac} {ltt : ℕ × RowColum → Ltt}
    (hr : Guarded.Reach (Router.routerStep env) (fun _ _ => True) (.init uc arp ltt) s) : s.Tidy :=
  hr.invariant Tidy (.init uc arp ltt) fun _ _ _ h _ hs => h.routerStep hs

end Tidy

/-! ## The route is used -/

/-- A packet for `c.1` is for the route, and the prefix that it resolves can enter a group. -/
def UseOk (rt : Route) (t : Router) (c : Ip4 × (ℕ → ℤ)) : Prop :=
  ∃ p ∈ (fibRoute t.fib c.1).1, rt.Refers p.1 ∧
    (p.2.group_id = 0 → t.CanEnter (List.zipWith Gw.mk p.2.gw p.2.vid) (.pfx p.2.pfx p.2.len))

instance (rt : Route) (t : Router) (c : Ip4 × (ℕ → ℤ)) : Decidable (UseOk rt t c) :=
  inferInstanceAs (Decidable (∃ p ∈ (fibRoute t.fib c.1).1, rt.Refers p.1 ∧
    (p.2.group_id = 0 → t.CanEnter (List.zipWith Gw.mk p.2.gw p.2.vid) (.pfx p.2.pfx p.2.len))))

/-- A packet arrives. -/
def useStep (env : RouteEnv) (t : Router) (c : Ip4 × (ℕ → ℤ)) : Option (Unit × Router) :=
  (t.routeHandleUdaddr env c.1 c.2).toOption.map fun t => ((), t)

/-- The state `t` is `s` with the route `e`, and with what was resolved for it. -/
structure Using (s : Router) (rt : Route) (e : FibEntry) (t : Router) : Prop where
  fib : t.fib = s.fib.put e
  key : e.key = rt.key
  prefix_key : e.owner.key = rt.key
  gws : e.gw ≠ [] ∧ e.gw.length ≤ 8 ∧ e.vid.length = e.gw.length ∧ e.ret_key.length = e.gw.length
  alone : e.Connected → e.group_id = 0
  parent : e.children ≠ [] → e.Connected
  host : ∀ c ∈ e.children, c.len = 32 ∧ c.pfx = c.addr ∧ c.group_id ≠ 0
  unique : Keyed.Unique FibNode.addr e.children
  above : Above s e.elems t
  lpm : ∀ k, k ≠ rt.key → (∀ c ∈ e.children, k ≠ (32, c.addr)) → t.lpm k = s.lpm k
  uc : ∀ i < FIRST_REGULAR_RE_IDX,
    t.ucRoute i = if rt.alen = 0 ∧ i = DEFAULT_UC_RE_IDX then .trap else s.ucRoute i

variable {e : FibEntry} {n : FibNode} {ref : FibRef} {f : Fib} {E : List (ℤ × RoutePfxPbr)}

/-- A prefix that can enter a group is resolved. -/
theorem routeRequestMacAddr_above (h : Above s E t) (env : RouteEnv) (ref : FibRef) (f : Fib)
    (junk : ℕ → ℤ) (hlen : n.gw.length ≤ 8 ∧ n.vid.length ≤ 8 ∧ n.ret_key.length ≤ 8)
    (hcan : t.CanEnter (List.zipWith Gw.mk n.gw n.vid) (.pfx n.pfx n.len)) : ∃ gid t',
    ({ t with fib := f } : Router).routeRequestMacAddr env ref n n.len junk = .ok t' ∧ 0 < gid ∧
    t'.fib = f.setGroupId gid ref ∧ Above s (E ++ [(gid, .pfx n.pfx n.len)]) t' ∧
    (∀ k ≠ n.owner.key, t'.lpm k = t.lpm k) ∧
    ∀ i < FIRST_REGULAR_RE_IDX, t'.ucRoute i = t.ucRoute i := by
  obtain ⟨habove, hfib, hlpm, hpos, huc⟩ :=
    (h.congr f t.ucRoute t.lpm).enter env (List.zipWith Gw.mk n.gw n.vid) (.pfx n.pfx n.len) junk
      hcan
  unfold routeRequestMacAddr
  rw [if_neg (by omega), retGroupAdd_eq]
  refine ⟨_, _, rfl, hpos, congrArg (Fib.setGroupId · _ ref) hfib, habove.congr _ _ _,
    fun k hk => ?_, huc⟩
  exact (update_of_ne hk ..).trans (congrFun hlpm k)

/-- What a lookup picks decides what the router does for a destination. -/
theorem routeHandleUdaddr_of_pick (env : RouteEnv) (junk : ℕ → ℤ)
    (hpick : (fibRoute t.fib a).1 = some (ref, n)) :
    t.routeHandleUdaddr env a junk =
      if n.group_id ≠ 0 then .ok { t with fib := (fibRoute t.fib a).2 }
      else ({ t with fib := (fibRoute t.fib a).2 } : Router).routeRequestMacAddr env ref n
        (if n.gw = [] then 32 else n.len) junk := by
  unfold routeHandleUdaddr
  generalize fibRoute t.fib a = r at hpick
  obtain ⟨r, f⟩ := r
  obtain rfl : r = some (ref, n) := hpick
  rfl

namespace Using

/-- A packet for the route resolves it, or a host in it. -/
theorem step (h : Using s rt e t) (hlacks : s.fib.Lacks rt) (env : RouteEnv)
    {c : Ip4 × (ℕ → ℤ)} (hok : UseOk rt t c) : ∃ e' t', useStep env t c = some ((), t') ∧
    Using s rt e' t' ∧ e'.toFibNode = { e.toFibNode with group_id := e'.group_id } ∧
    ∀ x, (∃ c' ∈ e'.children, c'.addr = x) ↔
      (∃ c' ∈ e.children, c'.addr = x) ∨ e.Connected ∧ x = c.1 := by
  obtain ⟨⟨ref, n⟩, hpick, href, hcan⟩ := hok
  have hstep := routeHandleUdaddr_of_pick env c.2 (Option.mem_def.mp hpick)
  unfold useStep
  rw [hstep]
  rw [h.fib] at hpick ⊢
  rcases Fib.fibRoute_put hlacks h.key hpick href with ⟨hconn, rfl, hsame, hset⟩ |
    ⟨hconn, ⟨hn, haddr, hsame⟩ | ⟨hno, rfl, hset⟩⟩
  · -- the route itself is resolved, unless it is already
    have hchildren : e.children = [] := by
      by_contra hne
      exact hconn (h.parent hne)
    have hiff : ∀ x, (∃ c' ∈ e.children, c'.addr = x) ↔
        (∃ c' ∈ e.children, c'.addr = x) ∨ e.Connected ∧ x = c.1 :=
      fun x => (or_iff_left fun hx => hconn hx.1).symm
    rw [hsame]
    by_cases hgid : e.group_id = 0
    · rw [if_neg (not_not_intro hgid), if_neg h.gws.1]
      obtain ⟨hne, hle, hvid, hkey⟩ := h.gws
      obtain ⟨gid, t', hok, hpos, hfib, habove, hlpm, huc⟩ :=
        routeRequestMacAddr_above h.above env ref (s.fib.put e) c.2
          ⟨hle, by omega, by omega⟩ (hcan hgid)
      rw [hok]
      -- field by field: only the group of the route is new
      refine ⟨{ e with group_id := gid }, t', rfl, ⟨?_, h.key, h.prefix_key, h.gws, fun hc => ?_,
        fun hne => ?_, h.host, h.unique, ?_, fun k hk hno => ?_, fun i hi => ?_⟩, rfl, hiff⟩
      · exact hfib.trans (hset gid)
      · exact absurd hc hconn
      · exact absurd hchildren hne
      · rw [FibEntry.elems_of_zero hgid, hchildren] at habove
        unfold FibEntry.elems
        rw [hchildren, if_neg hpos.ne']
        exact habove
      · exact (hlpm k (h.prefix_key ▸ hk)).trans (h.lpm k hk hno)
      · exact (huc i hi).trans (h.uc i hi)
    · rw [if_pos hgid, ← h.fib]
      exact ⟨e, t, rfl, h, rfl, hiff⟩
  · -- a host that has been resolved
    obtain ⟨-, -, hgid⟩ := h.host n hn
    rw [if_pos hgid, hsame, ← h.fib]
    refine ⟨e, t, rfl, h, rfl, fun x => (or_iff_left_of_imp fun hx => ?_).symm⟩
    exact ⟨n, hn, haddr.trans hx.2.symm⟩
  · -- a new host
    have hnew : (e.newChild c.1).group_id = 0 := rfl
    have hgw : (e.newChild c.1).gw ≠ [] := List.cons_ne_nil c.1 []
    rw [if_neg (not_not_intro hnew), if_neg hgw]
    have hone : e.vid.length = 1 := by
      rw [h.gws.2.2.1, hconn.1]
      rfl
    obtain ⟨gid, t', hok, hpos, hfib, habove, hlpm, huc⟩ :=
      routeRequestMacAddr_above (n := e.newChild c.1) h.above env ref
        (fibRoute (s.fib.put e) c.1).2 c.2
        ⟨by simp [FibEntry.newChild], by simp [FibEntry.newChild, hone],
          by simp [FibEntry.newChild]⟩ (hcan hnew)
    rw [hok]
    have hgid := h.alone hconn
    have hkey : (e.newChild c.1).owner.key = (32, c.1) :=
      congrArg (Prod.mk 32) (masked_thirtyTwo c.1)
    -- field by field: the route has one more child, with a group of its own
    refine ⟨e.withChild c.1 gid, t', rfl, ⟨?_, h.key, h.prefix_key, h.gws, h.alone,
      fun _ => hconn, fun c' hc' => ?_, ?_, ?_, fun k hk hno' => ?_, fun i hi => ?_⟩, rfl,
      fun x => ?_⟩
    · exact hfib.trans (hset gid)
    · rcases List.mem_append.mp hc' with hc' | hc'
      · exact h.host c' hc'
      · rw [List.mem_singleton.mp hc']
        exact ⟨rfl, rfl, hpos.ne'⟩
    · show ((e.children ++ [_]).map FibNode.addr).Nodup
      rw [List.map_append]
      refine List.nodup_append.mpr ⟨h.unique, List.nodup_singleton _, fun x hx y hy hxy => ?_⟩
      obtain ⟨c', hc', rfl⟩ := List.mem_map.mp hx
      exact hno c' hc' (hxy.trans (List.mem_singleton.mp hy))
    · rw [FibEntry.elems_of_zero hgid] at habove
      rw [FibEntry.elems_of_zero (e := e.withChild c.1 gid) hgid]
      show Above s ((e.children ++ [_]).map FibNode.elem) t'
      rw [List.map_append]
      exact habove
    · have hkc : k ≠ (32, c.1) :=
        hno' { e.newChild c.1 with group_id := gid }
          (List.mem_append_right e.children (List.mem_singleton_self _))
      refine (hlpm k (hkey ▸ hkc)).trans (h.lpm k hk fun c' hc' => ?_)
      exact hno' c' (List.mem_append_left _ hc')
    · exact (huc i hi).trans (h.uc i hi)
    · show (∃ c' ∈ e.children ++ [_], c'.addr = x) ↔ _
      constructor
      · rintro ⟨c', hc', rfl⟩
        rcases List.mem_append.mp hc' with hc' | hc'
        · exact .inl ⟨c', hc', rfl⟩
        · exact .inr ⟨hconn, List.mem_singleton.mp hc' ▸ rfl⟩
      · rintro (⟨c', hc', hx⟩ | ⟨-, rfl⟩)
        · exact ⟨c', List.mem_append_left _ hc', hx⟩
        · exact ⟨_, List.mem_append_right _ (List.mem_singleton_self _), rfl⟩

/-- Packets for the route resolve it, or the hosts that they are for. -/
theorem run (h : Using s rt e t) (hlacks : s.fib.Lacks rt) (env : RouteEnv)
    {calls : List (Ip4 × (ℕ → ℤ))} (hok : Lockstep.Ok (useStep env) (UseOk rt) calls t) :
    ∃ e' os t', Lockstep.outputs (useStep env) calls t = some (os, t') ∧ Using s rt e' t' ∧
      ∀ x, (∃ c' ∈ e'.children, c'.addr = x) ↔
        (∃ c' ∈ e.children, c'.addr = x) ∨ e.Connected ∧ ∃ c ∈ calls, x = c.1 := by
  induction calls generalizing e t with
  | nil => exact ⟨e, [], t, rfl, h, fun x => by simp⟩
  | cons c calls ih =>
    obtain ⟨e₁, t₁, hs, h₁, hnode, hx₁⟩ := h.step hlacks env hok.1
    obtain ⟨e', os, t', hrun, h', hx'⟩ := ih h₁ (hok.2 ((), t₁) hs)
    have hconn : e₁.Connected ↔ e.Connected := by
      unfold FibEntry.Connected
      rw [hnode]
    refine ⟨e', () :: os, t', ?_, h', fun x => ?_⟩
    · exact Lockstep.outputs_cons.mpr ⟨(), t₁, os, hs, hrun, rfl⟩
    · rw [hx', hx₁, hconn, List.exists_mem_cons_iff, and_or_left, or_assoc]

end Using

/-! ## The route comes and goes -/

/-- The gateways of a new route have as many addresses as VLANs, and no more than were given. -/
theorem addGws_lengths (n : FibNode) (gws : List Gw)
    (h : n.vid.length = n.gw.length ∧ n.ret_key.length = n.gw.length) :
    (n.addGws gws).gw.length ≤ n.gw.length + gws.length ∧
    (n.addGws gws).vid.length = (n.addGws gws).gw.length ∧
    (n.addGws gws).ret_key.length = (n.addGws gws).gw.length := by
  induction gws generalizing n with
  | nil => exact ⟨le_rfl, h⟩
  | cons g gws ih =>
    have hone : (n.addGw g).gw.length ≤ n.gw.length + 1 ∧
        (n.addGw g).vid.length = (n.addGw g).gw.length ∧
        (n.addGw g).ret_key.length = (n.addGw g).gw.length := by
      unfold FibNode.addGw
      split_ifs
      · exact ⟨Nat.le_succ _, h⟩
      · simp [h.1, h.2]
    obtain ⟨hle, hlens⟩ := ih (n.addGw g) hone.2
    refine ⟨hle.trans ?_, hlens⟩
    rw [List.length_cons]
    omega

/-- A route that is added to a state that lacks it. -/
theorem Using.start (hs : s.Tidy) (hlacks : s.fib.Lacks rt) {gws : List Gw}
    (hgws : rt.gws = .ok gws) (hne : gws ≠ []) (hle : gws.length ≤ 8) :
    ∃ t, s.routeAdd rt = .ok t ∧ Using s rt (Fib.newEntry rt gws) t := by
  have hadd : s.routeAdd rt =
      .ok (({ s with fib := s.fib.put (Fib.newEntry rt gws) } : Router).announceRoute rt trapEntry) := by
    unfold routeAdd
    rw [Fib.fibAdd_eq_put hlacks hgws]
    rfl
  have hgid := Fib.newEntry_group_id rt gws
  have hchildren := Fib.newEntry_children rt gws
  -- the new entry has its gateways, VLANs and keys in step
  have hlens : (Fib.newEntry rt gws).gw ≠ [] ∧ (Fib.newEntry rt gws).gw.length ≤ 8 ∧
      (Fib.newEntry rt gws).vid.length = (Fib.newEntry rt gws).gw.length ∧
      (Fib.newEntry rt gws).ret_key.length = (Fib.newEntry rt gws).gw.length := by
    have hnode : ∀ n : FibNode, n.gw = [] → n.vid = [] → n.ret_key = [] →
        (n.addGws gws).gw ≠ [] ∧ (n.addGws gws).gw.length ≤ 8 ∧
        (n.addGws gws).vid.length = (n.addGws gws).gw.length ∧
        (n.addGws gws).ret_key.length = (n.addGws gws).gw.length := by
      intro n hgw hvid hkey
      obtain ⟨g, hg⟩ := List.exists_mem_of_ne_nil _ hne
      obtain ⟨hlen, hlens⟩ := addGws_lengths n gws (by rw [hgw, hvid, hkey]; exact ⟨rfl, rfl⟩)
      rw [hgw, List.length_nil, Nat.zero_add] at hlen
      exact ⟨List.ne_nil_of_mem ((FibNode.mem_addGws_gw n gws).mpr (.inr ⟨g, hg, rfl⟩)),
        hlen.trans hle, hlens⟩
    unfold Fib.newEntry
    split_ifs
    · exact hnode _ rfl rfl rfl
    · exact hnode _ rfl rfl rfl
  -- field by field: nothing is resolved yet, so the router is as it was
  refine ⟨_, hadd, ?_, Fib.newEntry_key rt gws, Fib.newEntry_owner rt gws, hlens, fun _ => hgid,
    ?_, ?_, ?_, ?_,
    fun k hk _ => ?_, fun i _ => ?_⟩
  · unfold announceRoute
    split_ifs <;> rfl
  · exact fun hno => absurd hchildren hno
  · rw [hchildren]
    exact fun c hc => absurd hc List.not_mem_nil
  · rw [hchildren]
    exact List.nodup_nil
  · rw [FibEntry.elems_of_zero hgid, hchildren]
    unfold announceRoute
    split_ifs
    · exact (Above.refl hs).congr _ _ _
    · exact (Above.refl hs).congr _ _ _
  · unfold announceRoute
    split_ifs
    · rfl
    · exact update_of_ne hk ..
  · unfold announceRoute
    split_ifs with halen hi hi
    · show update s.ucRoute DEFAULT_UC_RE_IDX .trap i = .trap
      rw [hi.2, update_self]
    · exact update_of_ne (fun h0 => hi ⟨halen, h0⟩) ..
    · exact absurd hi.1 halen
    · rfl

/-- A resolved entry leaves its group, and its prefix the LPM. -/
theorem routeDelFibEntry_above (hnew : n.elem ∉ E) (h : Above s (n.elem :: E) t) :
    Above s E (t.routeDelFibEntry n) ∧ (t.routeDelFibEntry n).ucRoute = t.ucRoute ∧
    (t.routeDelFibEntry n).fib = t.fib ∧
    (t.routeDelFibEntry n).lpm = update t.lpm n.owner.key
      (if n.len ≠ 0 then none else some ⟨DEFAULT_UC_RE_IDX, 0⟩) := by
  have hleave : Above s E (t.retGroupDel n.group_id n.pfx n.len) := h.leave hnew
  obtain ⟨hfib, huc, hlpm⟩ := h.tidy.retGroupDelElem_frame n.group_id (.pfx n.pfx n.len)
  have hlpm' : (t.retGroupDel n.group_id n.pfx n.len).lpm = t.lpm := hlpm
  unfold routeDelFibEntry
  dsimp only
  split_ifs with hlen
  · refine ⟨hleave.congr _ _ _, huc, hfib, ?_⟩
    rw [lpmIpv4UcPrefixDel_lpm, hlpm']
    rfl
  · refine ⟨hleave.congr _ _ _, huc, hfib, ?_⟩
    rw [lpmIpv4UcPrefixAdd_lpm, hlpm']
    rfl

/-- The hosts of a route go. -/
theorem foldl_routeDelFibEntry_above (ns : List FibNode)
    (hhost : ∀ n ∈ ns, n.len = 32 ∧ n.pfx = n.addr)
    (hnd : (ns.map FibNode.elem ++ E).Nodup) (h : Above s (ns.map FibNode.elem ++ E) t) :
    Above s E (ns.foldl routeDelFibEntry t) ∧ (ns.foldl routeDelFibEntry t).ucRoute = t.ucRoute ∧
    (ns.foldl routeDelFibEntry t).fib = t.fib ∧
    ∀ k, (ns.foldl routeDelFibEntry t).lpm k =
      if ∃ n ∈ ns, k = (32, n.addr) then none else t.lpm k := by
  induction ns generalizing t with
  | nil => exact ⟨h, rfl, rfl, fun k => (if_neg fun ⟨_, hn, _⟩ => absurd hn List.not_mem_nil).symm⟩
  | cons n ns ih =>
    obtain ⟨hnew, hnd⟩ := List.nodup_cons.mp hnd
    obtain ⟨habove, huc, hfib, hlpm⟩ := routeDelFibEntry_above hnew h
    obtain ⟨habove', huc', hfib', hlpm'⟩ :=
      ih (fun n hn => hhost n (List.mem_cons_of_mem _ hn)) hnd habove
    obtain ⟨hlen, hpfx⟩ := hhost n List.mem_cons_self
    have hkey : n.owner.key = (32, n.addr) := by
      show (n.len, masked n.len n.pfx) = _
      rw [hlen, hpfx, masked_thirtyTwo]
    refine ⟨habove', huc'.trans huc, hfib'.trans hfib, fun k => ?_⟩
    rw [List.foldl_cons, hlpm', hlpm, hkey, if_pos (by omega : n.len ≠ 0)]
    by_cases hk : k = (32, n.addr)
    · rw [hk, update_self, ite_self]
      exact (if_pos ⟨n, List.mem_cons_self, rfl⟩).symm
    · rw [update_of_ne hk]
      refine if_congr (Iff.symm ?_) rfl rfl
      rw [List.exists_mem_cons_iff]
      exact or_iff_right hk

/-- The route is deleted: its prefix has no entry, or that of the default route, and the hosts have
none. -/
theorem Using.delete (h : Using s rt e t) (hlacks : s.fib.Lacks rt) : ∃ t', t.routeDel rt = .ok t' ∧
    t' = { s with ucRoute := t'.ucRoute, lpm := t'.lpm } ∧ t'.ucRoute = t.ucRoute ∧
    t'.lpm rt.key = (if rt.alen ≠ 0 then none else some ⟨DEFAULT_UC_RE_IDX, 0⟩) ∧
    ∀ k ≠ rt.key, t'.lpm k = if ∃ c ∈ e.children, k = (32, c.addr) then none else s.lpm k := by
  have hlen : e.len = rt.alen := congrArg Prod.fst h.key
  have hdel : t.routeDel rt =
      .ok (({ t with fib := (s.fib.put e).remove e } : Router).fibDelEntryWithChildren e) := by
    unfold routeDel
    rw [h.fib, Fib.fibGet_put hlacks.le h.key]
    rfl
  rw [Fib.remove_put hlacks h.key] at hdel
  have habove := h.above.congr s.fib t.ucRoute t.lpm
  generalize ht₀ : ({ t with fib := s.fib } : Router) = t₀ at habove hdel
  have hfib₀ : t₀.fib = s.fib ∧ t₀.ucRoute = t.ucRoute ∧ t₀.lpm = t.lpm := by
    rw [← ht₀]
    exact ⟨rfl, rfl, rfl⟩
  -- the elements differ in the addresses of the hosts, and the route has none beside hosts
  have hnd : e.elems.Nodup := by
    by_cases hgid : e.group_id = 0
    · rw [FibEntry.elems_of_zero hgid]
      refine List.Nodup.of_map (fun p => p.2) ?_
      have hmap : (e.children.map FibNode.elem).map (fun p => p.2) =
          (e.children.map FibNode.addr).map fun a => RoutePfxPbr.pfx a 32 := by
        rw [List.map_map, List.map_map]
        refine List.map_congr_left fun c hc => ?_
        obtain ⟨hlen, hpfx, -⟩ := h.host c hc
        show RoutePfxPbr.pfx c.pfx c.len = RoutePfxPbr.pfx c.addr 32
        rw [hlen, hpfx]
      rw [hmap]
      exact List.Nodup.map (fun a b hab => (RoutePfxPbr.pfx.inj hab).1) h.unique
    · have hchildren : e.children = [] := by
        by_contra hne
        exact hgid (h.alone (h.parent hne))
      unfold FibEntry.elems
      rw [hchildren, if_neg hgid]
      exact List.nodup_singleton _
  obtain ⟨habove₁, huc₁, hfib₁, hlpm₁⟩ := foldl_routeDelFibEntry_above e.children
    (fun c hc => ⟨(h.host c hc).1, (h.host c hc).2.1⟩) hnd habove
  generalize ht₁ : e.children.foldl routeDelFibEntry t₀ = t₁ at habove₁ huc₁ hfib₁ hlpm₁
  have hlast : Above s [] (t₁.routeDelFibEntry e.toFibNode) ∧
      (t₁.routeDelFibEntry e.toFibNode).ucRoute = t₁.ucRoute ∧
      (t₁.routeDelFibEntry e.toFibNode).fib = t₁.fib ∧
      (t₁.routeDelFibEntry e.toFibNode).lpm = update t₁.lpm rt.key
        (if e.len ≠ 0 then none else some ⟨DEFAULT_UC_RE_IDX, 0⟩) := by
    rw [← h.prefix_key]
    by_cases hgid : e.group_id = 0
    · -- no group has the id 0
      rw [if_pos hgid] at habove₁
      have hnone : t₁.retGroupDel e.group_id e.pfx e.len = t₁ := by
        unfold retGroupDel retGroupDelElem
        rw [hgid, habove₁.tidy.findGroup_zero]
      unfold routeDelFibEntry
      rw [hnone]
      dsimp only
      split_ifs
      · exact ⟨habove₁.congr _ _ _, rfl, rfl, rfl⟩
      · exact ⟨habove₁.congr _ _ _, rfl, rfl, rfl⟩
    · rw [if_neg hgid] at habove₁
      exact routeDelFibEntry_above List.not_mem_nil habove₁
  obtain ⟨habove₂, huc₂, hfib₂, hlpm₂⟩ := hlast
  have hend : t₀.fibDelEntryWithChildren e = t₁.routeDelFibEntry e.toFibNode := by
    unfold fibDelEntryWithChildren
    rw [ht₁]
  rw [hend] at hdel
  refine ⟨_, hdel, ?_, huc₂.trans (huc₁.trans hfib₀.2.1), ?_, fun k hk => ?_⟩
  · have heq := habove₂.eq
    rw [hfib₂, hfib₁, hfib₀.1] at heq
    exact heq
  · rw [hlpm₂, update_self, hlen]
  · rw [hlpm₂, update_of_ne hk, hlpm₁, hfib₀.2.2]
    split_ifs with hc
    · rfl
    · exact h.lpm k hk fun c hc' hkc => hc ⟨c, hc', hkc⟩

/-! ## The state is restored -/

/-- A route is added, packets arrive, and it is deleted. -/
def addUseDel (env : RouteEnv) (s : Router) (rt : Route) (calls : List (Ip4 × (ℕ → ℤ))) :
    Option Router :=
  (s.routeAdd rt).toOption.bind fun s =>
    (Lockstep.outputs (useStep env) calls s).bind fun r => (r.2.routeDel rt).toOption

/-- Everything is as before, but for route entries that the program may hand out. -/
def Restored (s s' : Router) : Prop :=
  s' = { s with ucRoute := s'.ucRoute } ∧
  ∀ i < FIRST_REGULAR_RE_IDX, s'.ucRoute i = s.ucRoute i

/-- The prefix of the route has the LPM entry that it has without a route. -/
def Bare (s : Router) (rt : Route) : Prop :=
  s.lpm rt.key = if rt.alen ≠ 0 then none else some ⟨DEFAULT_UC_RE_IDX, 0⟩

instance (s : Router) (rt : Route) : Decidable (s.Bare rt) :=
  inferInstanceAs (Decidable (s.lpm rt.key = _))

/-- The default route's entry traps packets before, and no host of a connected route has an entry
before. -/
def Undone (s : Router) (rt : Route) (calls : List (Ip4 × (ℕ → ℤ))) : Prop :=
  (rt.alen = 0 → s.ucRoute DEFAULT_UC_RE_IDX = .trap) ∧
  (rt.alen ≠ 0 → ¬rt.HasNextHop → ∀ c ∈ calls, s.lpm (32, c.1) = none)

/-- Gateways are added to an entry once. -/
theorem addGws_nodup (n : FibNode) (gws : List Gw) (h : n.gw.Nodup) : (n.addGws gws).gw.Nodup := by
  induction gws generalizing n with
  | nil => exact h
  | cons g gws ih =>
    refine ih (n.addGw g) ?_
    unfold FibNode.addGw
    split_ifs with hg
    · exact h
    · refine List.nodup_append.mpr ⟨h, List.nodup_singleton _, fun a ha b hb hab => ?_⟩
      exact hg (List.mem_singleton.mp hb ▸ hab ▸ ha)

instance (s : Router) (rt : Route) (calls : List (Ip4 × (ℕ → ℤ))) : Decidable (s.Undone rt calls) :=
  inferInstanceAs (Decidable ((rt.alen = 0 → s.ucRoute DEFAULT_UC_RE_IDX = .trap) ∧
    (rt.alen ≠ 0 → ¬rt.HasNextHop → ∀ c ∈ calls, s.lpm (32, c.1) = none)))

/-- A route with gateways is connected when none of them has an address. -/
theorem connected_newEntry {gws : List Gw} (hgws : rt.gws = .ok gws) (hne : gws ≠ []) :
    (Fib.newEntry rt gws).Connected ↔ rt.alen ≠ 0 ∧ ¬rt.HasNextHop := by
  have hlen : (Fib.newEntry rt gws).len = rt.alen := congrArg Prod.fst (Fib.newEntry_key rt gws)
  have hgw : (Fib.newEntry rt gws).gw = [0] ↔ ∀ g ∈ gws, g.addr = 0 := by
    have hnode : ∀ n : FibNode, n.gw = [] → ((n.addGws gws).gw = [0] ↔ ∀ g ∈ gws, g.addr = 0) := by
      intro n hn
      have hmem := fun a => FibNode.mem_addGws_gw n gws (a := a)
      simp only [hn, List.not_mem_nil, false_or] at hmem
      constructor
      · intro h g hg
        have hin := (hmem g.addr).mpr ⟨g, hg, rfl⟩
        rw [h] at hin
        exact List.mem_singleton.mp hin
      · intro hall
        have hnd := addGws_nodup n gws (hn ▸ List.nodup_nil)
        obtain ⟨g, hg⟩ := List.exists_mem_of_ne_nil _ hne
        have hzero : ∀ a ∈ (n.addGws gws).gw, a = 0 := fun a ha => by
          obtain ⟨g, hg, rfl⟩ := (hmem a).mp ha
          exact hall g hg
        have hin : (0 : Ip4) ∈ (n.addGws gws).gw := (hmem 0).mpr ⟨g, hg, hall g hg⟩
        refine List.perm_singleton.mp ((List.perm_ext_iff_of_nodup hnd (List.nodup_singleton 0)).mpr
          fun a => ?_)
        rw [List.mem_singleton]
        exact ⟨hzero a, fun ha => ha ▸ hin⟩
    unfold Fib.newEntry
    split_ifs
    · exact hnode _ rfl
    · exact hnode _ rfl
  unfold FibEntry.Connected
  rw [hgw, hlen, and_comm]
  refine and_congr_right fun _ => ?_
  constructor
  · intro hall hnext
    obtain ⟨g, hg, haddr⟩ := hnext.exists_mem hgws
    exact haddr (hall g hg)
  · intro hno g hg
    by_contra haddr
    exact hno (Route.hasNextHop_of_mem hgws hg haddr)

/-- A route that is added, used and deleted leaves a reachable state as it was, exactly when the
default route's entry trapped packets before and no host of a connected route had an entry
before. -/
theorem neutral_iff {uc : ℤ → UcRoute} {arp : ℕ → Mac} {ltt : ℕ × RowColum → Ltt}
    (hr : Guarded.Reach (routerStep env) (fun _ _ => True) (.init uc arp ltt) s)
    (hcount : 1 ≤ rt.gw_count ∧ rt.gw_count ≤ 8) (hlacks : s.fib.Lacks rt) (hbare : s.Bare rt)
    {calls : List (Ip4 × (ℕ → ℤ))}
    (hok : ∀ s₁, s.routeAdd rt = .ok s₁ → Lockstep.Ok (useStep env) (UseOk rt) calls s₁) :
    ∃ s', addUseDel env s rt calls = some s' ∧ (s.Restored s' ↔ s.Undone rt calls) := by
  obtain ⟨gws, hgws⟩ : ∃ gws, rt.gws = .ok gws := ⟨_, if_pos hcount.2⟩
  have hlen : gws.length = rt.gw_count := by
    unfold Route.gws at hgws
    rw [if_pos hcount.2] at hgws
    rw [← Except.ok.inj hgws, List.length_take, List.length_ofFn]
    omega
  have hne : gws ≠ [] := List.ne_nil_of_length_pos (by omega)
  obtain ⟨s₁, hadd, h₁⟩ := Using.start (.of_reach hr) hlacks hgws hne (by omega)
  obtain ⟨e, os, s₂, hrun, h₂, hhosts⟩ := h₁.run hlacks env (hok s₁ hadd)
  obtain ⟨s', hdel, heq, huc, hkey, hother⟩ := h₂.delete hlacks
  -- the hosts are those that packets came for, if the route is connected
  have hhost : ∀ k, (∃ c ∈ e.children, k = (32, c.addr)) ↔
      (rt.alen ≠ 0 ∧ ¬rt.HasNextHop) ∧ ∃ c ∈ calls, k = (32, c.1) := by
    intro k
    have hx := hhosts k.2
    rw [Fib.newEntry_children, connected_newEntry hgws hne] at hx
    simp only [List.not_mem_nil, false_and, exists_false, false_or] at hx
    constructor
    · rintro ⟨c, hc, rfl⟩
      obtain ⟨hconn, c', hc', heq⟩ := hx.mp ⟨c, hc, rfl⟩
      exact ⟨hconn, c', hc', congrArg (Prod.mk 32) heq⟩
    · rintro ⟨hconn, c, hc, rfl⟩
      obtain ⟨c', hc', heq⟩ := hx.mpr ⟨hconn, c, hc, rfl⟩
      exact ⟨c', hc', congrArg (Prod.mk 32) heq.symm⟩
  have hlpm : s'.lpm = s.lpm ↔
      (rt.alen ≠ 0 → ¬rt.HasNextHop → ∀ c ∈ calls, s.lpm (32, c.1) = none) := by
    constructor
    · intro hsame halen hconn c hc
      by_cases hk : (32, c.1) = rt.key
      · rw [hk, hbare, if_pos halen]
      · rw [← hsame, hother _ hk, if_pos ((hhost _).mpr ⟨⟨halen, hconn⟩, c, hc, rfl⟩)]
    · intro hnone
      refine funext fun k => ?_
      by_cases hk : k = rt.key
      · rw [hk, hkey, hbare]
      · rw [hother k hk]
        split_ifs with hhas
        · obtain ⟨hconn, c, hc, rfl⟩ := (hhost k).mp hhas
          exact (hnone hconn.1 hconn.2 c hc).symm
        · rfl
  have huc' : (∀ i < FIRST_REGULAR_RE_IDX, s'.ucRoute i = s.ucRoute i) ↔
      (rt.alen = 0 → s.ucRoute DEFAULT_UC_RE_IDX = .trap) := by
    rw [huc]
    constructor
    · intro hsame halen
      have hlt : DEFAULT_UC_RE_IDX < FIRST_REGULAR_RE_IDX := by decide
      rw [← hsame _ hlt, h₂.uc _ hlt, if_pos ⟨halen, rfl⟩]
    · intro htrap i hi
      rw [h₂.uc i hi]
      split_ifs with hx
      · rw [hx.2, htrap hx.1]
      · rfl
  refine ⟨s', ?_, ?_⟩
  · unfold addUseDel
    rw [hadd]
    show (Lockstep.outputs (useStep env) calls s₁).bind _ = _
    rw [hrun]
    show (s₂.routeDel rt).toOption = some s'
    rw [hdel]
    rfl
  · unfold Restored Undone
    rw [huc', ← hlpm, and_comm]
    refine and_congr_right fun _ => ?_
    constructor
    · intro hx
      rw [hx]
    · intro hx
      rw [hx] at heq
      exact heq

/-- A route of 10.1.0.0/16 that is resolved, and whose gateway has an address. -/
def resolvedRun : List RouterOp :=
  [.route (.routeAdd ⟨0x0a010000, 16, 1, fun _ => ⟨0xc0a80001, 5⟩⟩),
    .route (.routeHandleUdaddr 0x0a010203 fun _ => 0),
    .route (.retSetMacAddr ⟨0xc0a80001, 5⟩ 7 1 true)]

/-- A route of 10.2.0.0/16 with the same gateway and another one. -/
def sharingRoute : Route := ⟨0x0a020000, 16, 2, fun i => ⟨0xc0a80001 + i.1, 5⟩⟩

/-- Adding, using and deleting `sharingRoute` after `resolvedRun` restores what was there. -/
theorem neutral_iff_resolvedRun :
    ∃ s s', Guarded.Reach (routerStep .onePort) (fun _ _ => True) blank s ∧
    addUseDel .onePort s sharingRoute
      [(0x0a020001, fun _ => 0), (0x0a020002, fun _ => 0)] = some s' ∧
    s.Restored s' := by
  have hrun : (Guarded.run (routerStep .onePort) (fun _ _ => True) blank resolvedRun).map
      (fun s => decide (s.fib.Lacks sharingRoute ∧ s.Bare sharingRoute ∧
        (∀ s₁ ∈ (s.routeAdd sharingRoute).toOption,
          Lockstep.Ok (useStep .onePort) (UseOk sharingRoute)
          [(0x0a020001, fun _ => 0), (0x0a020002, fun _ => 0)] s₁) ∧
        s.Undone sharingRoute [(0x0a020001, fun _ => 0), (0x0a020002, fun _ => 0)])) =
      some true := by decide +kernel
  obtain ⟨s, hs, hfacts⟩ := Option.map_eq_some_iff.mp hrun
  obtain ⟨hlacks, hbare, hok, hundone⟩ := of_decide_eq_true hfacts
  have hr := Guarded.Reach.init.of_run hs
  obtain ⟨s', hrun', hiff⟩ := neutral_iff hr (by decide) hlacks hbare
    fun s₁ hs₁ => hok s₁ (Except.toOption_eq_some_iff.mpr hs₁)
  exact ⟨s, s', hr, hrun', hiff.mpr hundone⟩

/-- The route 0.0.0.0/0. -/
def defaultRoute : Route := ⟨0, 0, 1, fun _ => ⟨0xc0a80001, 5⟩⟩

/-- The default route is added and deleted, and its route entry traps packets instead of dropping
them. -/
theorem not_neutral : blank.fib.Lacks defaultRoute ∧ blank.Bare defaultRoute ∧
    ∃ s', addUseDel .onePort blank defaultRoute [] = some s' ∧ ¬blank.Restored s' := by
  have hrun : (addUseDel .onePort blank defaultRoute []).map (·.ucRoute DEFAULT_UC_RE_IDX) =
      some .trap := by decide
  obtain ⟨s', hs', htrap⟩ := Option.map_eq_some_iff.mp hrun
  refine ⟨by decide, by decide, s', hs', fun h => ?_⟩
  have hsame := h.2 DEFAULT_UC_RE_IDX (by decide)
  rw [htrap] at hsame
  exact UcRoute.noConfusion (hsame.trans (by decide : blank.ucRoute DEFAULT_UC_RE_IDX = .drop))

end Router

end Presteramgr
