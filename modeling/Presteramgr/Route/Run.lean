import Presteramgr.Lib.Guarded
import Presteramgr.Ret.Run
import Presteramgr.Route.Steps

/-!
# Runs of route operations

The entry points of `route.c` for IPv4 routes, and the two of `ret.c` for addresses of gateways, as
operations on the routing state.

## Main definitions

* `RouteOp` and `routeStep`;
* `Fib.ChangeOk`: a resolved route can be changed.

## Main results

* `Sound.routeChange`.
-/

namespace Presteramgr

/-- A call with the outcomes that the hardware and the stack contribute. -/
inductive RouteOp
  | routeAdd (rt : Route)
  | routeChange (rt : Route) (junk : ℕ → ℤ)
  | routeDel (rt : Route)
  | routeHandleUdaddr (daddr : Ip4) (junk : ℕ → ℤ)
  | retSetMacAddr (gw : Gw) (addr : Mac) (vif_id : ℕ) (arpOk : Bool)
  | retUnsetMacAddr (gw : Gw)

namespace Fib

variable {f f' : Fib} {a : Ip4} {rt : Route}

/-- The prefix of the route has a route with a group. -/
def IsResolved (f : Fib) (rt : Route) : Prop :=
  match fibGet f rt.addr rt.alen with
  | .ok (some e) => e.group_id ≠ 0
  | _ => False

instance (f : Fib) (rt : Route) : Decidable (f.IsResolved rt) :=
  match h : fibGet f rt.addr rt.alen with
  | .ok (some e) => decidable_of_iff (e.group_id ≠ 0) (by rw [IsResolved, h])
  | .ok none => .isFalse (by rw [IsResolved, h]; exact id)
  | .error _ => .isFalse (by rw [IsResolved, h]; exact id)

/-- When the resolved route of this prefix is replaced by `rt`, the address of `rt` leads to it, and
it is not connected and has a gateway. -/
def ChangeOk (strict : Prop) (f : Fib) (rt : Route) : Prop :=
  if rt.alen = 0 then if f.scan 32 rt.addr = none then rt.gw_count ≠ 0 else f.Resolvable rt.addr
  else (rt.HasNextHop ∨ rt.alen = 32 ∧ (strict → rt.gw_count = 0)) ∧
    ∀ e ∈ f.e, rt.alen < e.len → ¬e.Covers rt.addr

instance (strict : Prop) [Decidable strict] (f : Fib) (rt : Route) :
    Decidable (f.ChangeOk strict rt) :=
  inferInstanceAs (Decidable (ite _ _ _))

/-- The loop reads only the routes of lengths above zero. -/
theorem scan_congr (h : f'.e = f.e) (n : ℕ) (a : Ip4) : f'.scan n a = f.scan n a := by
  induction n generalizing a with
  | zero => rfl
  | succ n ih =>
    rw [scan, scan, hashFind, hashFind, h]
    split
    · rfl
    · exact ih _

theorem HostFree.congr {strict : Prop} (hf : f.HostFree strict a) (h : f'.e = f.e) :
    f'.HostFree strict a := by
  unfold HostFree at hf ⊢
  rwa [scan_congr h, h]

/-- A route that covers the address is picked whatever the default route is. -/
theorem Resolvable.congr (hf : f.Resolvable a) (h : f'.e = f.e) {e : FibEntry}
    (hscan : f.scan 32 a = some e) : f'.Resolvable a := by
  have hpick : (fibRoute f' a).1 = (fibRoute f a).1 := by
    unfold fibRoute
    rw [scan_congr h, hscan]
    dsimp only
    split
    · cases Keyed.find FibNode.addr e.children a with
      | none => rfl
      | some c => rfl
    · rfl
  unfold Resolvable at hf ⊢
  rwa [hpick]

end Fib

namespace Router

variable {env : RouteEnv} {s s' : Router} {strict : Prop} {rt : Route} {junk : ℕ → ℤ}

/-- One call, `none` when it runs into an `assert` or beyond an array. -/
def routeStep (env : RouteEnv) (s : Router) : RouteOp → Option Router
  | .routeAdd rt => (s.routeAdd rt).toOption
  | .routeChange rt junk => (s.routeChange env rt junk).toOption
  | .routeDel rt => (s.routeDel rt).toOption
  | .routeHandleUdaddr daddr junk => (s.routeHandleUdaddr env daddr junk).toOption
  | .retSetMacAddr gw addr vif_id arpOk => some (s.retSetMacAddr env gw addr vif_id arpOk).2
  | .retUnsetMacAddr gw => some (s.retUnsetMacAddr env gw).2

/-- The calls of `route_change`: the route is deleted, and added as a new one, or added and
resolved. -/
theorem routeChange_cases (hok : s.routeChange env rt junk = .ok s') : ∃ s₁,
    s.routeDel rt = .ok s₁ ∧
      (¬s.fib.IsResolved rt ∧ s₁.routeAdd rt = .ok s' ∨
        s.fib.IsResolved rt ∧ ∃ s₂, s₁.routeAddChange rt = .ok s₂ ∧
          s₂.routeHandleUdaddr env rt.addr junk = .ok s') := by
  obtain ⟨r, hget, hok⟩ := Except.bind_eq_ok_iff.mp hok
  obtain ⟨s₁, hdel, hok⟩ := Except.bind_eq_ok_iff.mp hok
  refine ⟨s₁, hdel, ?_⟩
  have hres : s.fib.IsResolved rt ↔ (r.elim 0 fun e => e.group_id) ≠ 0 := by
    unfold Fib.IsResolved
    rw [hget]
    cases r with
    | none => exact ⟨False.elim, fun h => h rfl⟩
    | some e => exact Iff.rfl
  by_cases hgid : (r.elim 0 fun e => e.group_id) ≠ 0
  · rw [if_pos hgid] at hok
    obtain ⟨s₂, hadd, hok⟩ := Except.bind_eq_ok_iff.mp hok
    exact .inr ⟨hres.mpr hgid, s₂, hadd, hok⟩
  · rw [if_neg hgid] at hok
    exact .inl ⟨fun h => hgid (hres.mp h), hok⟩

/-- The entry for the default route does not depend on the prefix. -/
theorem routeAddChange_of_zero (halen : rt.alen = 0) : s.routeAddChange rt = s.routeAdd rt := by
  unfold routeAddChange routeAdd announceRoute
  simp only [if_pos halen]

namespace Sound

/-- A route is changed. -/
theorem routeChange (h : s.Sound strict) (hok : s.routeChange env rt junk = .ok s')
    (hnew : fibGet s.fib rt.addr rt.alen = .ok none → rt.alen ≠ 0 →
      ∀ o ∈ s.fib.owners, o.key ≠ rt.key)
    (hchange : s.fib.IsResolved rt → s.fib.ChangeOk strict rt)
    (hfree : s.fib.IsResolved rt → rt.alen = 0 → s.fib.HostFree strict rt.addr) :
    s'.Sound strict := by
  obtain ⟨s₁, hdel, hcases⟩ := routeChange_cases hok
  obtain ⟨h₁, hfound⟩ := h.routeDel hdel
  -- after the deletion nobody owns the prefix, which no route has
  have hgone : rt.alen ≠ 0 → s₁.fib.hashFind rt.key = none ∧
      ∀ o ∈ s₁.fib.owners, o.key ≠ rt.key := by
    intro halen
    have hkeys : ∀ o ∈ s₁.fib.owners, o.key ≠ rt.key := by
      rcases hfound with ⟨hget, rfl⟩ | ⟨e, -, -, hkeys⟩
      · exact hnew hget halen
      · exact hkeys
    refine ⟨Option.eq_none_iff_forall_ne_some.mpr fun e he => ?_, hkeys⟩
    obtain ⟨hmem, hkey⟩ := h₁.wf.hashFind_eq_some_iff.mp he
    obtain ⟨o, ho, hok⟩ := (h₁.wf.entry e hmem).exists_owner
    exact hkeys o (Fib.mem_owners_iff.mpr (.inl ⟨e, hmem, ho⟩)) (hok.trans hkey)
  rcases hcases with ⟨-, hadd⟩ | ⟨hres, s₂, hadd, hudaddr⟩
  · refine (h₁.routeAdd hadd (fun halen _ => (hgone halen).2) fun e he => ?_).1
    by_cases halen : rt.alen = 0
    · obtain ⟨hmem, hkey⟩ := h₁.wf.hashFind_eq_some_iff.mp he
      have hlen : e.len = 0 := (congrArg Prod.fst hkey).trans halen
      exact absurd hlen (h₁.wf.entry e hmem).len_pos.ne'
    · exact absurd ((hgone halen).1.symm.trans he) (Option.some_ne_none e).symm
  · have hok := hchange hres
    obtain ⟨e, hget, hfib⟩ : ∃ e, fibGet s.fib rt.addr rt.alen = .ok (some e) ∧
        s₁.fib = s.fib.remove e := by
      rcases hfound with ⟨hget, -⟩ | ⟨e, hget, hfib, -⟩
      · rw [Fib.IsResolved, hget] at hres
        exact hres.elim
      · exact ⟨e, hget, hfib⟩
    unfold Fib.ChangeOk at hok
    by_cases halen : rt.alen = 0
    · -- the default route is replaced; the address leads to it or to another route
      rw [if_pos halen] at hok
      rw [routeAddChange_of_zero halen] at hadd
      obtain ⟨h₂, hfib₂⟩ := h₁.routeAdd hadd (fun hne => absurd halen hne) fun e he => by
        obtain ⟨hmem, hkey⟩ := h₁.wf.hashFind_eq_some_iff.mp he
        exact absurd ((congrArg Prod.fst hkey).trans halen) (h₁.wf.entry e hmem).len_pos.ne'
      have hzero : e.len = 0 := ((h.wf.fibGet_eq_some hget).2).trans halen
      have he₁ : s₁.fib.e = s.fib.e := by
        rw [hfib, Fib.remove, if_pos hzero]
      have hd₁ : s₁.fib.dflt = none := by
        rw [hfib, Fib.remove, if_pos hzero]
      obtain ⟨-, he₂, -⟩ := h₁.wf.fibAdd_zero halen hfib₂
      have hsame : s₂.fib.e = s.fib.e := he₂.trans he₁
      refine h₂.routeHandleUdaddr hudaddr ?_ ((hfree hres halen).congr hsame)
      cases hscan : s.fib.scan 32 rt.addr with
      | some e' =>
        rw [if_neg (by rw [hscan]; exact Option.some_ne_none e')] at hok
        exact hok.congr hsame hscan
      | none =>
        rw [if_pos hscan] at hok
        obtain ⟨gws, hgws, hdflt⟩ := (Fib.fibAdd_of_zero halen).mp hfib₂
        have hgw : gws ≠ [] := fun hnil => hok ((Route.gws_eq_nil_iff hgws).mp hnil)
        obtain ⟨g, hg⟩ := List.exists_mem_of_ne_nil _ hgw
        have hpick : (fibRoute s₂.fib rt.addr).1 = s₂.fib.dflt.map fun e =>
          (.dflt, e.toFibNode) := by
          unfold fibRoute
          rw [Fib.scan_congr hsame, hscan]
        unfold Fib.Resolvable
        rw [hpick, hdflt]
        refine .inr (.inl (List.ne_nil_of_mem ((FibNode.mem_addGws_gw ..).mpr (.inr ⟨g, hg, rfl⟩))))
    · rw [if_neg halen] at hok
      obtain ⟨hnone, hkeys⟩ := hgone halen
      refine h₁.changed halen hnone (fun e' he' => hok.2 e' ?_) hok.1 hkeys hadd hudaddr
      rw [hfib] at he'
      exact Fib.mem_of_mem_remove he'

end Sound

end Router

end Presteramgr
