import Presteramgr.Ret.Frame
import Presteramgr.Route.Run

/-!
# The packet processor forwards as the FIB says

For an address that a route covers, the entry of the longest prefix in the LPM table traps the
packet, or it is the entry of the group of the route or host that the FIB picks. This holds as long
as no route is added inside a connected one between it and its hosts.

## Main definitions

* `hardwareEntry`: the LPM entry that the packet processor selects;
* `Agrees`: it is the entry for what the FIB picks;
* `Fib.Unshadowed`: no route lies between a host and its connected route.

## Main results

* `forwarding_agrees`: in runs of the calls that meet `ForwardingOk` they agree.
-/

namespace Presteramgr

open scoped List

open Guarded

namespace Fib

variable {f f' : Fib} {a : Ip4} {rt : Route} {gid : ℤ} {o : Owner}

/-- No route lies between a host and its connected route. -/
def Unshadowed (f : Fib) : Prop :=
  ∀ e ∈ f.e, ∀ c ∈ e.children, ∀ e' ∈ f.e, e'.Covers c.addr → e'.len ≤ e.len

/-- A new prefix has no hosts of shorter connected routes in it. -/
def AddOk (f : Fib) (rt : Route) : Prop :=
  f.hashFind rt.key = none → ∀ e ∈ f.e, e.len < rt.alen → ∀ c ∈ e.children,
    masked rt.alen c.addr ≠ masked rt.alen rt.addr

instance (f : Fib) (rt : Route) : Decidable (f.AddOk rt) :=
  inferInstanceAs (Decidable (_ → _))

/-- Nobody owns a new prefix that has no hosts of shorter connected routes in it. -/
theorem AddOk.key_free (hok : f.AddOk rt) (hwf : f.Wf) (halen : rt.alen ≠ 0)
    (hnone : f.hashFind rt.key = none) : ∀ o ∈ f.owners, o.key ≠ rt.key := by
  refine fun o ho => hwf.entry_key_ne hnone ho (Nat.pos_of_ne_zero halen)
    fun hlen e he c hc haddr => ?_
  have hwfe := hwf.entry e he
  obtain ⟨-, -, -, hcov⟩ := hwfe.host c hc
  have h32 : rt.alen = 32 := hlen
  have haddr : c.addr = masked rt.alen rt.addr := haddr
  rcases hwfe.len_le.eq_or_lt with hlen | hlt
  · -- the host of a route for the address alone
    refine Keyed.find_eq_none_iff.mp hnone e he (Prod.ext (hlen.trans h32.symm) ?_)
    exact (hcov.eq_addr hlen).symm.trans haddr
  · refine hok hnone e he (h32.symm ▸ hlt) c hc ?_
    rw [haddr, h32, masked_thirtyTwo]

namespace Unshadowed

variable (h : f.Unshadowed)

include h

theorem fibAdd (hadd : Presteramgr.fibAdd f rt = .ok f') (hok : f.AddOk rt) : f'.Unshadowed := by
  by_cases halen : rt.alen = 0
  · obtain ⟨gws, -, rfl⟩ := (fibAdd_of_zero halen).mp hadd
    exact h
  cases hfind : f.hashFind rt.key with
  | some e =>
    rw [fibAdd_of_some halen hfind hadd]
    exact h
  | none =>
    obtain ⟨-, gws, -, rfl⟩ := (fibAdd_of_none halen hfind).mp hadd
    intro e he c hc e' he' hcov
    rcases List.mem_cons.mp he with rfl | he
    · exact absurd hc List.not_mem_nil
    rcases List.mem_cons.mp he' with rfl | he'
    · -- the new route covers no host of a shorter one
      have hlen : (rt.node.addGws gws).len = rt.alen := FibNode.addGws_len ..
      have haddr : (rt.node.addGws gws).addr = masked rt.alen rt.addr := FibNode.addGws_addr ..
      have hmask : masked (rt.node.addGws gws).len c.addr = (rt.node.addGws gws).addr := hcov
      rw [hlen, haddr] at hmask
      rw [hlen]
      exact not_lt.mp fun hlt => hok hfind e he hlt c hc hmask
    · exact h e he c hc e' he' hcov

theorem remove (e : FibEntry) : (f.remove e).Unshadowed :=
  fun x hx c hc x' hx' => h x (mem_of_mem_remove hx) c hc x' (mem_of_mem_remove hx')

/-- A prefix that a route had has no hosts of shorter routes in it. -/
theorem addOk_remove (hwf : f.Wf) {e : FibEntry}
    (hget : fibGet f rt.addr rt.alen = .ok (some e)) : (f.remove e).AddOk rt := by
  intro _ x hx hlt c hc hmask
  rcases hwf.mem_of_fibGet hget with ⟨hmem, hkey⟩ | hdflt
  · have hlen : e.len = rt.alen := congrArg Prod.fst hkey
    have hcov : e.Covers c.addr := by
      show masked e.len c.addr = e.addr
      rw [hlen, hmask]
      exact (congrArg Prod.snd hkey).symm
    have hle := h x (mem_of_mem_remove hx) c hc e hmem hcov
    omega
  · have hlen := (hwf.fibGet_eq_some hget).2
    have hzero := (hwf.dflt e hdflt).1
    omega

/-- A host is made below the longest prefix that covers it. -/
theorem resolved (hwf : f.Wf) (hr : f.Resolved a gid o f') : f'.Unshadowed := by
  -- coverage depends on the prefixes only, and these do not change
  have hold : ∀ x ∈ f'.e, ∃ y ∈ f.e, x.key = y.key := by
    intro x hx
    rcases hr.mem_e hx with ⟨y, hy, hkey, -⟩ | ⟨e, hscan, -, -, rfl⟩
    · exact ⟨y, hy, hkey⟩
    · exact ⟨e, ((scan_eq_some_iff hwf).mp hscan).1, rfl⟩
  have hcover : ∀ x y : FibEntry, x.key = y.key → ∀ b, x.Covers b → y.Covers b := by
    intro x y hkey b hcov
    unfold FibEntry.Covers at hcov ⊢
    rwa [← hkey]
  intro x hx c hc x' hx' hcov
  obtain ⟨y', hy', hkey'⟩ := hold x' hx'
  have hcov' := hcover x' y' hkey' _ hcov
  have hlen' : x'.len = y'.len := congrArg Prod.fst hkey'
  rcases hr.mem_e hx with ⟨y, hy, hkey, hch⟩ | ⟨e, hscan, -, -, rfl⟩
  · have hlen : x.len = y.len := congrArg Prod.fst hkey
    rw [hlen, hlen']
    exact h y hy c (hch ▸ hc) y' hy' hcov'
  · obtain ⟨he, -, hlongest⟩ := (scan_eq_some_iff hwf).mp hscan
    rw [hlen']
    rcases List.mem_append.mp hc with hc | hc
    · exact h e he c hc y' hy' hcov'
    · obtain rfl := List.mem_singleton.mp hc
      exact hlongest y' hy' hcov'

/-- A host of another route is not below the route that covers it. -/
theorem eq_of_host (hwf : f.Wf) {e x : FibEntry} {c : FibNode}
    (hscan : f.scan 32 c.addr = some e) (hx : x ∈ f.e) (hc : c ∈ x.children) : x = e := by
  obtain ⟨he, hcov, hlongest⟩ := (scan_eq_some_iff hwf).mp hscan
  obtain ⟨-, -, -, hcovx⟩ := (hwf.entry x hx).host c hc
  have hlen : x.len = e.len := le_antisymm (hlongest x hx hcovx) (h x hx c hc e he hcov)
  have haddr : x.addr = e.addr := by
    have h₁ : masked x.len c.addr = x.addr := hcovx
    have h₂ : masked e.len c.addr = e.addr := hcov
    rw [← h₁, ← h₂, hlen]
  exact hwf.unique.eq_of_mem hx he (Prod.ext hlen haddr)

theorem hostFree (hwf : f.Wf) (a : Ip4) : f.HostFree False a := by
  unfold HostFree
  cases hscan : f.scan 32 a with
  | none => trivial
  | some e =>
    refine fun _ hno => ⟨False.elim, fun _ x hx c hc haddr => ?_⟩
    subst haddr
    obtain rfl := h.eq_of_host hwf hscan hx hc
    exact hno c hc rfl

end Unshadowed

end Fib

namespace Router

variable {env : RouteEnv} {s s' : Router} {a : Ip4} {rt : Route} {junk : ℕ → ℤ}

/-- The LPM entry that the packet processor selects: that of the longest prefix. -/
def hardwareEntry (s : Router) (a : Ip4) : Option Ltt := Prefixes.select masked s.lpm a 32

/-- The packet is trapped, or it takes the entry of the group of what the FIB picks. -/
def Agrees (s : Router) (a : Ip4) : Prop :=
  s.hardwareEntry a = some trapEntry ∨
    ∃ ref n g, (fibRoute s.fib a).1 = some (ref, n) ∧ s.findGroup n.group_id = some g ∧
      s.hardwareEntry a = some g.lttEntry

/-- A new prefix has no hosts of shorter connected routes in it, and a route that is resolved gets
the prefix that it has in the FIB. -/
def ForwardingOk (s : Router) : RouteOp → Prop
  | .routeAdd rt => s.fib.AddOk rt
  | .routeChange rt _ => if s.fib.IsResolved rt then s.fib.ChangeOk False rt else s.fib.AddOk rt
  | .routeHandleUdaddr daddr _ => s.fib.Resolvable daddr
  | .routeDel _ | .retSetMacAddr .. | .retUnsetMacAddr _ => True

instance : ∀ (s : Router) (op : RouteOp), Decidable (s.ForwardingOk op)
  | s, .routeAdd rt => inferInstanceAs (Decidable (s.fib.AddOk rt))
  | s, .routeChange rt _ =>
    inferInstanceAs (Decidable (if s.fib.IsResolved rt then s.fib.ChangeOk False rt
      else s.fib.AddOk rt))
  | s, .routeHandleUdaddr daddr _ => inferInstanceAs (Decidable (s.fib.Resolvable daddr))
  | _, .routeDel _ | _, .retSetMacAddr .. | _, .retUnsetMacAddr _ => .isTrue trivial

/-! ## What an owner shows -/

/-- The entry of an owner traps packets, or is that of its group. -/
theorem Installed.lpm_key {strict : Prop} {hole : Set (ℕ × Ip4)} {owners : List Owner} {o : Owner}
    (h : s.Installed strict hole owners) (ho : o ∈ owners) (hlen : o.len ≠ 0) :
    s.lpm o.key = some trapEntry ∨ o.group_id ≠ 0 ∧
      ∃ g, s.findGroup o.group_id = some g ∧ s.lpm o.key = some g.lttEntry := by
  rcases h.shown o ho (.inl hlen) with heq | ⟨-, -, htrap⟩
  · by_cases hgid : o.group_id = 0
    · exact .inl (heq.trans (if_pos hgid))
    · obtain ⟨g, hfind, -⟩ := h.findGroup ho hgid
      refine .inr ⟨hgid, g, hfind, heq.trans ?_⟩
      rw [target, if_neg hgid, hfind, Option.map_some]
  · exact .inl htrap

/-- Where the table is sound and no host is shadowed, the packet processor selects what the FIB
picks. -/
theorem Sound.agrees (h : s.Sound False) (hu : s.fib.Unshadowed)
    (hcovered : ∃ e ∈ s.fib.e, e.Covers a) : s.Agrees a := by
  -- the address is covered, so the loop finds an entry
  cases hscan : s.fib.scan 32 a with
  | none =>
    obtain ⟨e, he, hcov⟩ := hcovered
    exact absurd hcov ((Fib.scan_eq_none_iff h.wf).mp hscan e he)
  | some e =>
  obtain ⟨he, hcov, hlongest⟩ := (Fib.scan_eq_some_iff h.wf).mp hscan
  have hwf := h.wf.entry e he
  have howner : ∀ o ∈ e.owners, o ∈ s.fib.owners := fun o ho =>
    Fib.mem_owners_iff.mpr (.inl ⟨e, he, ho⟩)
  by_cases hhost : ∃ c ∈ e.children, c.addr = a
  · -- the FIB picks a host, which owns the whole address
    obtain ⟨c, hc, rfl⟩ := hhost
    have hgw : e.gw = [0] := hwf.parent (List.ne_nil_of_mem hc)
    have hpick : (fibRoute s.fib c.addr).1 = some (.child e.key c.addr, c) := by
      unfold fibRoute
      rw [hscan]
      dsimp only
      rw [if_pos hgw, hwf.unique.find_eq_some_iff.mpr ⟨hc, rfl⟩]
    have hkey := hwf.child_key hc
    have hlen : c.owner.len ≠ 0 := by
      rw [show c.owner.len = 32 from congrArg Prod.fst hkey]
      exact Nat.succ_ne_zero 31
    have hselect : ∀ l, s.lpm c.owner.key = some l → s.hardwareEntry c.addr = some l := by
      intro l hl
      rw [hkey] at hl
      refine Prefixes.select_eq_some_iff.mpr ⟨32, le_rfl, ?_, fun j hj hle => by omega⟩
      rwa [masked_thirtyTwo]
    rcases h.installed.lpm_key
      (howner _ (FibEntry.mem_owners_iff.mpr (.inl ⟨c, hc, rfl⟩))) hlen with
      htrap | ⟨-, g, hfind, hl⟩
    · exact .inl (hselect _ htrap)
    · exact .inr ⟨_, c, g, hpick, hfind, hselect _ hl⟩
  · -- no longer prefix of the address has an owner
    have hown : e.owner ∈ s.fib.owners := by
      refine howner _ (FibEntry.mem_owners_iff.mpr (.inr ⟨fun hch => hhost ?_, rfl⟩))
      obtain ⟨c, hc⟩ := List.exists_mem_of_ne_nil _ hch.2
      obtain ⟨-, -, -, hcc⟩ := hwf.host c hc
      exact ⟨c, hc, (hcc.eq_addr hch.1).trans (hcov.eq_addr hch.1).symm⟩
    have hbare : ∀ j, e.len < j → j ≤ 32 → s.lpm (j, masked j a) = none := by
      intro j hj hle
      by_contra hne
      obtain ⟨o, ho, hkey⟩ := h.installed.bare (j, masked j a) (by omega) (Set.notMem_empty _) hne
      rcases Fib.mem_owners_iff.mp ho with ⟨x, hx, hox⟩ | ⟨d, hd, rfl⟩
      · have hwfx := h.wf.entry x hx
        rcases FibEntry.mem_owners_iff.mp hox with ⟨c, hc, rfl⟩ | ⟨-, rfl⟩
        · rw [hwfx.child_key hc] at hkey
          obtain rfl : 32 = j := congrArg Prod.fst hkey
          have haddr : c.addr = a := (congrArg Prod.snd hkey).trans (masked_thirtyTwo a)
          subst haddr
          obtain rfl := hu.eq_of_host h.wf hscan hx hc
          exact hhost ⟨c, hc, rfl⟩
        · rw [FibEntry.owner_key hwfx] at hkey
          obtain rfl : x.len = j := congrArg Prod.fst hkey
          have hcovx : x.Covers a := (congrArg Prod.snd hkey).symm
          exact absurd (hlongest x hx hcovx) (not_le.mpr hj)
      · -- the default entry has length zero, and `j` is greater
        have hzero : d.len = 0 := (h.wf.dflt d hd).1
        have hlen : d.len = j := congrArg Prod.fst hkey
        omega
    have hkey : e.owner.key = (e.len, masked e.len a) := by
      rw [FibEntry.owner_key hwf]
      exact congrArg (Prod.mk e.len) hcov.symm
    have hselect : ∀ l, s.lpm e.owner.key = some l → s.hardwareEntry a = some l := by
      intro l hl
      rw [hkey] at hl
      exact Prefixes.select_eq_some_iff.mpr ⟨e.len, hwf.len_le, hl, hbare⟩
    rcases h.installed.lpm_key hown hwf.len_pos.ne' with htrap | ⟨hgid, g, hfind, hl⟩
    · exact .inl (hselect _ htrap)
    · have hgw : e.gw ≠ [0] := fun hgw => hgid (hwf.connected hgw)
      have hpick : (fibRoute s.fib a).1 = some (.entry e.key, e.toFibNode) := by
        unfold fibRoute
        rw [hscan]
        dsimp only
        rw [if_neg hgw]
      exact .inr ⟨_, _, g, hpick, hfind, hselect _ hl⟩

/-! ## Runs -/

/-- The invariant of the runs. -/
def ForwardingInv (s : Router) : Prop := s.Sound False ∧ s.fib.Unshadowed

namespace ForwardingInv

variable (h : s.ForwardingInv)

include h

theorem routeAdd (hok : s.routeAdd rt = .ok s') (hadd : s.fib.AddOk rt) : s'.ForwardingInv := by
  obtain ⟨hs, hu⟩ := h
  obtain ⟨hs', hfib⟩ := hs.routeAdd hok (hadd.key_free hs.wf) fun _ _ => .inl id
  exact ⟨hs', hu.fibAdd hfib hadd⟩

theorem routeHandleUdaddr (hok : s.routeHandleUdaddr env a junk = .ok s')
    (hres : s.fib.Resolvable a) : s'.ForwardingInv := by
  obtain ⟨hs, hu⟩ := h
  refine ⟨hs.routeHandleUdaddr hok hres (hu.hostFree hs.wf a), ?_⟩
  obtain ⟨rfl, -⟩ | ⟨o, gws, alen, f₀, f', -, hr, rfl⟩ := routeHandleUdaddr_cases hs.wf hok
  · exact hu
  · exact hu.resolved hs.wf hr

theorem routeDel (hok : s.routeDel rt = .ok s') : s'.ForwardingInv := by
  obtain ⟨hs, hu⟩ := h
  obtain ⟨hs', ⟨-, rfl⟩ | ⟨e, -, hfib, -⟩⟩ := hs.routeDel hok
  · exact ⟨hs', hu⟩
  · exact ⟨hs', hfib ▸ hu.remove e⟩

theorem routeChange (hok : s.routeChange env rt junk = .ok s')
    (hguard : if s.fib.IsResolved rt then s.fib.ChangeOk False rt else s.fib.AddOk rt) :
    s'.ForwardingInv := by
  obtain ⟨hs, hu⟩ := h
  refine ⟨?_, ?_⟩
  · refine hs.routeChange hok (fun hget halen => ?_) (fun hres => ?_)
      fun _ _ => hu.hostFree hs.wf rt.addr
    · have hno : ¬s.fib.IsResolved rt := by
        rw [Fib.IsResolved, hget]
        exact id
      rw [if_neg hno] at hguard
      refine hguard.key_free hs.wf halen ?_
      unfold fibGet at hget
      split_ifs at hget
      exact Except.ok.inj hget
    · rwa [if_pos hres] at hguard
  · -- the route is deleted, and added again where it was or as a new prefix
    obtain ⟨s₁, hdel, hcases⟩ := routeChange_cases hok
    obtain ⟨hs₁, hfound⟩ := hs.routeDel hdel
    have hadd₁ : s₁.fib.Unshadowed ∧ s₁.fib.AddOk rt := by
      rcases hfound with ⟨hget, rfl⟩ | ⟨e, hget, hfib, -⟩
      · have hno : ¬s₁.fib.IsResolved rt := by
          rw [Fib.IsResolved, hget]
          exact id
        rw [if_neg hno] at hguard
        exact ⟨hu, hguard⟩
      · rw [hfib]
        exact ⟨hu.remove e, hu.addOk_remove hs.wf hget⟩
    obtain ⟨hu₁, hok₁⟩ := hadd₁
    rcases hcases with ⟨-, hadd⟩ | ⟨-, s₂, hadd, hudaddr⟩
    · exact (routeAdd ⟨hs₁, hu₁⟩ hadd hok₁).2
    · obtain ⟨f, hfib, rfl⟩ := Except.map_eq_ok_iff.mp hadd
      have hf : ({ s₁ with fib := f }.announceRoute rt dropEntry).fib = f := by
        unfold announceRoute
        split_ifs <;> rfl
      have hwf : f.Wf := hs₁.wf.fibAdd hfib
      obtain ⟨rfl, -⟩ | ⟨o, gws, alen, f₀, f', -, hr, rfl⟩ :=
        routeHandleUdaddr_cases (hf.symm ▸ hwf) hudaddr
      · rw [hf]
        exact hu₁.fibAdd hfib hok₁
      · rw [hf] at hr
        exact (hu₁.fibAdd hfib hok₁).resolved hwf hr

end ForwardingInv

/-- In runs of calls that meet `ForwardingOk` the packet processor selects for each address that a
route covers what the FIB picks, or traps the packet. -/
theorem forwarding_agrees {uc : ℤ → UcRoute} {arp : ℕ → Mac} {ltt : ℕ × RowColum → Ltt}
    (hr : Reach (routeStep env) ForwardingOk (init uc arp ltt) s) (a : Ip4)
    (ha : ∃ e ∈ s.fib.e, e.Covers a) : s.Agrees a := by
  have hinv : s.ForwardingInv := by
    refine hr.invariant ForwardingInv ⟨sound_init .., fun e he => nomatch he⟩ ?_
    intro s op s' h hok hs
    cases op with
    | routeAdd rt => exact h.routeAdd (Except.toOption_eq_some_iff.mp hs) hok
    | routeChange rt junk => exact h.routeChange (Except.toOption_eq_some_iff.mp hs) hok
    | routeDel rt => exact h.routeDel (Except.toOption_eq_some_iff.mp hs)
    | routeHandleUdaddr daddr junk =>
      exact h.routeHandleUdaddr (Except.toOption_eq_some_iff.mp hs) hok
    | retSetMacAddr gw addr vif_id arpOk =>
      obtain rfl := Option.some_inj.mp hs
      exact ⟨h.1.retSetMacAddr .., by rw [retSetMacAddr_fib]; exact h.2⟩
    | retUnsetMacAddr gw =>
      obtain rfl := Option.some_inj.mp hs
      exact ⟨h.1.retUnsetMacAddr .., by rw [retUnsetMacAddr_fib]; exact h.2⟩
  exact hinv.1.agrees hinv.2 ha

/-- A host of a connected route captures the packets of a longer prefix that is added later. -/
theorem not_forwarding_agrees : ∃ s, Reach (routeStep .onePort) (fun _ _ => True) blank s ∧
    ∃ a, (∃ e ∈ s.fib.e, e.Covers a) ∧ ¬s.Agrees a := by
  have hrun : (run (routeStep .onePort) (fun _ _ => True) blank
      [.routeAdd ⟨0x0A000000, 8, 1, fun _ => ⟨0, 10⟩⟩, .routeHandleUdaddr 0x0A010203 fun _ => 0,
        .routeAdd ⟨0x0A010000, 16, 1, fun _ => ⟨0x0A000001, 10⟩⟩]).map (fun s =>
          (decide (∃ e ∈ s.fib.e, e.Covers 0x0A010203), s.hardwareEntry 0x0A010203,
            (fibRoute s.fib 0x0A010203).1.map fun p => s.findGroup p.2.group_id)) =
      some (true, some dropEntry, some none) := by
    decide +kernel
  obtain ⟨s, hs, hprobe⟩ := Option.map_eq_some_iff.mp hrun
  simp only [Prod.mk.injEq, decide_eq_true_eq] at hprobe
  obtain ⟨hcovered, hentry, hpick⟩ := hprobe
  refine ⟨s, Reach.init.of_run hs, 0x0A010203, hcovered, ?_⟩
  rintro (htrap | ⟨ref, n, g, hroute, hfind, -⟩)
  · exact absurd (hentry.symm.trans htrap) (by decide)
  · rw [hroute, Option.map_some, hfind] at hpick
    cases hpick

/-- A connected route with a host that is resolved, and a route below another prefix. -/
theorem forwarding_agrees_host : ∃ s : Router, s.hardwareEntry 0x0A010203 = some ⟨5, 0⟩ ∧
    s.hardwareEntry 0x0B010203 = some trapEntry ∧ s.Agrees 0x0A010203 ∧ s.Agrees 0x0B010203 := by
  have hrun : (run (routeStep .onePort) ForwardingOk blank
      [.routeAdd ⟨0x0A000000, 8, 1, fun _ => ⟨0, 10⟩⟩, .routeHandleUdaddr 0x0A010203 fun _ => 0,
        .retSetMacAddr ⟨0x0A010203, 10⟩ 0xA 1 true,
        .routeAdd ⟨0x0B010000, 16, 1, fun _ => ⟨0x0A000001, 10⟩⟩]).map (fun s =>
          (decide (∃ e ∈ s.fib.e, e.Covers 0x0A010203), decide (∃ e ∈ s.fib.e, e.Covers 0x0B010203),
            s.hardwareEntry 0x0A010203, s.hardwareEntry 0x0B010203)) =
      some (true, true, some ⟨5, 0⟩, some trapEntry) := by
    decide +kernel
  obtain ⟨s, hs, hprobe⟩ := Option.map_eq_some_iff.mp hrun
  simp only [Prod.mk.injEq, decide_eq_true_eq] at hprobe
  obtain ⟨hhost, hroute, hentry, hentry'⟩ := hprobe
  have hreach := Reach.init.of_run hs
  exact ⟨s, hentry, hentry', forwarding_agrees hreach _ hhost, forwarding_agrees hreach _ hroute⟩

end Router

end Presteramgr
