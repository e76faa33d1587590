import Presteramgr.Lib.Sweep
import Presteramgr.Route.Owners

/-!
# What one call does to the routes

Each call of `route.c` keeps the LPM table and the groups as the routes say, under the conditions
that the lemmas name.

## Main definitions

* `Router.Sound`: the table is well-formed, and what it owns is installed;
* `Fib.Resolved`: a route or host is resolved.

## Main results

* `Sound.routeAdd`, `Sound.routeDel` and `Sound.routeHandleUdaddr`;
* `Sound.changed`: a resolved route is changed.
-/

namespace Presteramgr

open scoped List

open Function (update update_self update_of_ne)

namespace Fib

/-- A route or host without a group gets the group `gid`; `o` is what it owned. -/
inductive Resolved (f : Fib) (a : Ip4) (gid : ℤ) : Owner → Fib → Prop
  | dflt (e : FibEntry) (hscan : f.scan 32 a = none) (hdflt : f.dflt = some e)
      (hgid : e.group_id = 0) : Resolved f a gid e.owner (f.setGroupId gid .dflt)
  | entry (e : FibEntry) (hscan : f.scan 32 a = some e) (hgw : e.gw ≠ [0])
      (hgid : e.group_id = 0) : Resolved f a gid e.owner (f.setGroupId gid (.entry e.key))
  | newChild (e : FibEntry) (hscan : f.scan 32 a = some e) (hgw : e.gw = [0])
      (hno : ∀ c ∈ e.children, c.addr ≠ a) :
      Resolved f a gid ⟨a, 32, 0⟩ (f.modify e.key fun _ => e.withChild a gid)

/-- The route picked for an address has a group already, or gateways, or is for this address
alone. -/
def Resolvable (f : Fib) (a : Ip4) : Prop :=
  match (fibRoute f a).1 with
  | none => True
  | some (_, n) => n.group_id ≠ 0 ∨ n.gw ≠ [] ∨ n.len = 32

instance (f : Fib) (a : Ip4) : Decidable (f.Resolvable a) :=
  match h : (fibRoute f a).1 with
  | none => .isTrue (by rw [Resolvable, h]; trivial)
  | some (_, n) => decidable_of_iff (n.group_id ≠ 0 ∨ n.gw ≠ [] ∨ n.len = 32)
      (by rw [Resolvable, h])

/-- A host that is made for an address is the only one with this address. When it is `strict`, it
is not below a route for the address alone. -/
def HostFree (strict : Prop) (f : Fib) (a : Ip4) : Prop :=
  match f.scan 32 a with
  | none => True
  | some e => e.gw = [0] → (∀ c ∈ e.children, c.addr ≠ a) →
    (strict → e.len ≠ 32) ∧ (e.len < 32 → ∀ e ∈ f.e, ∀ c ∈ e.children, c.addr ≠ a)

instance (strict : Prop) [Decidable strict] (f : Fib) (a : Ip4) : Decidable (f.HostFree strict a) :=
  match h : f.scan 32 a with
  | none => .isTrue (by rw [HostFree, h]; trivial)
  | some e => decidable_of_iff (e.gw = [0] → (∀ c ∈ e.children, c.addr ≠ a) →
      (strict → e.len ≠ 32) ∧ (e.len < 32 → ∀ e ∈ f.e, ∀ c ∈ e.children, c.addr ≠ a))
      (by rw [HostFree, h])

variable {f f' : Fib} {a : Ip4} {gid : ℤ} {o : Owner}

/-- The owner that is resolved was one before, or is a new host below a shorter prefix. -/
theorem Resolved.owners (h : f.Resolved a gid o f') (hwf : f.Wf) : o.group_id = 0 ∧ ∃ rest,
    (f.owners ~ o :: rest ∨ f.owners = rest ∧ o = ⟨a, 32, 0⟩ ∧
      ∃ e, f.scan 32 a = some e ∧ e.gw = [0] ∧ e.len < 32 ∧ ∀ c ∈ e.children, c.addr ≠ a) ∧
    (gid ≠ 0 → f'.Wf ∧ f'.owners ~ { o with group_id := gid } :: rest) := by
  cases h with
  | dflt e hscan hdflt hgid =>
    obtain ⟨rest, hperm, hres⟩ := hwf.resolve_dflt hdflt
    exact ⟨hgid, rest, .inl hperm, fun _ => hres gid⟩
  | entry e hscan hgw hgid =>
    obtain ⟨rest, hperm, hres⟩ := hwf.resolve_entry hscan hgw
    exact ⟨hgid, rest, .inl hperm, fun _ => hres gid⟩
  | newChild e hscan hgw hno =>
    obtain ⟨rest, hcases, hres⟩ := hwf.resolve_newChild hscan hgw hno
    refine ⟨rfl, rest, ?_, hres gid⟩
    exact hcases.imp (fun h => h.2) fun h => ⟨h.2, rfl, e, hscan, hgw, h.1, hno⟩

/-- Resolving changes no prefix, and no hosts but those of one route, which has one more. -/
theorem Resolved.mem_e (h : f.Resolved a gid o f') {x : FibEntry} (hx : x ∈ f'.e) :
    (∃ y ∈ f.e, x.key = y.key ∧ x.children = y.children) ∨
      ∃ e, f.scan 32 a = some e ∧ e.gw = [0] ∧ (∀ c ∈ e.children, c.addr ≠ a) ∧
        x = e.withChild a gid := by
  cases h with
  | dflt e hscan hdflt hgid => exact .inl ⟨x, hx, rfl, rfl⟩
  | entry e hscan hgw hgid =>
    rcases Keyed.mem_modify_iff.mp hx with ⟨y, hy, -, rfl⟩ | ⟨hx, -⟩
    · exact .inl ⟨y, hy, rfl, rfl⟩
    · exact .inl ⟨x, hx, rfl, rfl⟩
  | newChild e hscan hgw hno =>
    rcases Keyed.mem_modify_iff.mp hx with ⟨y, hy, -, rfl⟩ | ⟨hx, -⟩
    · exact .inr ⟨e, hscan, hgw, hno, rfl⟩
    · exact .inl ⟨x, hx, rfl, rfl⟩

theorem resolvable_of_scan {e : FibEntry} (hwf : f.Wf) (hscan : f.scan 32 a = some e)
    (hlen : e.gw ≠ [] ∨ e.len = 32) : f.Resolvable a := by
  have hpick := fibRoute_pick f a
  unfold Resolvable
  generalize fibRoute f a = r at hpick
  obtain ⟨r, f₀⟩ := r
  cases hpick with
  | none hscan' => trivial
  | dflt e' hscan' => exact nomatch hscan.symm.trans hscan'
  | entry e' hscan' hgw =>
    obtain rfl := Option.some_inj.mp (hscan.symm.trans hscan')
    exact .inr hlen
  | child e' c hscan' hgw hc haddr =>
    obtain ⟨he, -, -⟩ := (scan_eq_some_iff hwf).mp hscan'
    obtain ⟨-, -, hgid, -⟩ := (hwf.entry e' he).host c hc
    exact .inl hgid
  | newChild e' f' hscan' hgw hno hf' => exact .inr (.inr rfl)

end Fib

/-- Some gateway has an address, other than that of a connected route. -/
def Route.HasNextHop (rt : Route) : Prop := ∃ i : Fin 8, i < rt.gw_count ∧ (rt.gw i).addr ≠ 0

instance (rt : Route) : Decidable rt.HasNextHop :=
  inferInstanceAs (Decidable (∃ i : Fin 8, i < rt.gw_count ∧ (rt.gw i).addr ≠ 0))

theorem Route.HasNextHop.exists_mem {rt : Route} {gws : List Gw} (h : rt.HasNextHop)
    (hgws : rt.gws = .ok gws) : ∃ g ∈ gws, g.addr ≠ 0 := by
  obtain ⟨i, hi, haddr⟩ := h
  unfold Route.gws at hgws
  split_ifs at hgws
  obtain rfl := Except.ok.inj hgws
  exact ⟨rt.gw i, List.mem_take_iff_getElem.mpr ⟨i, by simpa using hi, List.getElem_ofFn ..⟩, haddr⟩

theorem Route.hasNextHop_of_mem {rt : Route} {gws : List Gw} (hgws : rt.gws = .ok gws) {g : Gw}
    (hg : g ∈ gws) (haddr : g.addr ≠ 0) : rt.HasNextHop := by
  unfold Route.gws at hgws
  split_ifs at hgws
  obtain rfl := Except.ok.inj hgws
  obtain ⟨i, hi, rfl⟩ := List.mem_take_iff_getElem.mp hg
  simp only [List.length_ofFn, lt_min_iff] at hi
  refine ⟨⟨i, by omega⟩, hi.1, ?_⟩
  rwa [List.getElem_ofFn] at haddr

/-- A route without gateways has an entry without gateways. -/
theorem Route.gws_eq_nil_iff {rt : Route} {gws : List Gw} (hgws : rt.gws = .ok gws) :
    gws = [] ↔ rt.gw_count = 0 := by
  unfold Route.gws at hgws
  split_ifs at hgws
  obtain rfl := Except.ok.inj hgws
  simp

namespace Router

variable {s s' : Router} {env : RouteEnv} {strict : Prop} {hole : Set (ℕ × Ip4)}
  {owners rest : List Owner} {o : Owner} {k : ℕ × Ip4} {rt : Route} {a : Ip4} {junk : ℕ → ℤ}
  {f' : Fib}

/-! ## Resolving -/

/-- A route or host is resolved, or nothing is left to do. -/
theorem routeHandleUdaddr_cases (hwf : s.fib.Wf)
    (hok : s.routeHandleUdaddr env a junk = .ok s') :
    s' = s ∧ (∀ e, s.fib.scan 32 a = some e → e.group_id = 0 → ∃ c ∈ e.children, c.addr = a) ∨
      ∃ o gws alen f₀ f', (s.fib.Resolvable a → alen = o.len) ∧
      s.fib.Resolved a ({ s with fib := f₀ }.retGroupAdd env gws o.pfx alen junk).1 o f' ∧
      s' = { ({ s with fib := f₀ }.retGroupAdd env gws o.pfx alen junk).2 with fib := f' } := by
  have hpick := Fib.fibRoute_pick s.fib a
  unfold Fib.Resolvable
  unfold routeHandleUdaddr at hok
  generalize fibRoute s.fib a = r at hpick hok ⊢
  obtain ⟨r, f₀⟩ := r
  -- a call that goes on ends with the group of the entry
  have hrequest : ∀ (ref : FibRef) (n : FibNode) (alen : ℕ) (s₀ : Router),
      s₀.routeRequestMacAddr env ref n alen junk = .ok s' →
      ∃ gws, s' = { (s₀.retGroupAdd env gws n.pfx alen junk).2 with
        fib := s₀.fib.setGroupId (s₀.retGroupAdd env gws n.pfx alen junk).1 ref } := by
    intro ref n alen s₀ hreq
    unfold routeRequestMacAddr at hreq
    split_ifs at hreq
    refine ⟨List.zipWith Gw.mk n.gw n.vid, ?_⟩
    obtain ⟨_, -, -, hfib, -⟩ :=
      retGroupAdd_cases env s₀ (List.zipWith Gw.mk n.gw n.vid) n.pfx alen junk
    rw [← hfib]
    exact (Except.ok.inj hreq).symm
  -- the length is that of the entry, unless it has no gateways
  have hlen : ∀ n : FibNode, n.group_id = 0 → (n.group_id ≠ 0 ∨ n.gw ≠ [] ∨ n.len = 32) →
      (if n.gw = [] then 32 else n.len) = n.len := by
    intro n hgid hres
    split_ifs with hgw
    · exact ((hres.resolve_left fun hne => hne hgid).resolve_left fun hne => hne hgw).symm
    · rfl
  cases hpick with
  | none hscan hdflt =>
    refine .inl ⟨(Except.ok.inj hok).symm, fun e he => ?_⟩
    rw [hscan] at he
    cases he
  | child e c hscan hgw hc haddr =>
    obtain ⟨he, -, -⟩ := (Fib.scan_eq_some_iff hwf).mp hscan
    obtain ⟨-, -, hgid, -⟩ := (hwf.entry e he).host c hc
    dsimp only at hok
    rw [if_pos hgid] at hok
    refine .inl ⟨(Except.ok.inj hok).symm, fun e' he' _ => ?_⟩
    obtain rfl := Option.some_inj.mp (hscan.symm.trans he')
    exact ⟨c, hc, haddr⟩
  | dflt e hscan hdflt =>
    dsimp only at hok ⊢
    by_cases hgid : e.group_id = 0
    · rw [if_neg (not_not_intro hgid)] at hok
      obtain ⟨gws, hs⟩ := hrequest .dflt _ _ _ hok
      exact .inr ⟨e.owner, gws, _, s.fib, _, hlen e.toFibNode hgid, .dflt e hscan hdflt hgid, hs⟩
    · rw [if_pos hgid] at hok
      refine .inl ⟨(Except.ok.inj hok).symm, fun e he' => ?_⟩
      rw [hscan] at he'
      cases he'
  | entry e hscan hgw =>
    dsimp only at hok ⊢
    by_cases hgid : e.group_id = 0
    · rw [if_neg (not_not_intro hgid)] at hok
      obtain ⟨gws, hs⟩ := hrequest (.entry e.key) _ _ _ hok
      exact .inr ⟨e.owner, gws, _, s.fib, _, hlen e.toFibNode hgid, .entry e hscan hgw hgid, hs⟩
    · rw [if_pos hgid] at hok
      refine .inl ⟨(Except.ok.inj hok).symm, fun e he' hgid' => ?_⟩
      obtain rfl := Option.some_inj.mp (hscan.symm.trans he')
      exact absurd hgid' hgid
  | newChild e f₀ hscan hgw hno hf₀ =>
    have hset := Fib.setGroupId_newChild hno hwf hscan
    rw [← hf₀] at hset
    have hgid : (e.newChild a).group_id = 0 := rfl
    dsimp only at hok ⊢
    rw [if_neg (not_not_intro hgid)] at hok
    obtain ⟨gws, hs⟩ := hrequest (.child e.key a) _ _ _ hok
    rw [hset] at hs
    exact .inr ⟨⟨a, 32, 0⟩, gws, _, f₀, _, hlen (e.newChild a) hgid,
      .newChild e hscan hgw hno, hs⟩

/-- The group of a new owner has an id. -/
theorem Installed.retGroupAdd_ne_zero (h : s.Installed strict hole owners) (gws : List Gw)
    (ip : Ip4)
    (alen : ℕ) : (s.retGroupAdd env gws ip alen junk).1 ≠ 0 := by
  obtain ⟨g, hret, -, -, ⟨hg, -⟩ | ⟨hid, -⟩⟩ := retGroupAdd_cases env s gws ip alen junk
  · rw [hret]
    exact h.group_id_ne_zero hg
  · rw [hret, hid]
    exact (getNewGroupId_pos _).ne'

@[simp] theorem routeDelFibEntry_fib (s : Router) (n : FibNode) :
    (s.routeDelFibEntry n).fib = s.fib := by
  obtain ⟨-, hfib⟩ := retGroupDel_frame s n.group_id n.pfx n.len
  unfold routeDelFibEntry
  dsimp only
  split_ifs
  · exact hfib
  · exact hfib

/-- Deleting routes from the hardware keeps the FIB. -/
@[simp] theorem fibDelEntryWithChildren_fib (s : Router) (e : FibEntry) :
    (s.fibDelEntryWithChildren e).fib = s.fib := by
  unfold fibDelEntryWithChildren
  rw [routeDelFibEntry_fib, Sweep.foldl_keeps Router.fib fun s c _ => routeDelFibEntry_fib s c]

/-- The owner of a hole is resolved. -/
theorem Installed.resolve {gws : List Gw} {f₀ : Fib} (h : s.Installed strict {o.key} rest)
    (hres : (({ s with fib := f₀ } : Router).retGroupAdd env gws o.pfx o.len junk).1 ≠ 0 →
      f'.Wf ∧ f'.owners ~ { o with
        group_id := (({ s with fib := f₀ } : Router).retGroupAdd env gws o.pfx o.len junk).1 } ::
          rest) :
    f'.Wf ∧ ({ (({ s with fib := f₀ } : Router).retGroupAdd env gws o.pfx o.len junk).2 with
      fib := f' } : Router).Installed strict ∅ f'.owners := by
  have hs : ({ s with fib := f₀ } : Router).Installed strict {o.key} rest := h.congr rfl rfl rfl
  obtain ⟨hwf, hperm⟩ := hres (hs.retGroupAdd_ne_zero gws o.pfx o.len)
  exact ⟨hwf, ((hs.fill env gws junk).perm hperm.symm).congr rfl rfl rfl⟩

/-- The hosts of a route are deleted. -/
theorem Installed.removeAll {cs : List FibNode}
    (h : s.Installed strict ∅ (cs.map FibNode.owner ++ rest)) :
    (cs.foldl routeDelFibEntry s).Installed strict ∅ rest := by
  induction cs generalizing s with
  | nil => exact h
  | cons c cs ih => exact ih (s := s.routeDelFibEntry c) h.remove

theorem retSetMacAddr_fib (env : RouteEnv) (s : Router) (gw : Gw) (addr : Mac) (vif_id : ℕ)
    (arpOk : Bool) : (s.retSetMacAddr env gw addr vif_id arpOk).2.fib = s.fib := by
  obtain ⟨_, _, ⟨_, _, _, _, hs, -⟩, -⟩ := retSetMacAddr_fanned env s gw addr vif_id arpOk
  rw [hs]

theorem retUnsetMacAddr_fib (env : RouteEnv) (s : Router) (gw : Gw) :
    (s.retUnsetMacAddr env gw).2.fib = s.fib := by
  obtain ⟨_, _, ⟨_, _, _, _, hs, -⟩, -⟩ := retUnsetMacAddr_fanned env s gw
  rw [hs]

/-- The table is well-formed, and what it owns is installed. When it is `strict`, routes for one
address have no hosts. -/
structure Sound (strict : Prop) (s : Router) : Prop where
  wf : s.fib.Wf
  installed : s.Installed strict ∅ s.fib.owners
  lone : strict → ∀ e ∈ s.fib.e, e.len = 32 → e.children = []

namespace Sound

/-- Nobody owns a whole address below the routes. -/
theorem host_free (h : s.Sound strict) {e : FibEntry} (hscan : s.fib.scan 32 a = some e)
    (hlen : e.len < 32) (hno : ∀ e ∈ s.fib.e, ∀ c ∈ e.children, c.addr ≠ a) :
    ∀ o ∈ s.fib.owners, o.key ≠ (32, a) := by
  obtain ⟨-, -, hlongest⟩ := (Fib.scan_eq_some_iff h.wf).mp hscan
  have hnone : s.fib.hashFind (32, a) = none := by
    refine Option.eq_none_iff_forall_ne_some.mpr fun e' he' => ?_
    obtain ⟨hmem, hkey⟩ := h.wf.hashFind_eq_some_iff.mp he'
    have hlen' : e'.len = 32 := congrArg Prod.fst hkey
    have hcov : e'.Covers a := by
      show masked e'.len a = e'.addr
      rw [hlen', masked_thirtyTwo]
      exact (congrArg Prod.snd hkey).symm
    exact absurd (hlongest e' hmem hcov) (not_le.mpr (hlen'.symm ▸ hlen))
  exact fun o ho => h.wf.entry_key_ne hnone ho (Nat.zero_lt_succ 31) fun _ => hno

/-- A packet for an unknown address arrives. -/
theorem routeHandleUdaddr (h : s.Sound strict) (hok : s.routeHandleUdaddr env a junk = .ok s')
    (hres : s.fib.Resolvable a)
    (hfree : s.fib.HostFree strict a) : s'.Sound strict := by
  have hnew : ∀ e, s.fib.scan 32 a = some e → e.gw = [0] → (∀ c ∈ e.children, c.addr ≠ a) →
      (strict → e.len ≠ 32) ∧ (e.len < 32 → ∀ e ∈ s.fib.e, ∀ c ∈ e.children, c.addr ≠ a) := by
    intro e hscan
    rwa [Fib.HostFree, hscan] at hfree
  obtain ⟨rfl, -⟩ | ⟨o, gws, alen, f₀, f', halen, hr, rfl⟩ := routeHandleUdaddr_cases h.wf hok
  · exact h
  obtain rfl := halen hres
  obtain ⟨hgid, rest, hbefore, hafter⟩ := hr.owners h.wf
  have hhole : s.Installed strict {o.key} rest := by
    rcases hbefore with hperm | ⟨rfl, rfl, e, hscan, hgw, hlen, hno⟩
    · exact (h.installed.perm hperm).hollow hgid
    · -- the host is new
      have hkey : (⟨a, 32, 0⟩ : Owner).key = (32, a) := congrArg (Prod.mk 32) (masked_thirtyTwo a)
      rw [hkey]
      exact h.installed.free (h.host_free hscan hlen ((hnew e hscan hgw hno).2 hlen))
  obtain ⟨hwf, hinst⟩ := hhole.resolve hafter
  refine ⟨hwf, hinst, fun hstrict x hx hlen => ?_⟩
  rcases hr.mem_e hx with ⟨y, hy, hkey, hch⟩ | ⟨e, hscan, hgw, hno, rfl⟩
  · rw [hch]
    exact h.lone hstrict y hy ((congrArg Prod.fst hkey).symm.trans hlen)
  · exact absurd hlen ((hnew e hscan hgw hno).1 hstrict)

/-- A prefix that nobody owns is written. -/
theorem announced (h : s.Sound strict) (halen : rt.alen ≠ 0)
    (hfree : ∀ o ∈ s.fib.owners, o.key ≠ rt.key) (f : Fib) (re : Ltt) :
    ({ s with fib := f }.announceRoute rt re).Installed strict {rt.owner.key} s.fib.owners ∧
      ({ s with fib := f }.announceRoute rt re).lpm rt.key = some re ∧
      ({ s with fib := f }.announceRoute rt re).fib = f := by
  unfold announceRoute
  rw [if_neg halen]
  refine ⟨(h.installed.free hfree).writeHole rfl rfl fun k hk => ?_, update_self .., rfl⟩
  rw [lpmIpv4UcPrefixAdd_lpm]
  exact update_of_ne hk ..

/-- A route is added. -/
theorem routeAdd (h : s.Sound strict) (hok : s.routeAdd rt = .ok s')
    (hnew : rt.alen ≠ 0 → s.fib.hashFind rt.key = none → ∀ o ∈ s.fib.owners, o.key ≠ rt.key)
    (hold : ∀ e, s.fib.hashFind rt.key = some e → ¬strict ∨ e.group_id = 0) :
    s'.Sound strict ∧ fibAdd s.fib rt = .ok s'.fib := by
  obtain ⟨f, hadd, rfl⟩ := Except.map_eq_ok_iff.mp hok
  by_cases halen : rt.alen = 0
  · -- the default route, which has no prefix of its own before it is resolved
    unfold announceRoute
    rw [if_pos halen]
    obtain ⟨hwf, he, hcases⟩ := h.wf.fibAdd_zero halen hadd
    refine ⟨⟨hwf, ?_, fun hs e hmem => h.lone hs e (he ▸ hmem)⟩, hadd⟩
    have hinst : s.Installed strict ∅ f.owners := by
      rcases hcases with ⟨hnone, hperm⟩ | ⟨-, hsame⟩
      · refine Installed.perm ?_ hperm.symm
        have hfree : ∀ o ∈ s.fib.owners, o.key ≠ (⟨0, 0, 0⟩ : Owner).key := by
          intro o ho hkey
          have hlen : o.len = 0 := congrArg Prod.fst hkey
          rcases Fib.mem_owners_iff.mp ho with ⟨e, he, hoe⟩ | ⟨e, he, -⟩
          · have hwfe := h.wf.entry e he
            rcases FibEntry.mem_owners_iff.mp hoe with ⟨c, hc, rfl⟩ | ⟨-, rfl⟩
            · have hclen : c.len = 32 := (hwfe.host c hc).1
              exact absurd (hclen.symm.trans hlen) (by decide)
            · exact absurd hlen hwfe.len_pos.ne'
          · exact nomatch he.symm.trans hnone
        exact (h.installed.free hfree).put rfl fun hne => absurd rfl hne
      · rw [hsame]
        exact h.installed
    exact hinst.congr rfl rfl rfl
  · cases hfind : s.fib.hashFind rt.key with
    | none =>
      obtain ⟨hle, gws, -, rfl⟩ := (Fib.fibAdd_of_none halen hfind).mp hadd
      obtain ⟨hhole, hlpm, hfib⟩ := h.announced halen (hnew halen hfind) _ trapEntry
      have hput := hhole.put rfl fun _ => hlpm
      refine ⟨⟨?_, ?_, fun hs e hmem hlen => ?_⟩, ?_⟩
      · rw [hfib]
        exact h.wf.cons hfind halen hle gws
      · rw [hfib, Fib.owners_cons]
        exact hput
      · rw [hfib] at hmem
        rcases List.mem_cons.mp hmem with rfl | hmem
        · rfl
        · exact h.lone hs e hmem hlen
      · rw [hfib]
        exact hadd
    | some e =>
      obtain rfl := Fib.fibAdd_of_some halen hfind hadd
      obtain ⟨hmem, hkey⟩ := h.wf.hashFind_eq_some_iff.mp hfind
      have hwf := h.wf.entry e hmem
      have hlen : e.len = rt.alen := congrArg Prod.fst hkey
      -- the prefix is owned by the route, or by its only host
      have howned : ∃ o rest, s.fib.owners ~ o :: rest ∧ o.key = rt.key ∧
          (¬strict ∨ o.group_id = 0) := by
        have howner : ∀ o ∈ s.fib.owners, o.key = rt.key → (¬strict ∨ o.group_id = 0) →
            ∃ o rest, s.fib.owners ~ o :: rest ∧ o.key = rt.key ∧ (¬strict ∨ o.group_id = 0) :=
          fun o ho hk hok => ⟨o, _, List.perm_cons_erase ho, hk, hok⟩
        obtain ⟨o, ho, hok⟩ := hwf.exists_owner
        refine howner o (Fib.mem_owners_iff.mpr (.inl ⟨e, hmem, ho⟩)) (hok.trans hkey) ?_
        rcases FibEntry.mem_owners_iff.mp ho with ⟨c, hc, rfl⟩ | ⟨-, rfl⟩
        · rw [hwf.child_key hc] at hok
          exact .inl fun hs => List.ne_nil_of_mem hc (h.lone hs e hmem (congrArg Prod.fst hok).symm)
        · exact hold e hfind
      obtain ⟨o, rest, hperm, hokey, hgid⟩ := howned
      have holen : o.len = rt.alen := congrArg Prod.fst hokey
      have hwrite : { s with fib := s.fib }.announceRoute rt trapEntry =
          s.lpmIpv4UcPrefixAdd o.pfx o.len trapEntry := by
        unfold announceRoute lpmIpv4UcPrefixAdd
        rw [if_neg halen]
        exact congrArg (fun k => { s with lpm := update s.lpm k (some trapEntry) }) hokey.symm
      rw [hwrite]
      refine ⟨⟨h.wf, ?_, h.lone⟩, hadd⟩
      exact ((h.installed.perm hperm).retrap (holen ▸ halen) hgid).perm hperm.symm

/-- The prefix of a route has no other owners. -/
theorem key_free_of_remove (h : s.Sound strict) {e : FibEntry}
    (hget : fibGet s.fib rt.addr rt.alen = .ok (some e)) :
    ∀ o ∈ (s.fib.remove e).owners, o.key ≠ rt.key := by
  obtain ⟨hperm, hlen⟩ := h.wf.fibGet_eq_some hget
  have hunique : Keyed.Unique Owner.key (e.owners ++ (s.fib.remove e).owners) :=
    (hperm.map Owner.key).nodup_iff.mpr h.installed.unique
  have hnodup : (e.owners.map Owner.key ++ (s.fib.remove e).owners.map Owner.key).Nodup := by
    rw [← List.map_append]
    exact hunique
  have hown : ∃ x ∈ e.owners, x.key = rt.key := by
    rcases h.wf.mem_of_fibGet hget with ⟨hmem, hkey⟩ | hdflt
    · obtain ⟨x, hx, hxk⟩ := (h.wf.entry e hmem).exists_owner
      exact ⟨x, hx, hxk.trans hkey⟩
    · obtain ⟨hzero, hpfx, hch⟩ := h.wf.dflt e hdflt
      refine ⟨e.owner, FibEntry.mem_owners_iff.mpr (.inr ⟨fun hx => hx.2 hch, rfl⟩), ?_⟩
      show (e.len, masked e.len e.pfx) = (rt.alen, masked rt.alen rt.addr)
      rw [← hlen, hzero, masked_zero, masked_zero]
  obtain ⟨x, hx, hxk⟩ := hown
  intro o ho hok
  exact (List.nodup_append.mp hnodup).2.2 _ (List.mem_map_of_mem hx) _ (List.mem_map_of_mem ho)
    (hxk.trans hok.symm)

/-- A route is deleted, with its hosts. -/
theorem routeDel (h : s.Sound strict) (hok : s.routeDel rt = .ok s') : s'.Sound strict ∧
    (fibGet s.fib rt.addr rt.alen = .ok none ∧ s' = s ∨
      ∃ e, fibGet s.fib rt.addr rt.alen = .ok (some e) ∧ s'.fib = s.fib.remove e ∧
        ∀ o ∈ s'.fib.owners, o.key ≠ rt.key) := by
  obtain ⟨r, hget, rfl⟩ := Except.map_eq_ok_iff.mp hok
  cases r with
  | none => exact ⟨h, .inl ⟨hget, rfl⟩⟩
  | some e =>
    obtain ⟨hperm, -⟩ := h.wf.fibGet_eq_some hget
    have hinst : ({ s with fib := s.fib.remove e } : Router).Installed strict ∅
        (e.owners ++ (s.fib.remove e).owners) :=
      (h.installed.perm hperm.symm).congr rfl rfl rfl
    have hdel : (fibDelEntryWithChildren { s with fib := s.fib.remove e } e).Installed strict ∅
        (s.fib.remove e).owners := by
      unfold FibEntry.owners at hinst
      rw [List.append_assoc] at hinst
      have hrest := hinst.removeAll
      unfold fibDelEntryWithChildren
      by_cases hch : e.len = 32 ∧ e.children ≠ []
      · -- the host owned the prefix of the route
        rw [if_pos hch] at hrest
        obtain ⟨hmem, hkey⟩ : e ∈ s.fib.e ∧ e.key = rt.key := by
          rcases h.wf.mem_of_fibGet hget with hmem | hdflt
          · exact hmem
          · exact absurd ((h.wf.dflt e hdflt).1.symm.trans hch.1) (by decide)
        have hwf := h.wf.entry e hmem
        refine hrest.removeBare (hwf.connected (hwf.parent hch.2)) fun o ho hko => ?_
        exact h.key_free_of_remove hget o ho (hko.trans ((FibEntry.owner_key hwf).trans hkey))
      · rw [if_neg hch] at hrest
        exact hrest.remove
    have hfib : (fibDelEntryWithChildren { s with fib := s.fib.remove e } e).fib = s.fib.remove e :=
      fibDelEntryWithChildren_fib ..
    refine ⟨⟨?_, ?_, fun hs e' he' => ?_⟩, .inr ⟨e, hget, hfib, fun o ho => ?_⟩⟩
    · exact hfib.symm ▸ h.wf.remove
    · exact (congrArg Fib.owners hfib).symm ▸ hdel
    · have hmem : e' ∈ (s.fib.remove e).e := congrArg Fib.e hfib ▸ he'
      exact h.lone hs e' (Fib.mem_of_mem_remove hmem)
    · have hmem : o ∈ (s.fib.remove e).owners := congrArg Fib.owners hfib ▸ ho
      exact h.key_free_of_remove hget o hmem

/-- A resolved route is changed: when it is deleted it is added again, and its own address leads to
it. The prefix is a hole in between. -/
theorem changed {s₁ : Router} (h : s.Sound strict) (halen : rt.alen ≠ 0)
    (hnone : s.fib.hashFind rt.key = none)
    (hlong : ∀ e ∈ s.fib.e, rt.alen < e.len → ¬e.Covers rt.addr)
    (hhop : rt.HasNextHop ∨ rt.alen = 32 ∧ (strict → rt.gw_count = 0))
    (hfree : ∀ o ∈ s.fib.owners, o.key ≠ rt.key)
    (hadd : s.routeAddChange rt = .ok s₁) (hok : s₁.routeHandleUdaddr env rt.addr junk = .ok s') :
    s'.Sound strict := by
  obtain ⟨f, hfib, rfl⟩ := Except.map_eq_ok_iff.mp hadd
  obtain ⟨hle, gws, hgws, rfl⟩ := (Fib.fibAdd_of_none halen hnone).mp hfib
  have hwf := h.wf.cons hnone halen hle gws
  obtain ⟨hhole, -, hs₁⟩ := h.announced halen hfree
    { s.fib with e := ⟨rt.node.addGws gws, []⟩ :: s.fib.e } dropEntry
  generalize ({ s with fib := { s.fib with e := ⟨rt.node.addGws gws, []⟩ :: s.fib.e } } :
    Router).announceRoute rt dropEntry = s₁ at hok hhole hs₁
  -- the new entry
  obtain ⟨e, he⟩ : ∃ e : FibEntry, e = ⟨rt.node.addGws gws, []⟩ := ⟨_, rfl⟩
  rw [← he] at hwf hs₁
  have hlen : e.len = rt.alen := by
    rw [he]
    exact FibNode.addGws_len ..
  have hown : e.owner = rt.owner := by
    rw [he]
    exact FibNode.addGws_owner ..
  have hgid : e.group_id = 0 := congrArg Owner.group_id hown
  have hch : e.children = [] := by rw [he]
  have hgw : ∀ a, a ∈ e.gw ↔ ∃ g ∈ gws, g.addr = a := by
    intro a
    rw [he]
    exact (FibNode.mem_addGws_gw ..).trans (or_iff_right List.not_mem_nil)
  have hscan : s₁.fib.scan 32 rt.addr = some e := by
    rw [hs₁]
    refine (Fib.scan_eq_some_iff hwf).mpr ⟨List.mem_cons_self, ?_, fun e' he' hcov => ?_⟩
    · show masked e.len rt.addr = e.addr
      rw [hlen, he]
      exact (FibNode.addGws_addr rt.node gws).symm
    · rcases List.mem_cons.mp he' with rfl | he'
      · exact le_rfl
      · rw [hlen]
        exact not_lt.mp fun hlt => hlong e' he' hlt hcov
  have hnext : rt.HasNextHop → e.gw ≠ [] ∧ e.gw ≠ [0] := by
    intro hnext
    obtain ⟨g, hg, haddr⟩ := hnext.exists_mem hgws
    have hmem : g.addr ∈ e.gw := (hgw g.addr).mpr ⟨g, hg, rfl⟩
    refine ⟨List.ne_nil_of_mem hmem, fun h0 => haddr ?_⟩
    rw [h0] at hmem
    exact List.mem_singleton.mp hmem
  have hres : s₁.fib.Resolvable rt.addr := by
    refine Fib.resolvable_of_scan (hs₁ ▸ hwf) hscan ?_
    exact hhop.imp (fun hn => (hnext hn).1) fun h32 => hlen.trans h32.1
  have hlone : strict → e.len = 32 → e.gw ≠ [0] := by
    intro hs _
    rcases hhop with hn | ⟨-, hzero⟩
    · exact (hnext hn).2
    · intro h0
      have hnil := (Route.gws_eq_nil_iff hgws).mpr (hzero hs)
      obtain ⟨g, hg, -⟩ := (hgw 0).mp (h0 ▸ List.mem_cons_self)
      rw [hnil] at hg
      cases hg
  obtain ⟨-, hdone⟩ | ⟨o, gws', alen, f₀, f', halen', hr, rfl⟩ :=
    routeHandleUdaddr_cases (hs₁ ▸ hwf) hok
  · -- the new entry has neither a group nor hosts
    obtain ⟨c, hc, -⟩ := hdone e hscan hgid
    rw [hch] at hc
    cases hc
  obtain rfl := halen' hres
  have ho : o = rt.owner := by
    cases hr with
    | dflt e' hscan' => exact absurd (hscan.symm.trans hscan') (Option.some_ne_none e)
    | entry e' hscan' =>
      obtain rfl := Option.some_inj.mp (hscan.symm.trans hscan')
      exact hown
    | newChild e' hscan' hgw' =>
      obtain rfl := Option.some_inj.mp (hscan.symm.trans hscan')
      have h32 : rt.alen = 32 := (hhop.resolve_left fun hn => (hnext hn).2 hgw').1
      unfold Route.owner
      rw [h32]
  obtain ⟨-, rest, hbefore, hafter⟩ := hr.owners (hs₁ ▸ hwf)
  have howners : s₁.fib.owners = rt.owner :: s.fib.owners := by
    rw [hs₁, he]
    exact Fib.owners_cons gws
  have hrest : s.fib.owners ~ rest := by
    rcases hbefore with hperm | ⟨-, -, e', hscan', hgw', hlt, -⟩
    · rw [howners, ho] at hperm
      exact hperm.cons_inv
    · obtain rfl := Option.some_inj.mp (hscan.symm.trans hscan')
      have h32 : rt.alen = 32 := (hhop.resolve_left fun hn => (hnext hn).2 hgw').1
      exact absurd (hlen.trans h32) hlt.ne
  have hhole' : s₁.Installed strict {o.key} rest := by
    rw [ho]
    exact hhole.perm hrest
  obtain ⟨hwf', hinst⟩ := hhole'.resolve hafter
  refine ⟨hwf', hinst, fun hs x hx hx32 => ?_⟩
  rcases hr.mem_e hx with ⟨y, hy, hkey, hych⟩ | ⟨e', hscan', hgw', -, rfl⟩
  · rw [hs₁] at hy
    rw [hych]
    rcases List.mem_cons.mp hy with rfl | hy
    · exact hch
    · exact h.lone hs y hy ((congrArg Prod.fst hkey).symm.trans hx32)
  · obtain rfl := Option.some_inj.mp (hscan.symm.trans hscan')
    exact absurd hgw' (hlone hs hx32)

/-- A gateway gets an address. -/
theorem retSetMacAddr (h : s.Sound strict) (env : RouteEnv) (gw : Gw) (addr : Mac) (vif_id : ℕ)
    (arpOk : Bool) : (s.retSetMacAddr env gw addr vif_id arpOk).2.Sound strict := by
  have hfib := retSetMacAddr_fib env s gw addr vif_id arpOk
  refine ⟨?_, ?_, ?_⟩ <;> rw [hfib]
  · exact h.wf
  · exact h.installed.setMacAddr env gw addr vif_id arpOk
  · exact h.lone

/-- A gateway loses its address. -/
theorem retUnsetMacAddr (h : s.Sound strict) (env : RouteEnv) (gw : Gw) :
    (s.retUnsetMacAddr env gw).2.Sound strict := by
  have hfib := retUnsetMacAddr_fib env s gw
  refine ⟨?_, ?_, ?_⟩ <;> rw [hfib]
  · exact h.wf
  · exact h.installed.unsetMacAddr env gw
  · exact h.lone

end Sound

/-- Before the first route nothing is owned. -/
theorem sound_init (uc : ℤ → UcRoute) (arp : ℕ → Mac) (ltt : ℕ × RowColum → Ltt) :
    (init uc arp ltt).Sound strict := by
  refine ⟨⟨Keyed.unique_nil, nofun, nofun⟩,
    ⟨Keyed.unique_nil, nofun, Keyed.unique_nil, nofun, nofun,
    nofun, nofun, nofun, nofun, fun k hk _ hne => absurd ?_ hne⟩, nofun⟩
  have hne : k ≠ (0, 0) := fun h0 => hk (congrArg Prod.fst h0)
  have hlpm : (init uc arp ltt).lpm =
    update (fun _ => none) (0, 0) (some ⟨DEFAULT_UC_RE_IDX, 0⟩) := rfl
  rw [hlpm, update_of_ne hne]

end Router

end Presteramgr
