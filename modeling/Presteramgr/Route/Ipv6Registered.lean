import Presteramgr.Lib.Sweep
import Presteramgr.Route.Ipv6Gateways
import Presteramgr.Route.Ipv6Hosts

/-!
# Prefixes that packets have registered

Which prefixes are registered with a gateway is kept in a ledger of its own: a packet registers a
prefix for the route or host that it goes to, and what was registered for a route and its hosts goes
when the route is deleted, or when the default route is replaced by one with another gateway.

## Main definitions

* `Ipv6Ledger`: the ledger, and what a call does to it;
* `Ipv6Ledger.Live`: the routes and hosts of the ledger are in the FIB;
* `Ipv6Ledger.RefOk`: when a call meets no other gateway with the same first six bytes, takes a
  reference where the prefix is new, and gives back what was registered.

## Main results

* `Ipv6Ledger.Inv.step`: such a call keeps the tables what the ledger says;
* `Ipv6Registry.gateways_counted`: so gateways share no entry, and the references are counted.
-/

namespace Presteramgr

/-! ### The routes and hosts of the FIB -/

/-- The route of an entry, or one of its hosts. -/
def FibRefIpv6.Of (e : FibEntryIpv6) : FibRefIpv6 → Prop
  | .dflt => e.len = 0
  | .entry k | .child k _ => k = e.key

instance (e : FibEntryIpv6) (ref : FibRefIpv6) : Decidable (ref.Of e) :=
  match ref with
  | .dflt => inferInstanceAs (Decidable (e.len = 0))
  | .entry k | .child k _ => inferInstanceAs (Decidable (k = e.key))

namespace FibIpv6

/-- The route or host is in the table, with this gateway and prefix. -/
def Has (f : FibIpv6) (gw : GwV6) (pfx : RoutePfxV6) : FibRefIpv6 → Prop
  | .dflt => ∃ e, f.dflt = some e ∧ e.gwV6 = gw ∧ e.routePfx = pfx
  | .entry k => ∃ e ∈ f.e, e.key = k ∧ e.gwV6 = gw ∧ e.routePfx = pfx
  | .child k addr => ∃ e ∈ f.e, e.key = k ∧
    ∃ c ∈ e.children, c.addr = addr ∧ c.gwV6 = gw ∧ c.routePfx = pfx

/-- The default route, if there is one, has the gateway. -/
def SameDefault (f : FibIpv6) (gw : GwV6) : Prop := ∀ e ∈ f.dflt, e.gwV6 = gw

instance (f : FibIpv6) (gw : GwV6) : Decidable (f.SameDefault gw) :=
  inferInstanceAs (Decidable (∀ e ∈ f.dflt, e.gwV6 = gw))

variable {f f' : FibIpv6} {ref : FibRefIpv6} {gw : GwV6} {pfx : RoutePfxV6} {k : ℕ × Ip6}
  {e : FibEntryIpv6}

/-- A change in place that keeps the gateways and prefixes of a route and of its hosts. -/
theorem Has.modify (h : f.Has gw pfx ref) {g : FibEntryIpv6 → FibEntryIpv6}
    (hg : ∀ e, (g e).key = e.key ∧ (g e).gwV6 = e.gwV6 ∧ (g e).routePfx = e.routePfx)
    (hc : ∀ e, ∀ c ∈ e.children, ∃ c' ∈ (g e).children,
      c'.addr = c.addr ∧ c'.gwV6 = c.gwV6 ∧ c'.routePfx = c.routePfx) :
    (f.modify k g).Has gw pfx ref := by
  have hmem : ∀ x ∈ f.e, x ∈ (f.modify k g).e ∨ g x ∈ (f.modify k g).e := fun x hx => by
    by_cases hk : x.key = k
    · exact .inr (Keyed.mem_modify_iff.mpr (.inl ⟨x, hx, hk, rfl⟩))
    · exact .inl (Keyed.mem_modify_iff.mpr (.inr ⟨hx, hk⟩))
  cases ref with
  | dflt => exact h
  | entry k' =>
    obtain ⟨x, hx, rfl, rfl, rfl⟩ := h
    obtain hx' | hx' := hmem x hx
    · exact ⟨x, hx', rfl, rfl, rfl⟩
    · exact ⟨g x, hx', hg x⟩
  | child k' addr =>
    obtain ⟨x, hx, rfl, c, hcx, rfl, rfl, rfl⟩ := h
    obtain hx' | hx' := hmem x hx
    · exact ⟨x, hx', rfl, c, hcx, rfl, rfl, rfl⟩
    · exact ⟨g x, hx', (hg x).1, hc x c hcx⟩

/-- A new key of a node does not change whose prefix it is. -/
theorem Has.setRetKey (h : f.Has gw pfx ref) (ref' : FibRefIpv6) (ret_key : GwV6) :
    (f.setRetKey ref' ret_key).Has gw pfx ref := by
  cases ref' with
  | dflt =>
    cases ref with
    | dflt =>
      obtain ⟨x, hx, rfl, rfl⟩ := h
      exact ⟨{ x with ret_key := ret_key }, congrArg (Option.map _) hx, rfl, rfl⟩
    | entry k => exact h
    | child k addr => exact h
  | entry k => exact h.modify (fun _ => ⟨rfl, rfl, rfl⟩) fun _ c hc => ⟨c, hc, rfl, rfl, rfl⟩
  | child k addr =>
    refine h.modify (fun _ => ⟨rfl, rfl, rfl⟩) fun x c hc => ?_
    by_cases hkey : c.addr = addr
    · exact ⟨_, Keyed.mem_modify_iff.mpr (.inl ⟨c, hc, hkey, rfl⟩), rfl, rfl, rfl⟩
    · exact ⟨c, Keyed.mem_modify_iff.mpr (.inr ⟨hc, hkey⟩), rfl, rfl, rfl⟩

/-- A lookup may add a host, and takes nothing away. -/
theorem Has.route (h : f.Has gw pfx ref) (a : Ip6) : (fibIpv6Route f a).2.Has gw pfx ref := by
  obtain hsame | ⟨e, -, -, -, hroute⟩ := route_cases f a
  · rwa [hsame]
  · rw [hroute]
    exact h.modify (fun _ => ⟨rfl, rfl, rfl⟩)
      fun _ c hc => ⟨c, List.mem_append_left _ hc, rfl, rfl, rfl⟩

/-- An addition takes nothing away, save for the gateway of the default route. -/
theorem Has.add (h : f.Has gw pfx ref) (hf : f.Sound) {addr gw' : Ip6} {len vid : ℕ}
    (ha : fibIpv6Add f addr len vid gw' = some f')
    (hsame : len = 0 → ref = .dflt → f.SameDefault ⟨gw', vid⟩) : f'.Has gw pfx ref := by
  obtain ⟨hlen, rfl⟩ | ⟨-, -, rfl⟩ | ⟨-, -, -, rfl⟩ := add_cases ha
  · cases ref with
    | dflt =>
      obtain ⟨x, hx, rfl, rfl⟩ := h
      have hgw : x.gwV6 = ⟨gw', vid⟩ := hsame hlen rfl x hx
      obtain ⟨hxlen, -, hxpfx⟩ := hf.dflt x hx
      refine ⟨_, rfl, hgw.symm, ?_⟩
      rw [FibNodeIpv6.routePfx, FibNodeIpv6.routePfx, hxlen, hxpfx, hlen]
    | entry k => exact h
    | child k addr => exact h
  · exact h
  · cases ref with
    | dflt => exact h
    | entry k =>
      obtain ⟨x, hx, hrest⟩ := h
      exact ⟨x, List.mem_cons_of_mem _ hx, hrest⟩
    | child k addr =>
      obtain ⟨x, hx, hrest⟩ := h
      exact ⟨x, List.mem_cons_of_mem _ hx, hrest⟩

/-- Deleting a route takes away the route and its hosts. -/
theorem Has.remove (h : f.Has gw pfx ref) (hf : f.Sound) (he : e.len = 0 ∨ e ∈ f.e)
    (hof : ¬ref.Of e) : (f.remove e).Has gw pfx ref := by
  have hmem : ∀ x ∈ f.e, x.key ≠ e.key → x ∈ (f.remove e).e := fun x hx hkey => by
    unfold FibIpv6.remove
    split_ifs with hlen
    · exact hx
    · refine Keyed.mem_del_of_ne hx fun hhash => hkey ?_
      rw [hf.unique.eq_of_mem hx (he.resolve_left hlen) hhash]
  cases ref with
  | dflt =>
    have hof : e.len ≠ 0 := hof
    unfold FibIpv6.remove
    rw [if_neg hof]
    exact h
  | entry k =>
    obtain ⟨x, hx, rfl, hrest⟩ := h
    exact ⟨x, hmem x hx hof, rfl, hrest⟩
  | child k addr =>
    obtain ⟨x, hx, rfl, hrest⟩ := h
    exact ⟨x, hmem x hx hof, rfl, hrest⟩

/-- What is in the table of the route of an entry or of its hosts is one of its nodes. -/
theorem Has.mem_nodes (h : f.Has gw pfx ref) (hf : f.Sound)
    (he : e.len = 0 ∧ f.dflt = some e ∨ e ∈ f.e) (hof : ref.Of e) :
    ∃ n ∈ e.nodes, n.gwV6 = gw ∧ n.routePfx = pfx := by
  have hentry : ∀ x ∈ f.e, x.key = e.key → x = e := fun x hx hkey => by
    obtain ⟨hlen, -⟩ | he := he
    · have hx' := (hf.len x hx).1
      have hxe : x.len = e.len := congrArg Prod.fst hkey
      omega
    · exact hf.unique_key.eq_of_mem hx he hkey
  cases ref with
  | dflt =>
    have hof : e.len = 0 := hof
    obtain ⟨x, hx, hrest⟩ := h
    obtain ⟨-, he⟩ | he := he
    · obtain rfl := Option.some_inj.mp (he.symm.trans hx)
      exact ⟨_, List.mem_cons_self, hrest⟩
    · exact absurd hof (hf.len e he).1.ne'
  | entry k =>
    obtain ⟨x, hx, rfl, hrest⟩ := h
    obtain rfl := hentry x hx hof
    exact ⟨_, List.mem_cons_self, hrest⟩
  | child k addr =>
    obtain ⟨x, hx, rfl, c, hc, -, hrest⟩ := h
    obtain rfl := hentry x hx hof
    exact ⟨c, List.mem_cons_of_mem _ hc, hrest⟩

/-- The entry that a deletion finds. -/
theorem Sound.get_cases (hf : f.Sound) {addr : Ip6} {len : ℕ}
    (hget : fibIpv6Get f addr len = some (some e)) : e.len = 0 ∧ f.dflt = some e ∨ e ∈ f.e := by
  unfold fibIpv6Get at hget
  split_ifs at hget with hmax hlen
  · have hd := Option.some_inj.mp hget
    exact .inl ⟨(hf.dflt e hd).1, hd⟩
  · exact .inr (Keyed.mem_of_find (Option.some_inj.mp hget))

/-- The route or host of a packet is in the table afterwards. -/
theorem has_route (hf : f.Sound) {a : Ip6} {n : FibNodeIpv6}
    (hroute : (fibIpv6Route f a).1 = some (ref, n)) :
    (fibIpv6Route f a).2.Has n.gwV6 n.routePfx ref ∧
      (n.gw = 0 → (∃ k, ref = .child k 0) ∨ ref = .dflt ∧ ∃ e, f.dflt = some e ∧ e.gw = 0) := by
  unfold fibIpv6Route at hroute ⊢
  cases hscan : f.scan 128 a with
  | none =>
    rw [hscan] at hroute
    obtain ⟨e, he, heq⟩ := Option.map_eq_some_iff.mp hroute
    obtain ⟨rfl, rfl⟩ := Prod.mk.inj heq
    exact ⟨⟨e, he, rfl, rfl⟩, fun hgw => .inr ⟨rfl, e, he, hgw⟩⟩
  | some e =>
    have he := mem_of_scan hscan
    rw [hscan] at hroute
    dsimp only at hroute ⊢
    by_cases hgw : e.gw = 0
    · rw [if_pos hgw] at hroute ⊢
      cases hfind : Keyed.find FibNodeIpv6.hashKey e.children (firstWord a) with
      | some c =>
        rw [hfind] at hroute
        obtain ⟨rfl, rfl⟩ := Prod.mk.inj (Option.some_inj.mp hroute)
        have hc := Keyed.mem_of_find hfind
        refine ⟨⟨e, he, rfl, c, hc, rfl, rfl, rfl⟩, fun hcgw => .inl ⟨e.key, ?_⟩⟩
        rw [← (hf.host e he c hc).2.1, hcgw]
      | none =>
        rw [hfind] at hroute
        obtain ⟨rfl, rfl⟩ := Prod.mk.inj (Option.some_inj.mp hroute)
        refine ⟨⟨_, Keyed.mem_modify_iff.mpr (.inl ⟨e, he, rfl, rfl⟩), rfl, e.newChild a,
          List.mem_append_right _ (List.mem_singleton_self _), rfl, rfl, rfl⟩, fun hcgw => ?_⟩
        have hzero : a = 0 := hcgw
        exact .inl ⟨e.key, by rw [hzero]⟩
    · rw [if_neg hgw] at hroute ⊢
      obtain ⟨rfl, rfl⟩ := Prod.mk.inj (Option.some_inj.mp hroute)
      exact ⟨⟨e, he, rfl, rfl, rfl⟩, fun h => absurd h hgw⟩

end FibIpv6

/-! ### The ledger -/

/-- A prefix that a packet has registered with a gateway, and the route or host that the packet went
to. -/
structure Ipv6Registration where
  ref : FibRefIpv6
  gw : GwV6
  pfx : RoutePfxV6
deriving DecidableEq, Repr

/-- The prefixes that are registered. -/
abbrev Ipv6Ledger := Finset Ipv6Registration

namespace Ipv6Ledger

variable (R : Ipv6Ledger)

/-- The prefixes with their gateways. -/
def prefixes : Ipv6Prefixes := R.image fun r => (r.gw, r.pfx)

/-- A packet for the route or host has registered a prefix. -/
def Resolved (ref : FibRefIpv6) : Prop := ∃ r ∈ R, r.ref = ref

instance (ref : FibRefIpv6) : Decidable (R.Resolved ref) :=
  inferInstanceAs (Decidable (∃ r ∈ R, r.ref = ref))

/-- After a packet, whose route is given. -/
def register (daddr : Ip6) : Option (FibRefIpv6 × FibNodeIpv6) → Ipv6Ledger
  | some (ref, e) => insert ⟨ref, e.gateway daddr, e.udPrefix⟩ R
  | none => R

/-- Without a route and its hosts. -/
def drop : Option FibEntryIpv6 → Ipv6Ledger
  | some e => R.filter fun r => ¬r.ref.Of e
  | none => R

/-- After an addition: a default route that gets another gateway is another route. -/
def replace (f : FibIpv6) (alen : ℕ) (gw : GwV6) : Ipv6Ledger :=
  if alen = 0 ∧ ¬f.SameDefault gw then R.filter fun r => r.ref ≠ .dflt else R

/-- What a call does to the ledger. -/
def step (t : Ipv6Routing) : Ipv6Op → Ipv6Ledger
  | .add _ alen vid gw => R.replace t.uc.fib_ipv6 alen ⟨gw, vid⟩
  | .del addr alen => R.drop (fibIpv6Get t.uc.fib_ipv6 addr alen).join
  | .udaddr daddr => R.register daddr (fibIpv6Route t.uc.fib_ipv6 daddr).1
  | .setMacAddr _ _ _ _ _ | .others _ => R

/-- A route can be deleted: no other gateway with the same first six bytes has the prefix of the
route or of a host, no other route or host has registered it, and all prefixes were registered with
the gateways of the route and its hosts, not with destinations of packets. -/
def DelOk (t : Ipv6Routing) (e : FibEntryIpv6) : Prop :=
  (∀ n ∈ e.nodes, t.UnregisterOk n.gwV6 n.routePfx ∧
      ∀ r ∈ R, ¬r.ref.Of e → (r.gw, r.pfx) ≠ (n.gwV6, n.routePfx)) ∧
    ¬(e.len = 0 ∧ e.gw = 0 ∧ R.Resolved .dflt) ∧ ¬R.Resolved (.child e.key 0)

instance (t : Ipv6Routing) (e : FibEntryIpv6) : Decidable (R.DelOk t e) :=
  inferInstanceAs (Decidable ((∀ n ∈ e.nodes, _ ∧ ∀ r ∈ R, ¬_ → _ ≠ _) ∧ ¬(_ ∧ _ ∧ _) ∧ ¬_))

/-- A packet meets no other gateway with the same first six bytes, and takes a reference exactly for
a new prefix; the default route keeps its gateway once it has been used; and routes are deleted that
can be. -/
def RefOk (t : Ipv6Routing) : Ipv6Op → Prop
  | .add _ alen vid gw =>
    alen = 0 → R.Resolved .dflt → t.uc.fib_ipv6.SameDefault ⟨gw, vid⟩
  | .del addr alen => ∀ e ∈ (fibIpv6Get t.uc.fib_ipv6 addr alen).join, R.DelOk t e
  | .udaddr daddr => ∀ r ∈ (fibIpv6Route t.uc.fib_ipv6 daddr).1,
      t.RegisterOk (r.2.gateway daddr) r.2.udPrefix r.2.ret_key
  | .setMacAddr _ _ _ _ _ | .others _ => True

instance (t : Ipv6Routing) (op : Ipv6Op) : Decidable (R.RefOk t op) :=
  match op with
  | .add _ alen vid gw => inferInstanceAs (Decidable
      (alen = 0 → R.Resolved .dflt → t.uc.fib_ipv6.SameDefault ⟨gw, vid⟩))
  | .del addr alen => inferInstanceAs (Decidable
      (∀ e ∈ (fibIpv6Get t.uc.fib_ipv6 addr alen).join, R.DelOk t e))
  | .udaddr daddr => inferInstanceAs (Decidable (∀ r ∈ (fibIpv6Route t.uc.fib_ipv6 daddr).1,
      t.RegisterOk (r.2.gateway daddr) r.2.udPrefix r.2.ret_key))
  | .setMacAddr _ _ _ _ _ | .others _ => .isTrue trivial

/-- A call, with what it does to the ledger. -/
def runStep (env : RouteEnv) (s : Ipv6Routing × Ipv6Ledger) (op : Ipv6Op) :
    Option (Ipv6Routing × Ipv6Ledger) :=
  (s.1.step env op).map fun t => (t, s.2.step s.1 op)

/-- A prefix of the ledger is that of a route or host of the FIB, unless that one has no gateway:
then it is the default route, or the host `::`. -/
def Live (f : FibIpv6) : Prop :=
  ∀ r ∈ R, f.Has r.gw r.pfx r.ref ∨ (∃ k, r.ref = .child k 0) ∨
    r.ref = .dflt ∧ ∃ e, f.dflt = some e ∧ e.gw = 0

variable {R} {f f' : FibIpv6} {t t' : Ipv6Routing} {env : RouteEnv} {e : FibEntryIpv6}

/-- A new key of a node keeps the prefixes live. -/
theorem Live.setRetKey (h : R.Live f) (ref : FibRefIpv6) (ret_key : GwV6) :
    R.Live (f.setRetKey ref ret_key) := by
  intro r hr
  obtain hhas | hhost | ⟨hdflt, e, he, hgw⟩ := h r hr
  · exact .inl (hhas.setRetKey ref ret_key)
  · exact .inr (.inl hhost)
  · refine .inr (.inr ⟨hdflt, ?_⟩)
    cases ref with
    | dflt => exact ⟨{ e with ret_key := ret_key }, congrArg (Option.map _) he, hgw⟩
    | entry k => exact ⟨e, he, hgw⟩
    | child k addr => exact ⟨e, he, hgw⟩

/-- A packet registers a prefix of a route or host that is there. -/
theorem Live.register (h : R.Live f) (hf : f.Sound) (a : Ip6) :
    (R.register a (fibIpv6Route f a).1).Live (fibIpv6Route f a).2 := by
  have hdflt : (fibIpv6Route f a).2.dflt = f.dflt := by
    obtain hsame | ⟨e, -, -, -, hroute⟩ := FibIpv6.route_cases f a
    · rw [hsame]
    · rw [hroute]
      rfl
  have hold : R.Live (fibIpv6Route f a).2 := fun r hr =>
    (h r hr).imp (fun hhas => hhas.route a) (Or.imp id fun h => by rwa [hdflt])
  cases hroute : (fibIpv6Route f a).1 with
  | none => exact hold
  | some found =>
    obtain ⟨ref, n⟩ := found
    intro r hr
    obtain rfl | hr := Finset.mem_insert.mp hr
    · obtain ⟨hhas, hzero⟩ := FibIpv6.has_route hf hroute
      by_cases hgw : n.gw = 0
      · exact .inr (by rw [hdflt]; exact hzero hgw)
      · left
        rw [FibNodeIpv6.gateway, FibNodeIpv6.udPrefix, if_pos hgw, if_pos hgw]
        exact hhas
    · exact hold r hr

/-- The default route keeps its gateway, if it has been used. -/
theorem Live.add (h : R.Live f) (hf : f.Sound) {addr gw : Ip6} {len vid : ℕ}
    (ha : fibIpv6Add f addr len vid gw = some f')
    (hok : len = 0 → R.Resolved .dflt → f.SameDefault ⟨gw, vid⟩) : R.Live f' := by
  intro r hr
  have hsame : len = 0 → r.ref = .dflt → f.SameDefault ⟨gw, vid⟩ := fun hlen hdflt =>
    hok hlen ⟨r, hr, hdflt⟩
  obtain hhas | hhost | ⟨hdflt, e, he, hgw⟩ := h r hr
  · exact .inl (hhas.add hf ha hsame)
  · exact .inr (.inl hhost)
  · refine .inr (.inr ⟨hdflt, ?_⟩)
    obtain ⟨hlen, rfl⟩ | ⟨-, -, rfl⟩ | ⟨-, -, -, rfl⟩ := FibIpv6.add_cases ha
    · refine ⟨_, rfl, ?_⟩
      have hnew : e.gwV6 = ⟨gw, vid⟩ := hsame hlen hdflt e he
      exact (congrArg GwV6.addr hnew).symm.trans hgw
    · exact ⟨e, he, hgw⟩
    · exact ⟨e, he, hgw⟩

/-- With a route goes what was registered for it. -/
theorem Live.drop (h : R.Live f) (hf : f.Sound) (he : e.len = 0 ∨ e ∈ f.e) :
    (R.drop (some e)).Live (f.remove e) := by
  intro r hr
  obtain ⟨hr, hof⟩ := Finset.mem_filter.mp hr
  obtain hhas | hhost | ⟨hdflt, hrest⟩ := h r hr
  · exact .inl (hhas.remove hf he hof)
  · exact .inr (.inl hhost)
  · refine .inr (.inr ⟨hdflt, ?_⟩)
    rw [hdflt] at hof
    have hlen : e.len ≠ 0 := hof
    unfold FibIpv6.remove
    rwa [if_neg hlen]

/-- A prefix of a gateway is one of its records. -/
theorem mem_prefixes {x : GwV6 × RoutePfxV6} :
    x ∈ R.prefixes ↔ ∃ r ∈ R, (r.gw, r.pfx) = x := Finset.mem_image

/-- A list of prefixes is erased one by one. -/
theorem mem_foldl_erase {α β : Type*} [DecidableEq β] {g : α → β} {l : List α} {P : Finset β}
    {x : β} : x ∈ l.foldl (fun P a => P.erase (g a)) P ↔ x ∈ P ∧ ∀ a ∈ l, x ≠ g a := by
  induction l generalizing P with
  | nil => simp
  | cons a l ih =>
    rw [List.foldl_cons, ih, Finset.mem_erase, List.forall_mem_cons, and_comm (a := x ≠ g a),
      and_assoc]

/-- What goes with a route are the prefixes that the program unregisters. -/
theorem DelOk.prefixes_drop (hok : R.DelOk t e) (h : R.Live f) (hf : f.Sound)
    (he : e.len = 0 ∧ f.dflt = some e ∨ e ∈ f.e) :
    (R.drop (some e)).prefixes =
      e.nodes.foldl (fun P n => P.erase (n.gwV6, n.routePfx)) R.prefixes := by
  obtain ⟨hothers, hconn, hhost⟩ := hok
  ext x
  rw [mem_foldl_erase, mem_prefixes, mem_prefixes]
  constructor
  · rintro ⟨r, hr, rfl⟩
    obtain ⟨hr, hof⟩ := Finset.mem_filter.mp hr
    exact ⟨⟨r, hr, rfl⟩, fun n hn => (hothers n hn).2 r hr hof⟩
  · rintro ⟨⟨r, hr, rfl⟩, hne⟩
    refine ⟨r, Finset.mem_filter.mpr ⟨hr, fun hof => ?_⟩, rfl⟩
    -- it is the prefix of the route or of one of its hosts
    obtain hhas | ⟨k, hk⟩ | ⟨hdflt, x, hx, hgw⟩ := h r hr
    · obtain ⟨n, hn, hgw, hpfx⟩ := hhas.mem_nodes hf he hof
      exact hne n hn (by rw [hgw, hpfx])
    · rw [hk] at hof
      have hkey : k = e.key := hof
      exact hhost ⟨r, hr, by rw [hk, hkey]⟩
    · rw [hdflt] at hof
      have hlen : e.len = 0 := hof
      obtain ⟨-, he⟩ | he := he
      · obtain rfl := Option.some_inj.mp (he.symm.trans hx)
        exact hconn ⟨hlen, hgw, r, hr, hdflt⟩
      · exact absurd hlen (hf.len e he).1.ne'

/-! ### Runs -/

/-- What holds in runs of such calls: the tables hold the prefixes of the ledger, and these belong
to routes and hosts that are there. -/
structure Inv (t : Ipv6Routing) (R : Ipv6Ledger) : Prop where
  registry : Ipv6Registry t R.prefixes
  sound : t.Sound
  live : R.Live t.uc.fib_ipv6

/-- In the beginning no gateway is registered. -/
theorem Inv.init (uc : Router) : Inv (.init uc) ∅ where
  registry := {
    uniqueRefs := Keyed.unique_nil
    uniquePfxs := Keyed.unique_nil
    nodup := fun _ hx => absurd hx List.not_mem_nil
    ne_nil := fun _ hx => absurd hx List.not_mem_nil
    mem := fun _ _ => by simp [Ipv6Routing.init, prefixes]
    refs := fun _ _ => by simp [Ipv6Routing.init, Router.refs]
    sent := fun _ => by simp [Ipv6Routing.init, Ipv6Routing.Requested] }
  sound := .init uc
  live _ hr := absurd hr (Finset.notMem_empty _)

/-- Deleting entries leaves the FIB alone. -/
theorem fib_foldl_del (ns : List FibNodeIpv6) (t : Ipv6Routing) :
    (ns.foldl Ipv6Routing.routeDelFibIpv6Entry t).uc.fib_ipv6 = t.uc.fib_ipv6 :=
  Sweep.foldl_keeps (fun t : Ipv6Routing => t.uc.fib_ipv6)
    (fun t n _ => (t.routeDelFibIpv6Entry_spec n).1) t

/-- **Step.** A new route registers nothing and forgets what it replaces. -/
theorem Inv.add (h : Inv t R) {addr gw : Ip6} {alen vid : ℕ}
    (hok : R.RefOk t (.add addr alen vid gw))
    (hs : t.step env (.add addr alen vid gw) = some t') :
    Ipv6Registry t' (R.replace t.uc.fib_ipv6 alen ⟨gw, vid⟩).prefixes ∧
      (R.replace t.uc.fib_ipv6 alen ⟨gw, vid⟩).Live t'.uc.fib_ipv6 := by
  have hkeep : R.replace t.uc.fib_ipv6 alen ⟨gw, vid⟩ = R := by
    unfold replace
    split_ifs with hnew
    · -- the route has not been used
      refine Finset.filter_eq_self.mpr fun r hr hdflt => ?_
      exact hnew.2 (hok hnew.1 ⟨r, hr, hdflt⟩)
    · rfl
  obtain ⟨f, hf, rfl⟩ := Option.map_eq_some_iff.mp hs
  have hlive : R.Live f := h.live.add h.sound.fib.toSound hf hok
  rw [hkeep]
  dsimp only
  split_ifs
  · exact ⟨h.registry.congr rfl rfl rfl, hlive⟩
  · exact ⟨h.registry.congr rfl rfl rfl, hlive⟩

/-- **Step.** A deleted route unregisters what was registered for it. -/
theorem Inv.del (h : Inv t R) {addr : Ip6} {alen : ℕ} (hok : R.RefOk t (.del addr alen))
    (hs : t.routeDelV6 addr alen = some t') :
    Ipv6Registry t' (R.drop (fibIpv6Get t.uc.fib_ipv6 addr alen).join).prefixes ∧
      (R.drop (fibIpv6Get t.uc.fib_ipv6 addr alen).join).Live t'.uc.fib_ipv6 := by
  have hok : ∀ e ∈ (fibIpv6Get t.uc.fib_ipv6 addr alen).join, R.DelOk t e := hok
  obtain ⟨r, hr, rfl⟩ := Option.map_eq_some_iff.mp hs
  obtain ⟨e?, hget, rfl⟩ := Option.map_eq_some_iff.mp hr
  rw [hget] at hok ⊢
  cases e? with
  | none => exact ⟨h.registry, h.live⟩
  | some e =>
    have hok := hok e rfl
    have hf := h.sound.fib.toSound
    have he := hf.get_cases hget
    have hset : Ipv6Registry (t.setFib (t.uc.fib_ipv6.remove e)) R.prefixes :=
      h.registry.congr rfl rfl rfl
    refine ⟨?_, ?_⟩
    · rw [Option.join_some, hok.prefixes_drop h.live hf he]
      exact hset.unregisterAll fun n hn => (hok.1 n hn).1
    · have hfib := fib_foldl_del e.nodes (t.setFib (t.uc.fib_ipv6.remove e))
      exact hfib ▸ h.live.drop hf (he.imp_left And.left)

/-- **Step.** A destination registers its prefix at its gateway. -/
theorem Inv.udaddr (h : Inv t R) {daddr : Ip6} (hok : R.RefOk t (.udaddr daddr)) :
    Ipv6Registry (t.routeHandleIpv6Udaddr env daddr)
        (R.register daddr (fibIpv6Route t.uc.fib_ipv6 daddr).1).prefixes ∧
      (R.register daddr (fibIpv6Route t.uc.fib_ipv6 daddr).1).Live
        (t.routeHandleIpv6Udaddr env daddr).uc.fib_ipv6 := by
  have hok : ∀ r ∈ (fibIpv6Route t.uc.fib_ipv6 daddr).1,
    t.RegisterOk (r.2.gateway daddr) r.2.udPrefix r.2.ret_key := hok
  have hlive := h.live.register h.sound.fib.toSound daddr
  cases hroute : fibIpv6Route t.uc.fib_ipv6 daddr with
  | mk found f =>
  rw [hroute] at hok hlive
  cases found with
  | none =>
    have hself : t.routeHandleIpv6Udaddr env daddr = t := by
      unfold Ipv6Routing.routeHandleIpv6Udaddr
      rw [hroute]
    rw [hself]
    exact ⟨h.registry, h.live⟩
  | some r =>
    refine ⟨?_, ?_⟩
    · have hset : Ipv6Registry (t.setFib f) R.prefixes := h.registry.congr rfl rfl rfl
      rw [register, prefixes, Finset.image_insert]
      unfold Ipv6Routing.routeHandleIpv6Udaddr
      rw [hroute]
      exact (hset.registerAndRequest env (hok r rfl)).congr rfl rfl rfl
    · obtain ⟨-, ⟨ret_key, hfib⟩, -⟩ := t.routeHandleIpv6Udaddr_spec env hroute
      rw [hfib]
      exact hlive.setRetKey r.1 ret_key

/-- Each call keeps the tables what the ledger says. -/
theorem Inv.step (h : Inv t R) {op : Ipv6Op} (hok : R.RefOk t op) (hs : t.step env op = some t') :
    Inv t' (R.step t op) := by
  have hboth : Ipv6Registry t' (R.step t op).prefixes ∧ (R.step t op).Live t'.uc.fib_ipv6 := by
    cases op with
    | add addr alen vid gw => exact h.add hok hs
    | del addr alen => exact h.del hok hs
    | udaddr daddr =>
      obtain rfl := Option.some_inj.mp hs
      exact h.udaddr hok
    | setMacAddr gw addr vif_id arpOk reOk =>
      obtain rfl := Option.some_inj.mp hs
      obtain ⟨hrefs, hpfxs⟩ := Router.refs_retIpv6SetMacAddr env t.uc gw addr vif_id arpOk reOk
      obtain ⟨-, -, -, -, hfib, -⟩ :=
        Router.retIpv6SetMacAddr_cases env t.uc gw addr vif_id arpOk reOk
      refine ⟨h.registry.congr hrefs hpfxs rfl, ?_⟩
      have hlive : R.Live (t.uc.retIpv6SetMacAddr env gw addr vif_id arpOk reOk).2.fib_ipv6 :=
        hfib ▸ h.live
      exact hlive
    | others uc =>
      obtain rfl := Option.some_inj.mp hs
      exact ⟨h.registry.congr rfl rfl rfl, h.live⟩
  exact ⟨hboth.1, h.sound.step hs, hboth.2⟩

/-- **Run.** The gateways are those of the prefixes registered. -/
theorem Inv.run {uc : Router} {s : Ipv6Routing × Ipv6Ledger}
    (hr : Guarded.Reach (runStep env) (fun s op => s.2.RefOk s.1 op) (.init uc, ∅) s) :
    Inv s.1 s.2 := by
  refine hr.invariant (fun s => Inv s.1 s.2) (.init uc) fun s op s' h hok hs => ?_
  obtain ⟨t', ht', rfl⟩ := Option.map_eq_some_iff.mp hs
  exact h.step hok ht'

end Ipv6Ledger

/-! ### Indices and next hops -/

namespace Ipv6Routing

/-- The indices in use and the next hops are those of live owners, and what was lost before. -/
def Owns (t : Ipv6Routing) (L : Multiset ℤ) (X : Multiset Mac) : Prop :=
  t.uc.OwnInv L ∧ t.uc.UsersInv X

/-- The calls of routes and packets. -/
def Routes : Ipv6Op → Prop
  | .add _ _ _ _ | .del _ _ | .udaddr _ => True
  | .setMacAddr _ _ _ _ _ | .others _ => False

variable {env : RouteEnv} {t t' : Ipv6Routing} {L : Multiset ℤ} {X : Multiset Mac}

namespace Owns

/-- The prefixes, the routes and the tables of the packet processor do not matter. -/
theorem congr (h : t.Owns L X) {u : ℤ → UcRoute} {l : ℕ × Ip6 → Option Ltt} {p : List PfxsByGw}
    {f : FibIpv6} (huc : t'.uc = { t.uc with
      ucRoute := u, lpmIpv6 := l, pfxs_ipv6_by_gw := p, fib_ipv6 := f }) : t'.Owns L X := by
  unfold Owns
  rw [huc]
  obtain ⟨hown, huse⟩ := h
  exact ⟨⟨hown.uniqueV6, hown.counts, hown.used, hown.nodup, hown.regular⟩,
    ⟨huse.unique, huse.uniqueV6, huse.nh⟩⟩

/-- Unregistering a prefix gives back what its gateway owned. -/
theorem routeIpv6Unregister (h : t.Owns L X) (gw : GwV6) (pfx : RoutePfxV6) :
    (t.routeIpv6Unregister pfx gw).Owns L X := by
  unfold Ipv6Routing.routeIpv6Unregister
  cases t.uc.findPfxsByGw gw with
  | none => exact h
  | some pbg =>
    dsimp only
    split_ifs
    · have hunref : (t.retIpv6Unref gw (pfx.alen = 0)).Owns L X := by
        unfold Owns
        rw [t.uc_retIpv6Unref]
        exact ⟨h.1.retIpv6Unref, h.2.retIpv6Unref⟩
      exact hunref.congr rfl
    · have hunref : (t.retIpv6Unref gw (pfx.alen = 0)).Owns L X := by
        unfold Owns
        rw [t.uc_retIpv6Unref]
        exact ⟨h.1.retIpv6Unref, h.2.retIpv6Unref⟩
      exact hunref.congr rfl
    · exact h

/-- A deleted entry gives back what its gateway owned. -/
theorem routeDelFibIpv6Entry (h : t.Owns L X) (e : FibNodeIpv6) :
    (t.routeDelFibIpv6Entry e).Owns L X := by
  unfold Ipv6Routing.routeDelFibIpv6Entry
  dsimp only
  split_ifs
  · have hlpm : Owns { t with uc := t.uc.lpmIpv6UcPrefixDel e.pfx e.len } L X := h.congr rfl
    exact hlpm.routeIpv6Unregister _ _
  · exact h.routeIpv6Unregister _ _

/-- A request of a MAC address takes what the gateway owns then. -/
theorem routeIpv6RequestMacAddr (env : RouteEnv) (h : t.Owns L X) (gw ret_key : GwV6)
    (pfx : RoutePfxV6) :
    (t.routeIpv6RequestMacAddr env gw pfx ret_key).2.Owns L X := by
  have hadd : (t.retIpv6Add env gw (pfx.alen = 0) ret_key).2.2.Owns L X := by
    unfold Ipv6Routing.retIpv6Add
    dsimp only
    split_ifs
    · exact ⟨h.1.retIpv6Add ret_key, h.2.retIpv6Add ret_key⟩
    · exact ⟨h.1.retIpv6Add ret_key, h.2.retIpv6Add ret_key⟩
  unfold Ipv6Routing.routeIpv6RequestMacAddr
  dsimp only
  split_ifs
  · exact hadd.congr rfl
  · exact hadd

/-- Routes and packets take and lose no index and no reference to a next hop: what an entry had is
released with it. -/
theorem step (h : t.Owns L X) {op : Ipv6Op} (hop : Routes op) (hs : t.step env op = some t') :
    t'.Owns L X := by
  cases op with
  | add addr alen vid gw =>
    obtain ⟨f, -, rfl⟩ := Option.map_eq_some_iff.mp hs
    dsimp only
    split_ifs
    · exact h.congr rfl
    · exact h.congr rfl
  | del addr alen =>
    obtain ⟨⟨e?, f⟩, -, rfl⟩ := Option.map_eq_some_iff.mp hs
    cases e? with
    | none => exact h
    | some e =>
      have hset : (t.setFib f).Owns L X := h.congr rfl
      exact List.foldlRecOn (motive := fun t => Owns t L X) e.nodes _ hset
        fun t ht n _ => ht.routeDelFibIpv6Entry n
  | udaddr daddr =>
    obtain rfl := Option.some_inj.mp hs
    unfold Ipv6Routing.routeHandleIpv6Udaddr
    cases hroute : fibIpv6Route t.uc.fib_ipv6 daddr with
    | mk found f =>
    cases found with
    | none => exact h
    | some r =>
      have hset : (t.setFib f).Owns L X := h.congr rfl
      obtain ⟨p, hp⟩ := (t.setFib f).uc.routeIpv6Register_eq r.2.udPrefix (r.2.gateway daddr)
      have hreg : Owns { t.setFib f with
          uc := (t.setFib f).uc.routeIpv6Register r.2.udPrefix (r.2.gateway daddr) } L X := by
        rw [hp]
        exact hset.congr rfl
      have hreq := hreg.routeIpv6RequestMacAddr env (r.2.gateway daddr) r.2.ret_key
        r.2.udPrefix
      exact hreq.congr rfl
  | setMacAddr gw addr vif_id arpOk reOk => exact hop.elim
  | others uc => exact hop.elim

end Owns

end Ipv6Routing

namespace Ipv6Registry

variable {env : RouteEnv} {t : Ipv6Routing} {R : Ipv6Prefixes} {uc : Router}

/-- A gateway with a prefix has an entry of its own in either table. -/
theorem find_eq (h : Ipv6Registry t R) {gw : GwV6} {pfx : RoutePfxV6} (hmem : (gw, pfx) ∈ R) :
    (t.uc.findGwV6 gw).map ReIpv6.gw = some gw ∧
      (t.uc.findPfxsByGw gw).map PfxsByGw.gw = some gw := by
  obtain ⟨pbg, hpbg, rfl, -⟩ := (h.mem gw pfx).mp hmem
  have hrefs : Keyed.find refKey t.uc.refs pbg.gw.hashKey = some (pbg.gw, (pbg.pfxs.length : ℤ)) :=
    h.uniqueRefs.find_eq_some_iff.mpr ⟨h.mem_refs hpbg, rfl⟩
  have hpfxs : t.uc.findPfxsByGw pbg.gw = some pbg := h.uniquePfxs.find_eq_some_iff.mpr ⟨hpbg, rfl⟩
  rw [Router.find_refs] at hrefs
  obtain ⟨re, hre, heq⟩ := Option.map_eq_some_iff.mp hrefs
  rw [hre, hpfxs]
  exact ⟨congrArg some (Prod.mk.inj heq).1, rfl⟩

/-- The gateways with prefixes. -/
theorem exists_mem_iff (h : Ipv6Registry t R) (gw : GwV6) :
    (∃ pbg ∈ t.uc.pfxs_ipv6_by_gw, pbg.gw = gw) ↔ ∃ pfx, (gw, pfx) ∈ R := by
  constructor
  · rintro ⟨pbg, hpbg, rfl⟩
    obtain ⟨pfx, hpfx⟩ := List.exists_mem_of_ne_nil _ (h.ne_nil pbg hpbg)
    exact ⟨pfx, (h.mem pbg.gw pfx).mpr ⟨pbg, hpbg, rfl, hpfx⟩⟩
  · rintro ⟨pfx, hmem⟩
    obtain ⟨pbg, hpbg, hgw, -⟩ := (h.mem gw pfx).mp hmem
    exact ⟨pbg, hpbg, hgw⟩

/-- A gateway counts the prefixes registered at it. -/
theorem refc_eq_count (h : Ipv6Registry t R) {re : ReIpv6} (hre : re ∈ t.uc.ret_ipv6) :
    re.refc = R.count re.gw := by
  obtain ⟨pbg, hpbg, hgw, hlen⟩ := (h.refs re.gw re.refc).mp (List.mem_map.mpr ⟨re, hre, rfl⟩)
  rw [← hlen, ← hgw, h.count_eq_length hpbg]

/-- A gateway is there as long as a prefix is registered at it. -/
theorem exists_re_iff (h : Ipv6Registry t R) (gw : GwV6) :
    (∃ re ∈ t.uc.ret_ipv6, re.gw = gw) ↔ ∃ pfx, (gw, pfx) ∈ R := by
  rw [← h.exists_mem_iff]
  constructor
  · rintro ⟨re, hre, rfl⟩
    obtain ⟨pbg, hpbg, hgw, -⟩ := (h.refs re.gw re.refc).mp (List.mem_map.mpr ⟨re, hre, rfl⟩)
    exact ⟨pbg, hpbg, hgw⟩
  · rintro ⟨pbg, hpbg, rfl⟩
    obtain ⟨re, hre, heq⟩ := List.mem_map.mp (h.mem_refs hpbg)
    exact ⟨re, hre, (Prod.mk.inj heq).1⟩

/-- In runs of calls with `RefOk` a gateway shares no entry of either table, its references are the
prefixes that are registered with it, and its entry and the request for its address are there as
long as there is such a prefix. The index and the next hop go with the entry. -/
theorem gateways_counted {s : Ipv6Routing × Ipv6Ledger}
    (hr : Guarded.Reach (Ipv6Ledger.runStep env) (fun s op => s.2.RefOk s.1 op) (.init uc, ∅) s) :
    (∀ gw pfx, (gw, pfx) ∈ s.2.prefixes → (s.1.uc.findGwV6 gw).map ReIpv6.gw = some gw ∧
        (s.1.uc.findPfxsByGw gw).map PfxsByGw.gw = some gw) ∧
      (∀ re ∈ s.1.uc.ret_ipv6, re.refc = s.2.prefixes.count re.gw) ∧
      (∀ gw, (∃ re ∈ s.1.uc.ret_ipv6, re.gw = gw) ↔ ∃ pfx, (gw, pfx) ∈ s.2.prefixes) ∧
      (∀ gw, s.1.Requested gw ↔ ∃ pfx, (gw, pfx) ∈ s.2.prefixes) ∧
      ∀ op t' L X, Ipv6Routing.Routes op → s.1.step env op = some t' → s.1.Owns L X →
        t'.Owns L X := by
  have h := (Ipv6Ledger.Inv.run hr).registry
  refine ⟨fun gw pfx hmem => h.find_eq hmem, fun re hre => h.refc_eq_count hre, h.exists_re_iff,
    fun gw => (h.sent gw).trans (h.exists_mem_iff gw), ?_⟩
  intro op t' L X hop hs hown
  exact hown.step hop hs

/-- Two routes over one gateway, two packets for each, and the deletion of one of them. -/
def sharedGatewayRun : List Ipv6Op :=
  [.add 0x20010db8000000000000000000000000 32 5 0xfe80000000000000000000000000000a,
    .add 0x20010db9000000000000000000000000 32 5 0xfe80000000000000000000000000000a,
    .udaddr 0x20010db8000000000000000000000001, .udaddr 0x20010db8000000000000000000000002,
    .udaddr 0x20010db9000000000000000000000001, .del 0x20010db8000000000000000000000000 32]

/-- A run in which two prefixes share a gateway. -/
theorem gateways_counted_sharedGatewayRun : ∃ s : Ipv6Routing × Ipv6Ledger,
    s.1.uc.ret_ipv6.map ReIpv6.refc = [1] ∧
      ∀ re ∈ s.1.uc.ret_ipv6, re.refc = s.2.prefixes.count re.gw := by
  have hlast : (Guarded.run (Ipv6Ledger.runStep Ipv6Routing.oneVif) (fun s op => s.2.RefOk s.1 op)
      (Ipv6Routing.emptyRouting, ∅) sharedGatewayRun).map
        (fun s => s.1.uc.ret_ipv6.map ReIpv6.refc) =
      some [1] := by
    decide +kernel
  obtain ⟨s, hrun, hrefc⟩ := Option.map_eq_some_iff.mp hlast
  exact ⟨s, hrefc, (gateways_counted (Guarded.Reach.init.of_run hrun)).2.1⟩

/-- The gateways `fe80::a` and `fe80::b` share an entry, and a second packet for the second one
takes one more reference. -/
theorem not_gateways_counted : ∃ s : Ipv6Routing × Ipv6Ledger,
    Guarded.run (Ipv6Ledger.runStep Ipv6Routing.oneVif) (fun _ _ => True)
      (Ipv6Routing.emptyRouting, ∅)
      [.add 0x20010db8000000000000000000000000 32 5 0xfe80000000000000000000000000000a,
        .add 0x20010db9000000000000000000000000 32 5 0xfe80000000000000000000000000000b,
        .udaddr 0x20010db8000000000000000000000001, .udaddr 0x20010db9000000000000000000000001,
        .udaddr 0x20010db9000000000000000000000001] = some s ∧
      (⟨0xfe80000000000000000000000000000b, 5⟩,
        ⟨0x20010db9000000000000000000000000, 32⟩) ∈ s.2.prefixes ∧
      (s.1.uc.findGwV6 ⟨0xfe80000000000000000000000000000b, 5⟩).map ReIpv6.gw =
        some ⟨0xfe80000000000000000000000000000a, 5⟩ ∧
      s.1.uc.ret_ipv6.map ReIpv6.refc = [3] ∧ s.2.card = 2 := by
  have hlast : (Guarded.run (Ipv6Ledger.runStep Ipv6Routing.oneVif) (fun _ _ => True)
      (Ipv6Routing.emptyRouting, ∅)
      [.add 0x20010db8000000000000000000000000 32 5 0xfe80000000000000000000000000000a,
        .add 0x20010db9000000000000000000000000 32 5 0xfe80000000000000000000000000000b,
        .udaddr 0x20010db8000000000000000000000001, .udaddr 0x20010db9000000000000000000000001,
        .udaddr 0x20010db9000000000000000000000001]).map (fun s =>
        (decide ((⟨0xfe80000000000000000000000000000b, 5⟩,
            ⟨0x20010db9000000000000000000000000, 32⟩) ∈ s.2.prefixes),
          (s.1.uc.findGwV6 ⟨0xfe80000000000000000000000000000b, 5⟩).map ReIpv6.gw,
          s.1.uc.ret_ipv6.map ReIpv6.refc, s.2.card)) =
      some (true, some ⟨0xfe80000000000000000000000000000a, 5⟩, [3], 2) := by
    decide +kernel
  obtain ⟨s, hrun, hshown⟩ := Option.map_eq_some_iff.mp hlast
  obtain ⟨hmem, hshown⟩ := Prod.mk.inj hshown
  obtain ⟨hgw, hshown⟩ := Prod.mk.inj hshown
  obtain ⟨hrefc, hcard⟩ := Prod.mk.inj hshown
  exact ⟨s, hrun, of_decide_eq_true hmem, hgw, hrefc, hcard⟩

end Ipv6Registry

end Presteramgr
