import Presteramgr.Route.Ipv6Steps

/-!
# Hosts of connected IPv6 routes

A packet to an address of a connected route has the address as its gateway, and its prefix is
installed once the MAC address is known. The length of the prefix is that of the child of the route,
32.

## Main definitions

* `InstalledFor`: the prefixes of the LPM that are there because of an address;
* `HostOnly`: only the address itself is, and deleting the connected route removes it.

## Main results

* `host_only_iff`: this is so for the unspecified address alone.
-/

namespace Presteramgr

open Function (update update_self update_of_ne)
open Prefixes (Longest Covers)

namespace FibIpv6

/-- What holds of the table in every run: it is sound, entries are found where their address is, and
children, which the default route does not have, have length 32. -/
structure Built (f : FibIpv6) : Prop extends f.Sound where
  masked : ∀ e ∈ f.e, e.addr = maskedIpv6 e.len e.pfx
  childLen : ∀ e ∈ f.e, ∀ c ∈ e.children, c.len = 32
  dfltChild : ∀ e, f.dflt = some e → e.children = []

variable {f f' : FibIpv6} {a : Ip6} {k : ℕ × Ip6} {e : FibEntryIpv6}

/-- The empty table is built. -/
theorem Built.empty : empty.Built :=
  ⟨empty_sound, fun _ he => absurd he List.not_mem_nil, fun _ he => absurd he List.not_mem_nil,
    fun e he => absurd he.symm (Option.some_ne_none e)⟩

/-- A change of a route and its children in place. -/
theorem Built.modify (h : f.Built) {g : FibEntryIpv6 → FibEntryIpv6}
    (hg : ∀ e, (g e).len = e.len ∧ (g e).addr = e.addr ∧ (g e).pfx = e.pfx)
    (hc : ∀ e ∈ f.e, e.key = k → ∀ c ∈ (g e).children,
      (c.pfx = c.addr ∧ c.gw = c.addr ∧ c.vid = (g e).vid) ∧ c.len = 32) :
    (f.modify k g).Built := by
  have hmem {x : FibEntryIpv6} (hx : x ∈ (f.modify k g).e) :
      (∃ e ∈ f.e, e.key = k ∧ g e = x) ∨ x ∈ f.e :=
    (Keyed.mem_modify_iff.mp hx).imp_right And.left
  have hkeys : (f.modify k g).e.map FibEntryIpv6.hashKey = f.e.map FibEntryIpv6.hashKey :=
    Keyed.map_modify _ fun e => by
      obtain ⟨hlen, haddr, -⟩ := hg e
      rw [FibEntryIpv6.hashKey, FibEntryIpv6.hashKey, hlen, haddr]
  refine ⟨⟨?_, fun x hx => ?_, fun x hx c hcx => ?_, h.dflt⟩, fun x hx => ?_, fun x hx c hcx => ?_,
    h.dfltChild⟩
  · unfold Keyed.Unique
    rw [hkeys]
    exact h.unique
  · rcases hmem hx with ⟨e, he, -, rfl⟩ | hx
    · rw [(hg e).1]
      exact h.len e he
    · exact h.len x hx
  · rcases hmem hx with ⟨e, he, hkey, rfl⟩ | hx
    · exact (hc e he hkey c hcx).1
    · exact h.host x hx c hcx
  · rcases hmem hx with ⟨e, he, -, rfl⟩ | hx
    · obtain ⟨hlen, haddr, hpfx⟩ := hg e
      rw [hlen, haddr, hpfx]
      exact h.masked e he
    · exact h.masked x hx
  · rcases hmem hx with ⟨e, he, hkey, rfl⟩ | hx
    · exact (hc e he hkey c hcx).2
    · exact h.childLen x hx c hcx

/-- A table with one more entry is built. -/
theorem Built.add {addr : Ip6} {len vid : ℕ} {gw : Ip6} (h : f.Built)
    (ha : fibIpv6Add f addr len vid gw = some f') : f'.Built := by
  refine ⟨h.sound_add ha, ?_, ?_, ?_⟩
  · obtain ⟨-, rfl⟩ | ⟨-, -, rfl⟩ | ⟨-, -, -, rfl⟩ := add_cases ha
    · exact h.masked
    · exact h.masked
    · exact List.forall_mem_cons.mpr ⟨rfl, h.masked⟩
  · obtain ⟨-, rfl⟩ | ⟨-, -, rfl⟩ | ⟨-, -, -, rfl⟩ := add_cases ha
    · exact h.childLen
    · exact h.childLen
    · exact List.forall_mem_cons.mpr ⟨fun c hc => absurd hc List.not_mem_nil, h.childLen⟩
  · obtain ⟨-, rfl⟩ | ⟨-, -, rfl⟩ | ⟨-, -, -, rfl⟩ := add_cases ha
    · intro e he
      rw [← Option.some_inj.mp he]
      cases hd : f.dflt with
      | none => rfl
      | some x => exact h.dfltChild x hd
    · exact h.dfltChild
    · exact h.dfltChild

/-- A table without an entry is built. -/
theorem Built.remove (h : f.Built) (e : FibEntryIpv6) : (f.remove e).Built := by
  refine ⟨h.toSound.remove e, fun x hx => h.masked x ?_, fun x hx => h.childLen x ?_,
    fun x hx => ?_⟩
  · unfold FibIpv6.remove at hx
    split_ifs at hx
    · exact hx
    · exact Keyed.mem_of_mem_del hx
  · unfold FibIpv6.remove at hx
    split_ifs at hx
    · exact hx
    · exact Keyed.mem_of_mem_del hx
  · unfold FibIpv6.remove at hx
    split_ifs at hx
    exact h.dfltChild x hx

/-- A table after a lookup is built. -/
theorem Built.route (h : f.Built) (a : Ip6) : (fibIpv6Route f a).2.Built := by
  obtain hsame | ⟨e, hscan, -, -, hroute⟩ := route_cases f a
  · rw [hsame]
    exact h
  · rw [hroute]
    have he := mem_of_scan hscan
    refine h.modify (fun _ => ⟨rfl, rfl, rfl⟩) fun x hx hkey c hc => ?_
    obtain rfl := h.unique_key.eq_of_mem hx he hkey
    rcases List.mem_append.mp hc with hc | hc
    · exact ⟨h.host x hx c hc, h.childLen x hx c hc⟩
    · rw [List.mem_singleton.mp hc]
      exact ⟨⟨rfl, rfl, rfl⟩, rfl⟩

/-- A table after a change of a key is built. -/
theorem Built.setRetKey (h : f.Built) (ref : FibRefIpv6) (ret_key : GwV6) :
    (f.setRetKey ref ret_key).Built := by
  cases ref with
  | dflt =>
    refine ⟨⟨h.unique, h.len, h.host, fun e he => ?_⟩, h.masked, h.childLen, fun e he => ?_⟩
    · obtain ⟨x, hx, rfl⟩ := Option.map_eq_some_iff.mp he
      exact h.dflt x hx
    · obtain ⟨x, hx, rfl⟩ := Option.map_eq_some_iff.mp he
      exact h.dfltChild x hx
  | entry k =>
    exact h.modify (fun _ => ⟨rfl, rfl, rfl⟩) fun e he _ c hc =>
      ⟨h.host e he c hc, h.childLen e he c hc⟩
  | child k addr =>
    refine h.modify (fun _ => ⟨rfl, rfl, rfl⟩) fun e he _ c hc => ?_
    rcases Keyed.mem_modify_iff.mp hc with ⟨x, hx, -, rfl⟩ | ⟨hc, -⟩
    · exact ⟨h.host e he x hx, h.childLen e he x hx⟩
    · exact ⟨h.host e he c hc, h.childLen e he c hc⟩

/-- What a lookup finds. -/
theorem found_cases {r : FibRefIpv6 × FibNodeIpv6} (hroute : (fibIpv6Route f a).1 = some r) :
    (∃ e, f.scan 128 a = some e ∧ e.gw ≠ 0 ∧ r.2 = e.toFibNodeIpv6) ∨
    (∃ e, f.scan 128 a = some e ∧ e.gw = 0 ∧
      (Keyed.find FibNodeIpv6.hashKey e.children (firstWord a) = some r.2 ∨
        Keyed.find FibNodeIpv6.hashKey e.children (firstWord a) = none ∧ r.2 = e.newChild a)) ∨
    (f.scan 128 a = none ∧ ∃ e, f.dflt = some e ∧ r.2 = e.toFibNodeIpv6) := by
  unfold fibIpv6Route at hroute
  cases hscan : f.scan 128 a with
  | none =>
    rw [hscan] at hroute
    obtain ⟨e, he, rfl⟩ := Option.map_eq_some_iff.mp hroute
    exact .inr (.inr ⟨rfl, e, he, rfl⟩)
  | some e =>
    rw [hscan] at hroute
    dsimp only at hroute
    split_ifs at hroute with hgw
    · cases hfind : Keyed.find FibNodeIpv6.hashKey e.children (firstWord a) with
      | some c =>
        rw [hfind] at hroute
        obtain rfl := Option.some_inj.mp hroute
        exact .inr (.inl ⟨e, rfl, hgw, .inl hfind⟩)
      | none =>
        rw [hfind] at hroute
        obtain rfl := Option.some_inj.mp hroute
        exact .inr (.inl ⟨e, rfl, hgw, .inr ⟨hfind, rfl⟩⟩)
    · obtain rfl := Option.some_inj.mp hroute
      exact .inl ⟨e, rfl, hgw, rfl⟩

/-- The address is the unspecified one, its longest prefix is itself, and no other host of this
route has its first four bytes. -/
def HostIsUnspecified (f : FibIpv6) (a : Ip6) (k : ℕ × Ip6) : Prop :=
  a = 0 ∧ k = (128, 0) ∧ ∀ e, f.entryAt (128, 0) = some e →
    ∀ c, Keyed.find FibNodeIpv6.hashKey e.children (firstWord 0) = some c → c.addr = 0

/-- An entry of length 128 is found at once. -/
theorem Built.scan_of_entryAt (h : f.Built) (he : f.entryAt (128, a) = some e) :
    f.scan 128 a = some e := by
  have hfind : f.hashFind (128, a) = some e := by
    obtain ⟨hmem, hkey⟩ :=
      h.unique_key.find_eq_some_iff.mp ((entryAt_of_pos (Nat.succ_ne_zero 127)).symm.trans he)
    refine h.unique.find_eq_some_iff.mpr ⟨hmem, ?_⟩
    obtain ⟨hlen, haddr⟩ := Prod.mk.inj hkey
    rw [FibEntryIpv6.hashKey, hlen, haddr]
  rw [scan, hfind]

/-- An element for a host has the address of the host. -/
theorem lpmKey_host {pfx : RoutePfxV6} (hkey : pfx.lpmKey = (128, a)) :
    pfx.alen = 128 ∧ pfx.addrv6 = a := by
  obtain ⟨halen, haddr⟩ := Prod.mk.inj hkey
  rw [halen, Router.mkmaskIpv6] at haddr
  exact ⟨halen, by simpa using haddr⟩

/-- A lookup whose longest prefix is connected registers the address with length 128 only if this is
the unspecified address. -/
theorem Built.udPrefix_host (h : f.Built) {r : FibRefIpv6 × FibNodeIpv6} {st : StoredIpv6}
    (hlong : Longest maskedIpv6 f.stored a k) (hst : f.stored k = some st) (hgw : st.gw = 0)
    (hroute : (fibIpv6Route f a).1 = some r) (hkey : r.2.udPrefix.lpmKey = (128, a)) :
    a = 0 ∧ ∀ e, f.entryAt (128, 0) = some e →
      ∀ c, Keyed.find FibNodeIpv6.hashKey e.children (firstWord 0) = some c → c.addr = 0 := by
  obtain ⟨halen, hpfx⟩ := lpmKey_host hkey
  have halen : (if r.2.gw ≠ 0 then r.2.len else 128) = 128 := halen
  have hpfx : r.2.pfx = a := hpfx
  obtain ⟨e, hscan, hne, hr⟩ | ⟨e, hscan, -, hc⟩ | ⟨hscan, e, he, hr⟩ := found_cases hroute
  · -- a route with a gateway is longer than the connected one
    rw [hr] at halen hpfx
    rw [if_pos hne] at halen
    have hmem := mem_of_scan hscan
    have haddr : e.addr = a := by rw [h.masked e hmem, halen, maskedIpv6_all, hpfx]
    have hentry : f.entryAt (128, a) = some e :=
      (entryAt_of_pos (Nat.succ_ne_zero 127)).trans (h.unique_key.find_eq_some_iff.mpr
        ⟨hmem, Prod.ext halen haddr⟩)
    have hstored : f.stored (128, a) = some e.toFibNodeIpv6.stored := congrArg (Option.map _) hentry
    have hlen : k.1 = 128 := by
      refine le_antisymm ?_ (hlong.longest (128, a) (by rw [hstored]; rfl) (maskedIpv6_all a))
      exact h.len_le ((isSome_entryAt f k).trans (by rw [hst]; rfl))
    have hk : k = (128, a) := by
      have hcov : maskedIpv6 k.1 a = k.2 := hlong.covers
      rw [hlen, maskedIpv6_all] at hcov
      exact Prod.ext hlen hcov.symm
    rw [hk, hstored] at hst
    obtain rfl := Option.some_inj.mp hst
    exact absurd hgw hne
  · -- a host of a connected network has length 32, so its gateway is zero
    have hhost : r.2.gw = r.2.addr ∧ r.2.pfx = r.2.addr ∧ r.2.len = 32 := by
      rcases hc with hc | ⟨-, hc⟩
      · have hmem := Keyed.mem_of_find hc
        obtain ⟨hp, hg, -⟩ := h.host e (mem_of_scan hscan) r.2 hmem
        exact ⟨hg, hp, h.childLen e (mem_of_scan hscan) r.2 hmem⟩
      · rw [hc]
        exact ⟨rfl, rfl, rfl⟩
    obtain ⟨hg, hp, hl⟩ := hhost
    have hzero : r.2.gw = 0 := by
      by_contra hne
      rw [if_pos hne, hl] at halen
      exact absurd halen (by decide)
    have ha : a = 0 := by rw [← hpfx, hp, ← hg, hzero]
    refine ⟨ha, fun e' he' c hfind => ?_⟩
    subst ha
    obtain rfl := Option.some_inj.mp ((h.scan_of_entryAt he').symm.trans hscan)
    rcases hc with hc | ⟨hc, -⟩
    · obtain rfl := Option.some_inj.mp (hfind.symm.trans hc)
      rw [← hg, hzero]
    · exact absurd (hfind.symm.trans hc) (Option.some_ne_none c)
  · -- the default entry has the prefix zero
    have hdflt := h.dflt e he
    have ha : a = 0 := by
      rw [hr] at hpfx
      exact hpfx.symm.trans hdflt.2.2
    refine ⟨ha, fun e' he' => ?_⟩
    subst ha
    exact absurd ((h.scan_of_entryAt he').symm.trans hscan) (Option.some_ne_none e')

/-- The unspecified address is registered with length 128. -/
theorem Built.udPrefix_unspecified (h : f.Built) (hcond : f.HostIsUnspecified a k) {st : StoredIpv6}
    (hst : f.stored k = some st) (hgw : st.gw = 0) :
    ∃ r, (fibIpv6Route f a).1 = some r ∧ r.2.udPrefix = ⟨a, 128⟩ ∧ r.2.gateway a = ⟨a, st.vid⟩ := by
  obtain ⟨rfl, rfl, hchild⟩ := hcond
  obtain ⟨e, he, rfl⟩ := Option.map_eq_some_iff.mp hst
  have hscan := h.scan_of_entryAt he
  have hgw : e.gw = 0 := hgw
  unfold fibIpv6Route
  rw [hscan]
  dsimp only
  rw [if_pos hgw]
  cases hfind : Keyed.find FibNodeIpv6.hashKey e.children (firstWord 0) with
  | some c =>
    obtain ⟨hp, hg, hv⟩ := h.host e (mem_of_scan hscan) c (Keyed.mem_of_find hfind)
    have hzero := hchild e he c hfind
    refine ⟨_, rfl, ?_, ?_⟩
    · rw [FibNodeIpv6.udPrefix, hp, hg, hzero, if_neg (not_not_intro rfl)]
    · rw [FibNodeIpv6.gateway, hg, hzero, if_neg (not_not_intro rfl), hv]
      rfl
  | none => exact ⟨_, rfl, rfl, rfl⟩

/-- The longest entry of an address has its longest prefix. -/
theorem Built.longest_of_longestAt (h : f.Built) (he : f.entryAt k = some e)
    (hlong : f.LongestAt a e) :
    Longest maskedIpv6 f.stored a k := by
  obtain rfl := h.key_of_entryAt he
  refine ⟨by rw [← isSome_entryAt, he]; rfl, hlong.1, fun k' hk' hcov => ?_⟩
  rw [← isSome_entryAt] at hk'
  obtain ⟨e', he'⟩ := Option.isSome_iff_exists.mp hk'
  obtain rfl := h.key_of_entryAt he'
  by_cases hzero : e'.key.1 = 0
  · rw [hzero]
    exact Nat.zero_le _
  · have hmem : e' ∈ f.e := Keyed.mem_of_find ((entryAt_of_pos hzero).symm.trans he')
    exact hlong.2 e' hmem hcov

/-- A lookup keeps the prefixes of the routes. -/
theorem keys_route (f : FibIpv6) (a : Ip6) :
    (fibIpv6Route f a).2.e.map FibEntryIpv6.key = f.e.map FibEntryIpv6.key := by
  obtain hsame | ⟨e, -, -, -, hroute⟩ := route_cases f a
  · rw [hsame]
  · rw [hroute]
    exact Keyed.map_modify _ fun _ => rfl

/-- A registered key is no key of the table. -/
theorem keys_setRetKey (f : FibIpv6) (ref : FibRefIpv6) (ret_key : GwV6) :
    (f.setRetKey ref ret_key).e.map FibEntryIpv6.key = f.e.map FibEntryIpv6.key := by
  cases ref with
  | dflt => rfl
  | entry k => exact Keyed.map_modify _ fun _ => rfl
  | child k addr => exact Keyed.map_modify _ fun _ => rfl

/-- What a route to delete looks like. -/
theorem Built.get (h : f.Built) {addr : Ip6} {len : ℕ}
    (hget : fibIpv6Get f addr len = some (some e)) :
    e.len = len ∧ ∀ c ∈ e.children, c.len = 32 := by
  unfold fibIpv6Get at hget
  split_ifs at hget with h1 h2
  · have he := Option.some_inj.mp hget
    refine ⟨h2 ▸ (h.dflt e he).1, fun c hc => ?_⟩
    rw [h.dfltChild e he] at hc
    exact absurd hc List.not_mem_nil
  · have hfind := Option.some_inj.mp hget
    have hkey : e.hashKey = _ := Keyed.key_of_find hfind
    exact ⟨congrArg Prod.fst hkey, h.childLen e (Keyed.mem_of_find hfind)⟩

end FibIpv6

/-! ### The indices of gateways -/

namespace Router

variable {env : RouteEnv} {s : Router} {gw ret_key : GwV6} {is_def : Bool} {re : ReIpv6} {i : ℤ}

/-- An index of a valid gateway. -/
def IndexV6 (s : Router) (i : ℤ) : Prop := i ∈ s.ret_ipv6.filterMap ReIpv6.index

/-- A change that keeps the index of a gateway keeps the indices in use. -/
theorem indexV6_modifyGwV6 {f : ReIpv6 → ReIpv6} (hf : ∀ re, (f re).index = re.index) :
    (s.modifyGwV6 gw f).IndexV6 i ↔ s.IndexV6 i := by
  unfold IndexV6 modifyGwV6
  rw [Keyed.filterMap_modify ReIpv6.index hf]

/-- An index that is in use after a gateway was added was so before. -/
theorem indexV6_retIpv6Add (h : (s.retIpv6Add env gw is_def ret_key).2.2.IndexV6 i) :
    s.IndexV6 i := by
  unfold retIpv6Add at h
  cases hf : s.findGwV6 gw with
  | none =>
    rw [hf] at h
    dsimp only at h
    split_ifs at h
    · exact h
    · exact h
  | some re =>
    rw [hf] at h
    have hbump : (if ret_key.vid = 0 then
        s.modifyGwV6 gw fun re => { re with refc := re.refc + 1 } else s).IndexV6 i ↔
          s.IndexV6 i := by
      split_ifs
      · exact indexV6_modifyGwV6 fun _ => rfl
      · exact Iff.rfl
    dsimp only at h
    rw [← hbump]
    cases is_def with
    | false => exact h
    | true =>
      obtain ⟨u, hu⟩ := claimDefault_eq env (if ret_key.vid = 0 then
        s.modifyGwV6 gw fun re => { re with refc := re.refc + 1 } else s) gw re
      rw [if_pos rfl, hu] at h
      exact (indexV6_modifyGwV6 (f := fun re => { re with is_def := true }) fun _ => rfl).mp h

/-- The index that `ret_ipv6_add` returns for a valid gateway. -/
theorem retIpv6Add_valid (h : (s.retIpv6Add env gw is_def ret_key).2.2.findGwV6 gw = some re)
    (hv : re.valid = true) :
    (s.retIpv6Add env gw is_def ret_key).1 = re.idx ∧ s.IndexV6 re.idx := by
  have hidx : (s.retIpv6Add env gw is_def ret_key).2.2.IndexV6 re.idx :=
    List.mem_filterMap.mpr ⟨re, Keyed.mem_of_find h, if_pos hv⟩
  refine ⟨?_, indexV6_retIpv6Add hidx⟩
  unfold retIpv6Add at h ⊢
  cases hf : s.findGwV6 gw with
  | none =>
    rw [hf] at h
    dsimp only at h
    split_ifs at h
    · exact absurd (hf.symm.trans h) (Option.some_ne_none re).symm
    · rw [findGwV6, Keyed.find_cons, if_pos rfl] at h
      rw [← Option.some_inj.mp h] at hv
      exact absurd hv Bool.false_ne_true
  | some re₀ =>
    rw [hf] at h
    have hbump : ∃ re₁, (if ret_key.vid = 0 then
        s.modifyGwV6 gw fun re => { re with refc := re.refc + 1 } else s).findGwV6 gw = some re₁ ∧
          re₁.valid = re₀.valid ∧ re₁.idx = re₀.idx := by
      split_ifs
      · exact ⟨_, findGwV6_modifyGwV6 (fun _ => rfl) hf, rfl, rfl⟩
      · exact ⟨_, hf, rfl, rfl⟩
    obtain ⟨re₁, hf₁, hv₁, hidx₁⟩ := hbump
    have hfound : re.valid = re₀.valid ∧ re.idx = re₀.idx := by
      dsimp only at h
      cases is_def with
      | false =>
        rw [if_neg Bool.false_ne_true, hf₁] at h
        rw [← Option.some_inj.mp h]
        exact ⟨hv₁, hidx₁⟩
      | true =>
        obtain ⟨u, hu⟩ := claimDefault_eq env (if ret_key.vid = 0 then
          s.modifyGwV6 gw fun re => { re with refc := re.refc + 1 } else s) gw re₀
        have hf₂ := findGwV6_modifyGwV6 (f := fun re => { re with is_def := true })
            (fun _ => rfl) hf₁
        rw [if_pos rfl, hu] at h
        rw [← Option.some_inj.mp (hf₂.symm.trans h)]
        exact ⟨hv₁, hidx₁⟩
    exact (if_pos (hfound.1.symm.trans hv)).trans hfound.2.symm

/-- An index that is in use after a gateway was let go was so before. -/
theorem indexV6_retIpv6Unref (h : (s.retIpv6Unref gw is_def).2.IndexV6 i) : s.IndexV6 i := by
  unfold retIpv6Unref at h
  cases hf : s.findGwV6 gw with
  | none =>
    rw [hf] at h
    exact h
  | some re =>
    rw [hf] at h
    have hreset : (if is_def = true then s.resetDefault gw re else s).IndexV6 i ↔ s.IndexV6 i := by
      split_ifs
      · obtain ⟨u, hu⟩ := resetDefault_eq s gw re
        rw [hu]
        exact indexV6_modifyGwV6 (f := fun re => { re with is_def := false }) fun _ => rfl
      · exact Iff.rfl
    have hless (s' : Router) (h : (s'.modifyGwV6 gw fun re =>
        { re with refc := re.refc - 1 }).IndexV6 i) : s'.IndexV6 i :=
      (indexV6_modifyGwV6 (f := fun re => { re with refc := re.refc - 1 }) fun _ => rfl).mp h
    have hdel (s' : Router) (h : (s'.deleteGwV6 gw re).IndexV6 i) : s'.IndexV6 i := by
      unfold deleteGwV6 at h
      dsimp only at h
      obtain ⟨x, hx, hi⟩ :
        ∃ x ∈ Keyed.del (fun re : ReIpv6 => re.gw.hashKey) s'.ret_ipv6 gw.hashKey,
          x.index = some i := by
        split_ifs at h
        · exact List.mem_filterMap.mp h
        · exact List.mem_filterMap.mp h
      exact List.mem_filterMap.mpr ⟨x, Keyed.mem_of_mem_del hx, hi⟩
    dsimp only at h
    by_cases hlast : re.refc - 1 = 0
    · rw [if_pos hlast] at h
      exact hreset.mp (hless _ (hdel _ h))
    · rw [if_neg hlast] at h
      exact hreset.mp (hless _ h)

/-- An answer of the client gives a regular index. -/
theorem indexV6_retIpv6SetMacAddr {addr : Mac} {vif_id : ℕ} {arpOk reOk : Bool}
    (h : (s.retIpv6SetMacAddr env gw addr vif_id arpOk reOk).2.IndexV6 i) :
    s.IndexV6 i ∨ FIRST_REGULAR_RE_IDX ≤ i := by
  obtain ⟨f, -, hret, -, -, hcases⟩ := retIpv6SetMacAddr_cases env s gw addr vif_id arpOk reOk
  unfold IndexV6 at h
  rw [hret] at h
  rcases hcases with ⟨hidx, -, -⟩ | ⟨idx, hreg, hidx, -⟩
  · rw [Keyed.filterMap_modify ReIpv6.index hidx] at h
    exact .inl h
  · obtain ⟨x, hx, hi⟩ := List.mem_filterMap.mp h
    rcases Keyed.mem_modify_iff.mp hx with ⟨re, -, -, rfl⟩ | ⟨hx, -⟩
    · rw [hidx] at hi
      exact .inr (Option.some_inj.mp hi ▸ hreg)
    · exact .inl (List.mem_filterMap.mpr ⟨x, hx, hi⟩)

end Router

/-! ### Runs -/

namespace Ipv6Routing

/-- What holds in every run: the FIB is built by its calls, and valid gateways have regular
indices. -/
structure Sound (t : Ipv6Routing) : Prop where
  fib : t.uc.fib_ipv6.Built
  regular : ∀ i, t.uc.IndexV6 i → FIRST_REGULAR_RE_IDX ≤ i

variable {env : RouteEnv} {t t' : Ipv6Routing} {gw : GwV6} {p : ℕ × Ip6}

/-- What deleting a route or a child changes. -/
theorem routeDelFibIpv6Entry_spec (t : Ipv6Routing) (n : FibNodeIpv6) :
    (t.routeDelFibIpv6Entry n).uc.fib_ipv6 = t.uc.fib_ipv6 ∧
      (∀ i, (t.routeDelFibIpv6Entry n).uc.IndexV6 i → t.uc.IndexV6 i) ∧
      (t.routeDelFibIpv6Entry n).uc.lpmIpv6 =
        if n.len ≠ 0 then update t.uc.lpmIpv6 n.routePfx.lpmKey none else t.uc.lpmIpv6 := by
  have hunreg (t' : Ipv6Routing) (hfib : t'.uc.fib_ipv6 = t.uc.fib_ipv6)
      (hret : t'.uc.ret_ipv6 = t.uc.ret_ipv6) :
      (t'.routeIpv6Unregister n.routePfx n.gwV6).uc.fib_ipv6 = t.uc.fib_ipv6 ∧
        (∀ i, (t'.routeIpv6Unregister n.routePfx n.gwV6).uc.IndexV6 i → t.uc.IndexV6 i) ∧
        (t'.routeIpv6Unregister n.routePfx n.gwV6).uc.lpmIpv6 = t'.uc.lpmIpv6 := by
    have hindex (i : ℤ) (h : t'.uc.IndexV6 i) : t.uc.IndexV6 i := by
      unfold Router.IndexV6 at h ⊢
      rw [← hret]
      exact h
    obtain ⟨p, heq | heq⟩ := t'.uc_routeIpv6Unregister_eq n.gwV6 n.routePfx
    · rw [heq]
      exact ⟨hfib, hindex, rfl⟩
    · obtain ⟨u, v, c, i, m, hunref⟩ := Router.retIpv6Unref_eq t'.uc n.gwV6 (n.routePfx.alen = 0)
      rw [heq]
      refine ⟨?_, fun i hi => hindex i (Router.indexV6_retIpv6Unref hi), ?_⟩
      · have hsame := congrArg Router.fib_ipv6 hunref
        exact hsame.trans hfib
      · have hsame := congrArg Router.lpmIpv6 hunref
        exact hsame
  unfold routeDelFibIpv6Entry
  by_cases hlen : n.len ≠ 0
  · rw [if_pos hlen, if_pos hlen]
    exact hunreg _ rfl rfl
  · rw [if_neg hlen, if_neg hlen]
    exact hunreg t rfl rfl

/-- The children of an entry are deleted one after the other. -/
theorem Sound.foldl_del (h : t.Sound) (ns : List FibNodeIpv6) :
    (ns.foldl routeDelFibIpv6Entry t).Sound := by
  induction ns generalizing t with
  | nil => exact h
  | cons n ns ih =>
    obtain ⟨hfib, hindex, -⟩ := t.routeDelFibIpv6Entry_spec n
    exact ih ⟨hfib ▸ h.fib, fun i hi => h.regular i (hindex i hi)⟩

/-- What a request does to the indices and the LPM. -/
theorem routeIpv6RequestMacAddr_spec (env : RouteEnv) (t : Ipv6Routing) (gw ret_key : GwV6)
    (pfx : RoutePfxV6) : ∃ ix,
      (t.routeIpv6RequestMacAddr env gw pfx ret_key).2.uc.fib_ipv6 = t.uc.fib_ipv6 ∧
      (∀ i, (t.routeIpv6RequestMacAddr env gw pfx ret_key).2.uc.IndexV6 i → t.uc.IndexV6 i) ∧
      (t.routeIpv6RequestMacAddr env gw pfx ret_key).2.uc.pfxs_ipv6_by_gw =
        t.uc.pfxs_ipv6_by_gw ∧
      (t.routeIpv6RequestMacAddr env gw pfx ret_key).2.uc.lpmIpv6 =
        (if 0 ≤ ix ∧ pfx.alen ≠ 0 then update t.uc.lpmIpv6 pfx.lpmKey (some ⟨ix, 0⟩)
          else t.uc.lpmIpv6) ∧
      ∀ re, (t.routeIpv6RequestMacAddr env gw pfx ret_key).2.uc.findGwV6 gw = some re →
        re.valid = true → ix = re.idx ∧ t.uc.IndexV6 re.idx := by
  obtain ⟨u, v, c, heq⟩ := Router.retIpv6Add_eq env t.uc gw ret_key (pfx.alen = 0)
  have hfib := congrArg Router.fib_ipv6 heq
  have hpfxs := congrArg Router.pfxs_ipv6_by_gw heq
  have hlpm := congrArg Router.lpmIpv6 heq
  refine ⟨(t.uc.retIpv6Add env gw (pfx.alen = 0) ret_key).1, ?_⟩
  rw [uc_routeIpv6RequestMacAddr]
  split_ifs
  · exact ⟨hfib, fun i hi => Router.indexV6_retIpv6Add hi, hpfxs,
      congrArg (update · pfx.lpmKey _) hlpm, fun re hre hv => Router.retIpv6Add_valid hre hv⟩
  · exact ⟨hfib, fun i hi => Router.indexV6_retIpv6Add hi, hpfxs, hlpm,
      fun re hre hv => Router.retIpv6Add_valid hre hv⟩

/-- What a packet does to the FIB, the indices and the LPM. -/
theorem routeHandleIpv6Udaddr_spec (env : RouteEnv) (t : Ipv6Routing) {daddr : Ip6}
    {ref : FibRefIpv6} {e : FibNodeIpv6} {f : FibIpv6}
    (hroute : fibIpv6Route t.uc.fib_ipv6 daddr = (some (ref, e), f)) :
    ∃ ix, (∃ ret_key,
        (t.routeHandleIpv6Udaddr env daddr).uc.fib_ipv6 = f.setRetKey ref ret_key) ∧
      (∀ i, (t.routeHandleIpv6Udaddr env daddr).uc.IndexV6 i → t.uc.IndexV6 i) ∧
      (t.routeHandleIpv6Udaddr env daddr).uc.pfxs_ipv6_by_gw =
        (t.uc.routeIpv6Register e.udPrefix (e.gateway daddr)).pfxs_ipv6_by_gw ∧
      (t.routeHandleIpv6Udaddr env daddr).uc.lpmIpv6 = (if 0 ≤ ix ∧ e.udPrefix.alen ≠ 0 then
        update t.uc.lpmIpv6 e.udPrefix.lpmKey (some ⟨ix, 0⟩) else t.uc.lpmIpv6) ∧
      ∀ re, (t.routeHandleIpv6Udaddr env daddr).uc.findGwV6 (e.gateway daddr) = some re →
        re.valid = true → ix = re.idx ∧ t.uc.IndexV6 re.idx := by
  obtain ⟨p, hp⟩ := (t.setFib f).uc.routeIpv6Register_eq e.udPrefix (e.gateway daddr)
  have hpfxs : p = (t.uc.routeIpv6Register e.udPrefix (e.gateway daddr)).pfxs_ipv6_by_gw := by
    refine (congrArg Router.pfxs_ipv6_by_gw hp).symm.trans ?_
    unfold Router.routeIpv6Register
    have hfinds : (t.setFib f).uc.findPfxsByGw (e.gateway daddr) =
      t.uc.findPfxsByGw (e.gateway daddr) := rfl
    rw [hfinds]
    cases t.uc.findPfxsByGw (e.gateway daddr) with
    | none => rfl
    | some pbg =>
      dsimp only
      split_ifs
      · rfl
      · rfl
  unfold routeHandleIpv6Udaddr
  rw [hroute]
  dsimp only
  rw [hp, hpfxs]
  obtain ⟨ix, hfib, hindex, hreg, hlpm, hvalid⟩ := routeIpv6RequestMacAddr_spec env
    ⟨{ (t.setFib f).uc with pfxs_ipv6_by_gw :=
      (t.uc.routeIpv6Register e.udPrefix (e.gateway daddr)).pfxs_ipv6_by_gw }, (t.setFib f).sent⟩
    (e.gateway daddr) e.ret_key e.udPrefix
  exact ⟨ix, ⟨_, congrArg (FibIpv6.setRetKey · ref _) hfib⟩, hindex, hreg, hlpm, hvalid⟩

/-- The router is sound in the beginning. -/
theorem Sound.init (uc : Router) : (Ipv6Routing.init uc).Sound :=
  ⟨.empty, fun _ hi => absurd hi List.not_mem_nil⟩

/-- **Step.** An unresolved destination keeps the router sound. -/
theorem Sound.udaddr (h : t.Sound) (env : RouteEnv) (daddr : Ip6) :
    (t.routeHandleIpv6Udaddr env daddr).Sound := by
  cases hroute : fibIpv6Route t.uc.fib_ipv6 daddr with
  | mk found f =>
  cases found with
  | none =>
    unfold routeHandleIpv6Udaddr
    rw [hroute]
    exact h
  | some r =>
    obtain ⟨ix, ⟨ret_key, hfib⟩, hindex, -⟩ := routeHandleIpv6Udaddr_spec env t hroute
    have hf : f = (fibIpv6Route t.uc.fib_ipv6 daddr).2 := by rw [hroute]
    refine ⟨?_, fun i hi => h.regular i (hindex i hi)⟩
    rw [hfib, hf]
    exact (h.fib.route daddr).setRetKey r.1 ret_key

/-- **Step.** A MAC address keeps the router sound. -/
theorem Sound.setMacAddr (h : t.Sound) (env : RouteEnv) (gw : GwV6) (addr : Mac) (vif_id : ℕ)
    (arpOk reOk : Bool) : (t.retIpv6SetMacAddr env gw addr vif_id arpOk reOk).2.Sound := by
  obtain ⟨-, -, -, -, hfib, -⟩ :=
    Router.retIpv6SetMacAddr_cases env t.uc gw addr vif_id arpOk reOk
  refine ⟨?_, fun i hi => (Router.indexV6_retIpv6SetMacAddr hi).elim (h.regular i) id⟩
  have hfib : (t.retIpv6SetMacAddr env gw addr vif_id arpOk reOk).2.uc.fib_ipv6 = t.uc.fib_ipv6 :=
    hfib
  rw [hfib]
  exact h.fib

/-- **Step.** Every call keeps the router sound. -/
theorem Sound.step (h : t.Sound) {op : Ipv6Op} (hs : t.step env op = some t') : t'.Sound := by
  cases op with
  | add addr alen vid gw =>
    obtain ⟨f, hf, rfl⟩ := Option.map_eq_some_iff.mp hs
    dsimp only
    split_ifs
    · exact ⟨h.fib.add hf, h.regular⟩
    · exact ⟨h.fib.add hf, h.regular⟩
  | del addr alen =>
    obtain ⟨⟨e?, f⟩, hdel, rfl⟩ := Option.map_eq_some_iff.mp hs
    cases e? with
    | none => exact h
    | some e =>
      obtain ⟨x, -, heq⟩ := Option.map_eq_some_iff.mp hdel
      have hf : f = t.uc.fib_ipv6.remove e := by
        cases x with
        | none => exact absurd (Prod.mk.inj heq).1.symm (Option.some_ne_none e)
        | some x =>
          obtain ⟨hx, hf⟩ := Prod.mk.inj heq
          rw [← hf, Option.some_inj.mp hx]
      have hset : (t.setFib f).Sound := ⟨hf ▸ h.fib.remove e, h.regular⟩
      exact hset.foldl_del e.nodes
  | udaddr daddr =>
    obtain rfl := Option.some_inj.mp hs
    exact h.udaddr env daddr
  | setMacAddr gw addr vif_id arpOk reOk =>
    obtain rfl := Option.some_inj.mp hs
    exact h.setMacAddr env gw addr vif_id arpOk reOk
  | others uc =>
    obtain rfl := Option.some_inj.mp hs
    exact ⟨h.fib, h.regular⟩

/-- The router is sound in every run. -/
theorem Sound.of_reach {uc : Router}
    (hr : Guarded.Reach (Ipv6Routing.step env) (fun _ _ => True) (.init uc) t) : t.Sound :=
  hr.invariant Sound (Sound.init uc) fun _ _ _ h _ hs => h.step hs

/-! ### What is installed -/

/-- The LPM sends a prefix to the route entry of a gateway. -/
def Installed (t : Ipv6Routing) (p : ℕ × Ip6) : Prop :=
  ∃ i, FIRST_REGULAR_RE_IDX ≤ i ∧ t.uc.lpmIpv6 p = some ⟨i, 0⟩

/-- In `t'` a prefix is installed that the lookup of `a` in `t` registers. -/
def InstalledFor (t t' : Ipv6Routing) (a : Ip6) (p : ℕ × Ip6) : Prop :=
  (∃ r ∈ (fibIpv6Route t.uc.fib_ipv6 a).1, r.2.udPrefix.lpmKey = p) ∧ t'.Installed p

/-- In `t'`, after the packet to `a` in `t` and the answer of the client, `a/128` is the only prefix
that is installed because of `a`, and deleting the connected route `k` removes what is installed. -/
def HostOnly (t t' : Ipv6Routing) (a : Ip6) (k : ℕ × Ip6) : Prop :=
  (∀ p, InstalledFor t t' a p ↔ p = (128, a)) ∧
    ∀ t'', t'.routeDelV6 k.2 k.1 = some t'' → ∀ p, InstalledFor t t' a p → t''.uc.lpmIpv6 p = none

/-- The prefix that a lookup registers is installed when the client has answered. -/
theorem Sound.installed (h : t.Sound) {a : Ip6} {ref : FibRefIpv6} {e : FibNodeIpv6} {f : FibIpv6}
    (hroute : fibIpv6Route t.uc.fib_ipv6 a = (some (ref, e), f)) (hlen : e.udPrefix.alen ≠ 0)
    (addr : Mac) (vif_id : ℕ) (arpOk reOk : Bool)
    (hst : ((t.routeHandleIpv6Udaddr env a).retIpv6SetMacAddr env (e.gateway a) addr vif_id arpOk
      reOk).1 = .ST_OK) :
    Installed ((t.routeHandleIpv6Udaddr env a).retIpv6SetMacAddr env (e.gateway a) addr vif_id arpOk
      reOk).2 e.udPrefix.lpmKey := by
  obtain ⟨ix, -, -, hpfxs, hlpm, hvalid⟩ := routeHandleIpv6Udaddr_spec env t hroute
  have hinst : (t.routeHandleIpv6Udaddr env a).uc.InstallsAt (e.gateway a) e.udPrefix.lpmKey :=
    (Router.installsAt_congr hpfxs).mpr
      (t.uc.installsAt_routeIpv6Register (e.gateway a) hlen)
  obtain ⟨g, -, -, -, -, hcases⟩ := Router.retIpv6SetMacAddr_cases env
    (t.routeHandleIpv6Udaddr env a).uc (e.gateway a) addr vif_id arpOk reOk
  rcases hcases with ⟨-, hsame, hok⟩ | ⟨idx, hreg, -, hkey⟩
  · obtain ⟨re, hre, hv⟩ := hok hst
    obtain ⟨rfl, hidx⟩ := hvalid re hre hv
    have hreg := h.regular _ hidx
    refine ⟨re.idx, hreg, ?_⟩
    have hpos : (0 : ℤ) ≤ re.idx := by
      unfold FIRST_REGULAR_RE_IDX at hreg
      omega
    rw [if_pos ⟨hpos, hlen⟩] at hlpm
    refine (congrFun hsame _).trans ?_
    rw [hlpm, update_self]
  · exact ⟨idx, hreg, (hkey _).1 hinst⟩

/-- Deleting routes and children one by one removes their prefixes from the LPM. -/
theorem lpmIpv6_foldl_del (ns : List FibNodeIpv6) (t : Ipv6Routing) (p : ℕ × Ip6) :
    ((∃ n ∈ ns, n.len ≠ 0 ∧ n.routePfx.lpmKey = p) ∨ t.uc.lpmIpv6 p = none →
      (ns.foldl routeDelFibIpv6Entry t).uc.lpmIpv6 p = none) ∧
    ((∀ n ∈ ns, n.routePfx.lpmKey ≠ p) →
      (ns.foldl routeDelFibIpv6Entry t).uc.lpmIpv6 p = t.uc.lpmIpv6 p) := by
  induction ns generalizing t with
  | nil => exact ⟨fun h => h.resolve_left (by simp), fun _ => rfl⟩
  | cons n ns ih =>
    rw [List.foldl_cons]
    obtain ⟨hin, hout⟩ := ih (t.routeDelFibIpv6Entry n)
    have hlpm := (t.routeDelFibIpv6Entry_spec n).2.2
    constructor
    · rintro (hex | hnone)
      · rcases (List.exists_mem_cons_iff _ _ _).mp hex with ⟨hlen, hkey⟩ | hex
        · refine hin (.inr ?_)
          rw [hlpm, if_pos hlen, ← hkey, update_self]
        · exact hin (.inl hex)
      · refine hin (.inr ?_)
        rw [hlpm]
        split_ifs
        · by_cases hkey : p = n.routePfx.lpmKey
          · rw [hkey, update_self]
          · rw [update_of_ne hkey, hnone]
        · exact hnone
    · intro hno
      obtain ⟨hn, hns⟩ := List.forall_mem_cons.mp hno
      rw [hout hns, hlpm]
      split_ifs
      · exact update_of_ne (Ne.symm hn) _ _
      · rfl

/-- Deleting a route of another length keeps the prefixes of length 128. -/
theorem Sound.lpmIpv6_routeDelV6 (h : t.Sound) {addr : Ip6} {len : ℕ} (hlen : len ≠ 128)
    (hdel : t.routeDelV6 addr len = some t') (a : Ip6) :
    t'.uc.lpmIpv6 (128, a) = t.uc.lpmIpv6 (128, a) := by
  obtain ⟨r, hr, rfl⟩ := Option.map_eq_some_iff.mp hdel
  obtain ⟨e?, hget, rfl⟩ := Option.map_eq_some_iff.mp hr
  cases e? with
  | none => rfl
  | some e =>
    obtain ⟨he, hc⟩ := h.fib.get hget
    refine (lpmIpv6_foldl_del e.nodes _ (128, a)).2 fun n hn hkey => ?_
    have hn128 : n.len = 128 := (Prod.mk.inj hkey).1
    rcases List.mem_cons.mp hn with rfl | hn
    · exact hlen (he.symm.trans hn128)
    · exact absurd ((hc n hn).symm.trans hn128) (by decide)

/-- Deleting the route of an address removes its prefix. -/
theorem Sound.lpmIpv6_routeDelV6_self (h : t.Sound) {a : Ip6}
    (he : (128, a) ∈ t.uc.fib_ipv6.e.map FibEntryIpv6.key)
    (hdel : t.routeDelV6 a 128 = some t') : t'.uc.lpmIpv6 (128, a) = none := by
  obtain ⟨e, hmem, hkey⟩ := List.mem_map.mp he
  obtain ⟨hlen, haddr⟩ := Prod.mk.inj hkey
  have hpfx : e.pfx = a := by
    have hm := h.fib.masked e hmem
    rw [hlen, maskedIpv6_all] at hm
    rw [← hm, haddr]
  have hget : fibIpv6Get t.uc.fib_ipv6 a 128 = some (some e) := by
    have hfind : t.uc.fib_ipv6.hashFind (128, a) = some e :=
      h.fib.unique.find_eq_some_iff.mpr ⟨hmem, by rw [FibEntryIpv6.hashKey, hlen, haddr]⟩
    unfold fibIpv6Get
    rw [if_neg (by decide), if_neg (by decide), maskedIpv6_all, hfind]
  unfold routeDelV6 fibIpv6Del at hdel
  rw [hget] at hdel
  obtain rfl := Option.some_inj.mp hdel
  refine (lpmIpv6_foldl_del e.nodes _ (128, a)).1
    (.inl ⟨e.toFibNodeIpv6, List.mem_cons_self, ?_, ?_⟩)
  · rw [hlen]
    decide
  · rw [FibNodeIpv6.routePfx, RoutePfxV6.lpmKey, hlen, hpfx]
    exact Prod.ext rfl (by simp [Router.mkmaskIpv6])

variable {uc : Router} {a : Ip6} {k : ℕ × Ip6} {st : StoredIpv6} {addr : Mac} {vif_id : ℕ}
  {arpOk reOk : Bool}

/-- A packet and an answer of the client change the LPM at prefixes that were registered with the
gateway before, and at the one that the lookup registers. -/
theorem lpmIpv6_ne (env : RouteEnv) (t : Ipv6Routing) (a : Ip6) (gw : GwV6) (addr : Mac)
    (vif_id : ℕ) (arpOk reOk : Bool) (p : ℕ × Ip6)
    (hne : ((t.routeHandleIpv6Udaddr env a).retIpv6SetMacAddr env gw addr vif_id arpOk
      reOk).2.uc.lpmIpv6 p ≠ t.uc.lpmIpv6 p) :
    t.uc.InstallsAt gw p ∨ ∃ r ∈ (fibIpv6Route t.uc.fib_ipv6 a).1, r.2.udPrefix.lpmKey = p := by
  have hud : (∀ gw, (t.routeHandleIpv6Udaddr env a).uc.InstallsAt gw p → t.uc.InstallsAt gw p ∨
        ∃ r ∈ (fibIpv6Route t.uc.fib_ipv6 a).1, r.2.udPrefix.lpmKey = p) ∧
      ((t.routeHandleIpv6Udaddr env a).uc.lpmIpv6 p ≠ t.uc.lpmIpv6 p →
        ∃ r ∈ (fibIpv6Route t.uc.fib_ipv6 a).1, r.2.udPrefix.lpmKey = p) := by
    cases hroute : fibIpv6Route t.uc.fib_ipv6 a with
    | mk found f =>
    cases found with
    | none =>
      have hsame : t.routeHandleIpv6Udaddr env a = t := by
        unfold routeHandleIpv6Udaddr
        rw [hroute]
      rw [hsame]
      exact ⟨fun gw h => .inl h, fun h => absurd rfl h⟩
    | some r =>
      obtain ⟨ix, -, -, hpfxs, hlpm, -⟩ := routeHandleIpv6Udaddr_spec env t hroute
      refine ⟨fun gw h => ?_, fun h => ⟨r, rfl, ?_⟩⟩
      · exact (Router.of_installsAt_routeIpv6Register
          ((Router.installsAt_congr hpfxs).mp h)).imp_right
          fun hkey => ⟨r, rfl, hkey⟩
      · by_contra hkey
        rw [hlpm] at h
        split_ifs at h
        · exact h (update_of_ne (Ne.symm hkey) _ _)
        · exact h rfl
  obtain ⟨g, -, -, -, -, hcases⟩ := Router.retIpv6SetMacAddr_cases env
    (t.routeHandleIpv6Udaddr env a).uc gw addr vif_id arpOk reOk
  rcases hcases with ⟨-, hsame, -⟩ | ⟨idx, -, -, hkey⟩
  · exact .inr (hud.2 fun h => hne ((congrFun hsame p).trans h))
  · by_cases hinst : (t.routeHandleIpv6Udaddr env a).uc.InstallsAt gw p
    · exact hud.1 gw hinst
    · exact .inr (hud.2 fun h => hne (((hkey p).2 hinst).trans h))

/-- For an address whose longest prefix is connected, after its packet and the answer of the client:
the LPM has changed only at prefixes that were registered with the address as their gateway before,
and at that of the lookup; and `a/128` is the only prefix installed because of `a`, and goes with
the connected route, exactly for the unspecified address, when it is a connected route itself. -/
theorem host_only_iff (hr : Guarded.Reach (Ipv6Routing.step env) (fun _ _ => True) (.init uc) t)
    (hlong : Longest maskedIpv6 t.uc.fib_ipv6.stored a k) (hst : t.uc.fib_ipv6.stored k = some st)
    (hgw : st.gw = 0)
    (hok : ((t.routeHandleIpv6Udaddr env a).retIpv6SetMacAddr env ⟨a, st.vid⟩ addr vif_id arpOk
      reOk).1 = .ST_OK) :
    (∀ p, ((t.routeHandleIpv6Udaddr env a).retIpv6SetMacAddr env ⟨a, st.vid⟩ addr vif_id arpOk
        reOk).2.uc.lpmIpv6 p ≠ t.uc.lpmIpv6 p → t.uc.InstallsAt ⟨a, st.vid⟩ p ∨
          ∃ r ∈ (fibIpv6Route t.uc.fib_ipv6 a).1, r.2.udPrefix.lpmKey = p) ∧
      (HostOnly t ((t.routeHandleIpv6Udaddr env a).retIpv6SetMacAddr env ⟨a, st.vid⟩ addr vif_id
        arpOk reOk).2 a k ↔ t.uc.fib_ipv6.HostIsUnspecified a k) := by
  have h := Sound.of_reach hr
  have h' : Sound ((t.routeHandleIpv6Udaddr env a).retIpv6SetMacAddr env
      ⟨a, st.vid⟩ addr vif_id arpOk
    reOk).2 := (h.udaddr env a).setMacAddr env _ addr vif_id arpOk reOk
  refine ⟨lpmIpv6_ne env t a _ addr vif_id arpOk reOk, fun ⟨honly, hgone⟩ => ?_, fun hcond => ?_⟩
  · -- if only the host is installed, the host has the key of the entry
    have hself := (honly (128, a)).mpr rfl
    obtain ⟨⟨r, hroute, hkey⟩, i, -, hlpm⟩ := hself
    obtain ⟨ha, hchild⟩ := h.fib.udPrefix_host hlong hst hgw hroute hkey
    refine ⟨ha, ?_, hchild⟩
    subst ha
    have hcov : maskedIpv6 k.1 0 = k.2 := hlong.covers
    have hzero : k.2 = 0 := by
      rw [← hcov]
      exact BitVec.zero_and
    by_contra hk
    have hlen : k.1 ≠ 128 := fun hlen => hk (Prod.ext hlen hzero)
    have hle : k.1 ≤ 128 := h.fib.len_le ((FibIpv6.isSome_entryAt _ k).trans (by rw [hst]; rfl))
    obtain ⟨t'', hdel⟩ : ∃ t'', routeDelV6 ((t.routeHandleIpv6Udaddr env 0).retIpv6SetMacAddr env
        ⟨0, st.vid⟩ addr vif_id arpOk reOk).2 k.2 k.1 = some t'' := by
      unfold routeDelV6 fibIpv6Del fibIpv6Get
      rw [if_neg (not_lt.mpr hle)]
      split_ifs
      · exact ⟨_, rfl⟩
      · exact ⟨_, rfl⟩
    have hnone := hgone t'' hdel (128, 0) ((honly (128, 0)).mpr rfl)
    rw [h'.lpmIpv6_routeDelV6 hlen hdel, hlpm] at hnone
    exact Option.some_ne_none _ hnone
  · -- where the host has that key, what is installed for it goes with the route
    obtain ⟨r, hroute, hpfx, hgate⟩ := h.fib.udPrefix_unspecified hcond hst hgw
    obtain ⟨rfl, rfl, -⟩ := hcond
    have hkey : r.2.udPrefix.lpmKey = (128, 0) := by
      rw [hpfx]
      exact Prod.ext rfl (by decide)
    cases hfound : fibIpv6Route t.uc.fib_ipv6 0 with
    | mk found f =>
    rw [hfound] at hroute
    obtain rfl : found = some r := hroute
    have hinst := h.installed hfound (by rw [hpfx]; decide) addr vif_id arpOk reOk
      (by rw [hgate]; exact hok)
    rw [hkey, hgate] at hinst
    refine ⟨fun p => ⟨?_, ?_⟩, fun t'' hdel p hp => ?_⟩
    · rintro ⟨⟨x, hx, rfl⟩, -⟩
      rw [hfound] at hx
      rw [← Option.some_inj.mp hx, hkey]
    · rintro rfl
      exact ⟨⟨r, by rw [hfound]; rfl, hkey⟩, hinst⟩
    · -- the route that is deleted is the one of the host
      obtain ⟨⟨x, hx, rfl⟩, -⟩ := hp
      rw [hfound] at hx
      rw [← Option.some_inj.mp hx, hkey]
      refine h'.lpmIpv6_routeDelV6_self ?_ hdel
      obtain ⟨-, -, -, -, hfib, -⟩ := Router.retIpv6SetMacAddr_cases env
        (t.routeHandleIpv6Udaddr env 0).uc ⟨0, st.vid⟩ addr vif_id arpOk reOk
      obtain ⟨-, ⟨ret_key, hkeys⟩, -⟩ := routeHandleIpv6Udaddr_spec env t hfound
      have hf : f = (fibIpv6Route t.uc.fib_ipv6 0).2 := by rw [hfound]
      refine (congrArg (fun f : FibIpv6 => (128, 0) ∈ f.e.map FibEntryIpv6.key) hfib).mpr ?_
      rw [hkeys, FibIpv6.keys_setRetKey, hf, FibIpv6.keys_route]
      obtain ⟨e, he, -⟩ := Option.map_eq_some_iff.mp hst
      obtain ⟨hmem, hkey⟩ := h.fib.unique_key.find_eq_some_iff.mp
        ((FibIpv6.entryAt_of_pos (Nat.succ_ne_zero 127)).symm.trans he)
      exact List.mem_map.mpr ⟨e, hmem, hkey⟩

/-- A host of a connected network whose own prefix is not the one installed. -/
theorem host_only_iff_connected : ∃ t t' : Ipv6Routing,
    t' = ((t.routeHandleIpv6Udaddr oneVif 0x20010db8000000010000000000000001).retIpv6SetMacAddr oneVif
      ⟨0x20010db8000000010000000000000001, 7⟩ 1 1 true true).2 ∧
      ¬HostOnly t t' 0x20010db8000000010000000000000001
          (64, 0x20010db8000000010000000000000000) := by
  have hlast : (Guarded.run (Ipv6Routing.step oneVif) (fun _ _ => True) emptyRouting
      [.add 0x20010db8000000010000000000000000 64 7 0]).map (fun t =>
        (t.uc.fib_ipv6.e, ((t.routeHandleIpv6Udaddr oneVif
          0x20010db8000000010000000000000001).retIpv6SetMacAddr oneVif
          ⟨0x20010db8000000010000000000000001, 7⟩ 1 1 true true).1)) =
      some ([⟨⟨0x20010db8000000010000000000000000, 0x20010db8000000010000000000000000, 0, 7, 64,
        ⟨0, 0⟩⟩, []⟩], .ST_OK) := by
    decide +kernel
  obtain ⟨t, hrun, hshown⟩ := Option.map_eq_some_iff.mp hlast
  obtain ⟨he, hok⟩ := Prod.mk.inj hshown
  have hr := Guarded.Reach.init.of_run hrun
  have hfind : t.uc.fib_ipv6.entryAt (64, 0x20010db8000000010000000000000000) = some
      ⟨⟨0x20010db8000000010000000000000000, 0x20010db8000000010000000000000000, 0, 7, 64, ⟨0, 0⟩⟩,
        []⟩ := by
    rw [FibIpv6.entryAt_of_pos (by decide), he]
    decide +kernel
  have hlong := (Sound.of_reach hr).fib.longest_of_longestAt
      (a := 0x20010db8000000010000000000000001)
    hfind (by rw [FibIpv6.LongestAt, he]; decide +kernel)
  refine ⟨t, _, rfl, fun honly => ?_⟩
  have hcond := (host_only_iff hr hlong (congrArg (Option.map _) hfind) rfl hok).2.mp honly
  exact absurd hcond.1 (by decide)

/-- A packet to the host `2001:db8:0:1::1` of a connected route installs `2001:db8::/32`. -/
theorem not_host_only : ∃ t t' : Ipv6Routing,
    Guarded.run (Ipv6Routing.step oneVif) (fun _ _ => True) emptyRouting
      [.add 0x20010db8000000010000000000000000 64 7 0] = some t ∧
      (t.routeHandleIpv6Udaddr oneVif 0x20010db8000000010000000000000001).retIpv6SetMacAddr oneVif
        ⟨0x20010db8000000010000000000000001, 7⟩ 1 1 true true = (.ST_OK, t') ∧
      t'.uc.lpmIpv6 (32, 0x20010db8000000000000000000000000) = some ⟨5, 0⟩ ∧
      ¬HostOnly t t' 0x20010db8000000010000000000000001
          (64, 0x20010db8000000010000000000000000) := by
  have hlast : (Guarded.run (Ipv6Routing.step oneVif) (fun _ _ => True) emptyRouting
      [.add 0x20010db8000000010000000000000000 64 7 0]).map (fun t =>
        let r := (t.routeHandleIpv6Udaddr oneVif 0x20010db8000000010000000000000001).retIpv6SetMacAddr
          oneVif ⟨0x20010db8000000010000000000000001, 7⟩ 1 1 true true
        (r.1, r.2.uc.lpmIpv6 (32, 0x20010db8000000000000000000000000),
          r.2.uc.lpmIpv6 (128, 0x20010db8000000010000000000000001))) =
      some (.ST_OK, some ⟨5, 0⟩, none) := by
    decide +kernel
  obtain ⟨t, hrun, hshown⟩ := Option.map_eq_some_iff.mp hlast
  obtain ⟨hok, hshown⟩ := Prod.mk.inj hshown
  obtain ⟨hwide, hhost⟩ := Prod.mk.inj hshown
  refine ⟨t, _, hrun, Prod.ext hok rfl, hwide, fun honly => ?_⟩
  obtain ⟨-, i, -, hlpm⟩ := (honly.1 (128, 0x20010db8000000010000000000000001)).mpr rfl
  exact Option.some_ne_none _ (hlpm.symm.trans hhost)

end Ipv6Routing

end Presteramgr
