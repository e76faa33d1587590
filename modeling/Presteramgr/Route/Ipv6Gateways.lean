import Mathlib.Data.Finset.Card
import Presteramgr.Ret.NextHops
import Presteramgr.Ret.Ownership
import Presteramgr.Route.Ipv6Steps

/-!
# Gateways of IPv6 routes

The prefixes that are registered with an IPv6 gateway hold references to its entry: it is there, and
its address is asked for, as long as there is such a prefix. The tables are searched by the first
six bytes of a gateway, and a reference is taken when the route has no VLAN in `ret_key`.

## Main definitions

* `Ipv6Prefixes`: prefixes with their gateways;
* `Ipv6Registry`: the tables hold these, with their references and requests;
* `Ipv6Routing.RegisterOk` and `Ipv6Routing.UnregisterOk`: when a call meets no other gateway with
  the same first six bytes, and takes a reference where the prefix is new.

## Main results

* `Ipv6Registry.registerAndRequest` and `Ipv6Registry.unregisterAll`: then a packet registers one
  prefix, and a deletion unregisters those of the route and its hosts.
-/

namespace Presteramgr

/-- Prefixes that are registered, with their gateways. -/
abbrev Ipv6Prefixes := Finset (GwV6 × RoutePfxV6)

/-- The prefixes that are registered with a gateway. -/
def Ipv6Prefixes.count (R : Ipv6Prefixes) (gw : GwV6) : ℕ := (R.filter fun r => r.1 = gw).card

namespace Router

/-- The gateways with their references. -/
def refs (s : Router) : List (GwV6 × ℤ) := s.ret_ipv6.map fun re => (re.gw, re.refc)

end Router

/-- What the hash table of gateways compares. -/
def refKey (r : GwV6 × ℤ) : Ip6 := r.1.hashKey

namespace Router

variable {s : Router} {gw : GwV6} {ret_key : GwV6} {is_def : Bool} {re : ReIpv6}

theorem find_refs (s : Router) (gw : GwV6) :
    Keyed.find refKey s.refs gw.hashKey = (s.findGwV6 gw).map fun re => (re.gw, re.refc) :=
  Keyed.find_map _ fun _ => rfl

/-- A change that keeps the gateway and its references. -/
theorem refs_modifyGwV6 {f : ReIpv6 → ReIpv6}
    (hf : ∀ re, ((f re).gw, (f re).refc) = (re.gw, re.refc)) :
    (s.modifyGwV6 gw f).refs = s.refs :=
  Keyed.map_modify _ hf

/-- What `ret_ipv6_add` does to the references. -/
theorem refs_retIpv6Add (env : RouteEnv) (s : Router) (gw ret_key : GwV6) (is_def : Bool) :
    (s.retIpv6Add env gw is_def ret_key).2.2.refs =
      if (s.findGwV6 gw).isSome then
        if ret_key.vid = 0 then
          Keyed.modify refKey s.refs gw.hashKey fun r => (r.1, r.2 + 1)
        else s.refs
      else if s.re_cnt ≥ MAX_RE then s.refs
      else (gw, 1) :: s.refs := by
  unfold retIpv6Add
  cases hf : s.findGwV6 gw with
  | none =>
    simp only [Option.isSome_none, Bool.false_eq_true, if_false]
    split_ifs
    · rfl
    · rfl
  | some re =>
    have hclaim (s' : Router) : (if is_def = true then s'.claimDefault env gw re else s').refs =
        s'.refs := by
      split_ifs
      · obtain ⟨u, hu⟩ := claimDefault_eq env s' gw re
        rw [hu]
        exact refs_modifyGwV6 fun _ => rfl
      · rfl
    simp only [Option.isSome_some, if_true]
    rw [hclaim]
    split_ifs
    · exact Keyed.modify_map _ (fun _ => rfl) fun _ => rfl
    · rfl

/-- What `ret_ipv6_unref` does to the references. -/
theorem refs_retIpv6Unref (is_def : Bool) (hf : s.findGwV6 gw = some re) :
    (s.retIpv6Unref gw is_def).2.refs =
      if re.refc - 1 = 0 then
        Keyed.del refKey (Keyed.modify refKey s.refs gw.hashKey fun r => (r.1, r.2 - 1)) gw.hashKey
      else Keyed.modify refKey s.refs gw.hashKey fun r => (r.1, r.2 - 1) := by
  have hreset : (if is_def = true then s.resetDefault gw re else s).refs = s.refs := by
    split_ifs
    · obtain ⟨u, hu⟩ := resetDefault_eq s gw re
      rw [hu]
      exact refs_modifyGwV6 fun _ => rfl
    · rfl
  have hmod (s' : Router) : (s'.modifyGwV6 gw fun re => { re with refc := re.refc - 1 }).refs =
      Keyed.modify refKey s'.refs gw.hashKey fun r => (r.1, r.2 - 1) :=
    Keyed.modify_map _ (fun _ => rfl) fun _ => rfl
  have hdel (s' : Router) : (s'.deleteGwV6 gw re).refs = Keyed.del refKey s'.refs gw.hashKey := by
    unfold deleteGwV6
    dsimp only
    split_ifs
    · exact Keyed.del_map _ fun _ => rfl
    · exact Keyed.del_map _ fun _ => rfl
  unfold retIpv6Unref
  rw [hf]
  dsimp only
  by_cases hlast : re.refc - 1 = 0
  · rw [if_pos hlast, if_pos hlast, hdel, hmod, hreset]
  · rw [if_neg hlast, if_neg hlast, hmod, hreset]

/-- An answer of the client changes no reference and no prefix. -/
theorem refs_retIpv6SetMacAddr (env : RouteEnv) (s : Router) (gw : GwV6) (addr : Mac) (vif_id : ℕ)
    (arpOk reOk : Bool) :
    (s.retIpv6SetMacAddr env gw addr vif_id arpOk reOk).2.refs = s.refs ∧
      (s.retIpv6SetMacAddr env gw addr vif_id arpOk reOk).2.pfxs_ipv6_by_gw =
        s.pfxs_ipv6_by_gw := by
  obtain ⟨f, hf, hret, hpfxs, -, -⟩ := retIpv6SetMacAddr_cases env s gw addr vif_id arpOk reOk
  refine ⟨?_, hpfxs⟩
  unfold refs
  rw [hret]
  exact Keyed.map_modify _ hf

end Router

/-! ### The prefixes and the tables -/

/-- The client was asked for an address, and not told to forget it since. -/
def Ipv6Routing.Requested (t : Ipv6Routing) (gw : GwV6) : Prop :=
  (t.sent.find? fun m => m.2 = gw).map Prod.fst = some .IP_ADDR_ADD

/-- The tables hold the prefixes of each gateway, as many references, and a request for its
address. -/
structure Ipv6Registry (t : Ipv6Routing) (R : Ipv6Prefixes) : Prop where
  uniqueRefs : Keyed.Unique refKey t.uc.refs
  uniquePfxs : Keyed.Unique PfxsByGw.hashKey t.uc.pfxs_ipv6_by_gw
  nodup : ∀ pbg ∈ t.uc.pfxs_ipv6_by_gw, pbg.pfxs.Nodup
  ne_nil : ∀ pbg ∈ t.uc.pfxs_ipv6_by_gw, pbg.pfxs ≠ []
  mem : ∀ gw pfx, (gw, pfx) ∈ R ↔
    ∃ pbg ∈ t.uc.pfxs_ipv6_by_gw, pbg.gw = gw ∧ pfx ∈ pbg.pfxs
  refs : ∀ gw c, (gw, c) ∈ t.uc.refs ↔
    ∃ pbg ∈ t.uc.pfxs_ipv6_by_gw, pbg.gw = gw ∧ (pbg.pfxs.length : ℤ) = c
  sent : ∀ gw, t.Requested gw ↔ ∃ pbg ∈ t.uc.pfxs_ipv6_by_gw, pbg.gw = gw

namespace Ipv6Registry

variable {t t' : Ipv6Routing} {R : Ipv6Prefixes} {gw : GwV6} {pfx : RoutePfxV6} {pbg : PfxsByGw}

theorem requested_cons {cmd : NdpdCc} (hsent : t'.sent = (cmd, gw) :: t.sent) (gw' : GwV6) :
    t'.Requested gw' ↔ if gw = gw' then cmd = .IP_ADDR_ADD else t.Requested gw' := by
  unfold Ipv6Routing.Requested
  rw [hsent, List.find?_cons]
  by_cases hgw : gw = gw'
  · simp [hgw]
  · simp [hgw]

theorem requested_congr (hsent : t'.sent = t.sent) (gw' : GwV6) :
    t'.Requested gw' ↔ t.Requested gw' := by
  unfold Ipv6Routing.Requested
  rw [hsent]

variable (h : Ipv6Registry t R)

include h

/-- Nothing else of the state matters. -/
theorem congr (hrefs : t'.uc.refs = t.uc.refs)
    (hpfxs : t'.uc.pfxs_ipv6_by_gw = t.uc.pfxs_ipv6_by_gw) (hsent : t'.sent = t.sent) :
    Ipv6Registry t' R := by
  refine ⟨?_, ?_, ?_, ?_, ?_, ?_, ?_⟩
  · rw [hrefs]
    exact h.uniqueRefs
  · rw [hpfxs]
    exact h.uniquePfxs
  · rw [hpfxs]
    exact h.nodup
  · rw [hpfxs]
    exact h.ne_nil
  · rw [hpfxs]
    exact h.mem
  · rw [hpfxs, hrefs]
    exact h.refs
  · intro gw'
    rw [hpfxs, requested_congr hsent]
    exact h.sent gw'

/-- The references of a gateway are as many as its prefixes. -/
theorem mem_refs (hpbg : pbg ∈ t.uc.pfxs_ipv6_by_gw) :
    (pbg.gw, (pbg.pfxs.length : ℤ)) ∈ t.uc.refs :=
  (h.refs _ _).mpr ⟨pbg, hpbg, rfl, rfl⟩

theorem count_eq_length (hpbg : pbg ∈ t.uc.pfxs_ipv6_by_gw) :
    R.count pbg.gw = pbg.pfxs.length := by
  have himage : R.filter (fun r => r.1 = pbg.gw) = pbg.pfxs.toFinset.image fun pfx =>
    (pbg.gw, pfx) := by
    ext ⟨gw, pfx⟩
    simp only [Finset.mem_filter, Finset.mem_image, List.mem_toFinset, Prod.mk.injEq]
    rw [h.mem]
    constructor
    · rintro ⟨⟨pbg', hpbg', rfl, hpfx⟩, hgw⟩
      have hsame : pbg' = pbg := h.uniquePfxs.eq_of_mem hpbg' hpbg (congrArg GwV6.hashKey hgw)
      exact ⟨pfx, hsame ▸ hpfx, hgw.symm, rfl⟩
    · rintro ⟨pfx, hpfx, rfl, rfl⟩
      exact ⟨⟨pbg, hpbg, rfl, hpfx⟩, rfl⟩
  rw [Ipv6Prefixes.count, himage,
    Finset.card_image_of_injective _ fun x y hxy => (Prod.mk.inj hxy).2,
    List.toFinset_card_of_nodup (h.nodup pbg hpbg)]

/-- The first prefix of a gateway that no other one is taken for. -/
theorem register_new (hnew : ∀ pbg ∈ t.uc.pfxs_ipv6_by_gw, pbg.hashKey ≠ gw.hashKey)
    (hrefs : t'.uc.refs = (gw, 1) :: t.uc.refs)
    (hpfxs : t'.uc.pfxs_ipv6_by_gw = ⟨gw, [pfx]⟩ :: t.uc.pfxs_ipv6_by_gw)
    (hsent : t'.sent = (.IP_ADDR_ADD, gw) :: t.sent) : Ipv6Registry t' (insert (gw, pfx) R) := by
  refine ⟨?_, ?_, ?_, ?_, ?_, ?_, ?_⟩
  · rw [hrefs]
    refine h.uniqueRefs.cons fun r hr => ?_
    obtain ⟨pbg, hpbg, hgw, -⟩ := (h.refs r.1 r.2).mp hr
    rw [refKey, ← hgw]
    exact hnew pbg hpbg
  · rw [hpfxs]
    exact h.uniquePfxs.cons hnew
  · rw [hpfxs]
    exact List.forall_mem_cons.mpr ⟨List.nodup_singleton pfx, h.nodup⟩
  · rw [hpfxs]
    exact List.forall_mem_cons.mpr ⟨List.cons_ne_nil _ _, h.ne_nil⟩
  · intro gw' pfx'
    rw [hpfxs, Finset.mem_insert, h.mem, List.exists_mem_cons_iff, List.mem_singleton,
      Prod.mk.injEq,
      @eq_comm _ gw gw']
  · intro gw' c
    rw [hpfxs, hrefs, List.mem_cons, h.refs, List.exists_mem_cons_iff, Prod.mk.injEq,
      @eq_comm _ gw gw', @eq_comm _ _ c]
    rfl
  · intro gw'
    rw [hpfxs, requested_cons hsent, h.sent, List.exists_mem_cons_iff]
    by_cases hgw : gw = gw'
    · simp [hgw]
    · simp [hgw]

/-- The references of the other gateways. -/
theorem mem_refs_iff_of_ne (gw' : GwV6) (c : ℤ) :
    ((gw', c) ∈ t.uc.refs ∧ refKey (gw', c) ≠ refKey (pbg.gw, (pbg.pfxs.length : ℤ))) ↔
      ∃ x ∈ t.uc.pfxs_ipv6_by_gw, x.hashKey ≠ pbg.hashKey ∧ x.gw = gw' ∧
        (x.pfxs.length : ℤ) = c := by
  rw [h.refs]
  constructor
  · rintro ⟨⟨x, hx, rfl, hc⟩, hne⟩
    exact ⟨x, hx, hne, rfl, hc⟩
  · rintro ⟨x, hx, hne, rfl, hc⟩
    exact ⟨⟨x, hx, rfl, hc⟩, hne⟩

/-- One more prefix of a gateway. -/
theorem register_more (hpbg : pbg ∈ t.uc.pfxs_ipv6_by_gw) (hgw : pbg.gw = gw)
    (hpfx : pfx ∉ pbg.pfxs)
    (hrefs : t'.uc.refs = Keyed.modify refKey t.uc.refs gw.hashKey fun r => (r.1, r.2 + 1))
    (hpfxs : t'.uc.pfxs_ipv6_by_gw = Keyed.modify PfxsByGw.hashKey t.uc.pfxs_ipv6_by_gw gw.hashKey
      fun pbg => { pbg with pfxs := pbg.pfxs ++ [pfx] })
    (hsent : t'.sent = t.sent) : Ipv6Registry t' (insert (gw, pfx) R) := by
  subst hgw
  have hpfxs_iff (p : PfxsByGw → Prop) : (∃ x ∈ t'.uc.pfxs_ipv6_by_gw, p x) ↔
      p { pbg with pfxs := pbg.pfxs ++ [pfx] } ∨
        ∃ x ∈ t.uc.pfxs_ipv6_by_gw, x.hashKey ≠ pbg.hashKey ∧ p x := by
    rw [hpfxs]
    exact h.uniquePfxs.exists_mem_modify_iff
      (f := fun pbg => { pbg with pfxs := pbg.pfxs ++ [pfx] }) hpbg
  have hforall (p : PfxsByGw → Prop) (hp : ∀ x ∈ t.uc.pfxs_ipv6_by_gw, p x)
      (hnew : p { pbg with pfxs := pbg.pfxs ++ [pfx] }) : ∀ x ∈ t'.uc.pfxs_ipv6_by_gw, p x := by
    intro x hx
    rcases (hpfxs_iff (· = x)).mp ⟨x, hx, rfl⟩ with hx | ⟨y, hy, -, rfl⟩
    · exact hx ▸ hnew
    · exact hp y hy
  refine ⟨?_, ?_, ?_, ?_, ?_, ?_, ?_⟩
  · rw [hrefs]
    exact h.uniqueRefs.modify fun _ => rfl
  · rw [hpfxs]
    exact h.uniquePfxs.modify fun _ => rfl
  · refine hforall _ h.nodup ?_
    exact (h.nodup pbg hpbg).append (List.nodup_singleton pfx) (List.disjoint_singleton.mpr hpfx)
  · exact hforall _ h.ne_nil (List.append_ne_nil_of_right_ne_nil _ (List.cons_ne_nil _ _))
  · intro gw' pfx'
    rw [hpfxs_iff, Finset.mem_insert, h.mem, h.uniquePfxs.exists_mem_iff hpbg, List.mem_append,
      List.mem_singleton, Prod.mk.injEq, @eq_comm _ gw' pbg.gw, and_or_left, ← or_assoc,
      @or_comm (_ ∧ pfx' = pfx)]
  · intro gw' c
    have hmod := h.uniqueRefs.mem_modify_self_iff (y := (gw', c)) (f := fun r => (r.1, r.2 + 1))
      (h.mem_refs hpbg)
    rw [hrefs]
    refine hmod.trans ?_
    rw [hpfxs_iff, h.mem_refs_iff_of_ne, List.length_append, List.length_singleton, Prod.mk.injEq,
      @eq_comm _ gw', @eq_comm _ c, Nat.cast_add, Nat.cast_one]
  · intro gw'
    have hsame := h.uniquePfxs.exists_mem_iff (p := fun x => x.gw = gw') hpbg
    rw [hpfxs_iff, requested_congr hsent]
    exact (h.sent gw').trans hsame

/-- The prefixes without one of a gateway. -/
theorem mem_erase_iff (hpbg : pbg ∈ t.uc.pfxs_ipv6_by_gw) (gw' : GwV6) (pfx' : RoutePfxV6) :
    (gw', pfx') ∈ R.erase (pbg.gw, pfx) ↔ (pbg.gw = gw' ∧ pfx' ∈ pbg.pfxs.erase pfx) ∨
      ∃ x ∈ t.uc.pfxs_ipv6_by_gw, x.hashKey ≠ pbg.hashKey ∧ x.gw = gw' ∧ pfx' ∈ x.pfxs := by
  rw [Finset.mem_erase, h.mem, h.uniquePfxs.exists_mem_iff hpbg, (h.nodup pbg hpbg).mem_erase_iff]
  constructor
  · rintro ⟨hne, ⟨rfl, hpfx⟩ | hrest⟩
    · exact .inl ⟨rfl, fun hp => hne (congrArg _ hp), hpfx⟩
    · exact .inr hrest
  · rintro (⟨rfl, hne, hpfx⟩ | ⟨x, hx, hkey, rfl, hpfx⟩)
    · exact ⟨fun hp => hne (Prod.mk.inj hp).2, .inl ⟨rfl, hpfx⟩⟩
    · refine ⟨fun hp => hkey ?_, .inr ⟨x, hx, hkey, rfl, hpfx⟩⟩
      exact congrArg GwV6.hashKey (Prod.mk.inj hp).1

/-- A prefix of a gateway goes, and others stay. -/
theorem unregister_more (hpbg : pbg ∈ t.uc.pfxs_ipv6_by_gw) (hpfx : pfx ∈ pbg.pfxs)
    (hmore : pbg.pfxs.erase pfx ≠ [])
    (hrefs : t'.uc.refs = Keyed.modify refKey t.uc.refs pbg.gw.hashKey fun r => (r.1, r.2 - 1))
    (hpfxs : t'.uc.pfxs_ipv6_by_gw = Keyed.modify PfxsByGw.hashKey t.uc.pfxs_ipv6_by_gw
      pbg.gw.hashKey fun pbg => { pbg with pfxs := pbg.pfxs.erase pfx })
    (hsent : t'.sent = t.sent) : Ipv6Registry t' (R.erase (pbg.gw, pfx)) := by
  have hpfxs_iff (p : PfxsByGw → Prop) : (∃ x ∈ t'.uc.pfxs_ipv6_by_gw, p x) ↔
      p { pbg with pfxs := pbg.pfxs.erase pfx } ∨
        ∃ x ∈ t.uc.pfxs_ipv6_by_gw, x.hashKey ≠ pbg.hashKey ∧ p x := by
    rw [hpfxs]
    exact h.uniquePfxs.exists_mem_modify_iff
      (f := fun pbg => { pbg with pfxs := pbg.pfxs.erase pfx }) hpbg
  have hforall (p : PfxsByGw → Prop) (hp : ∀ x ∈ t.uc.pfxs_ipv6_by_gw, p x)
      (hnew : p { pbg with pfxs := pbg.pfxs.erase pfx }) : ∀ x ∈ t'.uc.pfxs_ipv6_by_gw, p x := by
    intro x hx
    rcases (hpfxs_iff (· = x)).mp ⟨x, hx, rfl⟩ with hx | ⟨y, hy, -, rfl⟩
    · exact hx ▸ hnew
    · exact hp y hy
  refine ⟨?_, ?_, ?_, ?_, ?_, ?_, ?_⟩
  · rw [hrefs]
    exact h.uniqueRefs.modify fun _ => rfl
  · rw [hpfxs]
    exact h.uniquePfxs.modify fun _ => rfl
  · exact hforall _ h.nodup ((h.nodup pbg hpbg).erase pfx)
  · exact hforall _ h.ne_nil hmore
  · intro gw' pfx'
    rw [hpfxs_iff]
    exact h.mem_erase_iff hpbg gw' pfx'
  · intro gw' c
    have hmod := h.uniqueRefs.mem_modify_self_iff (y := (gw', c)) (f := fun r => (r.1, r.2 - 1))
      (h.mem_refs hpbg)
    have hlen : ((pbg.pfxs.erase pfx).length : ℤ) = pbg.pfxs.length - 1 := by
      rw [List.length_erase_of_mem hpfx, Nat.cast_sub (List.length_pos_of_mem hpfx), Nat.cast_one]
    rw [hrefs]
    refine hmod.trans ?_
    rw [hpfxs_iff, h.mem_refs_iff_of_ne, hlen, Prod.mk.injEq, @eq_comm _ gw', @eq_comm _ c]
  · intro gw'
    have hsame := h.uniquePfxs.exists_mem_iff (p := fun x => x.gw = gw') hpbg
    rw [hpfxs_iff, requested_congr hsent]
    exact (h.sent gw').trans hsame

/-- The last prefix of a gateway goes, and the gateway with it. -/
theorem unregister_last (hpbg : pbg ∈ t.uc.pfxs_ipv6_by_gw) (hlast : pbg.pfxs.erase pfx = [])
    (hrefs : t'.uc.refs = Keyed.del refKey
      (Keyed.modify refKey t.uc.refs pbg.gw.hashKey fun r => (r.1, r.2 - 1)) pbg.gw.hashKey)
    (hpfxs : t'.uc.pfxs_ipv6_by_gw = Keyed.del PfxsByGw.hashKey t.uc.pfxs_ipv6_by_gw pbg.gw.hashKey)
    (hsent : t'.sent = (.IP_ADDR_DEL, pbg.gw) :: t.sent) :
    Ipv6Registry t' (R.erase (pbg.gw, pfx)) := by
  have hpfxs_iff (p : PfxsByGw → Prop) : (∃ x ∈ t'.uc.pfxs_ipv6_by_gw, p x) ↔
      ∃ x ∈ t.uc.pfxs_ipv6_by_gw, x.hashKey ≠ pbg.hashKey ∧ p x := by
    rw [hpfxs]
    exact h.uniquePfxs.exists_mem_del_iff
  rw [h.uniqueRefs.del_modify (f := fun r => (r.1, r.2 - 1)) fun _ => rfl] at hrefs
  refine ⟨?_, ?_, fun x hx => ?_, fun x hx => ?_, ?_, ?_, ?_⟩
  · rw [hrefs]
    exact h.uniqueRefs.del
  · rw [hpfxs]
    exact h.uniquePfxs.del
  · rw [hpfxs] at hx
    exact h.nodup x (Keyed.mem_of_mem_del hx)
  · rw [hpfxs] at hx
    exact h.ne_nil x (Keyed.mem_of_mem_del hx)
  · intro gw' pfx'
    rw [hpfxs_iff, h.mem_erase_iff hpbg, hlast]
    exact or_iff_right fun hnil => List.not_mem_nil hnil.2
  · intro gw' c
    rw [hpfxs_iff, ← h.mem_refs_iff_of_ne, hrefs]
    exact h.uniqueRefs.mem_del_iff
  · intro gw'
    rw [hpfxs_iff, requested_cons hsent]
    split_ifs with hgw
    · refine iff_of_false (fun hcmd => by cases hcmd) ?_
      rintro ⟨x, -, hne, rfl⟩
      exact hne (congrArg GwV6.hashKey hgw).symm
    · rw [h.sent, h.uniquePfxs.exists_mem_iff hpbg]
      exact or_iff_right hgw

end Ipv6Registry

/-! ### Calls -/

namespace Ipv6Routing

variable (t : Ipv6Routing) (gw : GwV6) (pfx : RoutePfxV6) (ret_key : GwV6)

/-- The gateway is the only one with its first six bytes, there is room for it if it is new, and if
it is not, a reference is taken exactly for a new prefix. -/
def RegisterOk : Prop :=
  (∀ re ∈ t.uc.ret_ipv6, re.gw.hashKey = gw.hashKey → re.gw = gw) ∧
    ((∃ re ∈ t.uc.ret_ipv6, re.gw = gw) ∨ t.uc.re_cnt < MAX_RE) ∧
    ((∃ re ∈ t.uc.ret_ipv6, re.gw = gw) →
      (ret_key.vid = 0 ↔ ∀ pbg ∈ t.uc.pfxs_ipv6_by_gw, pbg.gw = gw → pfx ∉ pbg.pfxs))

/-- The prefix is not registered with another gateway with the same first six bytes. -/
def UnregisterOk : Prop :=
  ∀ pbg ∈ t.uc.pfxs_ipv6_by_gw, pbg.gw.hashKey = gw.hashKey → pbg.gw = gw ∨ pfx ∉ pbg.pfxs

instance : Decidable (t.RegisterOk gw pfx ret_key) :=
  inferInstanceAs (Decidable ((∀ re ∈ t.uc.ret_ipv6, _ = _ → _ = _) ∧ (_ ∨ _ < _) ∧
    (_ → (_ = _ ↔ ∀ pbg ∈ t.uc.pfxs_ipv6_by_gw, _ = _ → _ ∉ _))))

instance : Decidable (t.UnregisterOk gw pfx) :=
  inferInstanceAs (Decidable (∀ pbg ∈ t.uc.pfxs_ipv6_by_gw, _ = _ → _ ∨ _ ∉ _))

end Ipv6Routing

namespace Ipv6Registry

variable {env : RouteEnv} {t t' : Ipv6Routing} {R : Ipv6Prefixes} {gw ret_key : GwV6}
  {pfx : RoutePfxV6}

/-- The request for a gateway changes the references and the requests only. -/
theorem request_eq (env : RouteEnv) (t : Ipv6Routing) (gw ret_key : GwV6) (pfx : RoutePfxV6) :
    (t.routeIpv6RequestMacAddr env gw pfx ret_key).2.uc.refs =
        (t.uc.retIpv6Add env gw (pfx.alen = 0) ret_key).2.2.refs ∧
      (t.routeIpv6RequestMacAddr env gw pfx ret_key).2.uc.pfxs_ipv6_by_gw =
        t.uc.pfxs_ipv6_by_gw ∧
      (t.routeIpv6RequestMacAddr env gw pfx ret_key).2.sent =
        if t.uc.findGwV6 gw = none ∧ t.uc.re_cnt < MAX_RE then (.IP_ADDR_ADD, gw) :: t.sent
        else t.sent := by
  have hpfxs : (t.uc.retIpv6Add env gw (pfx.alen = 0) ret_key).2.2.pfxs_ipv6_by_gw =
      t.uc.pfxs_ipv6_by_gw := by
    obtain ⟨u, v, c, heq⟩ := Router.retIpv6Add_eq env t.uc gw ret_key (pfx.alen = 0)
    rw [heq]
  unfold Ipv6Routing.routeIpv6RequestMacAddr Ipv6Routing.retIpv6Add
  dsimp only
  by_cases hnew : t.uc.findGwV6 gw = none ∧ t.uc.re_cnt < MAX_RE
  · rw [if_pos hnew, if_pos hnew]
    split_ifs
    · exact ⟨rfl, hpfxs, rfl⟩
    · exact ⟨rfl, hpfxs, rfl⟩
  · rw [if_neg hnew, if_neg hnew]
    split_ifs
    · exact ⟨rfl, hpfxs, rfl⟩
    · exact ⟨rfl, hpfxs, rfl⟩

theorem pfxs_unref (t : Ipv6Routing) (gw : GwV6) (is_def : Bool) :
    (t.retIpv6Unref gw is_def).uc.pfxs_ipv6_by_gw = t.uc.pfxs_ipv6_by_gw := by
  obtain ⟨u, v, c, i, n, heq⟩ := Router.retIpv6Unref_eq t.uc gw is_def
  rw [t.uc_retIpv6Unref, heq]

theorem sent_unref (is_def : Bool) {re : ReIpv6} (hre : t.uc.findGwV6 gw = some re) :
    (t.retIpv6Unref gw is_def).sent =
      if re.refc - 1 = 0 then (.IP_ADDR_DEL, gw) :: t.sent else t.sent := by
  unfold Ipv6Routing.retIpv6Unref
  rw [hre]
  dsimp only
  split_ifs
  · rfl
  · rfl

/-- Unregistering takes prefixes away only. -/
theorem unregister_sub (t : Ipv6Routing) (gw : GwV6) (pfx : RoutePfxV6) {x : PfxsByGw}
    (hx : x ∈ (t.routeIpv6Unregister pfx gw).uc.pfxs_ipv6_by_gw) :
    ∃ y ∈ t.uc.pfxs_ipv6_by_gw, y.gw = x.gw ∧ ∀ p ∈ x.pfxs, p ∈ y.pfxs := by
  have hself : x ∈ t.uc.pfxs_ipv6_by_gw →
      ∃ y ∈ t.uc.pfxs_ipv6_by_gw, y.gw = x.gw ∧ ∀ p ∈ x.pfxs, p ∈ y.pfxs :=
    fun hx => ⟨x, hx, rfl, fun _ hp => hp⟩
  have hpfxs := pfxs_unref t gw (pfx.alen = 0)
  unfold Ipv6Routing.routeIpv6Unregister at hx
  cases hf : t.uc.findPfxsByGw gw with
  | none =>
    rw [hf] at hx
    exact hself hx
  | some pbg =>
    rw [hf] at hx
    dsimp only at hx
    split_ifs at hx with hpfx hlast
    · rw [hpfxs] at hx
      exact hself (Keyed.mem_of_mem_del hx)
    · rw [hpfxs] at hx
      rcases Keyed.mem_modify_iff.mp hx with ⟨y, hy, -, rfl⟩ | ⟨hx, -⟩
      · exact ⟨y, hy, rfl, fun p hp => List.mem_of_mem_erase hp⟩
      · exact hself hx
    · exact hself hx

variable (h : Ipv6Registry t R)

include h

theorem registerAndRequest (env : RouteEnv) (hok : t.RegisterOk gw pfx ret_key) :
    Ipv6Registry (Ipv6Routing.routeIpv6RequestMacAddr env
      { t with uc := t.uc.routeIpv6Register pfx gw } gw pfx ret_key).2 (insert (gw, pfx) R) := by
  obtain ⟨honly, hroom, htake⟩ := hok
  obtain ⟨hrefs, hpfxs, hsent⟩ := request_eq env
    { t with uc := t.uc.routeIpv6Register pfx gw } gw ret_key pfx
  have hgws : (t.uc.routeIpv6Register pfx gw).ret_ipv6 = t.uc.ret_ipv6 ∧
      (t.uc.routeIpv6Register pfx gw).re_cnt = t.uc.re_cnt := by
    obtain ⟨p, hp⟩ := t.uc.routeIpv6Register_eq pfx gw
    rw [hp]
    exact ⟨rfl, rfl⟩
  have hfind : Router.findGwV6 (t.uc.routeIpv6Register pfx gw) gw = t.uc.findGwV6 gw := by
    unfold Router.findGwV6
    rw [hgws.1]
  have hsame : (t.uc.routeIpv6Register pfx gw).refs = t.uc.refs := by
    unfold Router.refs
    rw [hgws.1]
  rw [Router.refs_retIpv6Add, hfind, hsame, hgws.2] at hrefs
  rw [hfind, hgws.2] at hsent
  -- is there a gateway already?
  cases hf : t.uc.findGwV6 gw with
  | none =>
    have hno : ∀ re ∈ t.uc.ret_ipv6, re.gw.hashKey ≠ gw.hashKey := Keyed.find_eq_none_iff.mp hf
    have hcnt : t.uc.re_cnt < MAX_RE := hroom.resolve_left fun ⟨re, hre, hgw⟩ =>
      hno re hre (congrArg GwV6.hashKey hgw)
    -- a gateway that is not there has no prefixes either
    have hnew : ∀ pbg ∈ t.uc.pfxs_ipv6_by_gw, pbg.hashKey ≠ gw.hashKey := by
      intro pbg hpbg hkey
      obtain ⟨re, hre, heq⟩ := List.mem_map.mp (h.mem_refs hpbg)
      exact hno re hre ((congrArg GwV6.hashKey (Prod.mk.inj heq).1).trans hkey)
    have hfindp : t.uc.findPfxsByGw gw = none := Keyed.find_eq_none_iff.mpr hnew
    have hreg : (t.uc.routeIpv6Register pfx gw).pfxs_ipv6_by_gw =
        ⟨gw, [pfx]⟩ :: t.uc.pfxs_ipv6_by_gw := by
      unfold Router.routeIpv6Register
      rw [hfindp]
    rw [hf, Option.isSome_none, if_neg Bool.false_ne_true, if_neg (not_le.mpr hcnt)] at hrefs
    rw [if_pos ⟨hf, hcnt⟩] at hsent
    exact h.register_new hnew hrefs (hpfxs.trans hreg) hsent
  | some re =>
    have hre : re ∈ t.uc.ret_ipv6 := Keyed.mem_of_find hf
    have hkey := Keyed.key_of_find hf
    have hgw : re.gw = gw := honly re hre hkey
    have hmem : (gw, re.refc) ∈ t.uc.refs := List.mem_map.mpr ⟨re, hre, by rw [hgw]⟩
    obtain ⟨pbg, hpbg, hgwp, -⟩ := (h.refs gw re.refc).mp hmem
    have hfindp : t.uc.findPfxsByGw gw = some pbg :=
      h.uniquePfxs.find_eq_some_iff.mpr ⟨hpbg, congrArg GwV6.hashKey hgwp⟩
    have hreg : (t.uc.routeIpv6Register pfx gw).pfxs_ipv6_by_gw =
        if pfx ∈ pbg.pfxs then t.uc.pfxs_ipv6_by_gw
        else Keyed.modify PfxsByGw.hashKey t.uc.pfxs_ipv6_by_gw gw.hashKey fun pbg =>
          { pbg with pfxs := pbg.pfxs ++ [pfx] } := by
      unfold Router.routeIpv6Register
      rw [hfindp]
      dsimp only
      split_ifs <;> rfl
    have htake := htake ⟨re, hre, hgw⟩
    have hsent : _ = t.sent := hsent.trans (if_neg fun hn => by
      rw [hf] at hn
      exact Option.some_ne_none _ hn.1)
    rw [hf, Option.isSome_some, if_pos rfl] at hrefs
    -- the prefix is registered already, so the reference must not be taken again
    by_cases hpfx : pfx ∈ pbg.pfxs
    · have hvid : ret_key.vid ≠ 0 := fun hv => htake.mp hv pbg hpbg hgwp hpfx
      rw [if_neg hvid] at hrefs
      rw [if_pos hpfx] at hreg
      rw [Finset.insert_eq_of_mem ((h.mem gw pfx).mpr ⟨pbg, hpbg, hgwp, hpfx⟩)]
      exact h.congr hrefs (hpfxs.trans hreg) hsent
    · -- the prefix is a new one of the gateway
      have hvid : ret_key.vid = 0 := htake.mpr fun x hx hgwx => by
        rw [h.uniquePfxs.eq_of_mem hx hpbg (congrArg GwV6.hashKey (hgwx.trans hgwp.symm))]
        exact hpfx
      rw [if_pos hvid] at hrefs
      rw [if_neg hpfx] at hreg
      exact h.register_more hpbg hgwp hpfx hrefs (hpfxs.trans hreg) hsent

/-- A gateway with a prefix that is registered has an entry. -/
theorem find_of_mem (hpbg : pbg ∈ t.uc.pfxs_ipv6_by_gw) :
    ∃ re, t.uc.findGwV6 pbg.gw = some re ∧ re.refc = pbg.pfxs.length := by
  have hfind : Keyed.find refKey t.uc.refs pbg.gw.hashKey = some (pbg.gw, (pbg.pfxs.length : ℤ)) :=
    h.uniqueRefs.find_eq_some_iff.mpr ⟨h.mem_refs hpbg, rfl⟩
  rw [Router.find_refs] at hfind
  obtain ⟨re, hre, heq⟩ := Option.map_eq_some_iff.mp hfind
  exact ⟨re, hre, (Prod.mk.inj heq).2⟩

theorem unregister (hok : t.UnregisterOk gw pfx) :
    Ipv6Registry (t.routeIpv6Unregister pfx gw) (R.erase (gw, pfx)) := by
  have hskip (hno : ∀ pbg ∈ t.uc.pfxs_ipv6_by_gw, pbg.gw = gw → pfx ∉ pbg.pfxs) :
      R.erase (gw, pfx) = R :=
    Finset.erase_eq_of_notMem fun hmem => by
      obtain ⟨pbg, hpbg, hgw, hpfx⟩ := (h.mem gw pfx).mp hmem
      exact hno pbg hpbg hgw hpfx
  unfold Ipv6Routing.routeIpv6Unregister
  cases hf : t.uc.findPfxsByGw gw with
  | none =>
    rw [hskip fun pbg hpbg hgw =>
      absurd (congrArg GwV6.hashKey hgw) (Keyed.find_eq_none_iff.mp hf pbg hpbg)]
    exact h
  | some pbg =>
    have hpbg : pbg ∈ t.uc.pfxs_ipv6_by_gw := Keyed.mem_of_find hf
    have hkey := Keyed.key_of_find hf
    dsimp only
    by_cases hpfx : pfx ∈ pbg.pfxs
    · obtain rfl : pbg.gw = gw := (hok pbg hpbg hkey).resolve_right (not_not_intro hpfx)
      obtain ⟨re, hre, hrefc⟩ := h.find_of_mem hpbg
      have hlen := List.length_erase_of_mem hpfx
      have hpos := List.length_pos_of_mem hpfx
      have hrefs := Router.refs_retIpv6Unref (pfx.alen = 0) hre
      have hpfxs₁ := pfxs_unref t pbg.gw (pfx.alen = 0)
      have hsent₁ := sent_unref (pfx.alen = 0) hre
      have hrefs₁ : (t.retIpv6Unref pbg.gw (pfx.alen = 0)).uc.refs = _ :=
        (congrArg Router.refs (t.uc_retIpv6Unref pbg.gw (pfx.alen = 0))).trans hrefs
      rw [if_pos hpfx]
      by_cases hlast : pbg.pfxs.erase pfx = []
      · have hone : re.refc - 1 = 0 := by
          have := List.length_eq_zero_iff.mpr hlast
          omega
        rw [if_pos hone] at hrefs₁ hsent₁
        refine h.unregister_last hpbg hlast hrefs₁ ?_ hsent₁
        rw [if_pos hlast, hpfxs₁]
      · have hone : re.refc - 1 ≠ 0 := by
          have := List.length_pos_iff.mpr hlast
          omega
        rw [if_neg hone] at hrefs₁ hsent₁
        refine h.unregister_more hpbg hpfx hlast hrefs₁ ?_ hsent₁
        rw [if_neg hlast, hpfxs₁]
    · rw [if_neg hpfx, hskip fun x hx hgw => by
        rw [h.uniquePfxs.eq_of_mem hx hpbg ((congrArg GwV6.hashKey hgw).trans hkey.symm)]
        exact hpfx]
      exact h

/-- A route and its children are unregistered one by one. -/
theorem unregisterAll {ns : List FibNodeIpv6}
    (hok : ∀ n ∈ ns, t.UnregisterOk n.gwV6 n.routePfx) :
    Ipv6Registry (ns.foldl Ipv6Routing.routeDelFibIpv6Entry t)
      (ns.foldl (fun R n => R.erase (n.gwV6, n.routePfx)) R) := by
  induction ns generalizing t R with
  | nil => exact h
  | cons n ns ih =>
    obtain ⟨hn, hns⟩ := List.forall_mem_cons.mp hok
    obtain ⟨l, hl⟩ : ∃ l, t.routeDelFibIpv6Entry n = Ipv6Routing.routeIpv6Unregister
        { t with uc := { t.uc with lpmIpv6 := l } } n.routePfx n.gwV6 := by
      unfold Ipv6Routing.routeDelFibIpv6Entry
      dsimp only
      split_ifs
      · exact ⟨_, rfl⟩
      · exact ⟨_, rfl⟩
    have hlpm : Ipv6Registry { t with uc := { t.uc with lpmIpv6 := l } } R := h.congr rfl rfl rfl
    rw [List.foldl_cons, List.foldl_cons, hl]
    refine ih (hlpm.unregister hn) fun m hm x hx hkey => ?_
    obtain ⟨y, hy, hgw, hsub⟩ := unregister_sub _ _ _ hx
    exact (hns m hm y hy (by rw [hgw]; exact hkey)).imp (fun hm => hgw.symm.trans hm)
      fun hno hp => hno (hsub _ hp)

end Ipv6Registry

end Presteramgr
