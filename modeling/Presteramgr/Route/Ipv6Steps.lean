import Presteramgr.Ret.Ownership
import Presteramgr.Route.Ipv6

/-!
# What the calls of IPv6 routes change

## Main results

* `routeIpv6Register_eq`, `retIpv6Add_eq` and `retIpv6Unref_eq`: the tables that a call writes;
* `retIpv6SetMacAddr_cases`: an answer of the client keeps the index of the gateway and the LPM, or
  gives it a regular index and installs its prefixes.
-/

namespace Presteramgr

open Function (update_self update_of_ne)

/-- The key of a prefix in the LPM. -/
def RoutePfxV6.lpmKey (pfx : RoutePfxV6) : ℕ × Ip6 :=
  (pfx.alen, Router.mkmaskIpv6 pfx.addrv6 pfx.alen)

namespace Router

variable {s : Router} {gw : GwV6} {p : ℕ × Ip6}

/-- Registering changes the prefixes of gateways only. -/
theorem routeIpv6Register_eq (s : Router) (pfx : RoutePfxV6) (gw : GwV6) :
    ∃ p, s.routeIpv6Register pfx gw = { s with pfxs_ipv6_by_gw := p } := by
  unfold routeIpv6Register
  cases s.findPfxsByGw gw with
  | none => exact ⟨_, rfl⟩
  | some pbg =>
    dsimp only
    split_ifs
    · exact ⟨_, rfl⟩
    · exact ⟨_, rfl⟩

/-- `ret_ipv6_add` leaves the prefixes and the routes alone. -/
theorem retIpv6Add_eq (env : RouteEnv) (s : Router) (gw ret_key : GwV6) (is_def : Bool) :
    ∃ u v c, (s.retIpv6Add env gw is_def ret_key).2.2 =
      { s with ucRoute := u, ret_ipv6 := v, re_cnt := c } := by
  unfold retIpv6Add
  cases s.findGwV6 gw with
  | none =>
    dsimp only
    split_ifs
    · exact ⟨_, _, _, rfl⟩
    · exact ⟨_, _, _, rfl⟩
  | some re =>
    obtain ⟨v, hv⟩ : ∃ v, (if ret_key.vid = 0 then
        s.modifyGwV6 gw fun re => { re with refc := re.refc + 1 } else s) =
          { s with ret_ipv6 := v } := by
      split_ifs
      · exact ⟨_, rfl⟩
      · exact ⟨_, rfl⟩
    dsimp only
    rw [hv]
    split_ifs
    · obtain ⟨u, hu⟩ := claimDefault_eq env { s with ret_ipv6 := v } gw re
      rw [hu]
      exact ⟨_, _, _, rfl⟩
    · exact ⟨_, _, _, rfl⟩

/-- `ret_ipv6_unref` leaves the prefixes and the routes alone. -/
theorem retIpv6Unref_eq (s : Router) (gw : GwV6) (is_def : Bool) :
    ∃ u v c i n, (s.retIpv6Unref gw is_def).2 =
      { s with ucRoute := u, ret_ipv6 := v, re_cnt := c, ret_indexes_used := i, nh := n } := by
  have hreset (re : ReIpv6) : ∃ u v, (if is_def = true then s.resetDefault gw re else s) =
      { s with ucRoute := u, ret_ipv6 := v } := by
    obtain ⟨u, hu⟩ := resetDefault_eq s gw re
    rw [hu]
    split_ifs
    · exact ⟨_, _, rfl⟩
    · exact ⟨_, _, rfl⟩
  unfold retIpv6Unref
  cases s.findGwV6 gw with
  | none => exact ⟨_, _, _, _, _, rfl⟩
  | some re =>
    obtain ⟨u, v, hu⟩ := hreset re
    dsimp only
    rw [hu]
    split_ifs
    · unfold deleteGwV6
      dsimp only
      split_ifs
      · exact ⟨_, _, _, _, _, rfl⟩
      · exact ⟨_, _, _, _, _, rfl⟩
    · exact ⟨_, _, _, _, _, rfl⟩

/-- A prefix of the gateway has the key `p` in the LPM. -/
def InstallsAt (s : Router) (gw : GwV6) (p : ℕ × Ip6) : Prop :=
  ∃ pbg ∈ s.findPfxsByGw gw, ∃ pfx ∈ pbg.pfxs, pfx.alen ≠ 0 ∧ pfx.lpmKey = p

theorem installsAt_congr {s' : Router} (hpfxs : s'.pfxs_ipv6_by_gw = s.pfxs_ipv6_by_gw) :
    s'.InstallsAt gw p ↔ s.InstallsAt gw p := by
  unfold InstallsAt findPfxsByGw
  rw [hpfxs]

/-- A prefix that was registered is one of those of its gateway. -/
theorem installsAt_routeIpv6Register (s : Router) {pfx : RoutePfxV6} (gw : GwV6)
    (hlen : pfx.alen ≠ 0) : (s.routeIpv6Register pfx gw).InstallsAt gw pfx.lpmKey := by
  unfold routeIpv6Register
  cases hfind : s.findPfxsByGw gw with
  | none =>
    exact ⟨⟨gw, [pfx]⟩, (Keyed.find_cons).trans (if_pos rfl), pfx, List.mem_singleton_self pfx,
      hlen,
      rfl⟩
  | some pbg =>
    dsimp only
    split_ifs with hpfx
    · exact ⟨pbg, hfind, pfx, hpfx, hlen, rfl⟩
    · refine ⟨{ pbg with pfxs := pbg.pfxs ++ [pfx] }, ?_, pfx,
        List.mem_append_right _ (List.mem_singleton_self pfx), hlen, rfl⟩
      exact Keyed.find_modify_self (f := fun pbg => { pbg with pfxs := pbg.pfxs ++ [pfx] })
        (fun _ => rfl) hfind

/-- Registering adds one prefix. -/
theorem of_installsAt_routeIpv6Register {pfx : RoutePfxV6} {gw' : GwV6}
    (h : (s.routeIpv6Register pfx gw').InstallsAt gw p) : s.InstallsAt gw p ∨ pfx.lpmKey = p := by
  unfold routeIpv6Register at h
  cases hfind : s.findPfxsByGw gw' with
  | none =>
    rw [hfind] at h
    obtain ⟨pbg, hpbg, x, hx, hlen, hkey⟩ := h
    have hpbg := Keyed.find_cons.symm.trans (Option.mem_def.mp hpbg)
    split_ifs at hpbg
    · rw [← Option.some_inj.mp hpbg] at hx
      exact .inr (List.mem_singleton.mp hx ▸ hkey)
    · exact .inl ⟨pbg, hpbg, x, hx, hlen, hkey⟩
  | some pbg₀ =>
    rw [hfind] at h
    dsimp only at h
    split_ifs at h
    · exact .inl h
    · obtain ⟨pbg, hpbg, x, hx, hlen, hkey⟩ := h
      obtain ⟨y, hy, rfl⟩ := Option.map_eq_some_iff.mp ((Keyed.find_modify
        (f := fun pbg : PfxsByGw => { pbg with pfxs := pbg.pfxs ++ [pfx] }) fun _ => rfl).symm.trans
          (Option.mem_def.mp hpbg))
      split_ifs at hx
      · rcases List.mem_append.mp hx with hx | hx
        · exact .inl ⟨y, hy, x, hx, hlen, hkey⟩
        · exact .inr (List.mem_singleton.mp hx ▸ hkey)
      · exact .inl ⟨y, hy, x, hx, hlen, hkey⟩

/-- The loop of `route_ipv6_update_table` over the prefixes of the gateway. -/
private theorem lpmIpv6_foldl (pfxs : List RoutePfxV6) (s : Router) (idx : ℤ) (p : ℕ × Ip6) :
    ((∃ pfx ∈ pfxs, pfx.alen ≠ 0 ∧ pfx.lpmKey = p) ∨ s.lpmIpv6 p = some ⟨idx, 0⟩ →
      (pfxs.foldl (fun s pbp =>
        if pbp.alen ≠ 0 then s.lpmIpv6UcPrefixAdd pbp.addrv6 pbp.alen ⟨idx, 0⟩ else s) s).lpmIpv6 p =
        some ⟨idx, 0⟩) ∧
    ((¬∃ pfx ∈ pfxs, pfx.alen ≠ 0 ∧ pfx.lpmKey = p) →
      (pfxs.foldl (fun s pbp =>
        if pbp.alen ≠ 0 then s.lpmIpv6UcPrefixAdd pbp.addrv6 pbp.alen ⟨idx, 0⟩ else s) s).lpmIpv6 p =
        s.lpmIpv6 p) := by
  induction pfxs generalizing s with
  | nil => exact ⟨fun h => h.resolve_left (by simp), fun _ => rfl⟩
  | cons pfx pfxs ih =>
    rw [List.foldl_cons]
    obtain ⟨hin, hout⟩ := ih (if pfx.alen ≠ 0 then
      s.lpmIpv6UcPrefixAdd pfx.addrv6 pfx.alen ⟨idx, 0⟩ else s)
    have hhead : (if pfx.alen ≠ 0 then s.lpmIpv6UcPrefixAdd pfx.addrv6 pfx.alen ⟨idx, 0⟩
        else s).lpmIpv6 p =
          if pfx.alen ≠ 0 ∧ pfx.lpmKey = p then some ⟨idx, 0⟩ else s.lpmIpv6 p := by
      by_cases hlen : pfx.alen ≠ 0
      · by_cases hkey : pfx.lpmKey = p
        · rw [if_pos hlen, if_pos ⟨hlen, hkey⟩, ← hkey]
          exact update_self _ _ _
        · rw [if_pos hlen, if_neg fun h => hkey h.2]
          exact update_of_ne (Ne.symm hkey) _ _
      · rw [if_neg hlen, if_neg fun h => hlen h.1]
    rw [hhead] at hin hout
    constructor
    · rintro (hex | hs)
      · rcases (List.exists_mem_cons_iff _ _ _).mp hex with hpfx | hex
        · exact hin (.inr (if_pos hpfx))
        · exact hin (.inl hex)
      · refine hin (.inr ?_)
        rw [hs]
        split_ifs <;> rfl
    · intro hno
      rw [hout fun hex => hno ((List.exists_mem_cons_iff _ _ _).mpr (.inr hex)),
        if_neg fun hpfx => hno ((List.exists_mem_cons_iff _ _ _).mpr (.inl hpfx))]

theorem lpmIpv6_routeIpv6UpdateTable {s' : Router} (hpfxs : s'.pfxs_ipv6_by_gw = s.pfxs_ipv6_by_gw)
    (hlpm : s'.lpmIpv6 = s.lpmIpv6) (idx : ℤ) (p : ℕ × Ip6) :
    (s.InstallsAt gw p → (s'.routeIpv6UpdateTable gw idx).lpmIpv6 p = some ⟨idx, 0⟩) ∧
      (¬s.InstallsAt gw p → (s'.routeIpv6UpdateTable gw idx).lpmIpv6 p = s.lpmIpv6 p) := by
  have hfinds : s'.findPfxsByGw gw = s.findPfxsByGw gw := by
    unfold findPfxsByGw
    rw [hpfxs]
  unfold routeIpv6UpdateTable InstallsAt
  rw [hfinds, ← hlpm]
  cases s.findPfxsByGw gw with
  | none => exact ⟨fun ⟨pbg, hpbg, _⟩ => absurd hpbg.symm (Option.some_ne_none pbg), fun _ => rfl⟩
  | some pbg =>
    obtain ⟨hin, hout⟩ := lpmIpv6_foldl pbg.pfxs s' idx p
    constructor
    · rintro ⟨x, hx, hex⟩
      obtain rfl := Option.some_inj.mp hx
      exact hin (.inl hex)
    · exact fun hno => hout fun hex => hno ⟨pbg, rfl, hex⟩

/-- What an answer of the client does. -/
theorem retIpv6SetMacAddr_cases (env : RouteEnv) (s : Router) (gw : GwV6) (addr : Mac) (vif_id : ℕ)
    (arpOk reOk : Bool) : ∃ f : ReIpv6 → ReIpv6,
    (∀ re, ((f re).gw, (f re).refc) = (re.gw, re.refc)) ∧
      (s.retIpv6SetMacAddr env gw addr vif_id arpOk reOk).2.ret_ipv6 =
        Keyed.modify (fun re : ReIpv6 => re.gw.hashKey) s.ret_ipv6 gw.hashKey f ∧
      (s.retIpv6SetMacAddr env gw addr vif_id arpOk reOk).2.pfxs_ipv6_by_gw = s.pfxs_ipv6_by_gw ∧
      (s.retIpv6SetMacAddr env gw addr vif_id arpOk reOk).2.fib_ipv6 = s.fib_ipv6 ∧
      ((∀ re, (f re).index = re.index) ∧
          (s.retIpv6SetMacAddr env gw addr vif_id arpOk reOk).2.lpmIpv6 = s.lpmIpv6 ∧
          ((s.retIpv6SetMacAddr env gw addr vif_id arpOk reOk).1 = .ST_OK →
            ∃ re, s.findGwV6 gw = some re ∧ re.valid = true) ∨
        ∃ idx, FIRST_REGULAR_RE_IDX ≤ idx ∧ (∀ re, (f re).index = some idx) ∧
          ∀ p, (s.InstallsAt gw p →
              (s.retIpv6SetMacAddr env gw addr vif_id arpOk reOk).2.lpmIpv6 p = some ⟨idx, 0⟩) ∧
            (¬s.InstallsAt gw p →
              (s.retIpv6SetMacAddr env gw addr vif_id arpOk reOk).2.lpmIpv6 p = s.lpmIpv6 p)) := by
  have hid : Keyed.modify (fun re : ReIpv6 => re.gw.hashKey) s.ret_ipv6 gw.hashKey id =
      s.ret_ipv6 := by
    unfold Keyed.modify
    simp
  unfold retIpv6SetMacAddr
  cases env.vifGetn vif_id with
  | none => exact ⟨id, fun _ => rfl, hid.symm, rfl, rfl,
    .inl ⟨fun _ => rfl, rfl, fun hst => by cases hst⟩⟩
  | some vif =>
  cases hfind : s.findGwV6 gw with
  | none => exact ⟨id, fun _ => rfl, hid.symm, rfl, rfl,
    .inl ⟨fun _ => rfl, rfl, fun hst => by cases hst⟩⟩
  | some re =>
  dsimp only
  -- the address is known already: nothing but the interface changes
  split_ifs with hsame
  · obtain ⟨u, hu⟩ := writeGwV6_eq (s.modifyGwV6 gw fun re => { re with vif_id := vif_id }) re.idx
      re.is_def (.route vif re.nh_idx gw.vid)
    rw [hu]
    exact ⟨fun re => { re with vif_id := vif_id }, fun _ => rfl, rfl, rfl, rfl,
      .inl ⟨fun _ => rfl, rfl, fun _ => ⟨re, rfl, hsame.1⟩⟩⟩
  · exact ⟨id, fun _ => rfl, hid.symm, rfl, rfl, .inl ⟨fun _ => rfl, rfl, fun hst => by cases hst⟩⟩
  -- the next hop and then an index are taken, and each may be exhausted
  cases (s.modifyGwV6 gw fun re =>
    { re with addr := addr, vif_id := vif_id }).nh.nhtAdd addr arpOk with
  | mk nh_idx nh =>
  cases nh_idx with
  | none => exact ⟨fun re =>
    { re with addr := addr, vif_id := vif_id }, fun _ => rfl, rfl, rfl, rfl,
      .inl ⟨fun _ => rfl, rfl, fun hst => by cases hst⟩⟩
  | some nh_idx =>
  dsimp only
  cases hpop : Ret.resPop (s.modifyGwV6 gw fun re =>
      { re with addr := addr, vif_id := vif_id }).ret_indexes_used 1 with
  | none => exact ⟨fun re =>
    { re with addr := addr, vif_id := vif_id }, fun _ => rfl, rfl, rfl, rfl,
      .inl ⟨fun _ => rfl, rfl, fun hst => by cases hst⟩⟩
  | some p =>
  obtain ⟨-, -, -, first, hids, hfirst, -⟩ := Ret.resPop_spec hpop
  have hhead : p.1.headI = first := by simp [hids, Ret.idxRun]
  dsimp only
  -- the gateway becomes valid with the new index, and its prefixes are written
  refine ⟨fun re => { re with
      addr := addr, vif_id := vif_id, idx := p.1.headI, nh_idx := nh_idx, valid := true },
    fun _ => rfl, ?_, ?_, ?_, .inr ⟨p.1.headI, hhead ▸ hfirst, fun _ => rfl, ?_⟩⟩
  · obtain ⟨l, hl⟩ := routeIpv6UpdateTable_eq _ gw p.1.headI
    rw [hl]
    obtain ⟨u, hu⟩ := writeGwV6_eq _ p.1.headI re.is_def (.route vif nh_idx gw.vid)
    rw [hu]
    exact Keyed.modify_modify
      (f := fun re : ReIpv6 => { re with addr := addr, vif_id := vif_id }) fun _ => rfl
  · obtain ⟨l, hl⟩ := routeIpv6UpdateTable_eq _ gw p.1.headI
    rw [hl]
    obtain ⟨u, hu⟩ := writeGwV6_eq _ p.1.headI re.is_def (.route vif nh_idx gw.vid)
    rw [hu]
    rfl
  · obtain ⟨l, hl⟩ := routeIpv6UpdateTable_eq _ gw p.1.headI
    rw [hl]
    obtain ⟨u, hu⟩ := writeGwV6_eq _ p.1.headI re.is_def (.route vif nh_idx gw.vid)
    rw [hu]
    rfl
  · intro q
    obtain ⟨u, hu⟩ := writeGwV6_eq _ p.1.headI re.is_def (.route vif nh_idx gw.vid)
    rw [hu]
    refine lpmIpv6_routeIpv6UpdateTable (s := s) ?_ ?_ p.1.headI q
    · rfl
    · rfl

end Router

namespace Ipv6Routing

variable (t : Ipv6Routing) (gw : GwV6) (pfx : RoutePfxV6)

theorem uc_retIpv6Unref (is_def : Bool) :
    (t.retIpv6Unref gw is_def).uc = (t.uc.retIpv6Unref gw is_def).2 := by
  unfold retIpv6Unref
  cases t.uc.findGwV6 gw with
  | none => rfl
  | some re =>
    dsimp only
    split_ifs
    · rfl
    · rfl

/-- A request changes what `ret_ipv6_add` changes, and installs the prefix where there is an
index. -/
theorem uc_routeIpv6RequestMacAddr (env : RouteEnv) (ret_key : GwV6) :
    (t.routeIpv6RequestMacAddr env gw pfx ret_key).2.uc =
      if 0 ≤ (t.uc.retIpv6Add env gw (pfx.alen = 0) ret_key).1 ∧ pfx.alen ≠ 0 then
        (t.uc.retIpv6Add env gw (pfx.alen = 0) ret_key).2.2.lpmIpv6UcPrefixAdd pfx.addrv6 pfx.alen
          ⟨(t.uc.retIpv6Add env gw (pfx.alen = 0) ret_key).1, 0⟩
      else (t.uc.retIpv6Add env gw (pfx.alen = 0) ret_key).2.2 := by
  unfold routeIpv6RequestMacAddr retIpv6Add
  dsimp only
  split_ifs
  · rfl
  · rfl
  · rfl
  · rfl

/-- Unregistering a prefix changes the prefixes of gateways, and what `ret_ipv6_unref` changes. -/
theorem uc_routeIpv6Unregister_eq : ∃ p, (t.routeIpv6Unregister pfx gw).uc =
      { t.uc with pfxs_ipv6_by_gw := p } ∨
    (t.routeIpv6Unregister pfx gw).uc =
      { (t.uc.retIpv6Unref gw (pfx.alen = 0)).2 with pfxs_ipv6_by_gw := p } := by
  unfold routeIpv6Unregister
  cases t.uc.findPfxsByGw gw with
  | none => exact ⟨_, .inl rfl⟩
  | some pbg =>
    dsimp only
    split_ifs
    · exact ⟨_, .inr (by rw [t.uc_retIpv6Unref])⟩
    · exact ⟨_, .inr (by rw [t.uc_retIpv6Unref])⟩
    · exact ⟨_, .inl rfl⟩

end Ipv6Routing

end Presteramgr
