import Presteramgr.Ret.Router

/-!
# IPv6 gateways (`ret.c`)

An IPv6 gateway whose MAC address is known has a route entry of its own. The tables of IPv6
gateways hash `sizeof (struct gw)` bytes of a `struct gw_v6`, which are the first six bytes of the
address.

## Main definitions

* `retIpv6Add`, `retIpv6Unref` and `retIpv6SetMacAddr`;
* `routeIpv6UpdateTable`: the prefixes of a gateway point at its route entry.
-/

namespace Presteramgr

/-- `MAX_RE`. -/
def MAX_RE : ℤ := 4096 - FIRST_REGULAR_RE_IDX

/-- The bytes of a gateway that the hash tables compare. -/
def GwV6.hashKey (gw : GwV6) : Ip6 := gw.addr >>> 80

/-- The key after `memcpy` of `sizeof (struct gw)` bytes. -/
def GwV6.copyGw (ret_key gw : GwV6) : GwV6 :=
  { ret_key with addr := gw.addr >>> 80 <<< 80 ||| ret_key.addr &&& (1#128 <<< 80) - 1 }

namespace Router

/-- `HASH_FIND_GW` in `ret_ipv6`. -/
def findGwV6 (s : Router) (gw : GwV6) : Option ReIpv6 :=
  Keyed.find (fun re : ReIpv6 => re.gw.hashKey) s.ret_ipv6 gw.hashKey

/-- A change of the gateway's entry in place. -/
def modifyGwV6 (s : Router) (gw : GwV6) (f : ReIpv6 → ReIpv6) : Router :=
  { s with ret_ipv6 := Keyed.modify (fun re : ReIpv6 => re.gw.hashKey) s.ret_ipv6 gw.hashKey f }

/-- `HASH_FIND_GW` in `pfxs_ipv6_by_gw`. -/
def findPfxsByGw (s : Router) (gw : GwV6) : Option PfxsByGw :=
  Keyed.find (fun pbg : PfxsByGw => pbg.gw.hashKey) s.pfxs_ipv6_by_gw gw.hashKey

/-- `route_ipv6_update_table`. -/
def routeIpv6UpdateTable (s : Router) (gw : GwV6) (idx : ℤ) : Router :=
  match s.findPfxsByGw gw with
  | none => s
  | some pbg => pbg.pfxs.foldl (fun s pbp =>
      if pbp.alen ≠ 0 then s.lpmIpv6UcPrefixAdd pbp.addrv6 pbp.alen ⟨idx, 0⟩ else s) s

variable (env : RouteEnv)

/-- The part of `ret_ipv6_add` for the default route. -/
def claimDefault (s : Router) (gw : GwV6) (re : ReIpv6) : Router :=
  let s := s.modifyGwV6 gw fun re => { re with is_def := true }
  match re.valid, env.vifGetn re.vif_id with
  | true, some vif => s.ucRouteEntriesWrite DEFAULT_UC_RE_IDX (.route vif re.nh_idx gw.vid)
  | _, _ => s

/-- `ret_ipv6_add`: the index of the gateway, and `ret_key` afterwards. The test of `ret_key` for
an address compares an array with `NULL`, so that only its VLAN counts. -/
def retIpv6Add (s : Router) (gw : GwV6) (is_def : Bool) (ret_key : GwV6) : ℤ × GwV6 × Router :=
  match s.findGwV6 gw with
  | some re =>
    let s := if ret_key.vid = 0 then s.modifyGwV6 gw fun re => { re with refc := re.refc + 1 }
      else s
    let ret_key := if ret_key.vid = 0 then ret_key.copyGw gw else ret_key
    let s := if is_def then s.claimDefault env gw re else s
    (if re.valid then re.idx else -1, ret_key, s)
  | none =>
    if s.re_cnt ≥ MAX_RE then (env.stBadValue, ret_key, s)
    else
      (-1, gw, { s with
        ret_ipv6 := ⟨gw, false, is_def, 0, 0, 0, 0, 1⟩ :: s.ret_ipv6
        re_cnt := s.re_cnt + 1 })

/-- The part of `ret_ipv6_unref` for the default route. -/
def resetDefault (s : Router) (gw : GwV6) (re : ReIpv6) : Router :=
  let s := s.modifyGwV6 gw fun re => { re with is_def := false }
  if re.valid then s.ucRouteEntriesWrite DEFAULT_UC_RE_IDX .drop else s

/-- The part of `ret_ipv6_unref` for the last reference. -/
def deleteGwV6 (s : Router) (gw : GwV6) (re : ReIpv6) : Router :=
  let s := { s with
    ret_ipv6 := Keyed.del (fun re : ReIpv6 => re.gw.hashKey) s.ret_ipv6 gw.hashKey }
  let s := if re.valid then { s with
      ret_indexes_used := Ret.resPush s.ret_indexes_used 1 [re.idx]
      nh := (s.nh.nhtUnref re.addr).2 }
    else s
  { s with re_cnt := s.re_cnt - 1 }

/-- `ret_ipv6_unref`. -/
def retIpv6Unref (s : Router) (gw : GwV6) (is_def : Bool) : Status × Router :=
  match s.findGwV6 gw with
  | none => (.ST_DOES_NOT_EXIST, s)
  | some re =>
    let s := if is_def then s.resetDefault gw re else s
    let s := s.modifyGwV6 gw fun re => { re with refc := re.refc - 1 }
    if re.refc - 1 = 0 then (.ST_OK, s.deleteGwV6 gw re) else (.ST_OK, s)

/-- The route entry of a gateway, written at its index and, for the default route, at
`DEFAULT_UC_RE_IDX`. -/
def writeGwV6 (s : Router) (idx : ℤ) (is_def : Bool) (rt : UcRoute) : Router :=
  let s := s.ucRouteEntriesWrite idx rt
  if is_def then s.ucRouteEntriesWrite DEFAULT_UC_RE_IDX rt else s

/-- `ret_ipv6_set_mac_addr`. `arpOk` and `reOk` are the outcomes of the writes of the ARP entry
and, for a known address, of the route entry. -/
def retIpv6SetMacAddr (s : Router) (gw : GwV6) (addr : Mac) (vif_id : ℕ) (arpOk reOk : Bool) :
    Status × Router :=
  match env.vifGetn vif_id with
  | none => (.ST_HEX, s)
  | some vif =>
    match s.findGwV6 gw with
    | none => (.ST_DOES_NOT_EXIST, s)
    | some re =>
      if re.valid ∧ re.addr = addr then
        if reOk then
          let s := s.modifyGwV6 gw fun re => { re with vif_id := vif_id }
          (.ST_OK, s.writeGwV6 re.idx re.is_def (.route vif re.nh_idx gw.vid))
        else (.ST_HEX, s)
      else
        let s := s.modifyGwV6 gw fun re => { re with addr := addr, vif_id := vif_id }
        match s.nh.nhtAdd addr arpOk with
        | (none, nh) => (.ST_HEX, { s with nh := nh })
        | (some nh_idx, nh) =>
          let s := { s with nh := nh }
          match Ret.resPop s.ret_indexes_used 1 with
          | none => (.ST_BAD_VALUE, s)
          | some (ids, used) =>
            let idx := ids.headI
            let s := { s with ret_indexes_used := used }
            let s := s.writeGwV6 idx re.is_def (.route vif nh_idx gw.vid)
            let s := s.modifyGwV6 gw fun re =>
              { re with idx := idx, addr := addr, nh_idx := nh_idx, valid := true }
            (.ST_OK, s.routeIpv6UpdateTable gw idx)

end Router

end Presteramgr
