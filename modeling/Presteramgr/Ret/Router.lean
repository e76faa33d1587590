import Mathlib.Logic.Function.Basic
import Presteramgr.Ret.Indexes
import Presteramgr.Ret.Nht

/-!
# Unicast routing state

The tables of `ret.c`, `ret_group.c`, `fib.c`, `fib_ipv6.c` and `route.c`, and the unicast tables
of the packet processor: route entries, LPM prefixes and the LTT entries of policy routing.

## Main definitions

* `Re`, `ReIpv6` and `ReGroup`: gateways of the two families, and groups of gateways that share
  the load of a prefix;
* `FibEntry` and `FibEntryIpv6`: routes;
* `Router`: all of them with the hardware tables.
-/

namespace Presteramgr

open Function (update)

/-- `mkmask` of `fib.c`. -/
def mkmask (n : ℕ) : Ip4 := if n = 0 then 0 else ~~~((1#32 <<< (32 - n)) - 1)

/-! ### Hardware entries -/

/-- `CPSS_INTERFACE_INFO_STC`, as `fill_cpss_if` of a port or a trunk fills it in. -/
inductive CpssInterface
  | port (devNum portNum : ℕ)
  | trunk (trunkId : ℕ)
deriving DecidableEq, Repr

/-- `CPSS_DXCH_IP_UC_ROUTE_ENTRY_STC`, by its command. -/
inductive UcRoute
  | drop
  | trap
  | route (nextHopInterface : CpssInterface) (nextHopARPPointer nextHopVlanId : ℕ)
deriving DecidableEq, Repr

/-- `CPSS_DXCH_IP_LTT_ENTRY_STC`: the route entries `routeEntryBaseIndex` to
`routeEntryBaseIndex + numOfPaths`. -/
structure Ltt where
  routeEntryBaseIndex : ℤ
  numOfPaths : ℤ
deriving DecidableEq, Repr

/-- `struct row_colum`. -/
structure RowColum where
  row : ℕ
  colum : ℕ
deriving DecidableEq, Repr

/-- `pcl_interface_type`, other values included. -/
inductive PclInterfaceType
  | PORT
  | VLAN
  | other (n : ℕ)
deriving DecidableEq, Repr

/-- `struct pcl_interface`. -/
structure PclInterface where
  type : PclInterfaceType
  num : ℕ
deriving DecidableEq, Repr

/-- `struct port`, as far as policy routing reads it. -/
structure Port where
  ldev : ℕ
  stack : Bool

/-- What the routing code asks of the rest of the program. -/
structure RouteEnv where
  /-- `vif_getn`, with what `fill_cpss_if` makes of the interface. -/
  vifGetn : ℕ → Option CpssInterface
  /-- `port_ptr`. -/
  portPtr : ℕ → Option Port
  /-- `NDEVS`. -/
  ndevs : ℕ
  /-- The number of `ST_BAD_VALUE`. -/
  stBadValue : ℤ

/-! ### Gateways -/

/-- `struct gw`. -/
structure Gw where
  addr : Ip4
  vid : ℕ
deriving DecidableEq, Repr

/-- `struct gw_v6`. -/
structure GwV6 where
  addr : Ip6
  vid : ℕ
deriving DecidableEq, Repr

/-- `struct re`. -/
structure Re where
  gw : Gw
  valid : Bool
  addr : Mac
  nh_idx : ℕ
  vif_id : ℕ
  group_ids : List ℤ
deriving DecidableEq, Repr

/-- `struct re_ipv6`. -/
structure ReIpv6 where
  gw : GwV6
  valid : Bool
  is_def : Bool
  idx : ℤ
  addr : Mac
  nh_idx : ℕ
  vif_id : ℕ
  refc : ℤ
deriving DecidableEq, Repr

/-- `struct re_idx`. -/
structure ReIdx where
  gw : Gw
  idx : ℤ
deriving DecidableEq, Repr

/-- `struct route_pfx_pbr`: what a group routes. -/
inductive RoutePfxPbr
  | pfx (addr : Ip4) (alen : ℕ)
  | pbr (ltt_index : RowColum) (interface : PclInterface)
deriving DecidableEq, Repr

/-- `struct re_group`. -/
structure ReGroup where
  group_id : ℤ
  re_count : ℤ
  first_idx : ℤ
  numOfPaths : ℤ
  re_idx : List ReIdx
  pfx_pbr : List RoutePfxPbr
deriving DecidableEq, Repr

/-! ### Routes -/

/-- `struct fib_entry` without its children. -/
structure FibNode where
  addr : Ip4
  pfx : Ip4
  gw : List Ip4
  vid : List ℕ
  len : ℕ
  group_id : ℤ
  ret_key : List Gw
deriving DecidableEq, Repr

/-- `struct fib_entry`. Children have no children. -/
structure FibEntry extends FibNode where
  children : List FibNode
deriving DecidableEq, Repr

/-- `struct fib`: the default route, and the routes of all other lengths. -/
structure Fib where
  dflt : Option FibEntry
  e : List FibEntry
deriving DecidableEq, Repr

/-- `struct fib_entry_ipv6` without its children. -/
structure FibNodeIpv6 where
  addr : Ip6
  pfx : Ip6
  gw : Ip6
  vid : ℕ
  len : ℕ
  ret_key : GwV6
deriving DecidableEq, Repr

/-- `struct fib_entry_ipv6`. -/
structure FibEntryIpv6 extends FibNodeIpv6 where
  children : List FibNodeIpv6
deriving DecidableEq, Repr

/-- `struct fib_ipv6`. -/
structure FibIpv6 where
  dflt : Option FibEntryIpv6
  e : List FibEntryIpv6
deriving DecidableEq, Repr

/-- `struct route_pfx` of IPv6. -/
structure RoutePfxV6 where
  addrv6 : Ip6
  alen : ℕ
deriving DecidableEq, Repr

/-- `struct pfxs_ipv6_by_gw`. -/
structure PfxsByGw where
  gw : GwV6
  pfxs : List RoutePfxV6
deriving DecidableEq, Repr

/-! ### The state -/

/-- The unicast routing tables of the program and of the packet processor. -/
structure Router where
  ret_indexes_used : List ℤ
  ret : List Re
  ret_ipv6 : List ReIpv6
  re_cnt : ℤ
  nh : NhTable
  group_id : List ℤ
  re_group : List ReGroup
  fib : Fib
  fib_ipv6 : FibIpv6
  pfxs_ipv6_by_gw : List PfxsByGw
  ucRoute : ℤ → UcRoute
  /-- The IPv4 prefixes of the LPM, by length and masked address. -/
  lpm : ℕ × Ip4 → Option Ltt
  /-- The IPv6 prefixes of the LPM. -/
  lpmIpv6 : ℕ × Ip6 → Option Ltt
  /-- The LTT rows of policy routing, by device. -/
  ltt : ℕ × RowColum → Ltt

namespace Router

/-- The state after `ret_init` and `cpss_lib_init`, over tables that held `uc`, `arp` and `ltt`. -/
def init (uc : ℤ → UcRoute) (arp : ℕ → Mac) (ltt : ℕ × RowColum → Ltt) : Router where
  ret_indexes_used := []
  ret := []
  ret_ipv6 := []
  re_cnt := 0
  nh := .nhtInit arp
  group_id := []
  re_group := []
  fib := ⟨none, []⟩
  fib_ipv6 := ⟨none, []⟩
  pfxs_ipv6_by_gw := []
  ucRoute := update (update (update (update uc DEFAULT_UC_RE_IDX .drop) MGMT_IP_RE_IDX .trap)
    TRAP_RE_IDX .trap) DROP_RE_IDX .drop
  lpm := update (fun _ => none) (0, 0) (some ⟨DEFAULT_UC_RE_IDX, 0⟩)
  lpmIpv6 := update (fun _ => none) (0, 0) (some ⟨DEFAULT_UC_RE_IDX, 0⟩)
  ltt := ltt

/-- `cpssDxChIpUcRouteEntriesWrite` on all devices. -/
def ucRouteEntriesWrite (s : Router) (idx : ℤ) (rt : UcRoute) : Router :=
  { s with ucRoute := update s.ucRoute idx rt }

/-- `cpssDxChIpLpmIpv4UcPrefixAdd`, which replaces the prefix when it is there. -/
def lpmIpv4UcPrefixAdd (s : Router) (addr : Ip4) (alen : ℕ) (re : Ltt) : Router :=
  { s with lpm := update s.lpm (alen, addr &&& mkmask alen) (some re) }

/-- `cpssDxChIpLpmIpv4UcPrefixDel`. -/
def lpmIpv4UcPrefixDel (s : Router) (addr : Ip4) (alen : ℕ) : Router :=
  { s with lpm := update s.lpm (alen, addr &&& mkmask alen) none }

/-- `mkmask` of `fib_ipv6.c`, which leaves the first `n` bits of the address. -/
def mkmaskIpv6 (addr : Ip6) (n : ℕ) : Ip6 := addr >>> (128 - n) <<< (128 - n)

/-- `cpssDxChIpLpmIpv6UcPrefixAdd`. -/
def lpmIpv6UcPrefixAdd (s : Router) (addr : Ip6) (alen : ℕ) (re : Ltt) : Router :=
  { s with lpmIpv6 := update s.lpmIpv6 (alen, mkmaskIpv6 addr alen) (some re) }

/-- `cpssDxChIpLpmIpv6UcPrefixDel`. -/
def lpmIpv6UcPrefixDel (s : Router) (addr : Ip6) (alen : ℕ) : Router :=
  { s with lpmIpv6 := update s.lpmIpv6 (alen, mkmaskIpv6 addr alen) none }

/-- `cpssDxChIpLttWrite`. -/
def lttWrite (s : Router) (dev : ℕ) (ix : RowColum) (e : Ltt) : Router :=
  { s with ltt := update s.ltt (dev, ix) e }

end Router

end Presteramgr
