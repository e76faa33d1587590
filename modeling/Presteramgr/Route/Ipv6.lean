import Presteramgr.Ret.Ipv6
import Presteramgr.Route.FibIpv6

/-!
# IPv6 routes (`route.c`)

A packet that the packet processor does not know how to route makes the program register the prefix
of its route with the gateway, and ask for the MAC address of the gateway. The prefixes of a gateway
are installed once the address is known.

## Main definitions

* `Ipv6Routing`: the routing state, with what was sent to the neighbour discovery client;
* `routeIpv6Register`, `routeIpv6Unregister` and `routeIpv6RequestMacAddr`;
* `routeAddV6`, `routeDelV6` and `routeHandleIpv6Udaddr`;
* `Ipv6Routing.step`: these calls, answers of the client, and the work of the other families.
-/

namespace Presteramgr

/-- The commands to the neighbour discovery client. -/
inductive NdpdCc
  | IP_ADDR_ADD
  | IP_ADDR_DEL
deriving DecidableEq, Repr

/-- The routing state, and the commands to the neighbour discovery client, the last one first. -/
structure Ipv6Routing where
  uc : Router
  sent : List (NdpdCc × GwV6)

/-- What the hash tables of gateways compare. -/
def PfxsByGw.hashKey (pbg : PfxsByGw) : Ip6 := pbg.gw.hashKey

/-- A write to `ret_key` of a route or of a child. -/
def FibIpv6.setRetKey (f : FibIpv6) (ref : FibRefIpv6) (ret_key : GwV6) : FibIpv6 :=
  match ref with
  | .dflt => { f with dflt := f.dflt.map fun e => { e with ret_key := ret_key } }
  | .entry k => f.modify k fun e => { e with ret_key := ret_key }
  | .child k addr => f.modify k fun e => { e with
      children := Keyed.modify FibNodeIpv6.addr e.children addr fun c =>
        { c with ret_key := ret_key } }

/-- The gateway of a packet: that of the route, or the destination. -/
def FibNodeIpv6.gateway (e : FibNodeIpv6) (daddr : Ip6) : GwV6 :=
  ⟨if e.gw ≠ 0 then e.gw else daddr, e.vid⟩

/-- The prefix that is registered for a packet. -/
def FibNodeIpv6.udPrefix (e : FibNodeIpv6) : RoutePfxV6 := ⟨e.pfx, if e.gw ≠ 0 then e.len else 128⟩

/-- The gateway of a route. -/
def FibNodeIpv6.gwV6 (e : FibNodeIpv6) : GwV6 := ⟨e.gw, e.vid⟩

/-- The prefix of a route. -/
def FibNodeIpv6.routePfx (e : FibNodeIpv6) : RoutePfxV6 := ⟨e.pfx, e.len⟩

/-- A route with its children. -/
def FibEntryIpv6.nodes (e : FibEntryIpv6) : List FibNodeIpv6 := e.toFibNodeIpv6 :: e.children

/-- `route_ipv6_register`. -/
def Router.routeIpv6Register (s : Router) (pfx : RoutePfxV6) (gw : GwV6) : Router :=
  match s.findPfxsByGw gw with
  | none => { s with pfxs_ipv6_by_gw := ⟨gw, [pfx]⟩ :: s.pfxs_ipv6_by_gw }
  | some pbg =>
    if pfx ∈ pbg.pfxs then s
    else { s with
      pfxs_ipv6_by_gw := Keyed.modify PfxsByGw.hashKey s.pfxs_ipv6_by_gw gw.hashKey fun pbg =>
        { pbg with pfxs := pbg.pfxs ++ [pfx] } }

namespace Ipv6Routing

/-- The FIB after a call. -/
def setFib (t : Ipv6Routing) (f : FibIpv6) : Ipv6Routing :=
  { t with uc := { t.uc with fib_ipv6 := f } }

/-- `ndpc_ip_addr_op`. -/
def ndpcIpAddrOp (t : Ipv6Routing) (cmd : NdpdCc) (gw : GwV6) : Ipv6Routing :=
  { t with sent := (cmd, gw) :: t.sent }

/-- `ret_ipv6_unref` with its command. -/
def retIpv6Unref (t : Ipv6Routing) (gw : GwV6) (is_def : Bool) : Ipv6Routing :=
  let t' : Ipv6Routing := { t with uc := (t.uc.retIpv6Unref gw is_def).2 }
  match t.uc.findGwV6 gw with
  | some re => if re.refc - 1 = 0 then t'.ndpcIpAddrOp .IP_ADDR_DEL gw else t'
  | none => t'

/-- `route_ipv6_unregister`. -/
def routeIpv6Unregister (t : Ipv6Routing) (pfx : RoutePfxV6) (gw : GwV6) : Ipv6Routing :=
  match t.uc.findPfxsByGw gw with
  | none => t
  | some pbg =>
    if pfx ∈ pbg.pfxs then
      let t := t.retIpv6Unref gw (pfx.alen = 0)
      { t with uc := { t.uc with
        pfxs_ipv6_by_gw :=
          if pbg.pfxs.erase pfx = [] then
            Keyed.del PfxsByGw.hashKey t.uc.pfxs_ipv6_by_gw gw.hashKey
          else Keyed.modify PfxsByGw.hashKey t.uc.pfxs_ipv6_by_gw gw.hashKey fun pbg =>
            { pbg with pfxs := pbg.pfxs.erase pfx } } }
    else t

/-- `route_add_v6`, `none` where an assertion fails. -/
def routeAddV6 (t : Ipv6Routing) (addr : Ip6) (alen vid : ℕ) (gw : Ip6) : Option Ipv6Routing :=
  (fibIpv6Add t.uc.fib_ipv6 addr alen vid gw).map fun f =>
    let t := t.setFib f
    if alen = 0 then { t with uc := t.uc.ucRouteEntriesWrite DEFAULT_UC_RE_IDX .trap }
    else { t with uc := t.uc.lpmIpv6UcPrefixAdd addr alen ⟨TRAP_RE_IDX, 0⟩ }

/-- `route_del_fib_ipv6_entry`. -/
def routeDelFibIpv6Entry (t : Ipv6Routing) (e : FibNodeIpv6) : Ipv6Routing :=
  let t : Ipv6Routing :=
    if e.len ≠ 0 then { t with uc := t.uc.lpmIpv6UcPrefixDel e.pfx e.len } else t
  t.routeIpv6Unregister e.routePfx e.gwV6

/-- `route_del_v6`, `none` where an assertion fails. -/
def routeDelV6 (t : Ipv6Routing) (addr : Ip6) (alen : ℕ) : Option Ipv6Routing :=
  (fibIpv6Del t.uc.fib_ipv6 addr alen).map fun
    | (some e, f) => e.nodes.foldl routeDelFibIpv6Entry (t.setFib f)
    | (none, _) => t

variable (env : RouteEnv)

/-- `ret_ipv6_add` with its command: a new gateway is asked for. -/
def retIpv6Add (t : Ipv6Routing) (gw : GwV6) (is_def : Bool) (ret_key : GwV6) :
    ℤ × GwV6 × Ipv6Routing :=
  let r := t.uc.retIpv6Add env gw is_def ret_key
  let t' : Ipv6Routing := { t with uc := r.2.2 }
  if t.uc.findGwV6 gw = none ∧ t.uc.re_cnt < MAX_RE then
    (r.1, r.2.1, t'.ndpcIpAddrOp .IP_ADDR_ADD gw)
  else (r.1, r.2.1, t')

/-- `route_ipv6_request_mac_addr`: `ret_key` afterwards, and the state. -/
def routeIpv6RequestMacAddr (t : Ipv6Routing) (gw : GwV6) (pfx : RoutePfxV6) (ret_key : GwV6) :
    GwV6 × Ipv6Routing :=
  let r := t.retIpv6Add env gw (pfx.alen = 0) ret_key
  if 0 ≤ r.1 ∧ pfx.alen ≠ 0 then
    (r.2.1, { r.2.2 with uc := r.2.2.uc.lpmIpv6UcPrefixAdd pfx.addrv6 pfx.alen ⟨r.1, 0⟩ })
  else r.2

/-- `route_handle_ipv6_udaddr`. -/
def routeHandleIpv6Udaddr (t : Ipv6Routing) (daddr : Ip6) : Ipv6Routing :=
  match fibIpv6Route t.uc.fib_ipv6 daddr with
  | (some (ref, e), f) =>
    let t := t.setFib f
    let t := { t with uc := t.uc.routeIpv6Register e.udPrefix (e.gateway daddr) }
    let r := t.routeIpv6RequestMacAddr env (e.gateway daddr) e.udPrefix e.ret_key
    r.2.setFib (r.2.uc.fib_ipv6.setRetKey ref r.1)
  | (none, _) => t

/-- `ret_ipv6_set_mac_addr`: an answer of the client. -/
def retIpv6SetMacAddr (t : Ipv6Routing) (gw : GwV6) (addr : Mac) (vif_id : ℕ)
    (arpOk reOk : Bool) : Status × Ipv6Routing :=
  let r := t.uc.retIpv6SetMacAddr env gw addr vif_id arpOk reOk
  (r.1, { t with uc := r.2 })

/-- Work of the other families: everything but the tables of IPv6 may be another. -/
def others (t : Ipv6Routing) (uc : Router) : Ipv6Routing :=
  { t with uc := { uc with
    ret_ipv6 := t.uc.ret_ipv6
    fib_ipv6 := t.uc.fib_ipv6
    pfxs_ipv6_by_gw := t.uc.pfxs_ipv6_by_gw
    lpmIpv6 := t.uc.lpmIpv6 } }

end Ipv6Routing

/-- The calls. -/
inductive Ipv6Op
  | add (addr : Ip6) (alen vid : ℕ) (gw : Ip6)
  | del (addr : Ip6) (alen : ℕ)
  | udaddr (daddr : Ip6)
  | setMacAddr (gw : GwV6) (addr : Mac) (vif_id : ℕ) (arpOk reOk : Bool)
  | others (uc : Router)

namespace Ipv6Routing

/-- A call, `none` where it does not return. -/
def step (env : RouteEnv) (t : Ipv6Routing) : Ipv6Op → Option Ipv6Routing
  | .add addr alen vid gw => t.routeAddV6 addr alen vid gw
  | .del addr alen => t.routeDelV6 addr alen
  | .udaddr daddr => some (t.routeHandleIpv6Udaddr env daddr)
  | .setMacAddr gw addr vif_id arpOk reOk =>
    some (t.retIpv6SetMacAddr env gw addr vif_id arpOk reOk).2
  | .others uc => some (t.others uc)

/-- The state at the start, over the tables that `uc` held. -/
def init (uc : Router) : Ipv6Routing where
  uc := { uc with
    ret_ipv6 := []
    fib_ipv6 := .empty
    pfxs_ipv6_by_gw := []
    lpmIpv6 := Function.update (fun _ => none) (0, 0) (some ⟨DEFAULT_UC_RE_IDX, 0⟩) }
  sent := []

/-- An environment with one interface. -/
def oneVif : RouteEnv := ⟨fun _ => some (.port 0 1), fun _ => none, 1, 1⟩

/-- The state at the start over empty tables. -/
def emptyRouting : Ipv6Routing := .init (Router.init (fun _ => .drop) (fun _ => 0) fun _ => ⟨0, 0⟩)

end Ipv6Routing

end Presteramgr
