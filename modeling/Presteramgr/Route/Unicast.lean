import Presteramgr.Ret.Group
import Presteramgr.Route.Fib

/-!
# Unicast routes (`route.c`)

Routes are added, deleted and changed, and resolved when a packet for an unknown address arrives.
The prefix of a route that is not resolved traps packets to the CPU, that of a resolved route points
at the gateways of a group.

## Main definitions

* `routeAdd`, `routeAddChange`, `routeDel` and `routeChange`;
* `routeAddMgmtIp` and `routeDelMgmtIp`: addresses of the unit itself;
* `routeHandleUdaddr`: the route of an address is resolved;
* `routeResetPrefixes4gw`: a route is deleted and added again.
-/

namespace Presteramgr

/-- The LTT entry that traps packets. -/
def trapEntry : Ltt := ⟨TRAP_RE_IDX, 0⟩

/-- The LTT entry that drops packets. -/
def dropEntry : Ltt := ⟨DROP_RE_IDX, 0⟩

namespace Router

variable (s : Router)

/-- The hardware's part of `route_add` and `route_add_change`, with the entry for the prefix. The
default route has a route entry of its own. -/
def announceRoute (rt : Route) (re : Ltt) : Router :=
  if rt.alen = 0 then s.ucRouteEntriesWrite DEFAULT_UC_RE_IDX .trap
  else s.lpmIpv4UcPrefixAdd rt.addr rt.alen re

/-- `route_add`. -/
def routeAdd (rt : Route) : Except Fault Router :=
  (fibAdd s.fib rt).map fun fib => { s with fib := fib }.announceRoute rt trapEntry

/-- `route_add_change`. -/
def routeAddChange (rt : Route) : Except Fault Router :=
  (fibAdd s.fib rt).map fun fib => { s with fib := fib }.announceRoute rt dropEntry

/-- `route_del_fib_entry`. -/
def routeDelFibEntry (e : FibNode) : Router :=
  let s := s.retGroupDel e.group_id e.pfx e.len
  if e.len ≠ 0 then s.lpmIpv4UcPrefixDel e.pfx e.len
  else s.lpmIpv4UcPrefixAdd e.pfx e.len ⟨DEFAULT_UC_RE_IDX, 0⟩

/-- `fib_del_entry_with_children`. -/
def fibDelEntryWithChildren (e : FibEntry) : Router :=
  (e.children.foldl routeDelFibEntry s).routeDelFibEntry e.toFibNode

/-- `route_del`, with `fib_del`. -/
def routeDel (rt : Route) : Except Fault Router :=
  (fibGet s.fib rt.addr rt.alen).map fun
    | none => s
    | some e => { s with fib := s.fib.remove e }.fibDelEntryWithChildren e

/-- `route_add_mgmt_ip`. -/
def routeAddMgmtIp (addr : Ip4) : Router := s.lpmIpv4UcPrefixAdd addr 32 ⟨MGMT_IP_RE_IDX, 0⟩

/-- `route_del_mgmt_ip`. -/
def routeDelMgmtIp (addr : Ip4) : Router := s.lpmIpv4UcPrefixDel addr 32

variable (env : RouteEnv)

/-- `route_request_mac_addr` for an entry of the table. The three arrays `gw_arr`, `ret_key_arr`
and, in `ret_group_add`, `idxs` have eight slots. The lists `gw` and `vid` of an entry are equally
long. -/
def routeRequestMacAddr (ref : FibRef) (e : FibNode) (alen : ℕ) (junk : ℕ → ℤ) :
    Except Fault Router :=
  if 8 < e.gw.length ∨ 8 < e.vid.length ∨ 8 < e.ret_key.length then .error .outOfBounds
  else
    let (gid, s) := s.retGroupAdd env (List.zipWith Gw.mk e.gw e.vid) e.pfx alen junk
    .ok { s with fib := s.fib.setGroupId gid ref }

/-- `route_handle_udaddr`. -/
def routeHandleUdaddr (daddr : Ip4) (junk : ℕ → ℤ) : Except Fault Router :=
  let (r, fib) := fibRoute s.fib daddr
  let s := { s with fib := fib }
  match r with
  | none => .ok s
  | some (ref, e) =>
    if e.group_id ≠ 0 then .ok s
    else s.routeRequestMacAddr env ref e (if e.gw = [] then 32 else e.len) junk

/-- `route_change`. -/
def routeChange (rt : Route) (junk : ℕ → ℤ) : Except Fault Router :=
  (fibGet s.fib rt.addr rt.alen).bind fun e =>
    (s.routeDel rt).bind fun s =>
      if (e.elim 0 fun e => e.group_id) ≠ 0 then
        (s.routeAddChange rt).bind fun s => s.routeHandleUdaddr env rt.addr junk
      else s.routeAdd rt

/-- `route_reset_prefixes4gw`. Its local variable holds `rt` until it is assigned, which is not the
case without a route of the prefix. -/
def routeResetPrefixes4gw (addr : Ip4) (alen : ℕ) (rt : Route) : Except Fault Router :=
  (fibGet s.fib addr alen).bind fun e =>
    (e.elim (.ok rt) fun e => fibToRoute e.toFibNode rt).bind fun rt =>
      (s.routeDel rt).bind fun s => s.routeAdd rt

end Router

end Presteramgr
