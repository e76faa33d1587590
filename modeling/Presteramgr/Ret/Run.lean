import Presteramgr.Ret.Group
import Presteramgr.Ret.Ipv6

/-!
# Runs of gateway operations

The entry points of `ret.c` and `ret_group.c` as operations on the routing state.

## Main definitions

* `GwOp` and `gwStep`.
-/

namespace Presteramgr

/-- A call with the outcomes that the hardware and the stack contribute: `junk` is what the index
array of a new group holds before, `arpOk` and `reOk` are the outcomes of hardware writes. -/
inductive GwOp
  | retAdd (gw : Gw) (group_id : ℤ)
  | retUnref (gw : Gw) (group_id : ℤ)
  | retGroupAdd (gws : List Gw) (ip : Ip4) (alen : ℕ) (junk : ℕ → ℤ)
  | retGroupAddPbr (gws : List Gw) (ix : RowColum) (interface : PclInterface) (junk : ℕ → ℤ)
  | retGroupDel (group_id : ℤ) (pfx : Ip4) (alen : ℕ)
  | retGroupDelPbr (group_id : ℤ) (ix : RowColum) (interface : PclInterface)
  | retSetMacAddr (gw : Gw) (addr : Mac) (vif_id : ℕ) (arpOk : Bool)
  | retUnsetMacAddr (gw : Gw)
  | retIpv6Add (gw : GwV6) (is_def : Bool) (ret_key : GwV6)
  | retIpv6Unref (gw : GwV6) (is_def : Bool)
  | retIpv6SetMacAddr (gw : GwV6) (addr : Mac) (vif_id : ℕ) (arpOk reOk : Bool)

/-- Surroundings with one port behind every interface, in which no port routes by policy. -/
def RouteEnv.onePort : RouteEnv := ⟨fun _ => some (.port 0 1), fun _ => none, 1, 4⟩

namespace Router

/-- The state before the first gateway, over tables of zeros. -/
def blank : Router := init (fun _ => .drop) (fun _ => 0) fun _ => ⟨0, 0⟩

/-- One call. All of them return. -/
def gwStep (env : RouteEnv) (s : Router) : GwOp → Option Router
  | .retAdd gw group_id => some (s.retAdd gw group_id).2
  | .retUnref gw group_id => some (s.retUnref gw group_id).2
  | .retGroupAdd gws ip alen junk => some (s.retGroupAdd env gws ip alen junk).2
  | .retGroupAddPbr gws ix interface junk => some (s.retGroupAddPbr env gws ix interface junk).2
  | .retGroupDel group_id pfx alen => some (s.retGroupDel group_id pfx alen)
  | .retGroupDelPbr group_id ix interface => some (s.retGroupDelPbr group_id ix interface)
  | .retSetMacAddr gw addr vif_id arpOk => some (s.retSetMacAddr env gw addr vif_id arpOk).2
  | .retUnsetMacAddr gw => some (s.retUnsetMacAddr env gw).2
  | .retIpv6Add gw is_def ret_key => some (s.retIpv6Add env gw is_def ret_key).2.2
  | .retIpv6Unref gw is_def => some (s.retIpv6Unref gw is_def).2
  | .retIpv6SetMacAddr gw addr vif_id arpOk reOk =>
    some (s.retIpv6SetMacAddr env gw addr vif_id arpOk reOk).2

end Router

end Presteramgr
