import Presteramgr.Acl.Model
import Presteramgr.Lib.Sweep

/-!
# User ACLs of a unit (`pcl.c`)

The tables of all devices, the PCL ids of VLANs, and the second copy of the tables on which requests
are tried in fake mode.

## Main definitions

* `AclConf`: a hardware variant;
* `UserAcl`, `Pcl`: the tables of `struct user_acl_t`, and all of the state;
* `AclState.pclIpRuleSet`, `AclState.pclMacRuleSet`, `AclState.pclIpv6RuleSet`,
  `AclState.pclResetRules`: the calls on one copy of the tables;
* `Pcl.step`: the calls on the copy in use, and `pcl_set_fake_mode_enabled`.
-/

namespace Presteramgr

open Function (update)
open Sweep (sweep)

/-- A hardware variant. Ports are given by their number, which starts from 1. -/
structure AclConf where
  NDEVS : ℕ
  NPORTS : ℕ
  port : ℕ → Port
  /-- `stack_id`. -/
  stack_id : ℕ
  stack_pri_port : ℕ
  stack_sec_port : ℕ
  NPORTS_pos : 0 < NPORTS
  ldev_lt : ∀ pid, (port pid).ldev < NDEVS

namespace AclConf

variable (c : AclConf)

/-- `port_ptr`. -/
def portPtr (pid : ℕ) : Option Port := if 1 ≤ pid ∧ pid ≤ c.NPORTS then some (c.port pid) else none

/-- `get_port_ptr`, `none` for `ST_BAD_VALUE`. -/
def getPortPtr (pid : ℕ) : Option Port := (c.portPtr pid).filter fun port => !port.stack

/-- `PORT_IPCL_ID`. -/
def portIpclId (pid : ℕ) : ℕ := 2 * (pid - 1)

/-- `PORT_EPCL_ID`. -/
def portEpclId (pid : ℕ) : ℕ := 2 * (pid - 1) + 1

/-- `vlan_pcl_id_first`. -/
def vlanPclIdFirst : ℕ := 2 * c.NPORTS

/-- `max_pcl_id`. -/
def maxPclId : ℕ := 1023

/-- `per_port_ip_source_guard_rules_count`. -/
def perPortIpSourceGuardRulesCount : ℕ := 10

/-- `vt_stack_entries`. -/
def vtStackEntries : ℕ := 300

/-- `user_acl_stack_entries`. -/
def userAclStackEntries : ℕ := 500

/-- The ports of a device. -/
def portsOf (d : ℕ) : ℕ := (List.range c.NPORTS).countP fun i => (c.port (i + 1)).ldev = d

/-- `user_acl_start_ix`, as `initialize_vars` counts it: the traps of stack ports, 21 rules and the
source guard rules for each port, the VLAN translation, and 2 more rules for each port. -/
def userAclStartIx (d : ℕ) : ℕ :=
  (if c.stack_id ≠ 0 ∧ (c.port c.stack_pri_port).ldev = d then 1 else 0) +
    (if c.stack_id ≠ 0 ∧ (c.port c.stack_sec_port).ldev = d then 1 else 0) +
    c.portsOf d * (21 + perPortIpSourceGuardRulesCount) + vtStackEntries + c.portsOf d * 2

end AclConf

/-- `PCL_CMP_IDX_COUNT`. -/
def PCL_CMP_IDX_COUNT : ℕ := 8

/-- The number of elements of `vlan_ipcl_id`. -/
def VLAN_IPCL_ID_COUNT : ℕ := 4095

/-- `struct user_acl_t`. -/
structure UserAcl where
  /-- The free ids, the top of the stack first. -/
  pcl_ids : List ℕ
  vlan_ipcl_id : ℕ → ℕ
  devs : ℕ → AclDev

/-- The hardware: that of each device, and the PCL ids with which packets of a VLAN are looked
up. -/
structure PclHw where
  devs : ℕ → PclDevHw
  vlan_pcl_id : ℕ → Option ℕ

/-- `user_acl_init`. -/
def userAclInit (c : AclConf) : UserAcl where
  pcl_ids := List.range' c.vlanPclIdFirst (AclConf.maxPclId + 1 - c.vlanPclIdFirst)
  vlan_ipcl_id _ := 0
  devs d :=
    { index_book := ixBookInit (c.userAclStartIx d) AclConf.userAclStackEntries
      bindings := []
      port_cmp_idxs := List.range PCL_CMP_IDX_COUNT
      port_cmps := [] }

/-- The hardware before any rule is set. -/
def pclHwInit : PclHw where
  devs _ := ⟨fun _ => none, fun _ _ _ => none⟩
  vlan_pcl_id _ := none

/-- `curr_acl` with the hardware. -/
structure AclState where
  acl : UserAcl
  hw : PclHw

namespace AclState

variable (c : AclConf) (fake : Bool) (s : AclState)

/-- A device. -/
def dev (d : ℕ) : PclDev := ⟨s.acl.devs d, s.hw.devs d⟩

/-- A device changes. -/
def setDev (d : ℕ) (dev : PclDev) : AclState where
  acl := { s.acl with devs := update s.acl.devs d dev.sw }
  hw := { s.hw with devs := update s.hw.devs d dev.hw }

/-- `pcl_add_vlan_pcl_id`. The result is `none` where the VLAN is outside of `vlan_ipcl_id`. -/
def pclAddVlanPclId (vid : ℕ) : Option (Status × AclState) :=
  if VLAN_IPCL_ID_COUNT ≤ vid then none
  else if s.acl.vlan_ipcl_id vid ≠ 0 then some (.ST_OK, s)
  else match s.acl.pcl_ids with
    | [] => some (.ST_BAD_VALUE, s)
    | pcl_id :: pcl_ids =>
      some (.ST_OK,
        { acl := { s.acl with
            pcl_ids := pcl_ids, vlan_ipcl_id := update s.acl.vlan_ipcl_id vid pcl_id }
          hw := if fake then s.hw
            else { s.hw with vlan_pcl_id := update s.hw.vlan_pcl_id vid (some pcl_id) } })

/-- What setting a rule did: the value that it returned, and what happened on each of the devices
that it came to. -/
structure Report where
  status : Status
  devs : List (ℕ × PclDev.Outcome)

/-- The loop over devices of the functions that set a rule. It ends at the first device that
fails. -/
def ruleSetDevs (a : RuleArgs) (p : RuleParams) (pcl_id : ℕ) : List ℕ → AclState → Report × AclState
  | [], s => (⟨.ST_OK, []⟩, s)
  | d :: ds, s =>
    let (o, dev) := (s.dev d).ruleSet fake a p pcl_id
    let s := s.setDev d dev
    if o.status ≠ .ST_OK then (⟨o.status, [(d, o)]⟩, s)
    else
      let (r, s) := ruleSetDevs a p pcl_id ds s
      (⟨r.status, (d, o) :: r.devs⟩, s)

/-- A call that sets nothing. -/
def refused : Report × AclState := (⟨.ST_BAD_VALUE, []⟩, s)

/-- The common body of the functions that set a rule. -/
def pclRuleSet (a : RuleArgs) (p : RuleParams) : Option (Report × AclState) :=
  if NAME_SZ < a.name.length then some s.refused
  else match a.interface.type with
    | .VLAN =>
      (s.pclAddVlanPclId fake a.interface.num).map fun (status, s) =>
        if status ≠ .ST_OK then s.refused
        else s.ruleSetDevs fake a p (s.acl.vlan_ipcl_id a.interface.num) (List.range c.NDEVS)
    | .PORT =>
      match c.getPortPtr a.interface.num, a.dest with
      | some port, .INGRESS =>
        some (s.ruleSetDevs fake a p (AclConf.portIpclId a.interface.num) [port.ldev])
      | some port, .EGRESS =>
        some (s.ruleSetDevs fake a p (AclConf.portEpclId a.interface.num) [port.ldev])
      | _, _ => some s.refused
    | .other _ => some s.refused

/-- `pcl_ip_rule_set`. -/
def pclIpRuleSet (a : RuleArgs) (rule : IpPclRule) : Option (Report × AclState) :=
  s.pclRuleSet c fake a (.ip rule)

/-- `pcl_mac_rule_set`. -/
def pclMacRuleSet (a : RuleArgs) (rule : MacPclRule) : Option (Report × AclState) :=
  s.pclRuleSet c fake a (.mac rule)

/-- `pcl_ipv6_rule_set`. -/
def pclIpv6RuleSet (a : RuleArgs) (rule : Ipv6PclRule) : Option (Report × AclState) :=
  s.pclRuleSet c fake a (.ipv6 rule)

/-- The loop of `pcl_reset_rules` over devices. -/
def resetDevs (interface : PclInterface) (dest : PclDest) (action_type : PclActionType) :
    AclState :=
  sweep (fun s d => s.setDev d ((s.dev d).resetRules fake interface dest action_type)) c.NDEVS s

/-- The id of a VLAN is pushed on the stack of free ids. -/
def freeVlanPclId (vid : ℕ) : AclState :=
  { s with acl := { s.acl with
      pcl_ids := s.acl.vlan_ipcl_id vid :: s.acl.pcl_ids
      vlan_ipcl_id := update s.acl.vlan_ipcl_id vid 0 } }

/-- `pcl_reset_rules`. The result is `none` where the VLAN is outside of `vlan_ipcl_id`. -/
def pclResetRules (interface : PclInterface) (dest : PclDest) (action_type : PclActionType) :
    Option AclState :=
  match interface.type with
  | .VLAN =>
    if VLAN_IPCL_ID_COUNT ≤ interface.num then none
    else some ((s.freeVlanPclId interface.num).resetDevs c fake interface dest action_type)
  | .PORT => some (s.resetDevs c fake interface dest action_type)
  | .other _ => some s

end AclState

/-! ### Fake mode -/

/-- `user_acl`, `user_acl_fake`, `user_acl_fake_mode` and the hardware. -/
structure Pcl where
  user_acl : UserAcl
  user_acl_fake : UserAcl
  user_acl_fake_mode : Bool
  hw : PclHw

/-- The copy of the tables of a device that is made for fake mode. -/
def AclDev.copy (dev : AclDev) : AclDev :=
  { dev with
    port_cmps := dev.port_cmps.map fun port_cmp =>
      { port_cmp with rule_idxs := port_cmp.rule_idxs.reverse } }

/-- The copy of `vlan_ipcl_id` that is made for fake mode. `memcpy` copies 4095 bytes, and so the
elements below 2047 and the low byte of the next one. -/
def copyVlanIpclId (user fake : ℕ → ℕ) (vid : ℕ) : ℕ :=
  if vid < 2047 then user vid
  else if vid = 2047 then fake vid / 256 * 256 + user vid % 256
  else fake vid

/-- A call. -/
inductive PclOp
  | ipRuleSet (a : RuleArgs) (rule : IpPclRule)
  | macRuleSet (a : RuleArgs) (rule : MacPclRule)
  | ipv6RuleSet (a : RuleArgs) (rule : Ipv6PclRule)
  | resetRules (interface : PclInterface) (dest : PclDest) (action_type : PclActionType)
  | setFakeModeEnabled (enable : Bool)
deriving DecidableEq, Repr

namespace Pcl

variable (c : AclConf) (s : Pcl)

/-- `pcl_init_user_acl`. -/
def init : Pcl where
  user_acl := userAclInit c
  user_acl_fake := userAclInit c
  user_acl_fake_mode := false
  hw := pclHwInit

/-- `curr_acl` with the hardware. -/
def curr : AclState where
  acl := if s.user_acl_fake_mode then s.user_acl_fake else s.user_acl
  hw := s.hw

/-- `curr_acl` and the hardware change. -/
def setCurr (t : AclState) : Pcl :=
  if s.user_acl_fake_mode then { s with user_acl_fake := t.acl, hw := t.hw }
  else { s with user_acl := t.acl, hw := t.hw }

/-- `pcl_set_fake_mode_enabled`. -/
def pclSetFakeModeEnabled (enable : Bool) : Pcl :=
  if enable then
    { s with
      user_acl_fake_mode := true
      user_acl_fake :=
        { pcl_ids := s.user_acl.pcl_ids
          vlan_ipcl_id := copyVlanIpclId s.user_acl.vlan_ipcl_id s.user_acl_fake.vlan_ipcl_id
          devs := fun d => (s.user_acl.devs d).copy } }
  else { s with user_acl_fake_mode := false }

/-- A call: what it did on the devices, and the state after it. It is `none` where `vlan_ipcl_id` is
accessed outside of its bounds. -/
def step : PclOp → Option (List (ℕ × PclDev.Outcome) × Pcl)
  | .ipRuleSet a rule =>
    (s.curr.pclIpRuleSet c s.user_acl_fake_mode a rule).map fun (r, t) => (r.devs, s.setCurr t)
  | .macRuleSet a rule =>
    (s.curr.pclMacRuleSet c s.user_acl_fake_mode a rule).map fun (r, t) => (r.devs, s.setCurr t)
  | .ipv6RuleSet a rule =>
    (s.curr.pclIpv6RuleSet c s.user_acl_fake_mode a rule).map fun (r, t) => (r.devs, s.setCurr t)
  | .resetRules interface dest action_type =>
    (s.curr.pclResetRules c s.user_acl_fake_mode interface dest action_type).map fun t =>
      ([], s.setCurr t)
  | .setFakeModeEnabled enable => some ([], s.pclSetFakeModeEnabled enable)

end Pcl

end Presteramgr
