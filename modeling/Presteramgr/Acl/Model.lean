import Presteramgr.Lib.Keyed
import Presteramgr.Ret.Router

/-!
# User ACL rules (`pcl.c`)

User rules of ports and VLANs live in one part of the TCAM of each device. The index book keeps ACL
rules before QoS rules before policy routing, moving rules to make room; the bindings say which rule
stands where. Ranges of TCP and UDP ports are tested by eight comparators that rules share.

## Main definitions

* `RuleArgs`, `RuleParams`: what a rule is set with;
* `PclDev`: the tables of a device with its hardware;
* `PclDev.ixBookTake`, `PclDev.ixBookReturn`: the index book;
* `PclDev.pclAddPortCmpIx`: port comparators;
* `PclDev.ruleSet`, `PclDev.resetRules`: a rule is set, and the rules of an interface are removed,
  on one device.
-/

namespace Presteramgr

open Function (update)

/-! ### Rules -/

/-- `pcl_dest_t`, other values included. -/
inductive PclDest
  | INGRESS
  | EGRESS
  | other (n : ℕ)
deriving DecidableEq, Repr

/-- `pcl_action_type_t`, other values included. -/
inductive PclActionType
  | ACL
  | POLICY
  | POLICY_ROUTE
  | other (n : ℕ)
deriving DecidableEq, Repr

/-- The `mark` of a policy, other values included. -/
inductive PclRuleActMark
  | COS
  | DSCP
  | BOTH
  | other (n : ℕ)
deriving DecidableEq, Repr

/-- `struct pcl_rule_action_policy`. -/
structure PclRuleActionPolicy where
  qos_profile_id : ℕ
  policer_index : ℕ
  mark : PclRuleActMark
deriving DecidableEq, Repr

/-- `pcl_rule_action_t` with its parameters, other values included. -/
inductive PclRuleAction
  | PERMIT
  | DENY
  | PERMIT_POLICY (params : PclRuleActionPolicy)
  | DENY_POLICY
  | PERMIT_PBR (ltt_index : RowColum)
  | DENY_PBR (ltt_index : RowColum)
  | other (n : ℕ)
deriving DecidableEq, Repr

/-- `pcl_rule_trap_action_t`, other values included. -/
inductive PclRuleTrapAction
  | NONE
  | LOG_INPUT
  | other (n : ℕ)
deriving DecidableEq, Repr

/-- `IP_PROTO_TCP`. -/
def IP_PROTO_TCP : ℕ := 0x6

/-- `IP_PROTO_UDP`. -/
def IP_PROTO_UDP : ℕ := 0x11

/-- What `struct ip_pcl_rule` and `struct ipv6_pcl_rule` have in common. -/
structure L4PclRule where
  proto : ℕ
  src_ip_port_single : Bool
  src_ip_port : ℕ
  src_ip_port_max : ℕ
  src_ip_port_mask : ℕ
  dst_ip_port_single : Bool
  dst_ip_port : ℕ
  dst_ip_port_max : ℕ
  dst_ip_port_mask : ℕ
  dscp : ℕ
  dscp_mask : ℕ
  icmp_type : ℕ
  icmp_type_mask : ℕ
  icmp_code : ℕ
  icmp_code_mask : ℕ
  tcp_flags : ℕ
  tcp_flags_mask : ℕ
  trap_action : PclRuleTrapAction
deriving DecidableEq, Repr

/-- `is_tcp_or_udp`. -/
def L4PclRule.isTcpOrUdp (r : L4PclRule) : Bool :=
  decide (r.proto = IP_PROTO_TCP) || decide (r.proto = IP_PROTO_UDP)

/-- `struct ip_pcl_rule`. -/
structure IpPclRule extends L4PclRule where
  src_ip : ℕ
  src_ip_mask : ℕ
  dst_ip : ℕ
  dst_ip_mask : ℕ
  igmp_type : ℕ
  igmp_type_mask : ℕ
deriving DecidableEq, Repr

/-- `struct mac_pcl_rule`. -/
structure MacPclRule where
  src_mac : ℕ
  src_mac_mask : ℕ
  dst_mac : ℕ
  dst_mac_mask : ℕ
  eth_type : ℕ
  eth_type_mask : ℕ
  vid : ℕ
  vid_mask : ℕ
  cos : ℕ
  cos_mask : ℕ
  trap_action : PclRuleTrapAction
deriving DecidableEq, Repr

/-- `struct ipv6_pcl_rule`. -/
structure Ipv6PclRule extends L4PclRule where
  src : ℕ
  src_mask : ℕ
  dst : ℕ
  dst_mask : ℕ
deriving DecidableEq, Repr

/-- The parameters of a rule, by the function that sets it. -/
inductive RuleParams
  | ip (rule : IpPclRule)
  | mac (rule : MacPclRule)
  | ipv6 (rule : Ipv6PclRule)
deriving DecidableEq, Repr

/-- The other arguments of the functions that set a rule. -/
structure RuleArgs where
  name : List ℕ
  action_type : PclActionType
  rule_num : ℕ
  interface : PclInterface
  dest : PclDest
  rule_action : PclRuleAction
deriving DecidableEq, Repr

/-- `NAME_SZ`. -/
def NAME_SZ : ℕ := 32

/-- `struct rule_binding_key`. -/
structure RuleBindingKey where
  name : List ℕ
  acttype : PclActionType
  num : ℕ
  interface : PclInterface
  destination : PclDest
deriving DecidableEq, Repr

/-- The key of a rule. The name is filled up with zeros. -/
def RuleArgs.bindKey (a : RuleArgs) : RuleBindingKey where
  name := a.name ++ List.replicate (NAME_SZ - a.name.length) 0
  acttype := a.action_type
  num := a.rule_num
  interface := a.interface
  destination := a.dest

/-! ### Hardware entries -/

/-- `CPSS_PACKET_CMD_ENT`, the commands in use. -/
inductive PacketCmd
  | FORWARD
  | DROP_HARD
deriving DecidableEq, Repr

/-- The QoS part of an action. -/
structure QosAction where
  modifyDscp : Bool
  modifyUp : Bool
  profileIndex : ℕ
deriving DecidableEq, Repr

/-- `CPSS_DXCH_PCL_ACTION_STC`, the parts that are filled in. -/
structure PclAction where
  pktCmd : PacketCmd
  actionStop : Bool
  qos : Option QosAction
  policerId : Option ℕ
  egressPolicy : Bool
  routerLttIndex : Option ℕ
  matchCounterIndex : Option ℕ
deriving DecidableEq, Repr

/-- An action of which only the packet command is filled in. -/
def PclAction.cmd (pktCmd : PacketCmd) (actionStop : Bool) : PclAction :=
  ⟨pktCmd, actionStop, none, none, false, none, none⟩

/-- `pbr_set_ltt_entry`. -/
def pbrSetLttEntry (ltt_index : RowColum) (act : PclAction) : PclAction :=
  { act with routerLttIndex := some (ltt_index.row * 4 + ltt_index.colum) }

/-- The QoS part of a policy, `none` for a wrong mark. -/
def PclRuleActionPolicy.setQos (p : PclRuleActionPolicy) (act : PclAction) : Option PclAction :=
  if p.qos_profile_id = 0 then some act
  else match p.mark with
    | .COS => some { act with qos := some ⟨false, true, p.qos_profile_id⟩ }
    | .DSCP => some { act with qos := some ⟨true, false, p.qos_profile_id⟩ }
    | .BOTH => some { act with qos := some ⟨true, true, p.qos_profile_id⟩ }
    | .other _ => none

/-- The policer of a policy. -/
def PclRuleActionPolicy.setPolicer (p : PclRuleActionPolicy) (dest : PclDest) (act : PclAction) :
    PclAction :=
  if p.policer_index = 0 then act
  else { act with policerId := some p.policer_index, egressPolicy := decide (dest ≠ .INGRESS) }

/-- `set_pcl_action`, before the trap action. -/
def setRuleAction (dest : PclDest) : PclRuleAction → Option PclAction
  | .PERMIT => some (.cmd .FORWARD true)
  | .DENY => some (.cmd .DROP_HARD true)
  | .PERMIT_POLICY params =>
    (params.setQos (.cmd .FORWARD true)).map fun act => params.setPolicer dest act
  | .DENY_POLICY => some (.cmd .FORWARD true)
  | .PERMIT_PBR ltt_index => some (pbrSetLttEntry ltt_index (.cmd .FORWARD false))
  | .DENY_PBR ltt_index => some (pbrSetLttEntry ltt_index (.cmd .FORWARD false))
  | .other _ => none

/-- The trap action of `set_pcl_action`. -/
def setTrapAction (rule_ix : ℕ) (act : PclAction) : PclRuleTrapAction → Option PclAction
  | .LOG_INPUT => some { act with matchCounterIndex := some rule_ix }
  | .NONE => some act
  | .other _ => none

/-- `set_pcl_action`. -/
def setPclAction (rule_ix : ℕ) (dest : PclDest) (action : PclRuleAction)
    (trap_action : PclRuleTrapAction) : Option PclAction :=
  (setRuleAction dest action).bind fun act => setTrapAction rule_ix act trap_action

/-- `CPSS_DXCH_PCL_RULE_FORMAT_TYPE_ENT`, the formats in use. -/
inductive RuleType
  | INGRESS_EXT_NOT_IPV6
  | EGRESS_EXT_NOT_IPV6
  | INGRESS_EXT_IPV6_L4
  | EGRESS_EXT_IPV6_L4
deriving DecidableEq, Repr

/-- `pcl_init_port_comparators`: the formats of which `portComparator` holds the bits of
comparators. `udb[2]` is set up for the first format only. -/
def RuleType.readsComparators : RuleType → Bool
  | .INGRESS_EXT_NOT_IPV6 => true
  | .INGRESS_EXT_IPV6_L4 => false
  | .EGRESS_EXT_NOT_IPV6 => true
  | .EGRESS_EXT_IPV6_L4 => true

/-- The fields of `CPSS_DXCH_PCL_RULE_FORMAT_UNT` that rules test. `portComparator` is
`commonExt.egrTcpUdpPortComparator` of an egress rule and `udb[2]` of an ingress rule. -/
inductive RuleField
  | pclId
  | vid
  | up
  | isL2Valid
  | l2Encap
  | isIp
  | isIpv6
  | ipProtocol
  | sip
  | dip
  | dscp
  | l4Byte0
  | l4Byte1
  | l4Byte2
  | l4Byte3
  | l4Byte13
  | portComparator
  | macSa
  | macDa
  | etherType
deriving DecidableEq, Repr

/-- A field of the rule and of its mask. -/
structure Masked where
  value : ℕ
  mask : ℕ
deriving DecidableEq, Repr

/-- `rule` and `mask`. -/
abbrev RuleFormat := RuleField → Masked

namespace RuleFormat

variable (f : RuleFormat)

/-- `rule` and `mask` after `memset`. -/
def zero : RuleFormat := fun _ => ⟨0, 0⟩

/-- One field is set. -/
def set (field : RuleField) (value mask : ℕ) : RuleFormat := update f field ⟨value, mask⟩

/-- `nth_byte`. -/
def nthByte (n value : ℕ) : ℕ := value >>> (n * 8) % 256

/-- `set_src_ip_port`. -/
def setSrcIpPort (port mask : ℕ) : RuleFormat :=
  (f.set .l4Byte0 (nthByte 1 port) (nthByte 1 mask)).set .l4Byte1 (nthByte 0 port) (nthByte 0 mask)

/-- `set_dst_ip_port`. -/
def setDstIpPort (port mask : ℕ) : RuleFormat :=
  (f.set .l4Byte2 (nthByte 1 port) (nthByte 1 mask)).set .l4Byte3 (nthByte 0 port) (nthByte 0 mask)

/-- The bits of comparators. -/
def bitmap (cmp_ix : List ℕ) : ℕ := cmp_ix.foldr (fun ix b => 2 ^ ix % 256 ||| b) 0

/-- `set_ip_port_range`. -/
def setIpPortRange (cmp_ix : List ℕ) : RuleFormat :=
  f.set .portComparator ((f .portComparator).value ||| bitmap cmp_ix)
    ((f .portComparator).mask ||| bitmap cmp_ix)

/-- The part of `set_ip_rule` and `set_ipv6_rule` about ports. -/
def setL4Ports (r : L4PclRule) (src_cmp_ix dst_cmp_ix : List ℕ) : RuleFormat :=
  if r.isTcpOrUdp then
    let f :=
      if r.src_ip_port_single then f.setSrcIpPort r.src_ip_port r.src_ip_port_mask
      else f.setIpPortRange src_cmp_ix
    if r.dst_ip_port_single then f.setDstIpPort r.dst_ip_port r.dst_ip_port_mask
    else f.setIpPortRange dst_cmp_ix
  else f

/-- `set_ip_protocol`, 0xFF standing for any. -/
def setIpProtocol (proto : ℕ) : RuleFormat :=
  if proto ≠ 0xFF then f.set .ipProtocol proto 0xFF else f

/-- The VLAN of the interface goes into the rule. -/
def overrideVid (vid : Option ℕ) : RuleFormat :=
  match vid with
  | some vid => f.set .vid vid 0xfff
  | none => f

/-- `set_ip_rule`, `vid` being the VLAN where `override_vid` is set. -/
def setIpRule (pcl_id : ℕ) (vid : Option ℕ) (r : IpPclRule) (src_cmp_ix dst_cmp_ix : List ℕ) :
    RuleFormat :=
  let f := ((f.set .pclId pcl_id 0xFFFF).set .isL2Valid 1 0xFF).set .isIp 1 0xFF
  let f := f.setIpProtocol r.proto
  let f := (f.set .sip r.src_ip r.src_ip_mask).set .dip r.dst_ip r.dst_ip_mask
  let f := f.set .dscp r.dscp r.dscp_mask
  let f := f.setL4Ports r.toL4PclRule src_cmp_ix dst_cmp_ix
  let f :=
    if r.proto = 0x01 then
      (f.set .l4Byte0 r.icmp_type r.icmp_type_mask).set .l4Byte1 r.icmp_code r.icmp_code_mask
    else if r.proto = 0x02 then f.set .l4Byte0 r.igmp_type r.igmp_type_mask
    else if r.proto = 0x06 then f.set .l4Byte13 r.tcp_flags r.tcp_flags_mask
    else f
  f.overrideVid vid

/-- `set_mac_rule`. -/
def setMacRule (pcl_id : ℕ) (vid : Option ℕ) (r : MacPclRule) : RuleFormat :=
  let f := ((f.set .pclId pcl_id 0xFFFF).set .isL2Valid 1 0xFF).set .l2Encap 1 0xFF
  let f := (f.set .macSa r.src_mac r.src_mac_mask).set .macDa r.dst_mac r.dst_mac_mask
  let f := f.set .etherType r.eth_type r.eth_type_mask
  let f := (f.set .vid r.vid r.vid_mask).overrideVid vid
  f.set .up r.cos r.cos_mask

/-- `set_ipv6_rule`. It does not test the protocol. -/
def setIpv6Rule (pcl_id : ℕ) (vid : Option ℕ) (r : Ipv6PclRule) (src_cmp_ix dst_cmp_ix : List ℕ) :
    RuleFormat :=
  let f := (((f.set .pclId pcl_id 0xFFFF).set .isL2Valid 1 0xFF).set .isIp 1 0xFF).set .isIpv6 1 0xFF
  let f := (f.set .sip r.src r.src_mask).set .dip r.dst r.dst_mask
  let f := f.set .dscp r.dscp r.dscp_mask
  let f := f.setL4Ports r.toL4PclRule src_cmp_ix dst_cmp_ix
  let f :=
    if r.proto = 0x01 then
      (f.set .l4Byte0 r.icmp_type r.icmp_type_mask).set .l4Byte1 r.icmp_code r.icmp_code_mask
    else if r.proto = 0x06 then f.set .l4Byte13 r.tcp_flags r.tcp_flags_mask
    else f
  f.overrideVid vid

end RuleFormat

/-- A valid entry of the TCAM. -/
structure PclEntry where
  type : RuleType
  rule : RuleFormat
  act : PclAction

/-! ### Port comparators -/

/-- `enum pcl_ip_port_type`. -/
inductive PclIpPortType
  | SRC
  | DST
deriving DecidableEq, Repr

/-- `enum pcl_port_cmp_operator`. -/
inductive PclPortCmpOperator
  | GTE
  | LTE
deriving DecidableEq, Repr

/-- `struct port_cmp_key`. -/
structure PortCmpKey where
  destination : PclDest
  ip_proto : ℕ
  port_type : PclIpPortType
  op : PclPortCmpOperator
  port_num : ℕ
deriving DecidableEq, Repr

/-- `struct port_cmp`. -/
structure PortCmp where
  key : PortCmpKey
  cmp_ix : ℕ
  rule_idxs : List ℕ
deriving DecidableEq, Repr

/-- The calls of `pcl_add_port_cmp_ix` for the source ports. -/
def L4PclRule.srcCmps (r : L4PclRule) (dest : PclDest) : List PortCmpKey :=
  if r.isTcpOrUdp && !r.src_ip_port_single then
    [⟨dest, r.proto, .SRC, .GTE, r.src_ip_port⟩, ⟨dest, r.proto, .SRC, .LTE, r.src_ip_port_max⟩]
  else []

/-- The calls of `pcl_add_port_cmp_ix` for the destination ports. -/
def L4PclRule.dstCmps (r : L4PclRule) (dest : PclDest) : List PortCmpKey :=
  if r.isTcpOrUdp && !r.dst_ip_port_single then
    [⟨dest, r.proto, .DST, .GTE, r.dst_ip_port⟩, ⟨dest, r.proto, .DST, .LTE, r.dst_ip_port_max⟩]
  else []

namespace RuleParams

/-- What a rule has of ports and protocols. -/
def l4 : RuleParams → Option L4PclRule
  | .ip rule => some rule.toL4PclRule
  | .mac _ => none
  | .ipv6 rule => some rule.toL4PclRule

/-- The comparators that a rule asks for, the one that tests the lowest source port first. -/
def cmps (p : RuleParams) (dest : PclDest) : List PortCmpKey :=
  match p.l4 with
  | some r => r.srcCmps dest ++ r.dstCmps dest
  | none => []

/-- The trap action of a rule. -/
def trapAction : RuleParams → PclRuleTrapAction
  | .ip rule => rule.trap_action
  | .mac rule => rule.trap_action
  | .ipv6 rule => rule.trap_action

/-- The format of a rule, `none` for a direction that there is not. -/
def type (p : RuleParams) (dest : PclDest) : Option RuleType :=
  match p, dest with
  | .ip _, .INGRESS | .mac _, .INGRESS => some .INGRESS_EXT_NOT_IPV6
  | .ip _, .EGRESS | .mac _, .EGRESS => some .EGRESS_EXT_NOT_IPV6
  | .ipv6 _, .INGRESS => some .INGRESS_EXT_IPV6_L4
  | .ipv6 _, .EGRESS => some .EGRESS_EXT_IPV6_L4
  | _, .other _ => none

/-- The rule with its mask. `cmp_ix` are the comparators that the calls for source ports and then
those for destination ports gave. -/
def format (p : RuleParams) (pcl_id : ℕ) (vid : Option ℕ) (dest : PclDest) (cmp_ix : List ℕ) :
    RuleFormat :=
  match p with
  | .ip rule =>
    RuleFormat.zero.setIpRule pcl_id vid rule (cmp_ix.take (rule.srcCmps dest).length)
      (cmp_ix.drop (rule.srcCmps dest).length)
  | .mac rule => RuleFormat.zero.setMacRule pcl_id vid rule
  | .ipv6 rule =>
    RuleFormat.zero.setIpv6Rule pcl_id vid rule (cmp_ix.take (rule.srcCmps dest).length)
      (cmp_ix.drop (rule.srcCmps dest).length)

end RuleParams

/-! ### Devices -/

/-- `struct index_book`. -/
structure IxBook where
  start : ℕ
  end_ : ℕ
  acl_end : ℕ
  qos_end : ℕ
  pbr_end : ℕ
deriving DecidableEq, Repr

/-- `ix_book_init`. -/
def ixBookInit (start size : ℕ) : IxBook :=
  let start := if start = 0 then 2000 else start
  ⟨start, start + size, start, start, start⟩

/-- `struct rule_binding`. -/
structure RuleBinding where
  key : RuleBindingKey
  rule_ix : ℕ
deriving DecidableEq, Repr

/-- `struct user_acl_t`, the tables of one device. -/
structure AclDev where
  index_book : IxBook
  bindings : List RuleBinding
  /-- The free comparators, the top of the stack first. -/
  port_cmp_idxs : List ℕ
  port_cmps : List PortCmp
deriving DecidableEq, Repr

/-- `CPSS_L4_PROTOCOL_ENT`. -/
inductive L4Protocol
  | TCP
  | UDP
deriving DecidableEq, Repr

/-- `CPSS_PCL_DIRECTION_ENT`. -/
inductive PclDirection
  | INGRESS
  | EGRESS
deriving DecidableEq, Repr

/-- A comparator that is set. -/
structure PortComparator where
  port_type : PclIpPortType
  op : PclPortCmpOperator
  port_num : ℕ
deriving DecidableEq, Repr

/-- The TCAM and the comparators of a device, `none` standing for an invalid entry and for a
comparator that was not set. -/
structure PclDevHw where
  tcam : ℕ → Option PclEntry
  comparators : PclDirection → L4Protocol → ℕ → Option PortComparator

/-- The tables and the hardware of a device. -/
structure PclDev where
  sw : AclDev
  hw : PclDevHw

/-- The direction of a rule. -/
def PclDest.direction : PclDest → Option PclDirection
  | .INGRESS => some .INGRESS
  | .EGRESS => some .EGRESS
  | .other _ => none

/-- The protocol of a comparator. -/
def l4Protocol (ip_proto : ℕ) : Option L4Protocol :=
  if ip_proto = IP_PROTO_TCP then some .TCP
  else if ip_proto = IP_PROTO_UDP then some .UDP
  else none

/-- `pcl_tcp_udp_port_cmp_set`. -/
def PclDevHw.pclTcpUdpPortCmpSet (hw : PclDevHw) (port_cmp : PortCmp) : PclDevHw :=
  match port_cmp.key.destination.direction, l4Protocol port_cmp.key.ip_proto with
  | some dir, some proto =>
    { hw with
      comparators := update hw.comparators dir (update (hw.comparators dir) proto
        (update (hw.comparators dir proto) port_cmp.cmp_ix
          (some ⟨port_cmp.key.port_type, port_cmp.key.op, port_cmp.key.port_num⟩))) }
  | _, _ => hw

namespace PclDev

variable (fake : Bool) (s : PclDev)

/-- The bindings change. -/
def setBindings (bindings : List RuleBinding) : PclDev :=
  { s with sw := { s.sw with bindings := bindings } }

/-- The index book changes. -/
def setIndexBook (index_book : IxBook) : PclDev :=
  { s with sw := { s.sw with index_book := index_book } }

/-- An entry of the TCAM changes, but not in fake mode. -/
def setTcam (ix : ℕ) (entry : Option PclEntry) : PclDev :=
  if fake then s else { s with hw := { s.hw with tcam := update s.hw.tcam ix entry } }

/-! ### Index book -/

/-- `ix_book_edit_ix_in_binding`. -/
def ixBookEditIxInBinding (old_ix new_ix : ℕ) : PclDev :=
  s.setBindings (s.sw.bindings.map fun item =>
    if item.rule_ix = old_ix then { item with rule_ix := new_ix } else item)

/-- `ix_book_move_rule`: `cpssDxChPclRuleCopy` and `cpssDxChPclRuleInvalidate`, then the
bindings. -/
def ixBookMoveRule (s : PclDev) (old_ix new_ix : ℕ) : PclDev :=
  let s := s.setTcam fake new_ix (s.hw.tcam old_ix)
  let s := s.setTcam fake old_ix none
  s.ixBookEditIxInBinding old_ix new_ix

/-- An index is taken at `index`. The rules from there on move up, the last one first. -/
def ixBookActionTake (index : ℕ) (index_book : IxBook) : Option (ℕ × PclDev) :=
  if s.sw.index_book.pbr_end = s.sw.index_book.end_ then none
  else
    let s := (List.range' index (s.sw.index_book.pbr_end - index)).foldr
      (fun i s => s.ixBookMoveRule fake i (i + 1)) s
    some (index, s.setIndexBook index_book)

/-- `ix_book_action_acl_take`. -/
def ixBookActionAclTake : Option (ℕ × PclDev) :=
  let b := s.sw.index_book
  s.ixBookActionTake fake b.acl_end
    { b with acl_end := b.acl_end + 1, qos_end := b.qos_end + 1, pbr_end := b.pbr_end + 1 }

/-- `ix_book_action_qos_take`. -/
def ixBookActionQosTake : Option (ℕ × PclDev) :=
  let b := s.sw.index_book
  s.ixBookActionTake fake b.qos_end { b with qos_end := b.qos_end + 1, pbr_end := b.pbr_end + 1 }

/-- `ix_book_action_pbr_take`. There is nothing to move. -/
def ixBookActionPbrTake : Option (ℕ × PclDev) :=
  let b := s.sw.index_book
  s.ixBookActionTake fake b.pbr_end { b with pbr_end := b.pbr_end + 1 }

/-- `ix_book_take`, `none` for the status values other than `IX_BOOK_STATUS_OK`. -/
def ixBookTake (action_type : PclActionType) : Option (ℕ × PclDev) :=
  match action_type with
  | .ACL => s.ixBookActionAclTake fake
  | .POLICY => s.ixBookActionQosTake fake
  | .POLICY_ROUTE => s.ixBookActionPbrTake fake
  | .other _ => none

/-- The index `index`, which is to be in `[first, last)`, is returned. The rules behind it move
down, the first one first. -/
def ixBookActionReturn (index first last : ℕ) (index_book : IxBook) : PclDev :=
  if index < first ∨ last ≤ index then s
  else
    let s := (List.range' index (s.sw.index_book.pbr_end - 1 - index)).foldl
      (fun s i => s.ixBookMoveRule fake (i + 1) i) s
    s.setIndexBook index_book

/-- `ix_book_action_acl_return`. -/
def ixBookActionAclReturn (index : ℕ) : PclDev :=
  let b := s.sw.index_book
  s.ixBookActionReturn fake index b.start b.acl_end
    { b with acl_end := b.acl_end - 1, qos_end := b.qos_end - 1, pbr_end := b.pbr_end - 1 }

/-- `ix_book_action_qos_return`. -/
def ixBookActionQosReturn (index : ℕ) : PclDev :=
  let b := s.sw.index_book
  s.ixBookActionReturn fake index b.acl_end b.qos_end
    { b with qos_end := b.qos_end - 1, pbr_end := b.pbr_end - 1 }

/-- `ix_book_action_pbr_return`. -/
def ixBookActionPbrReturn (index : ℕ) : PclDev :=
  let b := s.sw.index_book
  s.ixBookActionReturn fake index b.qos_end b.pbr_end { b with pbr_end := b.pbr_end - 1 }

/-- `ix_book_return`. What it returns is only printed. -/
def ixBookReturn (index : ℕ) : PclDev :=
  if index < s.sw.index_book.acl_end then s.ixBookActionAclReturn fake index
  else if index < s.sw.index_book.qos_end then s.ixBookActionQosReturn fake index
  else if index < s.sw.index_book.pbr_end then s.ixBookActionPbrReturn fake index
  else s

/-! ### Rules -/

/-- `pcl_add_rule_ix`, `none` for `ST_BAD_VALUE`. -/
def pclAddRuleIx (key : RuleBindingKey) : Option (ℕ × PclDev) :=
  if (Keyed.find RuleBinding.key s.sw.bindings key).isSome then none
  else
    (s.ixBookTake fake key.acttype).map fun (rule_ix, s) =>
      (rule_ix, s.setBindings (s.sw.bindings ++ [⟨key, rule_ix⟩]))

/-- A rule joins the users of a comparator. -/
def joinPortCmp (key : PortCmpKey) (rule_ix : ℕ) : PclDev :=
  { s with
    sw := { s.sw with
      port_cmps := Keyed.modify PortCmp.key s.sw.port_cmps key fun port_cmp =>
        { port_cmp with rule_idxs := rule_ix :: port_cmp.rule_idxs } } }

/-- A new comparator. -/
def newPortCmp (key : PortCmpKey) (rule_ix ix : ℕ) (idxs : List ℕ) : PclDev :=
  let port_cmp : PortCmp := ⟨key, ix, [rule_ix]⟩
  { sw := { s.sw with port_cmp_idxs := idxs, port_cmps := s.sw.port_cmps ++ [port_cmp] }
    hw := if fake then s.hw else s.hw.pclTcpUdpPortCmpSet port_cmp }

/-- `pcl_add_port_cmp_ix`, `none` for `ST_BAD_VALUE`. `cmp_ix` is what `*cmp_ix` held before, and
where a comparator with the key exists it still holds that. -/
def pclAddPortCmpIx (key : PortCmpKey) (rule_ix cmp_ix : ℕ) : Option (ℕ × PclDev) :=
  if (Keyed.find PortCmp.key s.sw.port_cmps key).isSome then
    some (cmp_ix, s.joinPortCmp key rule_ix)
  else
    match s.sw.port_cmp_idxs with
    | [] => none
    | ix :: idxs => some (ix, s.newPortCmp fake key rule_ix ix idxs)

/-- The calls of `pcl_add_port_cmp_ix` for a rule, up to one that fails. Each of `src_cmp_ix` and
`dst_cmp_ix` is zero before. -/
def addPortCmps (fake : Bool) (rule_ix : ℕ) : List PortCmpKey → PclDev → Option (List ℕ) × PclDev
  | [], s => (some [], s)
  | key :: keys, s =>
    match s.pclAddPortCmpIx fake key rule_ix 0 with
    | none => (none, s)
    | some (ix, s) =>
      let (ixs, s) := addPortCmps fake rule_ix keys s
      (ixs.map (ix :: ·), s)

/-- What setting a rule did on a device: the value that it returned, whether the rule has got an
index, and the entry that was written. -/
structure Outcome where
  status : Status
  bound : Bool
  written : Option PclEntry

/-- The entry of a rule, `none` where `set_pcl_action` fails or the direction is wrong. -/
def ruleEntry (a : RuleArgs) (p : RuleParams) (pcl_id rule_ix : ℕ) (cmp_ix : List ℕ) :
    Option PclEntry :=
  (setPclAction rule_ix a.dest a.rule_action p.trapAction).bind fun act =>
    (p.type a.dest).map fun type =>
      let vid := if a.interface.type = .VLAN then some a.interface.num else none
      ⟨type, p.format pcl_id vid a.dest cmp_ix, act⟩

/-- One round of the loop of `pcl_ip_rule_set`, `pcl_mac_rule_set` and `pcl_ipv6_rule_set`. -/
def ruleSet (a : RuleArgs) (p : RuleParams) (pcl_id : ℕ) : Outcome × PclDev :=
  match s.pclAddRuleIx fake a.bindKey with
  | none => (⟨.ST_BAD_VALUE, false, none⟩, s)
  | some (rule_ix, s) =>
    match s.addPortCmps fake rule_ix (p.cmps a.dest) with
    | (none, s) => (⟨.ST_BAD_VALUE, true, none⟩, s)
    | (some cmp_ix, s) =>
      if fake then (⟨.ST_OK, true, none⟩, s)
      else match ruleEntry a p pcl_id rule_ix cmp_ix with
        | none => (⟨.ST_BAD_VALUE, true, none⟩, s)
        | some entry => (⟨.ST_OK, true, some entry⟩, s.setTcam fake rule_ix (some entry))

/-! ### Removing rules -/

/-- A rule index leaves the list of one comparator, which is freed when its list is empty. -/
def releasePortCmp (rule_ix : ℕ) (port_cmp : PortCmp) : Option PortCmp :=
  if rule_ix ∈ port_cmp.rule_idxs then
    if port_cmp.rule_idxs.erase rule_ix = [] then none
    else some { port_cmp with rule_idxs := port_cmp.rule_idxs.erase rule_ix }
  else some port_cmp

/-- `dstack_push` and `dstack_rev_sort2`: the lowest comparator is on top. -/
def pushPortCmpIdx (idxs : List ℕ) (ix : ℕ) : List ℕ := (ix :: idxs).mergeSort (· ≤ ·)

/-- The loop of `pcl_reset_rules` over the comparators. -/
def releasePortCmps (rule_ix : ℕ) : PclDev :=
  let freed := s.sw.port_cmps.filter fun port_cmp => (releasePortCmp rule_ix port_cmp).isNone
  { s with
    sw := { s.sw with
      port_cmps := s.sw.port_cmps.filterMap (releasePortCmp rule_ix)
      port_cmp_idxs := (freed.map PortCmp.cmp_ix).foldl pushPortCmpIdx s.sw.port_cmp_idxs } }

/-- The body of the loop of `pcl_reset_rules` for a binding that is removed. -/
def removeRule (bind : RuleBinding) : PclDev :=
  let s := s.releasePortCmps bind.rule_ix
  let s := s.setTcam fake bind.rule_ix none
  let s := s.ixBookReturn fake bind.rule_ix
  s.setBindings (Keyed.del RuleBinding.key s.sw.bindings bind.key)

/-- The rules that `pcl_reset_rules` removes. -/
def resets (interface : PclInterface) (dest : PclDest) (action_type : PclActionType)
    (key : RuleBindingKey) : Bool :=
  decide (key.interface = interface) && decide (key.destination = dest) &&
    decide (key.acttype = action_type)

/-- One round of the loop of `pcl_reset_rules` over the bindings, which reads the binding as the
rounds before have left it. -/
def resetRound (interface : PclInterface) (dest : PclDest) (action_type : PclActionType)
    (s : PclDev) (key : RuleBindingKey) : PclDev :=
  match Keyed.find RuleBinding.key s.sw.bindings key with
  | some bind => if resets interface dest action_type bind.key then s.removeRule fake bind else s
  | none => s

/-- `pcl_reset_rules` on one device. -/
def resetRules (interface : PclInterface) (dest : PclDest) (action_type : PclActionType) : PclDev :=
  (s.sw.bindings.map RuleBinding.key).foldl (resetRound fake interface dest action_type) s

end PclDev

end Presteramgr
