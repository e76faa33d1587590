import Presteramgr.Acl.Comparators
import Presteramgr.Lib.Ternary

/-!
# What the entry of an IP rule matches (`pcl.c`)

A packet of IP is looked up with a key, and an entry of the TCAM compares it with its rule in the
bits of its mask. Ranges of ports come in by the bits of comparators.

## Main definitions

* `IpPacket`: a packet of IP with what rules test, `IpPacket.key`: the key of its lookup;
* `PclEntry.Matches`: an entry matches a key;
* `RuleParams.Satisfied`: a packet satisfies the conditions of a rule.

## Main results

* `RuleFormat.matches_ip_iff`, `RuleFormat.matches_ipv6_iff`: what the entries of IPv4 and of IPv6
  rules match;
* `RuleFormat.alike_iff`: when the two hold the same of the conditions that both kinds have;
* `RuleParams.ranges_iff`: the ranges of a rule are what its comparators test.
-/

namespace Presteramgr

open Function (update update_self update_of_ne)
open Ternary (Agree agree_zero agree_full agree_split agree_self agree_or_self)

/-! ### Packets -/

/-- A packet of IP with what rules test. -/
structure IpPacket where
  ipv6 : Bool
  macDa : ℕ
  macSa : ℕ
  etherType : ℕ
  l2Encap : ℕ
  up : ℕ
  vid : Fin 4096
  dscp : Fin 64
  proto : Fin 256
  sip : ℕ
  dip : ℕ
  /-- The bytes behind the IP header. -/
  l4 : ℕ → Fin 256
  sip_lt : sip < 2 ^ (if ipv6 then 128 else 32)
  dip_lt : dip < 2 ^ (if ipv6 then 128 else 32)

namespace IpPacket

variable (pkt : IpPacket)

/-- The source port. -/
def srcPort : ℕ := pkt.l4 0 * 256 + pkt.l4 1

/-- The destination port. -/
def dstPort : ℕ := pkt.l4 2 * 256 + pkt.l4 3

/-- The key of a lookup with a PCL id. -/
def key (pcl_id portComparator : ℕ) : RuleField → ℕ
  | .pclId => pcl_id
  | .vid => pkt.vid
  | .up => pkt.up
  | .isL2Valid => 1
  | .l2Encap => pkt.l2Encap
  | .isIp => 1
  | .isIpv6 => if pkt.ipv6 then 1 else 0
  | .ipProtocol => pkt.proto
  | .sip => pkt.sip
  | .dip => pkt.dip
  | .dscp => pkt.dscp
  | .l4Byte0 => pkt.l4 0
  | .l4Byte1 => pkt.l4 1
  | .l4Byte2 => pkt.l4 2
  | .l4Byte3 => pkt.l4 3
  | .l4Byte13 => pkt.l4 13
  | .portComparator => portComparator
  | .macSa => pkt.macSa
  | .macDa => pkt.macDa
  | .etherType => pkt.etherType

/-- The format of the lookups of a packet, as `pcl_enable_port` and `pcl_enable_vlan` set them
up. -/
def lookupType : PclDirection → RuleType
  | .INGRESS => if pkt.ipv6 then .INGRESS_EXT_IPV6_L4 else .INGRESS_EXT_NOT_IPV6
  | .EGRESS => if pkt.ipv6 then .EGRESS_EXT_IPV6_L4 else .EGRESS_EXT_NOT_IPV6

end IpPacket

/-- The direction of a format. -/
def RuleType.direction : RuleType → PclDirection
  | .INGRESS_EXT_NOT_IPV6 => .INGRESS
  | .INGRESS_EXT_IPV6_L4 => .INGRESS
  | .EGRESS_EXT_NOT_IPV6 => .EGRESS
  | .EGRESS_EXT_IPV6_L4 => .EGRESS

/-- A rule with its mask agrees with a key in all fields. -/
def RuleFormat.Matches (f : RuleFormat) (key : RuleField → ℕ) : Prop :=
  ∀ field, Agree (key field) (f field).value (f field).mask

/-- A comparator lets a packet pass. -/
def PortComparator.test (c : PortComparator) (pkt : IpPacket) : Bool :=
  let port := match c.port_type with
    | .SRC => pkt.srcPort
    | .DST => pkt.dstPort
  match c.op with
  | .GTE => decide (c.port_num ≤ port)
  | .LTE => decide (port ≤ c.port_num)

/-- What a comparator with a key tests. -/
def PortCmpKey.test (k : PortCmpKey) (pkt : IpPacket) : Bool :=
  PortComparator.test ⟨k.port_type, k.op, k.port_num⟩ pkt

section Hardware

/- What the hardware gives in the bits of comparators that nothing was set up for: for packets that
are neither TCP nor UDP, for comparators that were never set, and in formats that do not read
them. -/
variable (rest : RuleType → IpPacket → ℕ → Bool)

/-- The bit of a comparator in the key of a packet. -/
def PclDevHw.portBit (hw : PclDevHw) (pkt : IpPacket) (type : RuleType) (j : ℕ) : Bool :=
  if type.readsComparators then
    match l4Protocol pkt.proto with
    | some proto =>
      match hw.comparators type.direction proto j with
      | some c => c.test pkt
      | none => rest type pkt j
    | none => rest type pkt j
  else rest type pkt j

/-- The bits of all comparators in the key of a packet. -/
def PclDevHw.portByte (hw : PclDevHw) (pkt : IpPacket) (type : RuleType) : ℕ :=
  RuleFormat.bitmap ((List.range PCL_CMP_IDX_COUNT).filter fun j => hw.portBit rest pkt type j)

/-- An entry matches a packet that is looked up with a PCL id. -/
def PclEntry.Matches (entry : PclEntry) (hw : PclDevHw) (pcl_id : ℕ) (pkt : IpPacket) : Prop :=
  entry.type = pkt.lookupType entry.type.direction ∧
    entry.rule.Matches (pkt.key pcl_id (hw.portByte rest pkt entry.type))

end Hardware

/-! ### Conditions of rules -/

namespace L4PclRule

variable (r : L4PclRule) (pkt : IpPacket)

/-- The protocol of a rule, 0xFF standing for any. -/
def Proto : Prop := r.proto = 0xFF ∨ (pkt.proto : ℕ) = r.proto

/-- The ranges of ports of a rule for TCP or UDP, with both bounds. -/
def Ranges : Prop :=
  r.isTcpOrUdp = true →
    (r.src_ip_port_single = false → r.src_ip_port ≤ pkt.srcPort ∧ pkt.srcPort ≤ r.src_ip_port_max) ∧
    (r.dst_ip_port_single = false → r.dst_ip_port ≤ pkt.dstPort ∧ pkt.dstPort ≤ r.dst_ip_port_max)

/-- The masked conditions of a rule: DSCP, single ports, ICMP type and code, TCP flags. -/
structure Fields : Prop where
  dscp : Agree pkt.dscp r.dscp r.dscp_mask
  src_port : r.isTcpOrUdp = true → r.src_ip_port_single = true →
    Agree pkt.srcPort r.src_ip_port r.src_ip_port_mask
  dst_port : r.isTcpOrUdp = true → r.dst_ip_port_single = true →
    Agree pkt.dstPort r.dst_ip_port r.dst_ip_port_mask
  icmp : r.proto = 0x01 → Agree (pkt.l4 0) r.icmp_type r.icmp_type_mask ∧
    Agree (pkt.l4 1) r.icmp_code r.icmp_code_mask
  tcp_flags : r.proto = 0x06 → Agree (pkt.l4 13) r.tcp_flags r.tcp_flags_mask

/-- The fields of a rule fit their types. -/
structure Sized : Prop where
  proto : r.proto < 2 ^ 8
  src_ip_port : r.src_ip_port < 2 ^ 16
  src_ip_port_mask : r.src_ip_port_mask < 2 ^ 16
  dst_ip_port : r.dst_ip_port < 2 ^ 16
  dst_ip_port_mask : r.dst_ip_port_mask < 2 ^ 16
  icmp_type : r.icmp_type < 2 ^ 8
  icmp_code : r.icmp_code < 2 ^ 8
  tcp_flags : r.tcp_flags < 2 ^ 8

end L4PclRule

/-- The masked conditions of an IPv4 rule, `vid` being the VLAN of a VLAN interface. -/
structure IpPclRule.Fields (r : IpPclRule) (vid : Option ℕ) (pkt : IpPacket) : Prop where
  src_ip : Agree pkt.sip r.src_ip r.src_ip_mask
  dst_ip : Agree pkt.dip r.dst_ip r.dst_ip_mask
  l4 : r.toL4PclRule.Fields pkt
  igmp : r.proto = 0x02 → Agree (pkt.l4 0) r.igmp_type r.igmp_type_mask
  vlan : ∀ v, vid = some v → (pkt.vid : ℕ) = v

/-- The masked conditions of an IPv6 rule, `vid` being the VLAN of a VLAN interface. -/
structure Ipv6PclRule.Fields (r : Ipv6PclRule) (vid : Option ℕ) (pkt : IpPacket) : Prop where
  src : Agree pkt.sip r.src r.src_mask
  dst : Agree pkt.dip r.dst r.dst_mask
  l4 : r.toL4PclRule.Fields pkt
  vlan : ∀ v, vid = some v → (pkt.vid : ℕ) = v

namespace RuleParams

/-- The packets that a rule is for. -/
def IsFor : RuleParams → IpPacket → Prop
  | .ip _, pkt => pkt.ipv6 = false
  | .mac _, _ => False
  | .ipv6 _, pkt => pkt.ipv6 = true

/-- The masked conditions of a rule. -/
def Fields (vid : Option ℕ) (pkt : IpPacket) : RuleParams → Prop
  | .ip rule => rule.Fields vid pkt
  | .mac _ => True
  | .ipv6 rule => rule.Fields vid pkt

/-- The protocol of a rule. -/
def Proto (p : RuleParams) (pkt : IpPacket) : Prop := ∀ r, p.l4 = some r → r.Proto pkt

/-- The ranges of ports of a rule. -/
def Ranges (p : RuleParams) (pkt : IpPacket) : Prop := ∀ r, p.l4 = some r → r.Ranges pkt

/-- A packet satisfies all the conditions of a rule. -/
def Satisfied (p : RuleParams) (vid : Option ℕ) (pkt : IpPacket) : Prop :=
  p.Proto pkt ∧ p.Ranges pkt ∧ p.Fields vid pkt

/-- The fields of a rule fit their types. -/
def Sized (p : RuleParams) : Prop := ∀ r, p.l4 = some r → r.Sized

/-- The entry of a rule holds the protocol. -/
def HoldsProto : RuleParams → Prop
  | .ip _ => True
  | .mac _ => True
  | .ipv6 _ => False

end RuleParams

/-! ### Rules field by field -/

namespace RuleFormat

variable {f : RuleFormat} {field : RuleField} {key : RuleField → ℕ}

theorem matches_zero : zero.Matches key := fun _ => agree_zero

/-- A field that was not set before adds its condition. -/
theorem matches_set (value mask : ℕ) (hf : f field = ⟨0, 0⟩) :
    (f.set field value mask).Matches key ↔ f.Matches key ∧ Agree (key field) value mask := by
  constructor
  · intro h
    refine ⟨fun field' => ?_, ?_⟩
    · by_cases hne : field' = field
      · subst hne
        rw [hf]
        exact agree_zero
      · have hother := h field'
        rwa [set_of_ne _ _ hne] at hother
    · have hself := h field
      rwa [set_self] at hself
  · rintro ⟨h, hself⟩ field'
    by_cases hne : field' = field
    · subst hne
      rwa [set_self]
    · rw [set_of_ne value mask hne]
      exact h field'

/-- The fields `fields` are still to be set. -/
def Unset (fields : List RuleField) (f : RuleFormat) : Prop := ∀ field ∈ fields, f field = ⟨0, 0⟩

namespace Unset

variable {fields fields' : List RuleField}

theorem zero : Unset fields zero := fun _ _ => rfl

theorem mono (hf : Unset fields f) (hsub : fields' ⊆ fields) : Unset fields' f :=
  fun field hmem => hf field (hsub hmem)

theorem set (hf : Unset fields f) (value mask : ℕ) (h : field ∉ fields) :
    Unset fields (f.set field value mask) := by
  intro field' hmem
  have hne : field' ≠ field := fun heq => h (heq ▸ hmem)
  rw [set_of_ne _ _ hne]
  exact hf field' hmem

theorem setIpProtocol (hf : Unset fields f) (proto : ℕ) (h : RuleField.ipProtocol ∉ fields) :
    Unset fields (f.setIpProtocol proto) := by
  unfold RuleFormat.setIpProtocol
  split_ifs
  · exact hf.set _ _ h
  · exact hf

end Unset

/-- The fields that the part about L4 sets. -/
def l4Fields : List RuleField :=
  [.l4Byte0, .l4Byte1, .l4Byte2, .l4Byte3, .l4Byte13, .portComparator]

section Packet

variable {pkt : IpPacket} {pcl_id byte : ℕ}

/-- The protocol is compared as a whole, unless any will do. -/
theorem matches_setIpProtocol {proto : ℕ} (hproto : proto < 2 ^ 8) (hf : f .ipProtocol = ⟨0, 0⟩) :
    (f.setIpProtocol proto).Matches (pkt.key pcl_id byte) ↔
      f.Matches (pkt.key pcl_id byte) ∧ (proto = 0xFF ∨ (pkt.proto : ℕ) = proto) := by
  unfold setIpProtocol
  by_cases hany : proto = 0xFF
  · rw [if_neg (not_not_intro hany)]
    exact (and_iff_left (Or.inl hany)).symm
  · rw [if_pos hany, matches_set _ _ hf, or_iff_right hany]
    exact and_congr_right fun _ => agree_full 8 pkt.proto.isLt hproto

/-- The VLAN of an interface is compared in all its bits. -/
theorem matches_overrideVid {vid : Option ℕ} (hvid : ∀ v, vid = some v → v < 2 ^ 12)
    (hf : f .vid = ⟨0, 0⟩) : (f.overrideVid vid).Matches (pkt.key pcl_id byte) ↔
      f.Matches (pkt.key pcl_id byte) ∧ ∀ v, vid = some v → (pkt.vid : ℕ) = v := by
  cases vid with
  | none => exact (and_iff_left fun v hv => absurd hv.symm (Option.some_ne_none v)).symm
  | some v =>
    refine (matches_set v 0xfff hf).trans (and_congr_right fun _ => ?_)
    refine (agree_full 12 pkt.vid.isLt (hvid v rfl)).trans ?_
    exact ⟨fun h v' hv' => h.trans (Option.some_inj.mp hv'), fun h => h v rfl⟩

/-- The two bytes of a port are compared each for itself. -/
theorem agree_port {b₁ b₀ port mask : ℕ} (hb : b₀ < 256) (hport : port < 2 ^ 16)
    (hmask : mask < 2 ^ 16) :
    Agree b₁ (nthByte 1 port) (nthByte 1 mask) ∧ Agree b₀ (nthByte 0 port) (nthByte 0 mask) ↔
      Agree (b₁ * 256 + b₀) port mask := by
  have hhigh (x : ℕ) (hx : x < 2 ^ 16) : nthByte 1 x = x / 2 ^ 8 := by
    unfold nthByte
    rw [Nat.shiftRight_eq_div_pow]
    omega
  have hlow (x : ℕ) : nthByte 0 x = x % 2 ^ 8 := rfl
  rw [agree_split 8 (x := b₁ * 256 + b₀), hhigh port hport, hhigh mask hmask, hlow, hlow,
    show (b₁ * 256 + b₀) / 2 ^ 8 = b₁ by omega, show (b₁ * 256 + b₀) % 2 ^ 8 = b₀ by omega]

theorem matches_setSrcIpPort {port mask : ℕ} (hport : port < 2 ^ 16) (hmask : mask < 2 ^ 16)
    (h0 : f .l4Byte0 = ⟨0, 0⟩) (h1 : f .l4Byte1 = ⟨0, 0⟩) :
    (f.setSrcIpPort port mask).Matches (pkt.key pcl_id byte) ↔
      f.Matches (pkt.key pcl_id byte) ∧ Agree pkt.srcPort port mask := by
  unfold setSrcIpPort
  rw [matches_set _ _ (by rw [set_of_ne _ _ (by decide), h1]), matches_set _ _ h0, and_assoc]
  exact and_congr_right fun _ => agree_port (pkt.l4 1).isLt hport hmask

theorem matches_setDstIpPort {port mask : ℕ} (hport : port < 2 ^ 16) (hmask : mask < 2 ^ 16)
    (h2 : f .l4Byte2 = ⟨0, 0⟩) (h3 : f .l4Byte3 = ⟨0, 0⟩) :
    (f.setDstIpPort port mask).Matches (pkt.key pcl_id byte) ↔
      f.Matches (pkt.key pcl_id byte) ∧ Agree pkt.dstPort port mask := by
  unfold setDstIpPort
  rw [matches_set _ _ (by rw [set_of_ne _ _ (by decide), h3]), matches_set _ _ h2, and_assoc]
  exact and_congr_right fun _ => agree_port (pkt.l4 3).isLt hport hmask

/-- Comparators add their bits to those that are tested already. -/
theorem matches_setIpPortRange {b : ℕ} (cmp_ix : List ℕ) (hf : f .portComparator = ⟨b, b⟩) :
    (f.setIpPortRange cmp_ix).Matches key ↔
      f.Matches key ∧ Agree (key .portComparator) (bitmap cmp_ix) (bitmap cmp_ix) := by
  unfold setIpPortRange
  rw [hf]
  dsimp only
  constructor
  · intro h
    have hself := h .portComparator
    rw [set_self, agree_or_self] at hself
    refine ⟨fun field => ?_, hself.2⟩
    by_cases hne : field = .portComparator
    · subst hne
      rw [hf]
      exact hself.1
    · have hfield := h field
      rwa [set_of_ne _ _ hne] at hfield
  · rintro ⟨h, hbits⟩ field
    by_cases hne : field = .portComparator
    · subst hne
      rw [set_self, agree_or_self]
      have hself := h .portComparator
      rw [hf] at hself
      exact ⟨hself, hbits⟩
    · rw [set_of_ne _ _ hne]
      exact h field

/-- What a rule asks of single ports, and the comparators that it tests. -/
theorem matches_setL4Ports {r : L4PclRule} {src dst : List ℕ} (hr : r.Sized)
    (hf : Unset l4Fields f) :
    (f.setL4Ports r src dst).Matches (pkt.key pcl_id byte) ↔ f.Matches (pkt.key pcl_id byte) ∧
      (r.isTcpOrUdp = true → r.src_ip_port_single = true →
        Agree pkt.srcPort r.src_ip_port r.src_ip_port_mask) ∧
      (r.isTcpOrUdp = true → r.dst_ip_port_single = true →
        Agree pkt.dstPort r.dst_ip_port r.dst_ip_port_mask) ∧
      (r.isTcpOrUdp = true → r.src_ip_port_single = false → Agree byte (bitmap src) (bitmap src)) ∧
      (r.isTcpOrUdp = true → r.dst_ip_port_single = false →
          Agree byte (bitmap dst) (bitmap dst)) := by
  have h0 : f .l4Byte0 = ⟨0, 0⟩ := hf _ (by decide)
  have h1 : f .l4Byte1 = ⟨0, 0⟩ := hf _ (by decide)
  have h2 : f .l4Byte2 = ⟨0, 0⟩ := hf _ (by decide)
  have h3 : f .l4Byte3 = ⟨0, 0⟩ := hf _ (by decide)
  have hc : f .portComparator = ⟨0, 0⟩ := hf _ (by decide)
  -- what is done for the destination port comes on top of what was done for the source port
  have hdst (g : RuleFormat) (b : ℕ) (hg2 : g .l4Byte2 = ⟨0, 0⟩) (hg3 : g .l4Byte3 = ⟨0, 0⟩)
      (hgc : g .portComparator = ⟨b, b⟩) :
      (if r.dst_ip_port_single then g.setDstIpPort r.dst_ip_port r.dst_ip_port_mask
        else g.setIpPortRange dst).Matches (pkt.key pcl_id byte) ↔ g.Matches (pkt.key pcl_id byte) ∧
        (r.dst_ip_port_single = true → Agree pkt.dstPort r.dst_ip_port r.dst_ip_port_mask) ∧
        (r.dst_ip_port_single = false → Agree byte (bitmap dst) (bitmap dst)) := by
    cases r.dst_ip_port_single with
    | true =>
      refine (matches_setDstIpPort hr.dst_ip_port hr.dst_ip_port_mask hg2 hg3).trans ?_
      exact and_congr_right fun _ => ⟨fun h => ⟨fun _ => h, Bool.noConfusion⟩, fun h => h.1 rfl⟩
    | false =>
      refine (matches_setIpPortRange dst hgc).trans ?_
      exact and_congr_right fun _ => ⟨fun h => ⟨Bool.noConfusion, fun _ => h⟩, fun h => h.2 rfl⟩
  unfold setL4Ports
  cases r.isTcpOrUdp with
  | false => simp
  | true =>
    rw [if_pos rfl]
    dsimp only
    cases r.src_ip_port_single with
    | true =>
      have hsrc : (f.setSrcIpPort r.src_ip_port r.src_ip_port_mask).Matches (pkt.key pcl_id byte) ↔
          _ :=
        matches_setSrcIpPort hr.src_ip_port hr.src_ip_port_mask h0 h1
      rw [if_pos rfl]
      refine (hdst _ 0 ?_ ?_ ?_).trans ?_
      · rw [setSrcIpPort, set_of_ne _ _ (by decide), set_of_ne _ _ (by decide), h2]
      · rw [setSrcIpPort, set_of_ne _ _ (by decide), set_of_ne _ _ (by decide), h3]
      · rw [setSrcIpPort, set_of_ne _ _ (by decide), set_of_ne _ _ (by decide), hc]
      · rw [hsrc]
        simp only [forall_const, Bool.true_eq_false, false_imp_iff, true_and, and_assoc]
    | false =>
      have hsrc : (f.setIpPortRange src).Matches (pkt.key pcl_id byte) ↔ _ :=
        matches_setIpPortRange src hc
      rw [if_neg Bool.false_ne_true]
      refine (hdst _ (bitmap src) ?_ ?_ ?_).trans ?_
      · rw [setIpPortRange, set_of_ne _ _ (by decide), h2]
      · rw [setIpPortRange, set_of_ne _ _ (by decide), h3]
      · rw [setIpPortRange, set_self, hc, Nat.zero_or]
      · rw [hsrc]
        simp only [forall_const, Bool.false_eq_true, false_imp_iff, true_and, and_assoc]
        exact and_congr_right fun _ => and_left_comm

/-- A rule for a protocol without ports has no part about ports. -/
theorem setL4Ports_of_not_tcp {r : L4PclRule} {src dst : List ℕ} (h : r.isTcpOrUdp = false) :
    f.setL4Ports r src dst = f := by
  unfold setL4Ports
  rw [h]
  rfl

/-- The part about ports leaves the other fields alone. -/
theorem Unset.setL4Ports {fields : List RuleField} (hf : Unset fields f) (r : L4PclRule)
    (src dst : List ℕ)
    (h : ∀ field ∈ [RuleField.l4Byte0, .l4Byte1, .l4Byte2, .l4Byte3, .portComparator],
      field ∉ fields) : Unset fields (f.setL4Ports r src dst) := by
  unfold RuleFormat.setL4Ports setSrcIpPort setDstIpPort setIpPortRange
  dsimp only
  have h0 := h .l4Byte0 (by decide)
  have h1 := h .l4Byte1 (by decide)
  have h2 := h .l4Byte2 (by decide)
  have h3 := h .l4Byte3 (by decide)
  have hc := h .portComparator (by decide)
  split_ifs
  · exact (((hf.set _ _ h0).set _ _ h1).set _ _ h2).set _ _ h3
  · exact ((hf.set _ _ hc).set _ _ h2).set _ _ h3
  · exact ((hf.set _ _ h0).set _ _ h1).set _ _ hc
  · exact (hf.set _ _ hc).set _ _ hc
  · exact hf

/-- The bits that a rule tests. -/
def Bits (r : L4PclRule) (src dst : List ℕ) (byte : ℕ) : Prop :=
  (r.isTcpOrUdp = true → r.src_ip_port_single = false → Agree byte (bitmap src) (bitmap src)) ∧
    (r.isTcpOrUdp = true → r.dst_ip_port_single = false → Agree byte (bitmap dst) (bitmap dst))

/-- The addresses and DSCP. -/
theorem matches_addresses {src src_mask dst dst_mask dscp dscp_mask : ℕ}
    (hf : Unset [.sip, .dip, .dscp] f) :
    (((f.set .sip src src_mask).set .dip dst dst_mask).set .dscp dscp dscp_mask).Matches
        (pkt.key pcl_id byte) ↔
      f.Matches (pkt.key pcl_id byte) ∧ Agree pkt.sip src src_mask ∧ Agree pkt.dip dst dst_mask ∧
        Agree pkt.dscp dscp dscp_mask := by
  have hsip : f .sip = ⟨0, 0⟩ := hf _ (by decide)
  have hdip : f .dip = ⟨0, 0⟩ := hf _ (by decide)
  have hdscp : f .dscp = ⟨0, 0⟩ := hf _ (by decide)
  rw [matches_set _ _ (by rw [set_of_ne _ _ (by decide), set_of_ne _ _ (by decide), hdscp]),
    matches_set _ _ (by rw [set_of_ne _ _ (by decide), hdip]), matches_set _ _ hsip, and_assoc,
    and_assoc]
  rfl

/-- The addresses, DSCP and ports. -/
theorem matches_ports {r : L4PclRule} {src src_mask dst dst_mask : ℕ} {srcs dsts : List ℕ}
    (hr : r.Sized) (hf : Unset ([.sip, .dip, .dscp] ++ l4Fields) f) :
    ((((f.set .sip src src_mask).set .dip dst dst_mask).set .dscp r.dscp r.dscp_mask).setL4Ports r
        srcs dsts).Matches (pkt.key pcl_id byte) ↔
      (f.Matches (pkt.key pcl_id byte) ∧ Agree pkt.sip src src_mask ∧ Agree pkt.dip dst dst_mask ∧
        Agree pkt.dscp r.dscp r.dscp_mask) ∧
      (r.isTcpOrUdp = true → r.src_ip_port_single = true →
        Agree pkt.srcPort r.src_ip_port r.src_ip_port_mask) ∧
      (r.isTcpOrUdp = true → r.dst_ip_port_single = true →
        Agree pkt.dstPort r.dst_ip_port r.dst_ip_port_mask) ∧
      Bits r srcs dsts byte := by
  refine (matches_setL4Ports hr ?_).trans (and_congr_left fun _ => ?_)
  · exact (((hf.mono (by decide)).set _ _ (by decide)).set _ _ (by decide)).set _ _ (by decide)
  · exact matches_addresses (hf.mono (by decide))

/-- What is left to be set after the ports. -/
theorem Unset.ports (hf : Unset ([.sip, .dip, .dscp, .vid] ++ l4Fields) f) (r : L4PclRule)
    (src src_mask dst dst_mask : ℕ) (srcs dsts : List ℕ) :
    Unset [.l4Byte13, .vid] ((((f.set .sip src src_mask).set .dip dst dst_mask).set .dscp r.dscp
      r.dscp_mask).setL4Ports r srcs dsts) ∧
    (r.isTcpOrUdp = false → Unset [.l4Byte0, .l4Byte1] ((((f.set .sip src src_mask).set .dip dst
      dst_mask).set .dscp r.dscp r.dscp_mask).setL4Ports r srcs dsts)) := by
  have hu : Unset (.vid :: l4Fields)
      (((f.set .sip src src_mask).set .dip dst dst_mask).set .dscp r.dscp r.dscp_mask) :=
    (((hf.mono (by decide)).set _ _ (by decide)).set _ _ (by decide)).set _ _ (by decide)
  refine ⟨(hu.mono (by decide)).setL4Ports _ _ _ (by decide), fun htcp => ?_⟩
  rw [setL4Ports_of_not_tcp htcp]
  exact hu.mono (by decide)

/-- ICMP type and code take the bytes of the source port. -/
theorem matches_icmp {type type_mask code code_mask : ℕ} (hf : Unset [.l4Byte0, .l4Byte1] f) :
    ((f.set .l4Byte0 type type_mask).set .l4Byte1 code code_mask).Matches (pkt.key pcl_id byte) ↔
      f.Matches (pkt.key pcl_id byte) ∧ Agree (pkt.l4 0) type type_mask ∧
        Agree (pkt.l4 1) code code_mask := by
  have h0 : f .l4Byte0 = ⟨0, 0⟩ := hf _ (by decide)
  have h1 : f .l4Byte1 = ⟨0, 0⟩ := hf _ (by decide)
  rw [matches_set _ _ (by rw [set_of_ne _ _ (by decide), h1]), matches_set _ _ h0, and_assoc]
  rfl

/-- An IPv4 rule matches the packets that have its protocol and meet its masked conditions, as far
as the bits of comparators fit. -/
theorem matches_ip_iff {vid : Option ℕ} {r : IpPclRule} {src dst : List ℕ}
    (hr : r.toL4PclRule.Sized) (hvid : ∀ v, vid = some v → v < 2 ^ 12) :
    (zero.setIpRule pcl_id vid r src dst).Matches (pkt.key pcl_id byte) ↔
      r.toL4PclRule.Proto pkt ∧ r.Fields vid pkt ∧ Bits r.toL4PclRule src dst byte := by
  unfold setIpRule
  dsimp only
  -- the fields are set one after the other, each with its condition
  have hu : Unset ([.ipProtocol, .sip, .dip, .dscp, .vid] ++ l4Fields)
      (((zero.set .pclId pcl_id 0xFFFF).set .isL2Valid 1 0xFF).set .isIp 1 0xFF) :=
    ((Unset.zero.set _ _ (by decide)).set _ _ (by decide)).set _ _ (by decide)
  have hm : (((zero.set .pclId pcl_id 0xFFFF).set .isL2Valid 1 0xFF).set .isIp 1 0xFF).Matches
      (pkt.key pcl_id byte) := by
    rw [matches_set _ _ (by rfl), matches_set _ _ (by rfl), matches_set _ _ (by rfl)]
    exact ⟨⟨⟨matches_zero, rfl⟩, rfl⟩, rfl⟩
  generalize ((zero.set .pclId pcl_id 0xFFFF).set .isL2Valid 1 0xFF).set .isIp 1 0xFF = f at hu hm ⊢
  have hu₁ : Unset ([.sip, .dip, .dscp, .vid] ++ l4Fields) (f.setIpProtocol r.proto) :=
    (hu.mono (by decide)).setIpProtocol _ (by decide)
  have hm₁ : (f.setIpProtocol r.proto).Matches (pkt.key pcl_id byte) ↔ r.toL4PclRule.Proto pkt :=
    (matches_setIpProtocol hr.proto (hu _ (by decide))).trans (and_iff_right hm)
  generalize f.setIpProtocol r.proto = f at hu₁ hm₁ ⊢
  obtain ⟨hu₂, hu₂'⟩ :=
    hu₁.ports r.toL4PclRule r.src_ip r.src_ip_mask r.dst_ip r.dst_ip_mask src dst
  have hm₂ : ((((f.set .sip r.src_ip r.src_ip_mask).set .dip r.dst_ip r.dst_ip_mask).set .dscp r.dscp
      r.dscp_mask).setL4Ports r.toL4PclRule src dst).Matches (pkt.key pcl_id byte) ↔ _ :=
    matches_ports hr (hu₁.mono (by decide))
  rw [hm₁] at hm₂
  generalize (((f.set .sip r.src_ip r.src_ip_mask).set .dip r.dst_ip r.dst_ip_mask).set .dscp r.dscp
    r.dscp_mask).setL4Ports r.toL4PclRule src dst = f at hu₂ hu₂' hm₂ ⊢
  have hother (h : r.proto = 0x01 ∨ r.proto = 0x02) : Unset [.l4Byte0, .l4Byte1] f := by
    apply hu₂'
    rcases h with h | h <;> simp [L4PclRule.isTcpOrUdp, h, IP_PROTO_TCP, IP_PROTO_UDP]
  have h13 : f .l4Byte13 = ⟨0, 0⟩ := hu₂ _ (by decide)
  have hv : f .vid = ⟨0, 0⟩ := hu₂ _ (by decide)
  have hm₃ : (if r.proto = 0x01 then
        (f.set .l4Byte0 r.icmp_type r.icmp_type_mask).set .l4Byte1 r.icmp_code r.icmp_code_mask
      else if r.proto = 0x02 then f.set .l4Byte0 r.igmp_type r.igmp_type_mask
      else if r.proto = 0x06 then f.set .l4Byte13 r.tcp_flags r.tcp_flags_mask
      else f).Matches (pkt.key pcl_id byte) ↔ f.Matches (pkt.key pcl_id byte) ∧
        (r.proto = 0x01 → Agree (pkt.l4 0) r.icmp_type r.icmp_type_mask ∧
          Agree (pkt.l4 1) r.icmp_code r.icmp_code_mask) ∧
        (r.proto = 0x02 → Agree (pkt.l4 0) r.igmp_type r.igmp_type_mask) ∧
        (r.proto = 0x06 → Agree (pkt.l4 13) r.tcp_flags r.tcp_flags_mask) := by
    split_ifs with h1 h2 h6
    · rw [matches_icmp (hother (Or.inl h1)), h1]
      simp
    · rw [matches_set _ _ (hother (Or.inr h2) _ (by decide)), h2]
      simp [IpPacket.key]
    · rw [matches_set _ _ h13, h6]
      simp [IpPacket.key]
    · simp [h1, h2, h6]
  rw [matches_overrideVid hvid ?_, hm₃, hm₂]
  · constructor
    · rintro ⟨⟨⟨⟨hproto, hsip, hdip, hdscp⟩, hsrc, hdst, hbits⟩, hicmp, higmp, hflags⟩, hvlan⟩
      exact ⟨hproto, ⟨hsip, hdip, ⟨hdscp, hsrc, hdst, hicmp, hflags⟩, higmp, hvlan⟩, hbits⟩
    · rintro ⟨hproto, ⟨hsip, hdip, ⟨hdscp, hsrc, hdst, hicmp, hflags⟩, higmp, hvlan⟩, hbits⟩
      exact ⟨⟨⟨⟨hproto, hsip, hdip, hdscp⟩, hsrc, hdst, hbits⟩, hicmp, higmp, hflags⟩, hvlan⟩
  · split_ifs
    · rw [set_of_ne _ _ (by decide), set_of_ne _ _ (by decide), hv]
    · rw [set_of_ne _ _ (by decide), hv]
    · rw [set_of_ne _ _ (by decide), hv]
    · exact hv

/-- An IPv6 rule matches the packets that meet its masked conditions, as far as the bits of
comparators fit. The protocol does not matter. -/
theorem matches_ipv6_iff {vid : Option ℕ} {r : Ipv6PclRule} {src dst : List ℕ}
    (hr : r.toL4PclRule.Sized) (hvid : ∀ v, vid = some v → v < 2 ^ 12) (hpkt : pkt.ipv6 = true) :
    (zero.setIpv6Rule pcl_id vid r src dst).Matches (pkt.key pcl_id byte) ↔
      r.Fields vid pkt ∧ Bits r.toL4PclRule src dst byte := by
  unfold setIpv6Rule
  dsimp only
  -- the fields of every rule come first and are set once
  have hu : Unset ([.sip, .dip, .dscp, .vid] ++ l4Fields)
      ((((zero.set .pclId pcl_id 0xFFFF).set .isL2Valid 1 0xFF).set .isIp 1 0xFF).set .isIpv6 1 0xFF) :=
    (((Unset.zero.set _ _ (by decide)).set _ _ (by decide)).set _ _ (by decide)).set _ _ (by decide)
  have hm : ((((zero.set .pclId pcl_id 0xFFFF).set .isL2Valid 1 0xFF).set .isIp 1 0xFF).set .isIpv6 1
      0xFF).Matches (pkt.key pcl_id byte) := by
    rw [matches_set _ _ (by rfl), matches_set _ _ (by rfl), matches_set _ _ (by rfl),
      matches_set _ _ (by rfl)]
    refine ⟨⟨⟨⟨matches_zero, rfl⟩, rfl⟩, rfl⟩, ?_⟩
    unfold IpPacket.key
    rw [hpkt]
    rfl
  generalize (((zero.set .pclId pcl_id 0xFFFF).set .isL2Valid 1 0xFF).set .isIp 1 0xFF).set .isIpv6 1
    0xFF = f at hu hm ⊢
  -- then those of the addresses and ports
  obtain ⟨hu₁, hu₁'⟩ := hu.ports r.toL4PclRule r.src r.src_mask r.dst r.dst_mask src dst
  have hm₁ : ((((f.set .sip r.src r.src_mask).set .dip r.dst r.dst_mask).set .dscp r.dscp
      r.dscp_mask).setL4Ports r.toL4PclRule src dst).Matches (pkt.key pcl_id byte) ↔ _ :=
    matches_ports hr (hu.mono (by decide))
  rw [iff_true_intro hm, true_and] at hm₁
  generalize (((f.set .sip r.src r.src_mask).set .dip r.dst r.dst_mask).set .dscp r.dscp
    r.dscp_mask).setL4Ports r.toL4PclRule src dst = f at hu₁ hu₁' hm₁ ⊢
  have hicmp (h : r.proto = 0x01) : Unset [.l4Byte0, .l4Byte1] f := by
    apply hu₁'
    simp [L4PclRule.isTcpOrUdp, h, IP_PROTO_TCP, IP_PROTO_UDP]
  have h13 : f .l4Byte13 = ⟨0, 0⟩ := hu₁ _ (by decide)
  have hv : f .vid = ⟨0, 0⟩ := hu₁ _ (by decide)
  -- of the last fields those of the protocol are set only
  have hm₂ : (if r.proto = 0x01 then
        (f.set .l4Byte0 r.icmp_type r.icmp_type_mask).set .l4Byte1 r.icmp_code r.icmp_code_mask
      else if r.proto = 0x06 then f.set .l4Byte13 r.tcp_flags r.tcp_flags_mask
      else f).Matches (pkt.key pcl_id byte) ↔ f.Matches (pkt.key pcl_id byte) ∧
        (r.proto = 0x01 → Agree (pkt.l4 0) r.icmp_type r.icmp_type_mask ∧
          Agree (pkt.l4 1) r.icmp_code r.icmp_code_mask) ∧
        (r.proto = 0x06 → Agree (pkt.l4 13) r.tcp_flags r.tcp_flags_mask) := by
    split_ifs with h1 h6
    · rw [matches_icmp (hicmp h1), h1]
      simp
    · rw [matches_set _ _ h13, h6]
      simp [IpPacket.key]
    · simp [h1, h6]
  rw [matches_overrideVid hvid ?_, hm₂, hm₁]
  · constructor
    · rintro ⟨⟨⟨⟨hsip, hdip, hdscp⟩, hsrc, hdst, hbits⟩, hicmp, hflags⟩, hvlan⟩
      exact ⟨⟨hsip, hdip, ⟨hdscp, hsrc, hdst, hicmp, hflags⟩, hvlan⟩, hbits⟩
    · rintro ⟨⟨hsip, hdip, ⟨hdscp, hsrc, hdst, hicmp, hflags⟩, hvlan⟩, hbits⟩
      exact ⟨⟨⟨⟨hsip, hdip, hdscp⟩, hsrc, hdst, hbits⟩, hicmp, hflags⟩, hvlan⟩
  · split_ifs
    · rw [set_of_ne _ _ (by decide), set_of_ne _ _ (by decide), hv]
    · rw [set_of_ne _ _ (by decide), hv]
    · exact hv

end Packet

/-- The bits that a rule tests are those of all its comparators. -/
theorem bits_iff {r : L4PclRule} {dest : PclDest} {cmp_ix : List ℕ} {byte : ℕ}
    (hlen : cmp_ix.length = (r.srcCmps dest ++ r.dstCmps dest).length) :
    Bits r (cmp_ix.take (r.srcCmps dest).length) (cmp_ix.drop (r.srcCmps dest).length) byte ↔
      Agree byte (bitmap cmp_ix) (bitmap cmp_ix) := by
  rw [← r.bits_eq dest hlen, agree_or_self]
  have hside (single : Bool) (b : ℕ) :
      (r.isTcpOrUdp = true → single = false → Agree byte b b) ↔
        Agree byte (if r.isTcpOrUdp && !single then b else 0)
          (if r.isTcpOrUdp && !single then b else 0) := by
    cases r.isTcpOrUdp <;> cases single <;> simp
  exact and_congr (hside _ _) (hside _ _)

/-- The fields of the conditions that IPv4 and IPv6 rules have in common. -/
def commonFields : List RuleField :=
  [.ipProtocol, .dscp, .l4Byte0, .l4Byte1, .l4Byte2, .l4Byte3, .l4Byte13, .portComparator, .vid]

theorem overrideVid_of_ne (vid : Option ℕ) (h : field ≠ .vid) :
    f.overrideVid vid field = f field := by
  cases vid with
  | none => rfl
  | some vid => exact set_of_ne _ _ h

theorem setL4Ports_ipProtocol (r : L4PclRule) (src dst : List ℕ) :
    f.setL4Ports r src dst .ipProtocol = f .ipProtocol := by
  unfold setL4Ports setSrcIpPort setDstIpPort setIpPortRange
  split_ifs <;> simp (disch := decide) only [set_of_ne]

/-- An IPv4 and an IPv6 rule with the same common conditions hold the same of the common fields only
if they are for any protocol. -/
theorem alike_iff {r : IpPclRule} {r' : Ipv6PclRule} (h : r.toL4PclRule = r'.toL4PclRule)
    (pcl_id : ℕ) (vid : Option ℕ) (src dst : List ℕ) :
    (∀ field ∈ commonFields, zero.setIpRule pcl_id vid r src dst field =
      zero.setIpv6Rule pcl_id vid r' src dst field) ↔ r.proto = 0xFF := by
  have hproto : r'.proto = r.proto := congrArg L4PclRule.proto h.symm
  have hdscp : r'.dscp = r.dscp := congrArg L4PclRule.dscp h.symm
  have hdscp_mask : r'.dscp_mask = r.dscp_mask := congrArg L4PclRule.dscp_mask h.symm
  constructor
  · intro halike
    by_contra hne
    have hip := halike .ipProtocol (by decide)
    unfold setIpRule setIpv6Rule setIpProtocol at hip
    simp (disch := decide) only [overrideVid_of_ne, ite_apply, set_of_ne, set_self,
      setL4Ports_ipProtocol, ite_self, if_pos hne] at hip
    have hmask : 0xFF = 0 := congrArg Masked.mask hip
    exact absurd hmask (by decide)
  · intro hany field hmem
    have htcp : r.isTcpOrUdp = false := by
      simp [L4PclRule.isTcpOrUdp, hany, IP_PROTO_TCP, IP_PROTO_UDP]
    have htcp' : r'.isTcpOrUdp = false := by
      rw [← h]
      exact htcp
    unfold setIpRule setIpv6Rule setIpProtocol
    rw [setL4Ports_of_not_tcp htcp, setL4Ports_of_not_tcp htcp', hproto, hdscp, hdscp_mask, hany]
    simp only [ne_eq, not_true_eq_false, if_false, Nat.reduceEqDiff]
    by_cases hvid : field = .vid
    · subst hvid
      cases vid <;> rfl
    · rw [overrideVid_of_ne _ hvid, overrideVid_of_ne _ hvid]
      simp only [commonFields, List.mem_cons, List.not_mem_nil, or_false] at hmem
      rcases hmem with rfl | rfl | rfl | rfl | rfl | rfl | rfl | rfl | rfl <;> rfl

end RuleFormat

/-- The comparators let a packet pass where their bits are set in its key. -/
theorem PclDevHw.agree_portByte (rest : RuleType → IpPacket → ℕ → Bool) (hw : PclDevHw)
    (pkt : IpPacket) (type : RuleType) {cmp_ix : List ℕ}
    (hcmp : ∀ j ∈ cmp_ix, j < PCL_CMP_IDX_COUNT) :
    Agree (hw.portByte rest pkt type) (RuleFormat.bitmap cmp_ix) (RuleFormat.bitmap cmp_ix) ↔
      ∀ j ∈ cmp_ix, hw.portBit rest pkt type j = true := by
  unfold portByte
  rw [agree_self]
  refine forall_congr' fun j => ?_
  rw [RuleFormat.testBit_bitmap hcmp, RuleFormat.testBit_bitmap fun j hj =>
    List.mem_range.mp (List.mem_of_mem_filter hj), List.mem_filter, List.mem_range]
  exact imp_congr_right fun hj => and_iff_right (hcmp j hj)

namespace RuleParams

variable {p : RuleParams} {pkt : IpPacket}

/-- The entry of a rule matches what has its protocol, if it holds that, and meets its masked
conditions, as far as the bits of its comparators fit. -/
theorem matches_iff {pcl_id byte : ℕ} {vid : Option ℕ} {dest : PclDest} {cmp_ix : List ℕ}
    (hp : p.Sized) (hpkt : p.IsFor pkt) (hvid : ∀ v, vid = some v → v < 2 ^ 12)
    (hlen : cmp_ix.length = (p.cmps dest).length) :
    (p.format pcl_id vid dest cmp_ix).Matches (pkt.key pcl_id byte) ↔
      (p.HoldsProto → p.Proto pkt) ∧ p.Fields vid pkt ∧
        Agree byte (RuleFormat.bitmap cmp_ix) (RuleFormat.bitmap cmp_ix) := by
  cases p with
  | ip rule =>
    refine (RuleFormat.matches_ip_iff (hp _ rfl) hvid).trans ?_
    rw [RuleFormat.bits_iff hlen]
    refine and_congr_left fun _ => ?_
    exact ⟨fun h _ r hr => Option.some_inj.mp hr ▸ h, fun h => h trivial _ rfl⟩
  | mac rule => exact absurd hpkt not_false
  | ipv6 rule =>
    refine (RuleFormat.matches_ipv6_iff (hp _ rfl) hvid hpkt).trans ?_
    rw [RuleFormat.bits_iff hlen]
    exact (and_iff_right fun h => absurd h not_false).symm

/-- The ranges of a rule are what its comparators test. -/
theorem ranges_iff (dest : PclDest) : p.Ranges pkt ↔ ∀ k ∈ p.cmps dest, k.test pkt = true := by
  unfold Ranges cmps
  cases p.l4 with
  | none => simp
  | some r =>
    have hsrc : (∀ k ∈ r.srcCmps dest, k.test pkt = true) ↔ (r.isTcpOrUdp = true →
        r.src_ip_port_single = false →
          r.src_ip_port ≤ pkt.srcPort ∧ pkt.srcPort ≤ r.src_ip_port_max) := by
      unfold L4PclRule.srcCmps
      cases r.isTcpOrUdp <;> cases r.src_ip_port_single <;>
        simp [PortCmpKey.test, PortComparator.test]
    have hdst : (∀ k ∈ r.dstCmps dest, k.test pkt = true) ↔ (r.isTcpOrUdp = true →
        r.dst_ip_port_single = false →
          r.dst_ip_port ≤ pkt.dstPort ∧ pkt.dstPort ≤ r.dst_ip_port_max) := by
      unfold L4PclRule.dstCmps
      cases r.isTcpOrUdp <;> cases r.dst_ip_port_single <;>
        simp [PortCmpKey.test, PortComparator.test]
    dsimp only
    rw [List.forall_mem_append, hsrc, hdst]
    constructor
    · intro h
      exact ⟨fun htcp hs => (h r rfl htcp).1 hs, fun htcp hd => (h r rfl htcp).2 hd⟩
    · rintro ⟨hs, hd⟩ r' hr' htcp
      obtain rfl := Option.some_inj.mp hr'
      exact ⟨hs htcp, hd htcp⟩

end RuleParams

end Presteramgr
