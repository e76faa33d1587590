import Presteramgr.Acl.ComparatorsRun
import Presteramgr.Acl.Encoding

/-!
# Rules that are encoded right (`pcl.c`)

Whether the entry of a rule matches the packets that satisfy the rule depends on its comparators
and, for IPv6 rules, on the protocol, which their entries do not hold.

## Main definitions

* `Encoded`: an entry matches the packets that satisfy its rule;
* `PclDev.EncodedOk`: when setting a rule writes such an entry.

## Main results

* `PclDev.encoded_iff_ok`: on one device;
* `PclDev.EncodedAs.any_of_ipv6`: an IPv6 rule without ranges is right only if it is for any
  protocol;
* `AclLog.encoded_iff`: in every run.
-/

namespace Presteramgr

local instance neZero_vids : NeZero 4096 := ⟨Nat.succ_ne_zero _⟩

local instance neZero_bytes : NeZero 256 := ⟨Nat.succ_ne_zero _⟩

local instance neZero_dscps : NeZero 64 := ⟨Nat.succ_ne_zero _⟩

open Ternary (Agree)

/-- The VLAN that goes into a rule. -/
def RuleArgs.vid (a : RuleArgs) : Option ℕ :=
  if a.interface.type = .VLAN then some a.interface.num else none

/-- What tests `k` is a comparator of a direction and a protocol. -/
def PortCmpKey.IsOf (k : PortCmpKey) (dir : PclDirection) (proto : L4Protocol) : Prop :=
  k.destination.direction = some dir ∧ l4Protocol k.ip_proto = some proto

namespace PclDev

variable {s s' : PclDev}

/-! ### The comparators of a rule -/

/-- The keys for which there is a comparator. -/
def shared (s : PclDev) (keys : List PortCmpKey) : List PortCmpKey :=
  keys.filter fun k => (s.sw.cmpOf k).isSome

/-- The free comparators that a rule takes. -/
def taken (s : PclDev) (keys : List PortCmpKey) : List ℕ :=
  s.sw.port_cmp_idxs.take (s.missing keys).length

/-- The comparators that the entry of a rule tests: those that the rule takes, and the first one if
it shares any. -/
def tested (s : PclDev) (keys : List PortCmpKey) : List ℕ :=
  if s.shared keys = [] then s.taken keys else 0 :: s.taken keys

/-- What the calls for the comparators of a rule do to the hardware, and the numbers that they
give. -/
structure Asked (s : PclDev) (keys : List PortCmpKey) (ixs : List ℕ) (s' : PclDev) : Prop where
  length : ixs.length = keys.length
  mem : ∀ j, j ∈ ixs ↔ j ∈ s.tested keys
  programmed : List.Forall₂ (fun k j => k ∈ keys ∧ ∀ dir proto, k.IsOf dir proto →
    s'.hw.comparators dir proto j = some ⟨k.port_type, k.op, k.port_num⟩) (s.missing keys)
      (s.taken keys)
  kept : ∀ dir proto j, (j ∈ s.taken keys → ∀ k ∈ keys, ¬k.IsOf dir proto) →
    s'.hw.comparators dir proto j = s.hw.comparators dir proto j

/-- The missing comparators depend on those there are. -/
theorem missing_congr {keys : List PortCmpKey}
    (h : ∀ k ∈ keys, s'.sw.cmpOf k = s.sw.cmpOf k) : s'.missing keys = s.missing keys :=
  List.filter_congr fun k hk => by rw [h k hk]

/-- The shared comparators depend on those there are. -/
theorem shared_congr {keys : List PortCmpKey}
    (h : ∀ k ∈ keys, s'.sw.cmpOf k = s.sw.cmpOf k) : s'.shared keys = s.shared keys :=
  List.filter_congr fun k hk => by rw [h k hk]

/-- What is asked for depends on the comparators only. -/
theorem Asked.congr {t t' : PclDev} {keys : List PortCmpKey} {ixs : List ℕ}
    (h : s.Asked keys ixs s') (hcmps : t.sw.port_cmps = s.sw.port_cmps)
    (hidxs : t.sw.port_cmp_idxs = s.sw.port_cmp_idxs) (hhw : t.hw.comparators = s.hw.comparators)
    (hhw' : t'.hw.comparators = s'.hw.comparators) : t.Asked keys ixs t' := by
  have hcmpOf (k : PortCmpKey) : t.sw.cmpOf k = s.sw.cmpOf k := by
    unfold AclDev.cmpOf
    rw [hcmps]
  have hmissing : t.missing keys = s.missing keys := missing_congr fun k _ => hcmpOf k
  have hshared : t.shared keys = s.shared keys := shared_congr fun k _ => hcmpOf k
  have htaken : t.taken keys = s.taken keys := by
    unfold taken
    rw [hidxs, hmissing]
  refine ⟨h.length, fun j => ?_, ?_, ?_⟩
  · rw [h.mem, tested, tested, hshared, htaken]
  · rw [hmissing, htaken, hhw']
    exact h.programmed
  · rw [htaken, hhw, hhw']
    exact h.kept

/-- A comparator that exists: its number does not come back. -/
theorem Asked.join {k : PortCmpKey} {keys : List PortCmpKey} {ixs : List ℕ} {rule_ix : ℕ}
    (hsome : (s.sw.cmpOf k).isSome = true) (h : (s.joinPortCmp k rule_ix).Asked keys ixs s') :
    s.Asked (k :: keys) (0 :: ixs) s' := by
  have hne : s.sw.cmpOf k ≠ none := Option.isSome_iff_ne_none.mp hsome
  have hmissing : (s.joinPortCmp k rule_ix).missing keys = s.missing (k :: keys) := by
    rw [missing_congr fun k' _ => cmpOf_join s k k' rule_ix]
    exact (List.filter_cons_of_neg (by simp [hne])).symm
  have htaken : (s.joinPortCmp k rule_ix).taken keys = s.taken (k :: keys) := by
    unfold taken
    rw [hmissing]
    rfl
  have hshared : s.shared (k :: keys) ≠ [] :=
    List.ne_nil_of_mem (List.mem_filter.mpr ⟨List.mem_cons_self, hsome⟩)
  refine ⟨congrArg Nat.succ h.length, fun j => ?_, ?_, fun dir proto j hj => ?_⟩
  · rw [List.mem_cons, h.mem, tested, tested, htaken, if_neg hshared]
    split_ifs <;> simp
  · rw [← hmissing, ← htaken]
    exact h.programmed.imp fun k' j hk' => ⟨List.mem_cons_of_mem _ hk'.1, hk'.2⟩
  · refine h.kept dir proto j fun hmem k' hk' => ?_
    exact hj (htaken ▸ hmem) k' (List.mem_cons_of_mem _ hk')

/-- A comparator that is taken and set. -/
theorem Asked.take {k : PortCmpKey} {keys : List PortCmpKey} {ixs idxs : List ℕ} {rule_ix ix : ℕ}
    (hnone : s.sw.cmpOf k = none) (hk : k ∉ keys) (hfree : s.sw.port_cmp_idxs = ix :: idxs)
    (hix : ix ∉ idxs) (h : (s.newPortCmp false k rule_ix ix idxs).Asked keys ixs s') :
    s.Asked (k :: keys) (ix :: ixs) s' := by
  have hcmpOf : ∀ k' ∈ keys,
      (s.newPortCmp false k rule_ix ix idxs).sw.cmpOf k' = s.sw.cmpOf k' := by
    intro k' hk'
    have hne : k ≠ k' := fun heq => hk (heq ▸ hk')
    rw [cmpOf_new, if_neg hne, Option.or_none]
  have hmissing : s.missing (k :: keys) =
      k :: (s.newPortCmp false k rule_ix ix idxs).missing keys := by
    rw [missing_congr hcmpOf]
    exact List.filter_cons_of_pos (by simp [hnone])
  have hshared : s.shared (k :: keys) = (s.newPortCmp false k rule_ix ix idxs).shared keys := by
    rw [shared_congr hcmpOf]
    exact List.filter_cons_of_neg (by simp [hnone])
  have htaken : s.taken (k :: keys) = ix :: (s.newPortCmp false k rule_ix ix idxs).taken keys := by
    unfold taken
    rw [hmissing, hfree]
    rfl
  have hnot : ix ∉ (s.newPortCmp false k rule_ix ix idxs).taken keys :=
    fun hmem => hix (List.mem_of_mem_take hmem)
  refine ⟨congrArg Nat.succ h.length, fun j => ?_, ?_, fun dir proto j hj => ?_⟩
  · rw [List.mem_cons, h.mem, tested, tested, htaken, hshared]
    split_ifs
    · exact List.mem_cons.symm
    · simp only [List.mem_cons]
      exact or_left_comm
  · rw [hmissing, htaken]
    refine List.Forall₂.cons ⟨List.mem_cons_self, fun dir proto hof => ?_⟩
      (h.programmed.imp fun k' j hk' => ⟨List.mem_cons_of_mem _ hk'.1, hk'.2⟩)
    -- the comparators that are taken next are other ones
    rw [h.kept dir proto ix fun hmem => absurd hmem hnot]
    exact (pclTcpUdpPortCmpSet_apply _ _ _ _ _).trans (if_pos ⟨hof.1, hof.2, rfl⟩)
  · rw [htaken] at hj
    rw [h.kept dir proto j fun hmem k' hk' =>
      hj (List.mem_cons_of_mem _ hmem) k' (List.mem_cons_of_mem _ hk')]
    refine (pclTcpUdpPortCmpSet_apply _ _ _ _ _).trans (if_neg fun hset => ?_)
    obtain ⟨hdir, hproto, rfl⟩ := hset
    exact hj List.mem_cons_self k List.mem_cons_self ⟨hdir, hproto⟩

/-- What one call can do: a rule joins the users of a comparator, or it takes a free one. -/
theorem pclAddPortCmpIx_cases {k : PortCmpKey} {rule_ix ix : ℕ}
    (h : s.pclAddPortCmpIx false k rule_ix 0 = some (ix, s')) :
    ((s.sw.cmpOf k).isSome = true ∧ ix = 0 ∧ s' = s.joinPortCmp k rule_ix) ∨
    s.sw.cmpOf k = none ∧ ∃ idxs, s.sw.port_cmp_idxs = ix :: idxs ∧
      s' = s.newPortCmp false k rule_ix ix idxs := by
  unfold pclAddPortCmpIx at h
  unfold AclDev.cmpOf
  rw [Option.isSome_map, Option.map_eq_none_iff]
  split_ifs at h with hfind
  · obtain ⟨rfl, rfl⟩ := Prod.mk.inj (Option.some_inj.mp h)
    exact Or.inl ⟨hfind, rfl, rfl⟩
  · refine Or.inr ⟨Option.not_isSome_iff_eq_none.mp hfind, ?_⟩
    cases hfree : s.sw.port_cmp_idxs with
    | nil =>
      rw [hfree] at h
      exact absurd h.symm (Option.some_ne_none _)
    | cons ix' idxs =>
      rw [hfree] at h
      obtain ⟨rfl, rfl⟩ := Prod.mk.inj (Option.some_inj.mp h)
      exact ⟨idxs, rfl, rfl⟩

/-- All the calls for a rule. -/
theorem addPortCmps_asked {keys : List PortCmpKey} {ixs : List ℕ} (rule_ix : ℕ)
    (hkeys : keys.Nodup) (hidxs : s.sw.port_cmp_idxs.Nodup)
    (h : s.addPortCmps false rule_ix keys = (some ixs, s')) : s.Asked keys ixs s' := by
  induction keys generalizing s ixs with
  | nil =>
    obtain ⟨hixs, rfl⟩ := Prod.mk.inj h
    obtain rfl := Option.some_inj.mp hixs
    exact ⟨rfl, fun j => Iff.rfl, List.Forall₂.nil, fun _ _ _ _ => rfl⟩
  | cons k keys ih =>
    obtain ⟨hk, hkeys⟩ := List.nodup_cons.mp hkeys
    unfold addPortCmps at h
    cases hadd : s.pclAddPortCmpIx false k rule_ix 0 with
    | none =>
      rw [hadd] at h
      exact absurd (Prod.mk.inj h).1.symm (Option.some_ne_none _)
    | some r =>
      obtain ⟨ix, s₁⟩ := r
      rw [hadd] at h
      dsimp only at h
      generalize hadds : s₁.addPortCmps false rule_ix keys = r at h
      obtain ⟨_ | ixs', s₂⟩ := r
      · exact absurd (Prod.mk.inj h).1.symm (Option.some_ne_none _)
      · obtain ⟨hixs, rfl⟩ := Prod.mk.inj h
        obtain rfl := Option.some_inj.mp hixs
        obtain ⟨hsome, rfl, rfl⟩ | ⟨hnone, idxs, hfree, rfl⟩ := pclAddPortCmpIx_cases hadd
        · exact (ih (s := s.joinPortCmp k rule_ix) hkeys hidxs hadds).join hsome
        · rw [hfree] at hidxs
          obtain ⟨hix, hidxs⟩ := List.nodup_cons.mp hidxs
          exact (ih (s := s.newPortCmp false k rule_ix ix idxs) hkeys hidxs hadds).take hnone hk
            hfree hix

end PclDev

/-! ### The bits of comparators -/

/-- A protocol has one number. -/
theorem l4Protocol_inj {n n' : ℕ} {proto : L4Protocol} (h : l4Protocol n = some proto)
    (h' : l4Protocol n' = some proto) : n = n' := by
  unfold l4Protocol at h h'
  cases proto <;> split_ifs at h h' <;> simp_all

/-- A rule asks for comparators of its direction and its protocol. -/
theorem RuleParams.mem_cmps {p : RuleParams} {dest : PclDest} {k : PortCmpKey}
    (hk : k ∈ p.cmps dest) :
    ∃ r, p.l4 = some r ∧ r.isTcpOrUdp = true ∧ k.destination = dest ∧ k.ip_proto = r.proto := by
  unfold cmps at hk
  cases hl4 : p.l4 with
  | none =>
    rw [hl4] at hk
    exact absurd hk List.not_mem_nil
  | some r =>
    rw [hl4] at hk
    dsimp only at hk
    unfold L4PclRule.srcCmps L4PclRule.dstCmps at hk
    refine ⟨r, rfl, ?_⟩
    cases htcp : r.isTcpOrUdp with
    | false => simp [htcp] at hk
    | true =>
      refine ⟨rfl, ?_⟩
      rcases List.mem_append.mp hk with hk | hk <;> split_ifs at hk <;> simp at hk <;>
        rcases hk with rfl | rfl <;> exact ⟨rfl, rfl⟩

/-- The type of a rule tells its direction. -/
theorem RuleParams.direction_of_type {p : RuleParams} {dest : PclDest} {type : RuleType}
    (h : p.type dest = some type) : dest.direction = some type.direction := by
  cases p <;> cases dest <;>
    first | exact Option.some_inj.mp h ▸ rfl | exact absurd h.symm (Option.some_ne_none _)

section Bits

variable {rest : RuleType → IpPacket → ℕ → Bool} {hw hw' : PclDevHw} {pkt : IpPacket}
  {type : RuleType} {p : RuleParams} {dest : PclDest}

/-- A bit of a packet depends on the comparator of its protocol. -/
theorem PclDevHw.portBit_congr {j : ℕ} (h : ∀ proto, l4Protocol pkt.proto = some proto →
    hw'.comparators type.direction proto j = hw.comparators type.direction proto j) :
    hw'.portBit rest pkt type j = hw.portBit rest pkt type j := by
  unfold portBit
  split_ifs
  · cases hproto : l4Protocol pkt.proto with
    | none => rfl
    | some proto => simp only [h proto hproto]
  · rfl

/-- A bit that the comparators do not decide comes from the rest of the packet. -/
theorem PclDevHw.portBit_of_unread {j : ℕ} (h : type.readsComparators = false) :
    hw.portBit rest pkt type j = rest type pkt j := by
  unfold portBit
  rw [h]
  rfl

/-- The comparators that a rule asks for are of the protocol of the packets that the rule is for. -/
theorem RuleParams.Proto.isOf {k : PortCmpKey} (hproto : p.Proto pkt) (hk : k ∈ p.cmps dest)
    (htype : p.type dest = some type) :
    ∃ proto, l4Protocol pkt.proto = some proto ∧ k.IsOf type.direction proto := by
  obtain ⟨r, hl4, htcp, hdest, hip⟩ := RuleParams.mem_cmps hk
  have hdir : k.destination.direction = some type.direction := hdest ▸ direction_of_type htype
  unfold L4PclRule.isTcpOrUdp at htcp
  rw [Bool.or_eq_true, decide_eq_true_iff, decide_eq_true_iff] at htcp
  have hpkt : (pkt.proto : ℕ) = r.proto := by
    rcases hproto r hl4 with hany | h
    · rcases htcp with h | h <;> rw [h] at hany <;> exact absurd hany (by decide)
    · exact h
  unfold PortCmpKey.IsOf
  rw [hpkt, hip, hdir]
  rcases htcp with h | h
  · exact ⟨.TCP, by rw [h]; rfl, rfl, by rw [h]; rfl⟩
  · exact ⟨.UDP, by rw [h]; rfl, rfl, by rw [h]; rfl⟩

namespace PclDev

variable {s s' : PclDev} {ixs : List ℕ}

/-- For the packets of the protocol, the bits that the entry of a rule tests are the ranges that are
not shared, and the first comparator if it shares any. -/
theorem Asked.bits_iff (h : s.Asked (p.cmps dest) ixs s') (htype : p.type dest = some type)
    (hreads : type.readsComparators = true) (hproto : p.Proto pkt) :
    (∀ j ∈ ixs, s'.hw.portBit rest pkt type j = true) ↔
      (∀ k ∈ s.missing (p.cmps dest), k.test pkt = true) ∧
      (s.shared (p.cmps dest) ≠ [] →
        0 ∈ s.taken (p.cmps dest) ∨ s.hw.portBit rest pkt type 0 = true) := by
  have htaken : (∀ j ∈ s.taken (p.cmps dest), s'.hw.portBit rest pkt type j = true) ↔
      ∀ k ∈ s.missing (p.cmps dest), k.test pkt = true := by
    have hbits : List.Forall₂ (fun k j => s'.hw.portBit rest pkt type j = k.test pkt)
        (s.missing (p.cmps dest)) (s.taken (p.cmps dest)) := by
      refine h.programmed.imp fun k j hk => ?_
      obtain ⟨proto, hpkt, hof⟩ := hproto.isOf hk.1 htype
      unfold PclDevHw.portBit
      rw [if_pos hreads, hpkt]
      dsimp only
      rw [hk.2 _ _ hof]
      rfl
    generalize s.missing (p.cmps dest) = keys at hbits ⊢
    generalize s.taken (p.cmps dest) = js at hbits ⊢
    induction hbits with
    | nil => simp
    | cons hkj _ ih =>
      rw [List.forall_mem_cons, List.forall_mem_cons, hkj]
      exact and_congr_right fun _ => ih
  have hfirst : 0 ∉ s.taken (p.cmps dest) →
      s'.hw.portBit rest pkt type 0 = s.hw.portBit rest pkt type 0 := fun hnot =>
    PclDevHw.portBit_congr fun proto _ => h.kept _ _ _ fun hmem => absurd hmem hnot
  simp only [h.mem]
  unfold tested
  by_cases hshared : s.shared (p.cmps dest) = []
  · rw [if_pos hshared, htaken]
    exact (and_iff_left fun hne => absurd hshared hne).symm
  · rw [if_neg hshared, List.forall_mem_cons, htaken, and_comm]
    refine and_congr_right fun hall => ?_
    by_cases hmem : 0 ∈ s.taken (p.cmps dest)
    · exact iff_of_true (htaken.mpr hall 0 hmem) fun _ => Or.inl hmem
    · rw [hfirst hmem]
      exact ⟨fun hbit _ => Or.inr hbit, fun hbit => (hbit hshared).resolve_left hmem⟩

/-- For packets of another protocol the bits stay what they are. -/
theorem Asked.bit_of_not_proto (h : s.Asked (p.cmps dest) ixs s') (hproto : ¬p.Proto pkt) (j : ℕ) :
    s'.hw.portBit rest pkt type j = s.hw.portBit rest pkt type j := by
  refine PclDevHw.portBit_congr fun proto hpkt => h.kept _ _ _ fun _ k hk hof => hproto ?_
  obtain ⟨r, hl4, -, -, hip⟩ := RuleParams.mem_cmps hk
  intro r' hr'
  obtain rfl := Option.some_inj.mp (hl4.symm.trans hr')
  exact Or.inr ((l4Protocol_inj hpkt hof.2).trans hip)

end PclDev

end Bits

/-! ### Rules on a device -/

section Encoded

variable (rest : RuleType → IpPacket → ℕ → Bool)

/-- An entry matches exactly the packets that satisfy its rule. -/
def Encoded (a : RuleArgs) (p : RuleParams) (pcl_id : ℕ) (hw : PclDevHw) (entry : PclEntry) :
    Prop :=
  ∀ pkt, p.IsFor pkt → (entry.Matches rest hw pcl_id pkt ↔ p.Satisfied a.vid pkt)

/-- When the entry of a rule with the format `type` is right. `proto`: the entry holds the protocol,
any will do, or the comparators that the entry tests keep the packets of other protocols out.
`shared`: where comparators are read, the rule shares none, or among the packets that meet its other
conditions the first comparator tests what the shared ones do. `unread`: where they are not read,
what is there tests the ranges. -/
structure PclDev.EncodedAs (s : PclDev) (a : RuleArgs) (p : RuleParams) (type : RuleType) :
    Prop where
  proto : p.HoldsProto ∨ (∃ r, p.l4 = some r ∧ r.proto = 0xFF) ∨
    ∀ pkt, p.IsFor pkt → p.Fields a.vid pkt → ¬p.Proto pkt →
      ∃ j ∈ s.tested (p.cmps a.dest), s.hw.portBit rest pkt type j = false
  shared : type.readsComparators = true → s.shared (p.cmps a.dest) = [] ∨
    ∀ pkt, p.IsFor pkt → p.Fields a.vid pkt → p.Proto pkt →
      (∀ k ∈ s.missing (p.cmps a.dest), k.test pkt = true) →
      (0 ∈ s.taken (p.cmps a.dest) ∨ s.hw.portBit rest pkt type 0 = true ↔
        ∀ k ∈ s.shared (p.cmps a.dest), k.test pkt = true)
  unread : type.readsComparators = false →
    ∀ pkt, p.IsFor pkt → p.Fields a.vid pkt → p.Proto pkt →
      ((∀ j ∈ s.tested (p.cmps a.dest), rest type pkt j = true) ↔
        ∀ k ∈ p.cmps a.dest, k.test pkt = true)

/-- Setting a rule on a device writes an entry that is right. -/
def PclDev.EncodedOk (s : PclDev) (a : RuleArgs) (p : RuleParams) : Prop :=
  ∀ type, p.type a.dest = some type → s.EncodedAs rest a p type

variable {rest}

namespace PclDev

variable {s s' : PclDev} {a : RuleArgs} {p : RuleParams} {pcl_id : ℕ}

/-- Each range is missing or shared. -/
theorem forall_keys_iff (s : PclDev) (keys : List PortCmpKey) (P : PortCmpKey → Prop) :
    (∀ k ∈ keys, P k) ↔ (∀ k ∈ s.missing keys, P k) ∧ ∀ k ∈ s.shared keys, P k := by
  unfold missing shared
  simp only [List.mem_filter]
  constructor
  · intro h
    exact ⟨fun k hk => h k hk.1, fun k hk => h k hk.1⟩
  · rintro ⟨hmissing, hshared⟩ k hk
    cases hcmp : s.sw.cmpOf k with
    | none => exact hmissing k ⟨hk, by rw [hcmp]; rfl⟩
    | some j => exact hshared k ⟨hk, by rw [hcmp]; rfl⟩

/-- The lookups of the packets of a rule have the format of its entry. -/
theorem lookupType_of_isFor {pkt : IpPacket} {dest : PclDest} {type : RuleType} (hpkt : p.IsFor pkt)
    (htype : p.type dest = some type) : type = pkt.lookupType type.direction := by
  cases p with
  | ip rule =>
    have hv4 : pkt.ipv6 = false := hpkt
    cases dest with
    | other n => exact absurd htype.symm (Option.some_ne_none _)
    | _ =>
      obtain rfl := Option.some_inj.mp htype
      simp [IpPacket.lookupType, RuleType.direction, hv4]
  | mac rule => exact absurd hpkt not_false
  | ipv6 rule =>
    have hv6 : pkt.ipv6 = true := hpkt
    cases dest with
    | other n => exact absurd htype.symm (Option.some_ne_none _)
    | _ =>
      obtain rfl := Option.some_inj.mp htype
      simp [IpPacket.lookupType, RuleType.direction, hv6]

variable (rest) in
/-- What the entry that setting a rule writes matches. -/
theorem ruleSet_matches {o : Outcome} {entry : PclEntry} {pkt : IpPacket} (hd : s.Divided)
    (hp : p.Sized) (hvid : ∀ v, a.vid = some v → v < 2 ^ 12) (hpkt : p.IsFor pkt)
    (h : s.ruleSet false a p pcl_id = (o, s')) (hw : o.written = some entry) :
    ∃ type ixs, p.type a.dest = some type ∧ s.Asked (p.cmps a.dest) ixs s' ∧
      (entry.Matches rest s'.hw pcl_id pkt ↔ (p.HoldsProto → p.Proto pkt) ∧ p.Fields a.vid pkt ∧
        ∀ j ∈ ixs, s'.hw.portBit rest pkt type j = true) := by
  obtain ⟨-, rfl, -⟩ | ⟨ix, s₁, hadd, hend⟩ := ruleSet_cases h
  · exact absurd hw.symm (Option.some_ne_none _)
  · have hadded := pclAddRuleIx_spec hadd
    generalize hadds : s₁.addPortCmps false ix (p.cmps a.dest) = r at hend
    cases hend with
    | short => exact absurd hw.symm (Option.some_ne_none _)
    | tried => exact absurd hw.symm (Option.some_ne_none _)
    | wrong => exact absurd hw.symm (Option.some_ne_none _)
    | installed ixs s₂ entry' _ hentry =>
      have hidxs : s₁.sw.port_cmp_idxs.Nodup := hadded.port_cmp_idxs ▸ hd.nodup
      have hhw : s.hw.comparators = s₁.hw.comparators := by rw [hadded.hw]; rfl
      have hasked : s.Asked (p.cmps a.dest) ixs (s₂.setTcam false ix (some entry')) :=
        (addPortCmps_asked ix (cmps_nodup p a.dest) hidxs hadds).congr hadded.port_cmps.symm
          hadded.port_cmp_idxs.symm hhw rfl
      obtain rfl := Option.some_inj.mp hw
      obtain ⟨act, -, hentry⟩ := Option.bind_eq_some_iff.mp hentry
      obtain ⟨type, htype, rfl⟩ := Option.map_eq_some_iff.mp hentry
      refine ⟨type, ixs, htype, hasked, ?_⟩
      have hlt : ∀ j ∈ ixs, j < PCL_CMP_IDX_COUNT := by
        intro j hj
        rw [hasked.mem, tested] at hj
        split_ifs at hj
        · exact hd.lt (List.mem_of_mem_take hj)
        · rcases List.mem_cons.mp hj with rfl | hj
          · decide
          · exact hd.lt (List.mem_of_mem_take hj)
      unfold PclEntry.Matches
      refine (and_iff_right (lookupType_of_isFor hpkt htype)).trans ?_
      refine (RuleParams.matches_iff hp hpkt hvid hasked.length).trans ?_
      refine and_congr_right fun _ => and_congr_right fun _ => ?_
      exact PclDevHw.agree_portByte rest _ pkt type hlt

/-- In fake mode nothing is written. -/
theorem written_fake {o : Outcome} (h : s.ruleSet true a p pcl_id = (o, s')) :
    o.written = none := by
  obtain ⟨-, rfl, -⟩ | ⟨ix, s₁, -, hend⟩ := ruleSet_cases h
  · rfl
  · generalize s₁.addPortCmps true ix (p.cmps a.dest) = r at hend
    cases hend with
    | installed _ _ _ hfake => exact absurd hfake.symm Bool.false_ne_true
    | _ => rfl

section RuleSet

variable {o : Outcome} {entry : PclEntry} (hd : s.Divided) (hp : p.Sized)
  (hvid : ∀ v, a.vid = some v → v < 2 ^ 12) (h : s.ruleSet false a p pcl_id = (o, s'))
  (hw : o.written = some entry)

include hd hp hvid h hw

variable (rest) in
/-- For the packets that meet the other conditions of a rule, its entry is right if the bits of its
comparators are those of the ranges. -/
theorem matches_iff_satisfied {pkt : IpPacket} (hpkt : p.IsFor pkt) (hfields : p.Fields a.vid pkt)
    (hproto : p.Proto pkt) : ∃ type ixs, p.type a.dest = some type ∧
      s.Asked (p.cmps a.dest) ixs s' ∧
      ((entry.Matches rest s'.hw pcl_id pkt ↔ p.Satisfied a.vid pkt) ↔
        ((∀ j ∈ ixs, s'.hw.portBit rest pkt type j = true) ↔
          ∀ k ∈ p.cmps a.dest, k.test pkt = true)) := by
  obtain ⟨type, ixs, htype, hasked, hmatches⟩ :=
    ruleSet_matches rest hd hp hvid hpkt h hw
  refine ⟨type, ixs, htype, hasked, ?_⟩
  have hsat : p.Satisfied a.vid pkt ↔ ∀ k ∈ p.cmps a.dest, k.test pkt = true := by
    rw [← RuleParams.ranges_iff a.dest]
    exact ⟨fun hs => hs.2.1, fun hr => ⟨hproto, hr, hfields⟩⟩
  rw [hmatches, hsat, and_iff_right (fun _ => hproto), and_iff_right hfields]

/-- A rule whose entry matches its packets meets the condition. -/
theorem encodedOk_of_encoded (henc : Encoded rest a p pcl_id s'.hw entry) :
    s.EncodedOk rest a p := by
  intro type htype
  refine ⟨?_, fun hreads => ?_, fun hunread pkt hpkt hfields hproto => ?_⟩
  · by_cases hholds : p.HoldsProto
    · exact Or.inl hholds
    · -- a packet of another protocol does not match, and only the comparators can see to that
      refine Or.inr (Or.inr fun pkt hpkt hfields hproto => ?_)
      obtain ⟨type', ixs, htype', hasked, hmatches⟩ :=
        ruleSet_matches rest hd hp hvid hpkt h hw
      obtain rfl := Option.some_inj.mp (htype.symm.trans htype')
      have hnot := mt (henc pkt hpkt).mp fun hs => hproto hs.1
      rw [hmatches, and_iff_right (fun hh => absurd hh hholds), and_iff_right hfields] at hnot
      by_contra hall
      refine hnot fun j hj => ?_
      rw [hasked.bit_of_not_proto hproto]
      by_contra hbit
      exact hall ⟨j, (hasked.mem j).mp hj, Bool.eq_false_iff.mpr hbit⟩
  · by_cases hshared : s.shared (p.cmps a.dest) = []
    · exact Or.inl hshared
    · refine Or.inr fun pkt hpkt hfields hproto hmissing => ?_
      obtain ⟨type', ixs, htype', hasked, hiff⟩ :=
        matches_iff_satisfied rest hd hp hvid h hw hpkt hfields hproto
      obtain rfl := Option.some_inj.mp (htype.symm.trans htype')
      have hranges := hiff.mp (henc pkt hpkt)
      rw [hasked.bits_iff htype hreads hproto, forall_keys_iff s (p.cmps a.dest),
        and_iff_right hmissing, and_iff_right hmissing] at hranges
      exact ⟨fun hfirst => hranges.mp fun _ => hfirst, fun hall => hranges.mpr hall hshared⟩
  · obtain ⟨type', ixs, htype', hasked, hiff⟩ :=
      matches_iff_satisfied rest hd hp hvid h hw hpkt hfields hproto
    obtain rfl := Option.some_inj.mp (htype.symm.trans htype')
    have hranges := hiff.mp (henc pkt hpkt)
    simp only [hasked.mem, PclDevHw.portBit_of_unread hunread] at hranges
    exact hranges

/-- A rule that meets the condition is matched by its entry. -/
theorem encoded_of_encodedOk (hok : s.EncodedOk rest a p) :
    Encoded rest a p pcl_id s'.hw entry := by
  intro pkt hpkt
  obtain ⟨type, ixs, htype, hasked, hmatches⟩ :=
    ruleSet_matches rest hd hp hvid hpkt h hw
  have hok := hok type htype
  by_cases hfields : p.Fields a.vid pkt
  · by_cases hproto : p.Proto pkt
    · obtain ⟨type', ixs', htype', hasked', hiff⟩ :=
        matches_iff_satisfied rest hd hp hvid h hw hpkt hfields hproto
      obtain rfl := Option.some_inj.mp (htype.symm.trans htype')
      refine hiff.mpr ?_
      cases hreads : type.readsComparators with
      | true =>
        rw [hasked'.bits_iff htype hreads hproto, forall_keys_iff s (p.cmps a.dest)]
        refine and_congr_right fun hmissing => ?_
        rcases hok.shared hreads with hshared | hshared
        · rw [hshared]
          simp
        · rw [← hshared pkt hpkt hfields hproto hmissing]
          refine ⟨fun hfirst => ?_, fun hfirst _ => hfirst⟩
          by_cases hne : s.shared (p.cmps a.dest) = []
          · rw [hshared pkt hpkt hfields hproto hmissing, hne]
            exact fun k hk => absurd hk List.not_mem_nil
          · exact hfirst hne
      | false =>
        simp only [hasked'.mem, PclDevHw.portBit_of_unread hreads]
        exact hok.unread hreads pkt hpkt hfields hproto
    · refine iff_of_false ?_ fun hs => hproto hs.1
      rw [hmatches]
      rintro ⟨hholds, -, hbits⟩
      rcases hok.proto with hh | ⟨r, hr, hany⟩ | hout
      · exact hproto (hholds hh)
      · refine hproto fun r' hr' => ?_
        obtain rfl := Option.some_inj.mp (hr.symm.trans hr')
        exact Or.inl hany
      · obtain ⟨j, hj, hbit⟩ := hout pkt hpkt hfields hproto
        have hset := hbits j ((hasked.mem j).mpr hj)
        rw [hasked.bit_of_not_proto hproto, hbit] at hset
        exact Bool.false_ne_true hset
  · refine iff_of_false ?_ fun hs => hfields hs.2.2
    rw [hmatches]
    exact fun hm => hfields hm.2.1

/-- On a device, the entry that setting a rule writes matches exactly the packets that satisfy the
rule if and only if the protocol and the comparators are right. -/
theorem encoded_iff_ok : Encoded rest a p pcl_id s'.hw entry ↔ s.EncodedOk rest a p :=
  ⟨encodedOk_of_encoded hd hp hvid h hw, encoded_of_encodedOk hd hp hvid h hw⟩

end RuleSet

/-- A packet that meets the masked conditions of an IPv6 rule and has the protocol `proto`. -/
def meeting (r : Ipv6PclRule) (vid : Fin 4096) (proto : Fin 256) (hsrc : r.src < 2 ^ 128)
    (hdst : r.dst < 2 ^ 128) : IpPacket where
  ipv6 := true
  macDa := 0
  macSa := 0
  etherType := 0x86DD
  l2Encap := 1
  up := 0
  vid := vid
  dscp := Fin.ofNat 64 r.dscp
  proto := proto
  sip := r.src
  dip := r.dst
  l4 i := Fin.ofNat 256
    (if i = 0 then if r.proto = 0x01 then r.icmp_type else r.src_ip_port / 256
    else if i = 1 then if r.proto = 0x01 then r.icmp_code else r.src_ip_port
    else if i = 2 then r.dst_ip_port / 256
    else if i = 3 then r.dst_ip_port
    else r.tcp_flags)
  sip_lt := hsrc
  dip_lt := hdst

/-- The packet made for a rule has the fields of the rule. -/
theorem meeting_fields {r : Ipv6PclRule} {vid : Option ℕ} {v : Fin 4096} (proto : Fin 256)
    (hr : r.toL4PclRule.Sized) (hdscp : r.dscp < 64) (hsrc : r.src < 2 ^ 128)
    (hdst : r.dst < 2 ^ 128) (hvid : ∀ n, vid = some n → (v : ℕ) = n) :
    r.Fields vid (meeting r v proto hsrc hdst) := by
  have hagree {x v m : ℕ} (h : x = v) : Agree x v m := h ▸ rfl
  have h1 := hr.src_ip_port
  have h2 := hr.dst_ip_port
  have h3 := hr.icmp_type
  have h4 := hr.icmp_code
  have h5 := hr.tcp_flags
  refine ⟨rfl, rfl, ⟨hagree ?_, fun htcp _ => hagree ?_, fun htcp _ => hagree ?_,
    fun hicmp => ⟨hagree ?_, hagree ?_⟩, fun _ => hagree ?_⟩, hvid⟩
  · simp [meeting]
    omega
  · have hne : r.proto ≠ 0x01 := by
      intro h
      simp [L4PclRule.isTcpOrUdp, h, IP_PROTO_TCP, IP_PROTO_UDP] at htcp
    simp [meeting, IpPacket.srcPort, hne]
    omega
  · simp [meeting, IpPacket.dstPort]
    omega
  · simp [meeting, hicmp]
    omega
  · simp [meeting, hicmp]
    omega
  · simp [meeting]
    omega

/-- An IPv6 rule without ranges is encoded right only if it is for any protocol. -/
theorem EncodedAs.any_of_ipv6 {r : Ipv6PclRule} {type : RuleType}
    (h : s.EncodedAs rest a (.ipv6 r) type) (hr : r.toL4PclRule.Sized) (hdscp : r.dscp < 64)
    (hsrc : r.src < 2 ^ 128) (hdst : r.dst < 2 ^ 128) (hvid : ∀ v, a.vid = some v → v < 2 ^ 12)
    (hcmps : (RuleParams.ipv6 r).cmps a.dest = []) : r.proto = 0xFF := by
  rcases h.proto with hholds | ⟨r', hr', hany⟩ | hout
  · exact absurd hholds not_false
  · obtain rfl := Option.some_inj.mp hr'
    exact hany
  · by_contra hne
    have hproto : ∃ proto : Fin 256, (proto : ℕ) ≠ r.proto := by
      by_cases h0 : r.proto = 0
      · exact ⟨1, by rw [h0]; decide⟩
      · exact ⟨0, fun h => h0 h.symm⟩
    obtain ⟨proto, hproto⟩ := hproto
    obtain ⟨v, hv⟩ : ∃ v : Fin 4096, ∀ n, a.vid = some n → (v : ℕ) = n := by
      cases hopt : a.vid with
      | none => exact ⟨0, fun n hn => absurd hn.symm (Option.some_ne_none n)⟩
      | some n => exact ⟨⟨n, hvid n hopt⟩, fun n' hn' => Option.some_inj.mp hn'⟩
    have hnot : ¬(RuleParams.ipv6 r).Proto (meeting r v proto hsrc hdst) := by
      intro hp
      rcases hp _ rfl with hany | heq
      · exact hne hany
      · exact hproto heq
    obtain ⟨j, hj, -⟩ := hout (meeting r v proto hsrc hdst) rfl
      (meeting_fields proto hr hdscp hsrc hdst hv) hnot
    -- there is no comparator that could keep the packet out
    rw [hcmps] at hj
    exact absurd hj List.not_mem_nil

end PclDev

end Encoded

/-! ### Runs -/

/-- The comparators of a new rule keep the division. -/
theorem PclDev.Divided.addPortCmps {s : PclDev} (hd : s.Divided) (rule_ix : ℕ)
    (keys : List PortCmpKey) : (s.addPortCmps false rule_ix keys).2.Divided := by
  induction keys generalizing s with
  | nil => exact hd
  | cons k keys ih =>
    unfold PclDev.addPortCmps
    cases hadd : s.pclAddPortCmpIx false k rule_ix 0 with
    | none => exact hd
    | some r =>
      obtain ⟨ix, s₁⟩ := r
      refine ih (s := s₁) ?_
      obtain ⟨-, -, rfl⟩ | ⟨-, idxs, hfree, rfl⟩ := pclAddPortCmpIx_cases hadd
      · exact hd.join k rule_ix
      · exact hd.take k rule_ix hfree

/-- A call keeps each comparator free or in use. -/
theorem DevStep.divided {op : PclOp} {dev dev' : PclDev} {live live' : List LiveRule}
    (h : DevStep false op dev live dev' live') (hp : dev.sw.Placed live) (hd : dev.Divided) :
    dev'.Divided := by
  cases h with
  | same => exact hd
  | set a p pcl_id =>
    generalize hset : dev.ruleSet false a p pcl_id = r
    obtain ⟨o, dev'⟩ := r
    obtain ⟨-, -, rfl⟩ | ⟨ix, s₁, hadd, hend⟩ := PclDev.ruleSet_cases hset
    · exact hd
    · have hadded := PclDev.pclAddRuleIx_spec hadd
      have hd₁ : s₁.Divided := hd.congr (by rw [hadded.port_cmps]) hadded.port_cmp_idxs
      have hsw := hend.sw
      refine (hd₁.addPortCmps ix (p.cmps a.dest)).congr ?_ ?_
      · rw [hsw]
      · rw [hsw]
  | reset interface dest action_type =>
    refine (PclDev.resetRules_induction (fun s live => s.sw.Placed live ∧ s.Divided)
      (fun _ _ h => h.1) ?_ ⟨hp, hd⟩).2
    rintro s live A B r bind ⟨hp, hd⟩ hAB hkey hix -
    obtain ⟨hrem, hcmps, hidxs⟩ := PclDev.removeRule_spec false hp hAB bind hkey hix
    refine ⟨hrem.placed hAB hix hp, (hd.release bind.rule_ix).congr ?_ hidxs⟩
    rw [hcmps]

/-- The PCL id with which packets of the interface of a rule are looked up. -/
def UserAcl.pclId (acl : UserAcl) (a : RuleArgs) : ℕ :=
  match a.interface.type with
  | .VLAN => acl.vlan_ipcl_id a.interface.num
  | .PORT => if a.dest = .INGRESS then AclConf.portIpclId a.interface.num
    else AclConf.portEpclId a.interface.num
  | .other _ => 0

/-- The list of a rule depends on the lists of the VLANs. -/
theorem UserAcl.pclId_congr {acl acl' : UserAcl} {a : RuleArgs}
    (h : acl'.vlan_ipcl_id = acl.vlan_ipcl_id) : acl'.pclId a = acl.pclId a := by
  unfold pclId
  rw [h]

namespace AclState

variable {c : AclConf} {fake : Bool} {s t : AclState} {a : RuleArgs} {p : RuleParams}

/-- The loop over devices sets the rule on each device for itself. -/
theorem ruleSetDevs_outcome {pcl_id : ℕ} {ds : List ℕ} (hds : ds.Nodup) {d : ℕ} {o : PclDev.Outcome}
    (h : (d, o) ∈ (ruleSetDevs fake a p pcl_id ds s).1.devs) :
    (s.dev d).ruleSet fake a p pcl_id = (o, (ruleSetDevs fake a p pcl_id ds s).2.dev d) := by
  induction ds generalizing s with
  | nil => exact absurd h List.not_mem_nil
  | cons d' ds ih =>
    obtain ⟨hd', hnodup⟩ := List.nodup_cons.mp hds
    rw [ruleSetDevs_cons] at h ⊢
    split_ifs at h ⊢ with hst
    · obtain ⟨rfl, rfl⟩ := Prod.mk.inj (List.mem_singleton.mp h)
      rw [dev_setDev, if_pos rfl]
    · rcases List.mem_cons.mp h with heq | h
      · obtain ⟨rfl, rfl⟩ := Prod.mk.inj heq
        -- the rounds for the other devices leave this one as it is
        obtain ⟨hsame, -⟩ | ⟨⟨r, hr, hrd⟩, -⟩ := ruleSetDevs_dev fake a p pcl_id hnodup
          (s.setDev d ((s.dev d).ruleSet fake a p pcl_id).2) (fun _ => []) d
        · dsimp only
          rw [hsame, dev_setDev, if_pos rfl]
        · exact absurd (hrd ▸ ruleSetDevs_mem fake a p pcl_id ds _ r hr) hd'
      · have hmem := ruleSetDevs_mem fake a p pcl_id ds _ _ h
        have hne : d ≠ d' := fun heq => hd' (heq ▸ hmem)
        have hrest := ih hnodup h
        rw [dev_setDev, if_neg hne] at hrest
        exact hrest

/-- The `switch` over interfaces gives the PCL id of the interface. -/
theorem ruleTargets_pclId {pcl_id : ℕ} {ds : List ℕ}
    (h : s.ruleTargets c fake a = some (some (pcl_id, ds), t)) :
    t.acl.pclId a = pcl_id ∧ ∀ v, a.vid = some v → v < VLAN_IPCL_ID_COUNT := by
  unfold ruleTargets at h
  unfold UserAcl.pclId RuleArgs.vid
  by_cases hname : NAME_SZ < a.name.length
  · rw [if_pos hname] at h
    exact absurd (Prod.mk.inj (Option.some_inj.mp h)).1.symm (Option.some_ne_none _)
  · rw [if_neg hname] at h
    cases htype : a.interface.type with
    | VLAN =>
      rw [htype] at h
      obtain ⟨⟨status, s₁⟩, hadd, h⟩ := Option.map_eq_some_iff.mp h
      obtain ⟨htargets, rfl⟩ := Prod.mk.inj h
      split_ifs at htargets
      refine ⟨(Prod.mk.inj (Option.some_inj.mp htargets)).1, fun v hv => ?_⟩
      rw [if_pos rfl] at hv
      obtain rfl := Option.some_inj.mp hv
      by_contra hge
      unfold pclAddVlanPclId at hadd
      rw [if_pos (Nat.not_lt.mp hge)] at hadd
      exact absurd hadd.symm (Option.some_ne_none _)
    | PORT =>
      rw [htype] at h
      refine ⟨?_, fun v hv => ?_⟩
      · dsimp only at h ⊢
        cases hport : c.getPortPtr a.interface.num with
        | none =>
          rw [hport] at h
          exact absurd (Prod.mk.inj (Option.some_inj.mp h)).1.symm (Option.some_ne_none _)
        | some port =>
          rw [hport] at h
          cases hdest : a.dest with
          | other n =>
            rw [hdest] at h
            exact absurd (Prod.mk.inj (Option.some_inj.mp h)).1.symm (Option.some_ne_none _)
          | _ =>
            rw [hdest] at h
            exact (Prod.mk.inj (Option.some_inj.mp (Prod.mk.inj (Option.some_inj.mp h)).1)).1
      · rw [if_neg (by simp)] at hv
        exact absurd hv.symm (Option.some_ne_none _)
    | other n =>
      rw [htype] at h
      exact absurd (Prod.mk.inj (Option.some_inj.mp h)).1.symm (Option.some_ne_none _)

/-- The devices get the rule with the PCL id of its interface. -/
theorem pclRuleSet_outcome {r : Report} (h : s.pclRuleSet c fake a p = some (r, t)) {d : ℕ}
    {o : PclDev.Outcome} (ho : (d, o) ∈ r.devs) :
    (s.dev d).ruleSet fake a p (t.acl.pclId a) = (o, t.dev d) ∧
      ∀ v, a.vid = some v → v < VLAN_IPCL_ID_COUNT := by
  rw [pclRuleSet_eq] at h
  obtain ⟨⟨targets, s₁⟩, htargets, h⟩ := Option.map_eq_some_iff.mp h
  obtain ⟨hdev, hds⟩ := ruleTargets_spec htargets
  cases targets with
  | none =>
    obtain ⟨rfl, -⟩ := Prod.mk.inj h
    exact absurd ho List.not_mem_nil
  | some x =>
    obtain ⟨pcl_id, ds⟩ := x
    have hrun : ruleSetDevs fake a p pcl_id ds s₁ = (r, t) := h
    have hnodup : ds.Nodup := hds pcl_id ds rfl ▸ ruleDevs_nodup a
    have hids : t.acl.vlan_ipcl_id = s₁.acl.vlan_ipcl_id := by
      have hframe : (ruleSetDevs fake a p pcl_id ds s₁).2.acl.vlan_ipcl_id =
          s₁.acl.vlan_ipcl_id := (ruleSetDevs_frame ds s₁).2.1
      rwa [hrun] at hframe
    have hmem : (d, o) ∈ (ruleSetDevs fake a p pcl_id ds s₁).1.devs := hrun ▸ ho
    have hout := ruleSetDevs_outcome hnodup hmem
    rw [hrun, hdev d] at hout
    obtain ⟨hid, hvid⟩ := ruleTargets_pclId htargets
    rw [UserAcl.pclId_congr hids, hid]
    exact ⟨hout, hvid⟩

end AclState

namespace AclLog

variable {c : AclConf} {s : AclLog} {op : PclOp} {a : RuleArgs} {p : RuleParams}

/-- In every run each comparator is free or in use. -/
theorem divided_of_reach (hr : Guarded.Reach (AclLog.step c) (fun _ _ => True) (init c) s) (d : ℕ) :
    (s.userDev d).Divided := by
  refine (hr.invariant (fun s => s.Ordered c ∧ ∀ d, (s.userDev d).Divided) ⟨init_ordered c, ?_⟩
    fun s t op h _ hs => ⟨h.1.step hs, fun d => ?_⟩).2 d
  · exact fun d => List.Perm.of_eq (List.append_nil _)
  · exact (step_user hs d).divided (h.1.user d) (h.2 d)

/-- A call that sets a rule sets it in the tables in use. -/
theorem step_rule {devs : List (ℕ × PclDev.Outcome)} {pcl : Pcl} (hop : op.rule? = some (a, p))
    (h : s.pcl.step c op = some (devs, pcl)) : ∃ r t,
      s.pcl.curr.pclRuleSet c s.pcl.user_acl_fake_mode a p = some (r, t) ∧ devs = r.devs ∧
        pcl = s.pcl.setCurr t := by
  cases op with
  | resetRules interface dest action_type => exact absurd hop.symm (Option.some_ne_none _)
  | setFakeModeEnabled enable => exact absurd hop.symm (Option.some_ne_none _)
  | _ =>
    obtain ⟨rfl, rfl⟩ := Prod.mk.inj (Option.some_inj.mp hop)
    obtain ⟨⟨r, t⟩, hset, heq⟩ := Option.map_eq_some_iff.mp h
    obtain ⟨rfl, rfl⟩ := Prod.mk.inj heq
    exact ⟨r, t, hset, rfl, rfl⟩

section Call

variable {devs : List (ℕ × PclDev.Outcome)} {pcl : Pcl} {d : ℕ} {o : PclDev.Outcome}
  {entry : PclEntry}

/-- A call that writes an entry writes one that is right if and only if the protocol and the
comparators are right. -/
theorem encoded_iff_encodedOk (rest : RuleType → IpPacket → ℕ → Bool)
    (hr : Guarded.Reach (AclLog.step c) (fun _ _ => True) (init c) s) (hop : op.rule? = some (a, p))
    (hp : p.Sized) (hs : s.pcl.step c op = some (devs, pcl)) (ho : (d, o) ∈ devs)
    (hw : o.written = some entry) :
    Encoded rest a p (pcl.user_acl.pclId a) (pcl.hw.devs d) entry ↔
      (s.userDev d).EncodedOk rest a p := by
  obtain ⟨r, t, hset, rfl, rfl⟩ := step_rule hop hs
  obtain ⟨hout, hvid⟩ := AclState.pclRuleSet_outcome hset ho
  cases hfake : s.pcl.user_acl_fake_mode with
  | true =>
    -- in fake mode nothing is written
    rw [hfake] at hout
    exact absurd (hw.symm.trans (PclDev.written_fake hout)) (Option.some_ne_none _)
  | false =>
    rw [hfake] at hout
    have hcurr : s.pcl.curr.dev d = s.userDev d := by
      unfold Pcl.curr
      rw [hfake]
      rfl
    rw [hcurr] at hout
    have hiff : Encoded rest a p (t.acl.pclId a) (t.dev d).hw entry ↔
        (s.userDev d).EncodedOk rest a p :=
      PclDev.encoded_iff_ok (divided_of_reach hr d) hp
        (fun v hv => (hvid v hv).trans (by decide)) hout hw
    unfold Pcl.setCurr
    rw [hfake]
    exact hiff

/-- In every run, an entry that setting a rule for IPv4 or IPv6 writes matches exactly the packets
of the interface that satisfy the rule if and only if the protocol and the comparators are right.
The entries of an IPv4 and an IPv6 rule hold the same of the conditions that both have if and only
if these are for any protocol. -/
theorem encoded_iff (rest : RuleType → IpPacket → ℕ → Bool)
    (hr : Guarded.Reach (AclLog.step c) (fun _ _ => True) (init c) s) (hop : op.rule? = some (a, p))
    (hp : p.Sized) (hs : s.pcl.step c op = some (devs, pcl)) (ho : (d, o) ∈ devs)
    (hw : o.written = some entry) :
    (Encoded rest a p (pcl.user_acl.pclId a) (pcl.hw.devs d) entry ↔
      (s.userDev d).EncodedOk rest a p) ∧
    ∀ (r : IpPclRule) (r' : Ipv6PclRule), r.toL4PclRule = r'.toL4PclRule → ∀ pcl_id vid src dst,
      (∀ field ∈ RuleFormat.commonFields, RuleFormat.zero.setIpRule pcl_id vid r src dst field =
        RuleFormat.zero.setIpv6Rule pcl_id vid r' src dst field) ↔ r.proto = 0xFF :=
  ⟨encoded_iff_encodedOk rest hr hop hp hs ho hw,
    fun _ _ h pcl_id vid src dst => RuleFormat.alike_iff h pcl_id vid src dst⟩

end Call

/-- What was written on the first device that a call came to. -/
def firstWritten (r : Option (List (ℕ × PclDev.Outcome) × Pcl)) : Option (ℕ × Bool) :=
  r.bind fun x => x.1.head?.map fun y => (y.1, y.2.written.isSome)

/-- The entry that was written first is one of a device. -/
theorem exists_of_firstWritten {r : Option (List (ℕ × PclDev.Outcome) × Pcl)} {d : ℕ}
    (h : firstWritten r = some (d, true)) :
    ∃ devs pcl o entry, r = some (devs, pcl) ∧ (d, o) ∈ devs ∧ o.written = some entry := by
  obtain ⟨⟨devs, pcl⟩, rfl, h⟩ := Option.bind_eq_some_iff.mp h
  obtain ⟨⟨d', o⟩, hhead, heq⟩ := Option.map_eq_some_iff.mp h
  obtain ⟨rfl, hwritten⟩ := Prod.mk.inj heq
  obtain ⟨entry, hentry⟩ := Option.isSome_iff_exists.mp hwritten
  exact ⟨devs, pcl, o, entry, rfl, List.mem_of_mem_head? hhead, hentry⟩

/-- A rule for a port. -/
def firstArgs : RuleArgs := ⟨[1], .ACL, 1, ⟨.PORT, 1⟩, .INGRESS, .DENY⟩

/-- A rule with a range of ports on an empty device. -/
theorem encoded_iff_firstRange : ∃ pcl d entry,
    Encoded (fun _ _ _ => false) firstArgs (.ip (tcpRange 1000 2000)) 0 ((pcl : Pcl).hw.devs d)
      entry := by
  have hfirst : firstWritten ((init twoPorts).pcl.step twoPorts
      (.ipRuleSet firstArgs (tcpRange 1000 2000))) = some (0, true) := by decide +kernel
  obtain ⟨devs, pcl, o, entry, hs, ho, hw⟩ := exists_of_firstWritten hfirst
  have hsized : (RuleParams.ip (tcpRange 1000 2000)).Sized := by
    intro r hr
    obtain rfl := Option.some_inj.mp hr
    constructor <;> decide
  refine ⟨pcl, 0, entry, (encoded_iff (fun _ _ _ => false) .init rfl hsized hs ho hw).1.mpr ?_⟩
  intro type htype
  obtain rfl := Option.some_inj.mp htype
  exact ⟨Or.inl trivial, fun _ => Or.inl (by decide), fun h => absurd h (by decide)⟩

/-- An IPv6 rule for TCP to port 80. -/
def webRule : Ipv6PclRule where
  proto := IP_PROTO_TCP
  src_ip_port_single := true
  src_ip_port := 0
  src_ip_port_max := 0
  src_ip_port_mask := 0
  dst_ip_port_single := true
  dst_ip_port := 80
  dst_ip_port_max := 0
  dst_ip_port_mask := 0xFFFF
  dscp := 0
  dscp_mask := 0
  icmp_type := 0
  icmp_type_mask := 0
  icmp_code := 0
  icmp_code_mask := 0
  tcp_flags := 0
  tcp_flags_mask := 0
  trap_action := .NONE
  src := 0
  src_mask := 0
  dst := 0
  dst_mask := 0

/-- A packet of IPv6 with UDP to port 80. -/
def datagram : IpPacket where
  ipv6 := true
  macDa := 0
  macSa := 0
  etherType := 0x86DD
  l2Encap := 1
  up := 0
  vid := 1
  dscp := 0
  proto := 17
  sip := 1
  dip := 2
  l4 i := if i = 3 then 80 else 0
  sip_lt := by decide
  dip_lt := by decide

/-- Rules are not encoded right in general: the entry of an IPv6 rule for TCP matches UDP. -/
theorem not_encoded : ¬∀ (rest : RuleType → IpPacket → ℕ → Bool) (c : AclConf) (s : AclLog)
    (op : PclOp) (a : RuleArgs) (p : RuleParams) (devs : List (ℕ × PclDev.Outcome)) (pcl : Pcl)
    (d : ℕ) (o : PclDev.Outcome) (entry : PclEntry),
    Guarded.Reach (AclLog.step c) (fun _ _ => True) (init c) s → op.rule? = some (a, p) → p.Sized →
      s.pcl.step c op = some (devs, pcl) → (d, o) ∈ devs → o.written = some entry →
        Encoded rest a p (pcl.user_acl.pclId a) (pcl.hw.devs d) entry := by
  intro h
  have hfirst : firstWritten ((init twoPorts).pcl.step twoPorts
      (.ipv6RuleSet firstArgs webRule)) = some (0, true) := by decide +kernel
  obtain ⟨devs, pcl, o, entry, hs, ho, hw⟩ := exists_of_firstWritten hfirst
  have hsized : (RuleParams.ipv6 webRule).Sized := by
    intro r hr
    obtain rfl := Option.some_inj.mp hr
    constructor <;> decide
  have henc := h (fun _ _ _ => false) _ _ _ _ _ _ _ _ _ _ .init rfl hsized hs ho hw
  have hok := (encoded_iff_encodedOk _ .init rfl hsized hs ho hw).mp henc _ rfl
  rcases hok.proto with hholds | ⟨r, hr, hany⟩ | hout
  · exact hholds
  · obtain rfl := Option.some_inj.mp hr
    exact absurd hany (by decide)
  · have hfields : (RuleParams.ipv6 webRule).Fields firstArgs.vid datagram := by
      refine ⟨rfl, rfl, ⟨rfl, fun _ _ => rfl, fun _ _ => rfl, fun h => ?_, fun _ => rfl⟩,
        fun v hv => absurd hv.symm (Option.some_ne_none v)⟩
      exact absurd h (by decide)
    have hproto : ¬(RuleParams.ipv6 webRule).Proto datagram := by
      intro hproto
      rcases hproto _ rfl with hany | heq
      · exact absurd hany (by decide)
      · exact absurd heq (by decide)
    obtain ⟨j, hj, -⟩ := hout datagram rfl hfields hproto
    -- the entry tests no comparator
    have htested : ((init twoPorts).userDev 0).tested
        ((RuleParams.ipv6 webRule).cmps firstArgs.dest) =
        [] := by decide
    rw [htested] at hj
    exact absurd hj List.not_mem_nil

end AclLog

end Presteramgr
