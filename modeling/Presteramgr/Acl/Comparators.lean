import Mathlib.Data.Nat.Bitwise
import Presteramgr.Acl.InOrder

/-!
# Port comparators (`pcl.c`)

Rules that test ranges of TCP or UDP ports share the eight comparators of a device. A comparator is
found by what it tests and keeps a list of the indices of the rules that use it.

## Main definitions

* `PclDev.Comparing`: the comparators of a device with their users;
* `PclDev.Compared`: the users are the rules, and each rule tests its own comparators;
* `PclDev.SetOk`, `PclDev.ResetOk`: when a call keeps that.

## Main results

* `PclDev.ruleSet_compared`, `PclDev.resetRules_compared`: these calls keep it.
-/

namespace Presteramgr

open Function (update update_self update_of_ne)

/-! ### The bits of a rule -/

namespace RuleFormat

variable {f : RuleFormat} {field field' : RuleField}

/-- The field that is set. -/
theorem set_self (value mask : ℕ) : f.set field value mask field = ⟨value, mask⟩ :=
  update_self _ _ _

/-- The fields that are not set are as they were. -/
theorem set_of_ne (value mask : ℕ) (h : field' ≠ field) :
    f.set field value mask field' = f field' :=
  update_of_ne h _ _

/-- The bits of two lists are those of both. -/
theorem bitmap_append (l l' : List ℕ) : bitmap (l ++ l') = bitmap l ||| bitmap l' := by
  induction l with
  | nil => exact (Nat.zero_or _).symm
  | cons ix l ih =>
    unfold bitmap at ih ⊢
    rw [List.cons_append, List.foldr_cons, List.foldr_cons, ih, Nat.or_assoc]

/-- The bits are those of the comparators. -/
theorem testBit_bitmap {l : List ℕ} (hl : ∀ ix ∈ l, ix < PCL_CMP_IDX_COUNT) (j : ℕ) :
    (bitmap l).testBit j = true ↔ j ∈ l := by
  induction l with
  | nil => simp [bitmap]
  | cons ix l ih =>
    have hix : ix < 8 := hl ix List.mem_cons_self
    have hpow : 2 ^ ix % 256 = 2 ^ ix :=
      Nat.mod_eq_of_lt (Nat.pow_lt_pow_right (by omega) (show ix < 8 from hix))
    unfold bitmap at ih ⊢
    rw [List.foldr_cons, hpow, Nat.testBit_or, Bool.or_eq_true_iff,
      ih fun i hi => hl i (List.mem_cons_of_mem _ hi), Nat.testBit_two_pow, decide_eq_true_iff,
      List.mem_cons, eq_comm]

/-- The comparator bits of an entry are those of its port ranges. -/
theorem setL4Ports_portComparator (r : L4PclRule) (src dst : List ℕ) :
    f.setL4Ports r src dst .portComparator =
      ⟨(f .portComparator).value |||
          ((if r.isTcpOrUdp && !r.src_ip_port_single then bitmap src else 0) |||
            if r.isTcpOrUdp && !r.dst_ip_port_single then bitmap dst else 0),
        (f .portComparator).mask |||
          ((if r.isTcpOrUdp && !r.src_ip_port_single then bitmap src else 0) |||
            if r.isTcpOrUdp && !r.dst_ip_port_single then bitmap dst else 0)⟩ := by
  unfold setL4Ports setIpPortRange setSrcIpPort setDstIpPort
  cases r.isTcpOrUdp
  · simp
  · cases r.src_ip_port_single <;> cases r.dst_ip_port_single <;>
      simp [set_self, set_of_ne, Nat.or_assoc]

/-- A VLAN in the entry does not touch the comparator bits. -/
theorem overrideVid_portComparator (vid : Option ℕ) :
    f.overrideVid vid .portComparator = f .portComparator := by
  cases vid with
  | none => rfl
  | some vid => exact set_of_ne _ _ (by decide)

/-- The other fields of an IP rule leave the comparators alone. -/
theorem setIpRule_portComparator (pcl_id : ℕ) (vid : Option ℕ) (r : IpPclRule) (src dst : List ℕ) :
    f.setIpRule pcl_id vid r src dst .portComparator =
      f.setL4Ports r.toL4PclRule src dst .portComparator := by
  unfold setIpRule setIpProtocol
  rw [overrideVid_portComparator]
  split_ifs <;> simp [set_of_ne, setL4Ports_portComparator]

/-- A rule for MAC addresses does not touch the comparator bits. -/
theorem setMacRule_portComparator (pcl_id : ℕ) (vid : Option ℕ) (r : MacPclRule) :
    f.setMacRule pcl_id vid r .portComparator = f .portComparator := by
  unfold setMacRule
  rw [set_of_ne _ _ (by decide), overrideVid_portComparator]
  simp [set_of_ne]

/-- The other fields of an IPv6 rule leave the comparators alone. -/
theorem setIpv6Rule_portComparator (pcl_id : ℕ) (vid : Option ℕ) (r : Ipv6PclRule)
    (src dst : List ℕ) : f.setIpv6Rule pcl_id vid r src dst .portComparator =
      f.setL4Ports r.toL4PclRule src dst .portComparator := by
  unfold setIpv6Rule
  rw [overrideVid_portComparator]
  split_ifs <;> simp [set_of_ne, setL4Ports_portComparator]

end RuleFormat

/-- The bits that the calls for comparators give. -/
theorem L4PclRule.bits_eq (r : L4PclRule) (dest : PclDest) {cmp_ix : List ℕ}
    (hlen : cmp_ix.length = (r.srcCmps dest ++ r.dstCmps dest).length) :
    ((if r.isTcpOrUdp && !r.src_ip_port_single then
        RuleFormat.bitmap (cmp_ix.take (r.srcCmps dest).length) else 0) |||
      if r.isTcpOrUdp && !r.dst_ip_port_single then
        RuleFormat.bitmap (cmp_ix.drop (r.srcCmps dest).length) else 0) =
      RuleFormat.bitmap cmp_ix := by
  have htake (n : ℕ) : RuleFormat.bitmap cmp_ix =
      RuleFormat.bitmap (cmp_ix.take n) ||| RuleFormat.bitmap (cmp_ix.drop n) := by
    rw [← RuleFormat.bitmap_append, List.take_append_drop]
  rw [htake (r.srcCmps dest).length]
  rw [List.length_append] at hlen
  have hnil : RuleFormat.bitmap [] = 0 := rfl
  -- where there is no range, no call was made and the list has no comparators
  congr 1
  · by_cases hs : (r.isTcpOrUdp && !r.src_ip_port_single) = true
    · rw [if_pos hs]
    · rw [if_neg hs, srcCmps, if_neg hs, List.length_nil, List.take_zero, hnil]
  · by_cases hd : (r.isTcpOrUdp && !r.dst_ip_port_single) = true
    · rw [if_pos hd]
    · have hdst : r.dstCmps dest = [] := if_neg hd
      rw [hdst, List.length_nil, Nat.add_zero] at hlen
      rw [if_neg hd, ← hlen, List.drop_length, hnil]

/-- A rule tests the comparators that it was given. -/
theorem RuleParams.format_portComparator (p : RuleParams) (pcl_id : ℕ) (vid : Option ℕ)
    (dest : PclDest) {cmp_ix : List ℕ} (hlen : cmp_ix.length = (p.cmps dest).length) :
    p.format pcl_id vid dest cmp_ix .portComparator =
      ⟨RuleFormat.bitmap cmp_ix, RuleFormat.bitmap cmp_ix⟩ := by
  have hzero (b : ℕ) : Masked.mk ((RuleFormat.zero .portComparator).value ||| b)
      ((RuleFormat.zero .portComparator).mask ||| b) = ⟨b, b⟩ :=
    congrArg₂ Masked.mk (Nat.zero_or b) (Nat.zero_or b)
  cases p with
  | ip rule =>
    refine (RuleFormat.setIpRule_portComparator pcl_id vid rule _ _).trans ?_
    rw [RuleFormat.setL4Ports_portComparator, rule.toL4PclRule.bits_eq dest hlen, hzero]
  | mac rule =>
    obtain rfl := List.length_eq_zero_iff.mp hlen
    exact RuleFormat.setMacRule_portComparator pcl_id vid rule
  | ipv6 rule =>
    refine (RuleFormat.setIpv6Rule_portComparator pcl_id vid rule _ _).trans ?_
    rw [RuleFormat.setL4Ports_portComparator, rule.toL4PclRule.bits_eq dest hlen, hzero]

/-! ### Comparators and their users -/

/-- The comparators that a rule asked for. -/
def LiveRule.cmps (r : LiveRule) : List PortCmpKey := r.params.cmps r.args.dest

/-- The comparator that tests `k`. -/
def AclDev.cmpOf (sw : AclDev) (k : PortCmpKey) : Option ℕ :=
  (Keyed.find PortCmp.key sw.port_cmps k).map PortCmp.cmp_ix

namespace PclDev

/-- Each comparator is free or in use. -/
def Divided (s : PclDev) : Prop :=
  (s.sw.port_cmp_idxs ++ s.sw.port_cmps.map PortCmp.cmp_ix).Perm (List.range PCL_CMP_IDX_COUNT)

namespace Divided

variable {s s' : PclDev}

/-- A free comparator is one of the device. -/
theorem lt (h : s.Divided) {j : ℕ} (hj : j ∈ s.sw.port_cmp_idxs) : j < PCL_CMP_IDX_COUNT :=
  List.mem_range.mp (h.mem_iff.mp (List.mem_append_left _ hj))

/-- No comparator is free twice. -/
theorem nodup (h : s.Divided) : s.sw.port_cmp_idxs.Nodup :=
  (List.nodup_append.mp (h.nodup_iff.mpr List.nodup_range)).1

/-- The division depends on the comparators in use and on the free ones. -/
theorem congr (h : s.Divided)
    (hcmps : s'.sw.port_cmps.map PortCmp.cmp_ix = s.sw.port_cmps.map PortCmp.cmp_ix)
    (hidxs : s'.sw.port_cmp_idxs = s.sw.port_cmp_idxs) : s'.Divided := by
  unfold Divided
  rw [hcmps, hidxs]
  exact h

/-- One more user of a comparator keeps the division. -/
theorem join (h : s.Divided) (k : PortCmpKey) (rule_ix : ℕ) : (s.joinPortCmp k rule_ix).Divided :=
  h.congr (Keyed.map_modify _ fun _ => rfl) rfl

/-- A comparator that is taken is in use and no longer free. -/
theorem take (h : s.Divided) {ix : ℕ} {idxs : List ℕ} (k : PortCmpKey) (rule_ix : ℕ)
    (hidxs : s.sw.port_cmp_idxs = ix :: idxs) : (s.newPortCmp false k rule_ix ix idxs).Divided := by
  unfold Divided at h ⊢
  rw [hidxs, List.cons_append] at h
  unfold newPortCmp
  rw [List.map_append, ← List.append_assoc]
  exact List.perm_append_comm.trans h

end Divided

/-- The comparators of a device are in order: each of the eight is free or in use, those in use are
set to what they are to test, and the users of the one that tests `k` are the indices `i` with
`U k i`. One without users is free. -/
structure Comparing (s : PclDev) (U : PortCmpKey → ℕ → Prop) : Prop where
  unique : Keyed.Unique PortCmp.key s.sw.port_cmps
  partition : (s.sw.port_cmp_idxs ++ s.sw.port_cmps.map PortCmp.cmp_ix).Perm
    (List.range PCL_CMP_IDX_COUNT)
  users : ∀ k i, (∃ port_cmp ∈ s.sw.port_cmps, port_cmp.key = k ∧ i ∈ port_cmp.rule_idxs) ↔ U k i
  nodup : ∀ port_cmp ∈ s.sw.port_cmps, port_cmp.rule_idxs.Nodup
  used : ∀ port_cmp ∈ s.sw.port_cmps, port_cmp.rule_idxs ≠ []
  programmed : ∀ port_cmp ∈ s.sw.port_cmps, ∀ dir proto,
    port_cmp.key.destination.direction = some dir →
    l4Protocol port_cmp.key.ip_proto = some proto →
    s.hw.comparators dir proto port_cmp.cmp_ix =
      some ⟨port_cmp.key.port_type, port_cmp.key.op, port_cmp.key.port_num⟩

variable {s s' : PclDev} {U U' : PortCmpKey → ℕ → Prop} {live : List LiveRule}

/-- A comparator is programmed for its direction and its protocol. -/
theorem pclTcpUdpPortCmpSet_apply (hw : PclDevHw) (port_cmp : PortCmp) (dir : PclDirection)
    (proto : L4Protocol) (j : ℕ) :
    (hw.pclTcpUdpPortCmpSet port_cmp).comparators dir proto j =
      if port_cmp.key.destination.direction = some dir ∧
          l4Protocol port_cmp.key.ip_proto = some proto ∧ j = port_cmp.cmp_ix then
        some ⟨port_cmp.key.port_type, port_cmp.key.op, port_cmp.key.port_num⟩
      else hw.comparators dir proto j := by
  unfold PclDevHw.pclTcpUdpPortCmpSet
  split
  case h_1 dir' proto' hdir hproto =>
    rw [hdir, hproto]
    by_cases hd : dir = dir'
    · subst hd
      by_cases hp : proto = proto'
      · subst hp
        by_cases hj : j = port_cmp.cmp_ix
        · subst hj
          simp
        · simp [hj]
      · have hp' : proto' ≠ proto := fun h => hp h.symm
        simp [hp, hp']
    · have hd' : dir' ≠ dir := fun h => hd h.symm
      simp [hd, hd']
  case h_2 hnone =>
    rw [if_neg]
    rintro ⟨hdir, hproto, -⟩
    exact hnone _ _ hdir hproto

namespace Comparing

/-- Whether the comparators are right depends on them and on their users only. -/
theorem congr (hc : s.Comparing U) (hcmps : s'.sw.port_cmps = s.sw.port_cmps)
    (hidxs : s'.sw.port_cmp_idxs = s.sw.port_cmp_idxs)
    (hhw : s'.hw.comparators = s.hw.comparators) (hU : ∀ k i, U k i ↔ U' k i) :
    s'.Comparing U' where
  unique := by rw [hcmps]; exact hc.unique
  partition := by rw [hcmps, hidxs]; exact hc.partition
  users := fun k i => by rw [hcmps]; exact (hc.users k i).trans (hU k i)
  nodup := by rw [hcmps]; exact hc.nodup
  used := by rw [hcmps]; exact hc.used
  programmed := by rw [hcmps, hhw]; exact hc.programmed

/-- The comparator of a range is the one with its key. -/
theorem cmpOf_eq_some_iff (hc : s.Comparing U) {k : PortCmpKey} {j : ℕ} :
    s.sw.cmpOf k = some j ↔ ∃ port_cmp ∈ s.sw.port_cmps, port_cmp.key = k ∧
      port_cmp.cmp_ix = j := by
  unfold AclDev.cmpOf
  rw [Option.map_eq_some_iff]
  constructor
  · rintro ⟨port_cmp, hfind, hj⟩
    exact ⟨port_cmp, Keyed.mem_of_find hfind, Keyed.key_of_find hfind, hj⟩
  · rintro ⟨port_cmp, hmem, hk, hj⟩
    exact ⟨port_cmp, hc.unique.find_eq_some_iff.mpr ⟨hmem, hk⟩, hj⟩

/-- There is a comparator for what a user tests. -/
theorem exists_of_user (hc : s.Comparing U) {k : PortCmpKey} {i : ℕ} (h : U k i) :
    ∃ j, s.sw.cmpOf k = some j := by
  obtain ⟨port_cmp, hmem, hk, -⟩ := (hc.users k i).mpr h
  exact ⟨_, hc.cmpOf_eq_some_iff.mpr ⟨port_cmp, hmem, hk, rfl⟩⟩

/-- The comparator of a range is one of the device. -/
theorem lt_of_cmpOf (hc : s.Comparing U) {k : PortCmpKey} {j : ℕ} (h : s.sw.cmpOf k = some j) :
    j < PCL_CMP_IDX_COUNT := by
  obtain ⟨port_cmp, hmem, -, rfl⟩ := hc.cmpOf_eq_some_iff.mp h
  refine List.mem_range.mp (hc.partition.mem_iff.mp ?_)
  exact List.mem_append_right _ (List.mem_map_of_mem hmem)

/-- A free comparator is not in use. -/
theorem ne_of_free (hc : s.Comparing U) {i : ℕ} (hi : i ∈ s.sw.port_cmp_idxs) {port_cmp : PortCmp}
    (hmem : port_cmp ∈ s.sw.port_cmps) : port_cmp.cmp_ix ≠ i := by
  have hnodup := hc.partition.nodup_iff.mpr List.nodup_range
  rw [List.nodup_append] at hnodup
  exact (hnodup.2.2 i hi _ (List.mem_map_of_mem hmem)).symm

/-- A rule joins the users of a comparator. -/
theorem join (hc : s.Comparing U) {k : PortCmpKey} {rule_ix : ℕ} (hU : ¬U k rule_ix)
    (hfind : (Keyed.find PortCmp.key s.sw.port_cmps k).isSome) :
    (s.joinPortCmp k rule_ix).Comparing fun k' i => U k' i ∨ k' = k ∧ i = rule_ix := by
  have hmem {c : PortCmp} : c ∈ (s.joinPortCmp k rule_ix).sw.port_cmps ↔
      (∃ c₀ ∈ s.sw.port_cmps, c₀.key = k ∧ { c₀ with rule_idxs := rule_ix :: c₀.rule_idxs } = c) ∨
        c ∈ s.sw.port_cmps ∧ c.key ≠ k := Keyed.mem_modify_iff
  have hnot : ∀ port_cmp ∈ s.sw.port_cmps, port_cmp.key = k → rule_ix ∉ port_cmp.rule_idxs :=
    fun c hcm hk hix => hU ((hc.users k rule_ix).mp ⟨c, hcm, hk, hix⟩)
  refine ⟨hc.unique.modify fun _ => rfl, ?_, ?_, ?_, ?_, ?_⟩
  · exact Divided.join hc.partition k rule_ix
  · intro k' i
    constructor
    · rintro ⟨c, hcm, hk', hi⟩
      rcases hmem.mp hcm with ⟨c₀, hc₀, hk, rfl⟩ | ⟨hcm, -⟩
      · rcases List.mem_cons.mp hi with rfl | hi
        · exact Or.inr ⟨hk'.symm.trans hk, rfl⟩
        · exact Or.inl ((hc.users k' i).mp ⟨c₀, hc₀, hk', hi⟩)
      · exact Or.inl ((hc.users k' i).mp ⟨c, hcm, hk', hi⟩)
    · rintro (h | ⟨rfl, rfl⟩)
      · obtain ⟨c, hcm, hk', hi⟩ := (hc.users k' i).mpr h
        by_cases hk : c.key = k
        · exact ⟨_, hmem.mpr (Or.inl ⟨c, hcm, hk, rfl⟩), hk', List.mem_cons_of_mem _ hi⟩
        · exact ⟨c, hmem.mpr (Or.inr ⟨hcm, hk⟩), hk', hi⟩
      · obtain ⟨c, hcm, hk⟩ := Keyed.find_isSome_iff.mp hfind
        exact ⟨_, hmem.mpr (Or.inl ⟨c, hcm, hk, rfl⟩), hk, List.mem_cons_self⟩
  · intro c hcm
    rcases hmem.mp hcm with ⟨c₀, hc₀, hk, rfl⟩ | ⟨hcm, -⟩
    · exact List.nodup_cons.mpr ⟨hnot c₀ hc₀ hk, hc.nodup c₀ hc₀⟩
    · exact hc.nodup c hcm
  · intro c hcm
    rcases hmem.mp hcm with ⟨c₀, hc₀, hk, rfl⟩ | ⟨hcm, -⟩
    · exact List.cons_ne_nil _ _
    · exact hc.used c hcm
  · intro c hcm
    rcases hmem.mp hcm with ⟨c₀, hc₀, hk, rfl⟩ | ⟨hcm, -⟩
    · exact hc.programmed c₀ hc₀
    · exact hc.programmed c hcm

/-- A rule gets a new comparator. -/
theorem take (hc : s.Comparing U) {k : PortCmpKey} {rule_ix ix : ℕ} {idxs : List ℕ}
    (hfind : Keyed.find PortCmp.key s.sw.port_cmps k = none)
    (hidxs : s.sw.port_cmp_idxs = ix :: idxs) :
    (s.newPortCmp false k rule_ix ix idxs).Comparing fun k' i => U k' i ∨ k' = k ∧ i = rule_ix := by
  have hfree : ix ∈ s.sw.port_cmp_idxs := hidxs ▸ List.mem_cons_self
  have hnew {c : PortCmp} : c ∈ s.sw.port_cmps ++ [⟨k, ix, [rule_ix]⟩] ↔
      c ∈ s.sw.port_cmps ∨ c = ⟨k, ix, [rule_ix]⟩ := by
    rw [List.mem_append, List.mem_singleton]
  refine ⟨?_, ?_, ?_, ?_, ?_, ?_⟩
  · have hne := Keyed.find_eq_none_iff.mp hfind
    unfold Keyed.Unique newPortCmp
    rw [List.map_append, List.nodup_append]
    refine ⟨hc.unique, List.nodup_singleton _, ?_⟩
    intro k₁ hk₁ k₂ hk₂ heq
    obtain ⟨c, hcm, rfl⟩ := List.mem_map.mp hk₁
    obtain rfl := List.mem_singleton.mp hk₂
    exact hne c hcm heq
  · exact Divided.take hc.partition k rule_ix hidxs
  · intro k' i
    constructor
    · rintro ⟨c, hcm, hk', hi⟩
      rcases hnew.mp hcm with hcm | rfl
      · exact Or.inl ((hc.users k' i).mp ⟨c, hcm, hk', hi⟩)
      · exact Or.inr ⟨hk'.symm, List.mem_singleton.mp hi⟩
    · rintro (h | ⟨rfl, rfl⟩)
      · obtain ⟨c, hcm, hk', hi⟩ := (hc.users k' i).mpr h
        exact ⟨c, hnew.mpr (Or.inl hcm), hk', hi⟩
      · exact ⟨_, hnew.mpr (Or.inr rfl), rfl, List.mem_singleton_self _⟩
  · intro c hcm
    rcases hnew.mp hcm with hcm | rfl
    · exact hc.nodup c hcm
    · exact List.nodup_singleton _
  · intro c hcm
    rcases hnew.mp hcm with hcm | rfl
    · exact hc.used c hcm
    · exact List.cons_ne_nil _ _
  · intro c hcm dir proto hdir hproto
    refine (pclTcpUdpPortCmpSet_apply _ _ _ _ _).trans ?_
    rcases hnew.mp hcm with hcm | rfl
    · -- the comparator of another key is another one
      rw [if_neg fun h => hc.ne_of_free hfree hcm h.2.2]
      exact hc.programmed c hcm dir proto hdir hproto
    · rw [if_pos ⟨hdir, hproto, rfl⟩]

end Comparing

/-! ### Asking for comparators -/

/-- One more user changes no comparator. -/
theorem cmpOf_join (s : PclDev) (k k' : PortCmpKey) (rule_ix : ℕ) :
    (s.joinPortCmp k rule_ix).sw.cmpOf k' = s.sw.cmpOf k' := by
  have hfind : Keyed.find PortCmp.key (s.joinPortCmp k rule_ix).sw.port_cmps k' = _ :=
    Keyed.find_modify fun _ => rfl
  unfold AclDev.cmpOf
  rw [hfind, Option.map_map]
  refine congrArg (Option.map · _) (funext fun c => ?_)
  rw [Function.comp_apply]
  split_ifs <;> rfl

/-- A new comparator is found by its key. -/
theorem cmpOf_new (s : PclDev) (k k' : PortCmpKey) (rule_ix ix : ℕ) (idxs : List ℕ) :
    (s.newPortCmp false k rule_ix ix idxs).sw.cmpOf k' =
      (s.sw.cmpOf k').or (if k = k' then some ix else none) := by
  unfold AclDev.cmpOf newPortCmp
  rw [Keyed.find_snoc]
  cases Keyed.find PortCmp.key s.sw.port_cmps k' with
  | some c => rfl
  | none =>
    by_cases hk : k = k'
    · simp [hk]
    · simp [hk]

/-- The keys for which there is no comparator. -/
def missing (s : PclDev) (keys : List PortCmpKey) : List PortCmpKey :=
  keys.filter fun k => (s.sw.cmpOf k).isNone

/-- One call: the rule becomes a user, comparators in use stay what they are, and the number that is
returned is the comparator's, unless it is shared and not the first one. -/
theorem pclAddPortCmpIx_spec {k : PortCmpKey} {rule_ix : ℕ} (hc : s.Comparing U) (hU : ¬U k rule_ix)
    (hshared : ∀ j, s.sw.cmpOf k = some j → j = 0) (hroom : (s.missing [k]).length ≤
      s.sw.port_cmp_idxs.length) :
    ∃ ix s', s.pclAddPortCmpIx false k rule_ix 0 = some (ix, s') ∧
      s'.Comparing (fun k' i => U k' i ∨ k' = k ∧ i = rule_ix) ∧ s'.sw.cmpOf k = some ix ∧
      (∀ j, s.sw.cmpOf k = some j → ix = j) ∧ (∀ k' ≠ k, s'.sw.cmpOf k' = s.sw.cmpOf k') ∧
        s.sw.port_cmp_idxs.length = s'.sw.port_cmp_idxs.length + (s.missing [k]).length := by
  unfold pclAddPortCmpIx
  cases hfind : Keyed.find PortCmp.key s.sw.port_cmps k with
  | some c =>
    have hcmp : s.sw.cmpOf k = some c.cmp_ix := by unfold AclDev.cmpOf; rw [hfind]; rfl
    have hmiss : s.missing [k] = [] := by
      unfold missing
      rw [List.filter_cons_of_neg (by simp [hcmp]), List.filter_nil]
    refine ⟨0, s.joinPortCmp k rule_ix, rfl, hc.join hU (by rw [hfind]; rfl), ?_, ?_, ?_, ?_⟩
    · rw [cmpOf_join, hcmp, hshared _ hcmp]
    · exact fun j hj => (hshared j hj).symm
    · exact fun k' _ => cmpOf_join s k k' rule_ix
    · rw [hmiss]
      rfl
  | none =>
    have hcmp : s.sw.cmpOf k = none := by unfold AclDev.cmpOf; rw [hfind]; rfl
    have hmiss : s.missing [k] = [k] := by
      unfold missing
      rw [List.filter_cons_of_pos (by simp [hcmp]), List.filter_nil]
    cases hidxs : s.sw.port_cmp_idxs with
    | nil =>
      rw [hmiss, hidxs] at hroom
      exact absurd hroom (Nat.not_succ_le_zero 0)
    | cons ix idxs =>
      refine ⟨ix, s.newPortCmp false k rule_ix ix idxs, rfl, hc.take hfind hidxs, ?_, ?_, ?_, ?_⟩
      · rw [cmpOf_new, hcmp, if_pos rfl]
        rfl
      · rw [hcmp]
        exact fun j hj => absurd hj.symm (Option.some_ne_none j)
      · intro k' hk
        rw [cmpOf_new, if_neg (Ne.symm hk), Option.or_none]
      · rw [hmiss]
        rfl

/-- All the calls for a rule. -/
theorem addPortCmps_spec {keys : List PortCmpKey} (rule_ix : ℕ) (hkeys : keys.Nodup)
    (hc : s.Comparing U) (hU : ∀ k ∈ keys, ¬U k rule_ix)
    (hshared : ∀ k ∈ keys, ∀ j, s.sw.cmpOf k = some j → j = 0)
    (hroom : (s.missing keys).length ≤ s.sw.port_cmp_idxs.length) :
    ∃ ixs s', s.addPortCmps false rule_ix keys = (some ixs, s') ∧
      s'.Comparing (fun k i => U k i ∨ k ∈ keys ∧ i = rule_ix) ∧
      (∀ k j, s.sw.cmpOf k = some j → s'.sw.cmpOf k = some j) ∧
      ixs.map some = keys.map s'.sw.cmpOf := by
  induction keys generalizing s U with
  | nil =>
    refine ⟨[], s, rfl, hc.congr rfl rfl rfl fun k i => ?_, fun _ _ h => h, rfl⟩
    simp
  | cons k keys ih =>
    obtain ⟨hk, hkeys⟩ := List.nodup_cons.mp hkeys
    have hmiss : (s.missing (k :: keys)).length =
        (s.missing [k]).length + (s.missing keys).length := by
      rw [← List.length_append]
      exact congrArg List.length (List.filter_append (p := fun k => (s.sw.cmpOf k).isNone) [k] keys)
    obtain ⟨ix, s₁, hadd, hc₁, hself, hsame, hother, hlen⟩ := pclAddPortCmpIx_spec (s := s) hc
      (hU k List.mem_cons_self) (hshared k List.mem_cons_self) (by omega)
    -- the other keys are other comparators
    have hother' : ∀ k' ∈ keys, s₁.sw.cmpOf k' = s.sw.cmpOf k' := by
      intro k' hk'
      exact hother k' fun h => hk (h ▸ hk')
    have hmiss₁ : s₁.missing keys = s.missing keys := by
      refine List.filter_congr fun k' hk' => ?_
      rw [hother' k' hk']
    obtain ⟨ixs, s₂, hadds, hc₂, hkept, hixs⟩ := ih (s := s₁) hkeys hc₁
      (fun k' hk' h => h.elim (hU k' (List.mem_cons_of_mem _ hk')) fun h => hk (h.1 ▸ hk'))
      (fun k' hk' j hj => hshared k' (List.mem_cons_of_mem _ hk') j
        ((hother' k' hk').symm.trans hj))
      (by rw [hmiss₁]; omega)
    refine ⟨ix :: ixs, s₂, ?_, ?_, ?_, ?_⟩
    · unfold addPortCmps
      rw [hadd]
      dsimp only
      rw [hadds]
      rfl
    · refine hc₂.congr rfl rfl rfl fun k' i => ?_
      rw [or_assoc, List.mem_cons]
      refine or_congr_right ?_
      rw [← or_and_right]
    · intro k' j hj
      by_cases hkk : k' = k
      · subst hkk
        exact hkept k' j (hsame j hj ▸ hself)
      · exact hkept k' j ((hother k' hkk).trans hj)
    · rw [List.map_cons, List.map_cons, hixs, hkept k ix hself]

/-! ### Rules and their comparators -/

/-- A rule of the device that tests `k` has the index `i`. -/
def Uses (sw : AclDev) (live : List LiveRule) (k : PortCmpKey) (i : ℕ) : Prop :=
  ∃ r ∈ live, k ∈ r.cmps ∧ sw.pclFindRuleIx r.key = some i

/-- The users of the comparators are the rules that need them, and the entry of a rule tests the
comparators that the rule needs and no others. -/
structure Compared (s : PclDev) (live : List LiveRule) : Prop where
  comparing : s.Comparing (Uses s.sw live)
  tests : ∀ r ∈ live, ∀ entry, r.written = some entry →
    (r.cmps ≠ [] → entry.type.readsComparators = true) ∧
    (entry.rule .portComparator).value = (entry.rule .portComparator).mask ∧
    ∀ j, (entry.rule .portComparator).mask.testBit j = true ↔ ∃ k ∈ r.cmps, s.sw.cmpOf k = some j

/-- The rule with the key `k` gets an index. -/
def Accepts (s : PclDev) (k : RuleBindingKey) : Prop :=
  Keyed.find RuleBinding.key s.sw.bindings k = none ∧ k.acttype.zone < 3 ∧
    s.sw.index_book.pbr_end ≠ s.sw.index_book.end_

instance (s : PclDev) (k : RuleBindingKey) : Decidable (s.Accepts k) :=
  inferInstanceAs (Decidable (_ = none ∧ _ < 3 ∧ _ ≠ _))

/-- The users of comparators have indices below `ix`. -/
def UsersBelow (s : PclDev) (ix : ℕ) : Prop :=
  ∀ port_cmp ∈ s.sw.port_cmps, ∀ i ∈ port_cmp.rule_idxs, i < ix

instance (s : PclDev) (ix : ℕ) : Decidable (s.UsersBelow ix) :=
  inferInstanceAs (Decidable (∀ port_cmp ∈ s.sw.port_cmps, ∀ i ∈ port_cmp.rule_idxs, i < ix))

/-- The comparators among `keys` that are in use are the first one. -/
def OnlyFirstShared (s : PclDev) (keys : List PortCmpKey) : Prop :=
  ∀ k ∈ keys, s.sw.cmpOf k = none ∨ s.sw.cmpOf k = some 0

instance (s : PclDev) (keys : List PortCmpKey) : Decidable (s.OnlyFirstShared keys) :=
  inferInstanceAs (Decidable (∀ k ∈ keys, _ = none ∨ _ = some 0))

/-- If a rule has ranges, it has a format that reads comparators. -/
def ReadsComparators (p : RuleParams) (dest : PclDest) : Prop :=
  p.cmps dest ≠ [] → p.type dest ≠ some .INGRESS_EXT_IPV6_L4

instance (p : RuleParams) (dest : PclDest) : Decidable (ReadsComparators p dest) :=
  inferInstanceAs (Decidable (_ ≠ _ → _ ≠ _))

/-- A rule can be set: if it gets an index, no rule with comparators has to move, a comparator that
it shares is the first one, there are enough free comparators for the rest, and the format of the
rule reads them. -/
def SetOk (s : PclDev) (a : RuleArgs) (p : RuleParams) : Prop :=
  s.Accepts a.bindKey →
    s.UsersBelow (s.sw.index_book.zoneEnd (a.action_type.zone + 1)) ∧
      s.OnlyFirstShared (p.cmps a.dest) ∧
      (s.missing (p.cmps a.dest)).length ≤ s.sw.port_cmp_idxs.length ∧
      ReadsComparators p a.dest

instance (s : PclDev) (a : RuleArgs) (p : RuleParams) : Decidable (s.SetOk a p) :=
  inferInstanceAs (Decidable (_ → _ ∧ _ ∧ _ ≤ _ ∧ _))

/-- A rule asks for each of its ranges once. -/
theorem cmps_nodup (p : RuleParams) (dest : PclDest) : (p.cmps dest).Nodup := by
  unfold RuleParams.cmps
  cases p.l4 with
  | none => exact List.nodup_nil
  | some r =>
    unfold L4PclRule.srcCmps L4PclRule.dstCmps
    dsimp only
    split_ifs <;> simp

/-- Rules with comparators keep their indices where they do not have to move. -/
theorem Added.uses_iff {r₀ : LiveRule} {ix : ℕ} (h : Added false s r₀.key ix s')
    (hp : s.sw.Placed live) (hbelow : ∀ k i, Uses s.sw live k i → i < ix) (k : PortCmpKey) (i : ℕ) :
    Uses s.sw live k i ↔ Uses s'.sw live k i := by
  refine exists_congr fun r => and_congr_right fun hr => and_congr_right fun hk => ?_
  rw [h.pclFindRuleIx_of_ne (h.key_ne hp hr)]
  obtain ⟨A, B, -, hfind⟩ := hp.exists_place hr
  have hlt := hbelow k _ ⟨r, hr, hk, hfind⟩
  rw [hfind, Option.map_some, Zones.up, if_neg (by omega)]

/-- A rule that is installed tests its own comparators. -/
theorem tests_of_ruleEntry {a : RuleArgs} {p : RuleParams} {pcl_id rule_ix : ℕ} {ixs : List ℕ}
    {entry : PclEntry} (hc : s.Comparing U) (hixs : ixs.map some = (p.cmps a.dest).map s.sw.cmpOf)
    (hreads : ReadsComparators p a.dest) (hentry : ruleEntry a p pcl_id rule_ix ixs = some entry) :
    (p.cmps a.dest ≠ [] → entry.type.readsComparators = true) ∧
    (entry.rule .portComparator).value = (entry.rule .portComparator).mask ∧
    ∀ j, (entry.rule .portComparator).mask.testBit j = true ↔
      ∃ k ∈ p.cmps a.dest, s.sw.cmpOf k = some j := by
  obtain ⟨act, -, hentry⟩ := Option.bind_eq_some_iff.mp hentry
  obtain ⟨type, htype, rfl⟩ := Option.map_eq_some_iff.mp hentry
  have hlen : ixs.length = (p.cmps a.dest).length := by
    rw [← List.length_map some, hixs, List.length_map]
  have hmem (j : ℕ) : j ∈ ixs ↔ ∃ k ∈ p.cmps a.dest, s.sw.cmpOf k = some j := by
    rw [← List.mem_map, ← hixs, List.mem_map]
    exact ⟨fun h => ⟨j, h, rfl⟩, fun ⟨j', h, heq⟩ => Option.some_inj.mp heq ▸ h⟩
  dsimp only
  rw [RuleParams.format_portComparator p _ _ _ hlen]
  refine ⟨fun hcmps => ?_, rfl, fun j => ?_⟩
  · have hne : type ≠ .INGRESS_EXT_IPV6_L4 := fun h => hreads hcmps (h ▸ htype)
    cases type <;> first | rfl | exact absurd rfl hne
  rw [← hmem j]
  refine RuleFormat.testBit_bitmap (fun ix hix => ?_) j
  obtain ⟨k, -, hk⟩ := (hmem ix).mp hix
  exact hc.lt_of_cmpOf hk

/-- Setting a rule that can be set keeps the comparators in order. -/
theorem ruleSet_compared {a : RuleArgs} {p : RuleParams} {pcl_id : ℕ} {o : Outcome}
    (hp : s.sw.Placed live) (hc : s.Compared live) (hok : s.SetOk a p)
    (h : s.ruleSet false a p pcl_id = (o, s')) : s'.Compared (logRule live a p o) := by
  obtain ⟨-, rfl, rfl⟩ | ⟨ix, s₁, hadd, hend⟩ := ruleSet_cases h
  · exact hc
  · have hadded : Added false s (LiveRule.key ⟨a, p, o.written⟩) ix s₁ := pclAddRuleIx_spec hadd
    obtain ⟨hbelow, hfirst, hroom, hreads⟩ := hok ⟨hadded.find, hadded.zone_lt, hadded.not_full⟩
    have hbelow : ∀ k i, Uses s.sw live k i → i < ix := by
      intro k i hu
      obtain ⟨c, hcm, -, hi⟩ := (hc.comparing.users k i).mpr hu
      rw [hadded.ix_eq]
      exact hbelow c hcm i hi
    have hcmpOf (k : PortCmpKey) : s₁.sw.cmpOf k = s.sw.cmpOf k := by
      unfold AclDev.cmpOf
      rw [hadded.port_cmps]
    have hcomparators : s₁.hw.comparators = s.hw.comparators := by rw [hadded.hw]; rfl
    -- the rule gets its index: nothing changes for the comparators
    have hc₁ : s₁.Comparing (Uses s₁.sw live) :=
      hc.comparing.congr hadded.port_cmps hadded.port_cmp_idxs hcomparators
        (hadded.uses_iff hp hbelow)
    have hmissing : s₁.missing (p.cmps a.dest) = s.missing (p.cmps a.dest) :=
      List.filter_congr fun k _ => by rw [hcmpOf]
    obtain ⟨ixs, s₂, hadds, hc₂, hkept, hixs⟩ := addPortCmps_spec (s := s₁) ix
      (cmps_nodup p a.dest) hc₁
      (fun k _ hu => Nat.lt_irrefl ix (hbelow k ix ((hadded.uses_iff hp hbelow k ix).mpr hu)))
      (fun k hk j hj => by
        rw [hcmpOf] at hj
        rcases hfirst k hk with h | h
        · exact absurd (h.symm.trans hj).symm (Option.some_ne_none j)
        · exact Option.some_inj.mp (hj.symm.trans h))
      (by rw [hmissing, hadded.port_cmp_idxs]; exact hroom)
    have hbind : s₂.sw.bindings = s₁.sw.bindings := by
      have hsame := (addPortCmps_same false s₁ ix (p.cmps a.dest)).bindings
      rwa [hadds] at hsame
    have hfind (k : RuleBindingKey) : s₂.sw.pclFindRuleIx k = s₁.sw.pclFindRuleIx k := by
      unfold AclDev.pclFindRuleIx
      rw [hbind]
    -- then it becomes a user
    have huses (k : PortCmpKey) (i : ℕ) : (Uses s₁.sw live k i ∨ k ∈ p.cmps a.dest ∧ i = ix) ↔
        Uses s₂.sw (live ++ [⟨a, p, o.written⟩]) k i := by
      constructor
      · rintro (⟨r, hr, hk, hi⟩ | ⟨hk, rfl⟩)
        · exact ⟨r, List.mem_append_left _ hr, hk, (hfind r.key).trans hi⟩
        · exact ⟨_, List.mem_append_right _ (List.mem_singleton_self _), hk,
            (hfind _).trans hadded.pclFindRuleIx_self⟩
      · rintro ⟨r, hr, hk, hi⟩
        rw [hfind] at hi
        rcases List.mem_append.mp hr with hr | hr
        · exact Or.inl ⟨r, hr, hk, hi⟩
        · obtain rfl := List.mem_singleton.mp hr
          exact Or.inr ⟨hk, Option.some_inj.mp (hi.symm.trans hadded.pclFindRuleIx_self)⟩
    rw [hadds] at hend
    unfold logRule
    rw [if_pos hend.bound]
    refine ⟨?_, ?_⟩
    · have hsw : s'.sw = s₂.sw := hend.sw
      refine hc₂.congr (by rw [hsw]) (by rw [hsw]) hend.comparators fun k i => ?_
      rw [hsw]
      exact huses k i
    · intro r hr entry hw
      have hcmp' (k : PortCmpKey) : s'.sw.cmpOf k = s₂.sw.cmpOf k := by rw [hend.sw]
      simp only [hcmp']
      rcases List.mem_append.mp hr with hr | hr
      · obtain ⟨htype, hvalue, hbits⟩ := hc.tests r hr entry hw
        refine ⟨htype, hvalue, fun j =>
          (hbits j).trans (exists_congr fun k => and_congr_right fun hk => ?_)⟩
        -- the comparators of the other rules stay what they are
        obtain ⟨A, B, -, hix⟩ := hp.exists_place hr
        obtain ⟨j', hj'⟩ := hc.comparing.exists_of_user ⟨r, hr, hk, hix⟩
        rw [hj', hkept k j' ((hcmpOf k).trans hj')]
      · obtain rfl := List.mem_singleton.mp hr
        cases hend with
        | tried => exact absurd hw.symm (Option.some_ne_none _)
        | wrong => exact absurd hw.symm (Option.some_ne_none _)
        | installed _ _ entry' _ hentry =>
          obtain rfl := Option.some_inj.mp hw
          exact tests_of_ruleEntry hc₂ hixs hreads hentry

/-! ### Giving comparators back -/

/-- A comparator goes when its last user does. -/
theorem releasePortCmp_eq (i : ℕ) (c : PortCmp) : releasePortCmp i c =
    if i ∈ c.rule_idxs ∧ c.rule_idxs.erase i = [] then none
    else some { c with rule_idxs := c.rule_idxs.erase i } := by
  unfold releasePortCmp
  by_cases hi : i ∈ c.rule_idxs
  · rw [if_pos hi]
    exact if_congr (iff_and_self.mpr fun _ => hi) rfl rfl
  · rw [if_neg hi, if_neg fun h => hi h.1, List.erase_of_not_mem hi]

/-- What is left of the comparators when a rule is removed. -/
theorem mem_release_iff {cmps : List PortCmp} {i : ℕ} {c' : PortCmp} :
    c' ∈ cmps.filterMap (releasePortCmp i) ↔ ∃ c ∈ cmps,
      ¬(i ∈ c.rule_idxs ∧ c.rule_idxs.erase i = []) ∧
        c' = { c with rule_idxs := c.rule_idxs.erase i } := by
  rw [List.mem_filterMap]
  refine exists_congr fun c => and_congr_right fun _ => ?_
  rw [releasePortCmp_eq]
  by_cases h : i ∈ c.rule_idxs ∧ c.rule_idxs.erase i = []
  · rw [if_pos h]
    exact ⟨fun heq => absurd heq.symm (Option.some_ne_none _), fun hn => absurd h hn.1⟩
  · rw [if_neg h, Option.some_inj, eq_comm]
    exact (and_iff_right h).symm

/-- The keys that are left after a release were there before. -/
theorem release_keys (cmps : List PortCmp) (i : ℕ) :
    ((cmps.filterMap (releasePortCmp i)).map PortCmp.key).Sublist (cmps.map PortCmp.key) := by
  induction cmps with
  | nil => exact List.Sublist.refl _
  | cons c cmps ih =>
    rw [List.filterMap_cons, releasePortCmp_eq]
    by_cases h : i ∈ c.rule_idxs ∧ c.rule_idxs.erase i = []
    · rw [if_pos h]
      exact ih.cons _
    · rw [if_neg h]
      exact ih.cons_cons _

/-- A comparator is kept or freed. -/
theorem release_perm (cmps : List PortCmp) (i : ℕ) :
    ((cmps.filter fun c => (releasePortCmp i c).isNone).map PortCmp.cmp_ix ++
      (cmps.filterMap (releasePortCmp i)).map PortCmp.cmp_ix).Perm (cmps.map PortCmp.cmp_ix) := by
  induction cmps with
  | nil => exact List.Perm.refl _
  | cons c cmps ih =>
    rw [List.filterMap_cons, List.filter_cons, releasePortCmp_eq]
    by_cases h : i ∈ c.rule_idxs ∧ c.rule_idxs.erase i = []
    · rw [if_pos h]
      exact ih.cons _
    · rw [if_neg h]
      exact List.perm_middle.trans (ih.cons _)

/-- The comparators that were freed are free besides the others. -/
theorem foldl_push_perm (freed idxs : List ℕ) :
    (freed.foldl pushPortCmpIdx idxs).Perm (freed ++ idxs) := by
  induction freed generalizing idxs with
  | nil => exact List.Perm.refl _
  | cons ix freed ih =>
    rw [List.foldl_cons]
    refine (ih _).trans (((List.mergeSort_perm _ _).append_left freed).trans ?_)
    exact List.perm_middle

/-- Comparators that a rule was the only user of become free. -/
theorem Divided.release (h : s.Divided) (i : ℕ) : (s.releasePortCmps i).Divided := by
  have hpush := foldl_push_perm ((s.sw.port_cmps.filter fun c =>
    (releasePortCmp i c).isNone).map PortCmp.cmp_ix) s.sw.port_cmp_idxs
  refine ((hpush.trans List.perm_append_comm).append_right _).trans ?_
  rw [List.append_assoc]
  exact ((release_perm s.sw.port_cmps i).append_left _).trans h

/-- Removing the index of a rule from all comparators. -/
theorem Comparing.release (hc : s.Comparing U) (i : ℕ) :
    (s.releasePortCmps i).Comparing fun k i' => U k i' ∧ i' ≠ i where
  unique := hc.unique.sublist (release_keys _ i)
  partition := Divided.release hc.partition i
  users := by
    intro k i'
    constructor
    · rintro ⟨c', hc', hk, hi'⟩
      obtain ⟨c, hcm, -, rfl⟩ := mem_release_iff.mp hc'
      obtain ⟨hne, hmem⟩ := (hc.nodup c hcm).mem_erase_iff.mp hi'
      exact ⟨(hc.users k i').mp ⟨c, hcm, hk, hmem⟩, hne⟩
    · rintro ⟨hu, hne⟩
      obtain ⟨c, hcm, hk, hmem⟩ := (hc.users k i').mpr hu
      have hi' : i' ∈ c.rule_idxs.erase i := (hc.nodup c hcm).mem_erase_iff.mpr ⟨hne, hmem⟩
      exact ⟨_, mem_release_iff.mpr ⟨c, hcm, fun h => List.ne_nil_of_mem hi' h.2, rfl⟩, hk, hi'⟩
  nodup := by
    intro c' hc'
    obtain ⟨c, hcm, -, rfl⟩ := mem_release_iff.mp hc'
    exact (hc.nodup c hcm).erase i
  used := by
    intro c' hc'
    obtain ⟨c, hcm, hkeep, rfl⟩ := mem_release_iff.mp hc'
    by_cases hi : i ∈ c.rule_idxs
    · exact fun h => hkeep ⟨hi, h⟩
    · dsimp only
      rw [List.erase_of_not_mem hi]
      exact hc.used c hcm
  programmed := by
    intro c' hc'
    obtain ⟨c, hcm, -, rfl⟩ := mem_release_iff.mp hc'
    exact hc.programmed c hcm

/-- Comparators that other rules use stay what they are. -/
theorem Comparing.cmpOf_release (hc : s.Comparing U) {k : PortCmpKey} {i i' : ℕ} (hu : U k i')
    (hne : i' ≠ i) : (s.releasePortCmps i).sw.cmpOf k = s.sw.cmpOf k := by
  obtain ⟨c, hcm, hk, hmem⟩ := (hc.users k i').mpr hu
  have hi' : i' ∈ c.rule_idxs.erase i := (hc.nodup c hcm).mem_erase_iff.mpr ⟨hne, hmem⟩
  rw [hc.cmpOf_eq_some_iff.mpr ⟨c, hcm, hk, rfl⟩]
  exact (hc.release i).cmpOf_eq_some_iff.mpr
    ⟨_, mem_release_iff.mpr ⟨c, hcm, fun h => List.ne_nil_of_mem hi' h.2, rfl⟩, hk, rfl⟩

/-! ### Removing rules with comparators -/

/-- The users of comparators have indices up to `ix`. -/
def UsersUpTo (s : PclDev) (ix : ℕ) : Prop :=
  ∀ port_cmp ∈ s.sw.port_cmps, ∀ i ∈ port_cmp.rule_idxs, i ≤ ix

instance (s : PclDev) (ix : ℕ) : Decidable (s.UsersUpTo ix) :=
  inferInstanceAs (Decidable (∀ port_cmp ∈ s.sw.port_cmps, ∀ i ∈ port_cmp.rule_idxs, i ≤ ix))

/-- An interface can be reset: no rule with comparators stands behind a rule that goes. -/
def ResetOk (s : PclDev) (interface : PclInterface) (dest : PclDest) (action_type : PclActionType) :
    Prop :=
  ∀ bind ∈ s.sw.bindings, resets interface dest action_type bind.key = true →
    s.UsersUpTo bind.rule_ix

instance (s : PclDev) (interface : PclInterface) (dest : PclDest) (action_type : PclActionType) :
    Decidable (s.ResetOk interface dest action_type) :=
  inferInstanceAs (Decidable (∀ bind ∈ s.sw.bindings, _ = true → s.UsersUpTo bind.rule_ix))

section Remove

variable {A B : List LiveRule} {r : LiveRule} {bind : RuleBinding}

/-- Rules with comparators keep their indices where they do not stand behind the rule that goes. -/
theorem Removed.uses_iff (h : Removed false s r bind.rule_ix B.length s') (hp : s.sw.Placed live)
    (hAB : placing live = A ++ r :: B) (hix : bind.rule_ix = s.sw.index_book.start + A.length)
    (hup : ∀ k i, Uses s.sw live k i → i ≤ bind.rule_ix) (k : PortCmpKey) (i : ℕ) :
    (Uses s.sw live k i ∧ i ≠ bind.rule_ix) ↔ Uses s'.sw (without live r.key) k i := by
  have hself : s.sw.pclFindRuleIx r.key = some bind.rule_ix := by
    have hget : ((placing live).map LiveRule.key)[A.length]? = some r.key := by
      rw [hAB, List.map_append, List.getElem?_append_right (by rw [List.length_map]),
        List.length_map, Nat.sub_self]
      rfl
    rw [hp.numbers _ _ hget, hix]
  have hr : r ∈ live := hp.mem_placing.mp (hAB ▸ List.mem_append_right _ List.mem_cons_self)
  constructor
  · rintro ⟨⟨r', hr', hk, hi⟩, hne⟩
    have hle := hup k i ⟨r', hr', hk, hi⟩
    have hkey : r'.key ≠ r.key := by
      intro heq
      rw [heq, hself] at hi
      exact hne (Option.some_inj.mp hi).symm
    refine ⟨r', List.mem_filter.mpr ⟨hr', decide_eq_true hkey⟩, hk, ?_⟩
    rw [h.pclFindRuleIx_of_ne hkey, hi, Option.map_some, Zones.down, if_neg (by omega)]
  · rintro ⟨r', hr', hk, hi⟩
    obtain ⟨hr', hkey⟩ := List.mem_filter.mp hr'
    have hkey : r'.key ≠ r.key := of_decide_eq_true hkey
    obtain ⟨A', B', -, hi₀⟩ := hp.exists_place hr'
    have hle := hup k _ ⟨r', hr', hk, hi₀⟩
    -- no other rule has the index of the one that goes
    have hne : s.sw.index_book.start + A'.length ≠ bind.rule_ix := by
      intro heq
      refine hkey (hp.numbers.inj ?_ ?_ (hi₀.trans ((congrArg some heq).trans hself.symm)))
      · exact List.mem_map_of_mem (hp.mem_placing.mpr hr')
      · exact List.mem_map_of_mem (hp.mem_placing.mpr hr)
    rw [h.pclFindRuleIx_of_ne hkey, hi₀, Option.map_some, Zones.down, if_neg (by omega)] at hi
    obtain rfl := Option.some_inj.mp hi
    exact ⟨⟨r', hr', hk, hi₀⟩, hne⟩

/-- Removing a rule behind which no rule with comparators stands keeps the comparators in order. -/
theorem removeRule_compared (hp : s.sw.Placed live) (hc : s.Compared live)
    (hAB : placing live = A ++ r :: B) (hkey : bind.key = r.key)
    (hix : bind.rule_ix = s.sw.index_book.start + A.length) (hup : s.UsersUpTo bind.rule_ix) :
    (s.removeRule false bind).Compared (without live r.key) := by
  obtain ⟨hrem, hcmps, hidxs⟩ := removeRule_spec false hp hAB bind hkey hix
  have huses := hrem.uses_iff hp hAB hix (fun k i hu => by
    obtain ⟨c, hcm, -, hi⟩ := (hc.comparing.users k i).mpr hu
    exact hup c hcm i hi)
  have hcomparators : (s.removeRule false bind).hw.comparators =
      (s.releasePortCmps bind.rule_ix).hw.comparators := by
    rw [hrem.hw]
    rfl
  refine ⟨(hc.comparing.release bind.rule_ix).congr hcmps hidxs hcomparators huses, ?_⟩
  intro r' hr' entry hw
  obtain ⟨hr'live, hne⟩ := List.mem_filter.mp hr'
  obtain ⟨htype, hvalue, hbits⟩ := hc.tests r' hr'live entry hw
  refine ⟨htype, hvalue, fun j =>
    (hbits j).trans (exists_congr fun k => and_congr_right fun hk => ?_)⟩
  obtain ⟨A', B', -, hi⟩ := (hrem.placed hAB hix hp).exists_place hr'
  obtain ⟨hu, hne⟩ := (huses k _).mpr ⟨r', hr', hk, hi⟩
  have hcmpOf : (s.removeRule false bind).sw.cmpOf k =
      (s.releasePortCmps bind.rule_ix).sw.cmpOf k := by
    unfold AclDev.cmpOf
    rw [hcmps]
  rw [hcmpOf, hc.comparing.cmpOf_release hu hne]

end Remove

/-- Resetting an interface that can be reset keeps the comparators in order. -/
theorem resetRules_compared {interface : PclInterface} {dest : PclDest}
    {action_type : PclActionType} (hp : s.sw.Placed live) (hc : s.Compared live)
    (hok : s.ResetOk interface dest action_type) :
    (s.resetRules false interface dest action_type).Compared
      (afterReset interface dest action_type live) := by
  refine (resetRules_induction (fun s live => s.sw.Placed live ∧ s.Compared live ∧
    s.ResetOk interface dest action_type) (fun _ _ h => h.1) ?_ ⟨hp, hc, hok⟩).2.1
  rintro s live A B r bind ⟨hp, hc, hok⟩ hAB hkey hix hres
  obtain ⟨hrem, hcmps, -⟩ := removeRule_spec false hp hAB bind hkey hix
  have hbind : bind ∈ s.sw.bindings := by
    obtain ⟨bind', hbind', hkey', hix'⟩ := hp.exists_binding hAB
    have heq : bind = bind' := by
      cases bind
      cases bind'
      exact congrArg₂ RuleBinding.mk (hkey.trans hkey'.symm) (hix.trans hix'.symm)
    exact heq ▸ hbind'
  have hup := hok bind hbind (hkey ▸ hres)
  refine ⟨hrem.placed hAB hix hp, removeRule_compared hp hc hAB hkey hix hup, ?_⟩
  -- the rules that go next have moved down by one at most, to the index of this one or behind it
  intro bind' hbind' hres' c' hc' i hi
  rw [hrem.bindings] at hbind'
  obtain ⟨bind₀, hbind₀, rfl⟩ := List.mem_map.mp (Keyed.mem_of_mem_del hbind')
  rw [hcmps] at hc'
  obtain ⟨c, hcm, -, rfl⟩ := mem_release_iff.mp hc'
  obtain ⟨hne, hi⟩ := (hc.comparing.nodup c hcm).mem_erase_iff.mp hi
  have hle := hok bind₀ hbind₀ hres' c hcm i hi
  have hle' := hup c hcm i hi
  dsimp only
  unfold Zones.down
  split_ifs <;> omega

end PclDev

end Presteramgr
