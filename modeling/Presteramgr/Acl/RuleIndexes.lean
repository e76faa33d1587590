import Presteramgr.Acl.Unit

/-!
# Rule indices of features (`pcl.c`)

At the start the TCAM of each device is divided among the features: rules of the ports come first,
then the pool for VLAN translation, the default rules of the ports for it, and the user ACLs.

## Main definitions

* `PortRule`: the rules that each port has;
* `RuleUse`, `AclConf.Reserved`: what an index of a device is for.

## Main results

* `AclConf.Reserved.unique`: an index has one use at most.
-/

namespace Presteramgr

/-- The rules of a port, as `initialize_vars` numbers them. -/
inductive PortRule
  | lbd
  | lldp
  | lacp
  | cfm
  | cfm2
  | cfm6
  | erps
  | vrrp
  | dhcptrap67
  | dhcptrap68
  | dhcptrap546
  | dhcptrap547
  | arpInspectorTrap
  | solicitedTrapOrMirror
  | ipSourceguard
  | ipSourceguardDrop
  | ipOspfMirror
  | ipRipMirror
  | ipv6RipngMirror
  | pppoe
  | ipPimMirror
  | ipUdpMcMirror
deriving DecidableEq, Repr

namespace PortRule

/-- The number of rules of a kind. -/
def count : PortRule → ℕ
  | .ipSourceguard => AclConf.perPortIpSourceGuardRulesCount
  | _ => 1

/-- The rules of a port that come before those of a kind. -/
def offset : PortRule → ℕ
  | .lbd => 0
  | .lldp => 1
  | .lacp => 2
  | .cfm => 3
  | .cfm2 => 4
  | .cfm6 => 5
  | .erps => 6
  | .vrrp => 7
  | .dhcptrap67 => 8
  | .dhcptrap68 => 9
  | .dhcptrap546 => 10
  | .dhcptrap547 => 11
  | .arpInspectorTrap => 12
  | .solicitedTrapOrMirror => 13
  | .ipSourceguard => 14
  | .ipSourceguardDrop => 14 + AclConf.perPortIpSourceGuardRulesCount
  | .ipOspfMirror => 15 + AclConf.perPortIpSourceGuardRulesCount
  | .ipRipMirror => 16 + AclConf.perPortIpSourceGuardRulesCount
  | .ipv6RipngMirror => 17 + AclConf.perPortIpSourceGuardRulesCount
  | .pppoe => 18 + AclConf.perPortIpSourceGuardRulesCount
  | .ipPimMirror => 19 + AclConf.perPortIpSourceGuardRulesCount
  | .ipUdpMcMirror => 20 + AclConf.perPortIpSourceGuardRulesCount

/-- The rules of a port. -/
def total : ℕ := 21 + AclConf.perPortIpSourceGuardRulesCount

theorem offset_add_count_le (r : PortRule) : r.offset + r.count ≤ total := by
  cases r <;> decide

/-- The rules of a port of different kinds have different places. -/
theorem apart (r r' : PortRule) :
    r = r' ∨ r.offset + r.count ≤ r'.offset ∨ r'.offset + r'.count ≤ r.offset := by
  cases r <;> cases r' <;> decide

end PortRule

namespace AclConf

variable (c : AclConf)

/-- `idx[d]` after a loop over the first ports that takes `step` indices of the device of each. -/
def idxAfter (d base step : ℕ) : ℕ → ℕ
  | 0 => base
  | n + 1 => if (c.port (n + 1)).ldev = d then idxAfter d base step n + step else idxAfter d base step n

/-- The traps for mail between the units, on a device. -/
def stackTraps (d : ℕ) : ℕ :=
  (if c.stack_id ≠ 0 ∧ (c.port c.stack_pri_port).ldev = d then 1 else 0) +
    (if c.stack_id ≠ 0 ∧ (c.port c.stack_sec_port).ldev = d then 1 else 0)

/-- The first index of the rules of a kind of a port. -/
def portRuleIx (pid : ℕ) (r : PortRule) : ℕ :=
  c.idxAfter (c.port pid).ldev (c.stackTraps (c.port pid).ldev) PortRule.total (pid - 1) + r.offset

/-- `vt_stack_first_entry`. -/
def vtStackFirstEntry (d : ℕ) : ℕ := c.idxAfter d (c.stackTraps d) PortRule.total c.NPORTS

/-- `vt_stack_max`. -/
def vtStackMax (d : ℕ) : ℕ := c.vtStackFirstEntry d + vtStackEntries

/-- `vt_port_ipcl_def_rule_ix`. -/
def vtPortIpclDefRuleIx (pid : ℕ) : ℕ :=
  c.idxAfter (c.port pid).ldev (c.vtStackMax (c.port pid).ldev) 2 (pid - 1)

/-- `vt_port_epcl_def_rule_ix`. -/
def vtPortEpclDefRuleIx (pid : ℕ) : ℕ := c.vtPortIpclDefRuleIx pid + 1

/-- `user_acl_max`. -/
def userAclMax (d : ℕ) : ℕ := c.userAclStartIx d + userAclStackEntries

end AclConf

/-- What a rule index is for. -/
inductive RuleUse
  | stackmailTrap (primary : Bool)
  | port (pid : ℕ) (rule : PortRule)
  | vt
  | vtDef (pid : ℕ) (ingress : Bool)
  | userAcl
deriving DecidableEq, Repr

/-- The part of the TCAM for a use. -/
def RuleUse.part : RuleUse → ℕ
  | .stackmailTrap _ => 0
  | .port _ _ => 1
  | .vt => 2
  | .vtDef _ _ => 3
  | .userAcl => 4

namespace AclConf

variable {c : AclConf} {d base step pid ix m n : ℕ}

variable (c) in
/-- The index of the device is reserved for a use. -/
def Reserved (d ix : ℕ) : RuleUse → Prop
  | .stackmailTrap true => c.stack_id ≠ 0 ∧ (c.port c.stack_pri_port).ldev = d ∧ ix = 0
  | .stackmailTrap false => c.stack_id ≠ 0 ∧ (c.port c.stack_sec_port).ldev = d ∧
      ix = if (c.port c.stack_pri_port).ldev = d then 1 else 0
  | .port pid rule => (1 ≤ pid ∧ pid ≤ c.NPORTS) ∧ (c.port pid).ldev = d ∧
      c.portRuleIx pid rule ≤ ix ∧ ix < c.portRuleIx pid rule + rule.count
  | .vt => c.vtStackFirstEntry d ≤ ix ∧ ix < c.vtStackMax d
  | .vtDef pid true => (1 ≤ pid ∧ pid ≤ c.NPORTS) ∧ (c.port pid).ldev = d ∧
      ix = c.vtPortIpclDefRuleIx pid
  | .vtDef pid false => (1 ≤ pid ∧ pid ≤ c.NPORTS) ∧ (c.port pid).ldev = d ∧
      ix = c.vtPortEpclDefRuleIx pid
  | .userAcl => c.userAclStartIx d ≤ ix ∧ ix < c.userAclMax d

/-! ### Loops over ports -/

theorem idxAfter_mono (hmn : m ≤ n) : c.idxAfter d base step m ≤ c.idxAfter d base step n := by
  induction hmn with
  | refl => exact le_rfl
  | step _ ih =>
    rw [idxAfter]
    split_ifs
    · exact ih.trans (Nat.le_add_right _ _)
    · exact ih

theorem le_idxAfter : base ≤ c.idxAfter d base step n := idxAfter_mono (Nat.zero_le n)

/-- The indices that are taken for a port come before those for the ports after it. -/
theorem idxAfter_add_le (hpid : 1 ≤ pid) (hd : (c.port pid).ldev = d) (hn : pid ≤ n) :
    c.idxAfter d base step (pid - 1) + step ≤ c.idxAfter d base step n := by
  obtain ⟨i, rfl⟩ := Nat.exists_eq_add_of_le' hpid
  have hround : c.idxAfter d base step (i + 1) = c.idxAfter d base step i + step := by
    rw [idxAfter, if_pos hd]
  rw [Nat.add_sub_cancel, ← hround]
  exact idxAfter_mono hn

theorem idxAfter_eq (n : ℕ) : c.idxAfter d base step n =
    base + ((List.range n).countP fun i => (c.port (i + 1)).ldev = d) * step := by
  induction n with
  | zero => simp [idxAfter]
  | succ n ih =>
    rw [idxAfter, List.range_succ, List.countP_append, List.countP_singleton, Nat.add_mul, ih]
    by_cases hd : (c.port (n + 1)).ldev = d
    · simp [hd, Nat.add_assoc]
    · simp [hd]

/-- The user ACLs come after the default rules for VLAN translation. -/
theorem userAclStartIx_eq (d : ℕ) :
    c.userAclStartIx d = c.idxAfter d (c.vtStackMax d) 2 c.NPORTS := by
  rw [idxAfter_eq, vtStackMax, vtStackFirstEntry, idxAfter_eq]
  rfl

/-- Two ports of a device that share an index among those taken for them are one. -/
theorem eq_of_idxAfter {pid' : ℕ} (hpid : 1 ≤ pid) (hpid' : 1 ≤ pid') (hd : (c.port pid).ldev = d)
    (hd' : (c.port pid').ldev = d) (h : c.idxAfter d base step (pid - 1) ≤ ix)
    (hlt : ix < c.idxAfter d base step (pid - 1) + step)
    (h' : c.idxAfter d base step (pid' - 1) ≤ ix)
    (hlt' : ix < c.idxAfter d base step (pid' - 1) + step) : pid = pid' := by
  rcases lt_trichotomy pid pid' with hlt₁ | heq | hlt₁
  · have hle : c.idxAfter d base step (pid - 1) + step ≤ c.idxAfter d base step (pid' - 1) :=
      idxAfter_add_le hpid hd (Nat.le_sub_one_of_lt hlt₁)
    omega
  · exact heq
  · have hle : c.idxAfter d base step (pid' - 1) + step ≤ c.idxAfter d base step (pid - 1) :=
      idxAfter_add_le hpid' hd' (Nat.le_sub_one_of_lt hlt₁)
    omega

/-! ### Uses -/

variable (c) in
/-- The bounds of the parts of a device. -/
def bound (d : ℕ) : ℕ → ℕ
  | 0 => 0
  | 1 => c.stackTraps d
  | 2 => c.vtStackFirstEntry d
  | 3 => c.vtStackMax d
  | 4 => c.userAclStartIx d
  | _ => c.userAclMax d

theorem bound_mono (d : ℕ) : Monotone (c.bound d) := by
  apply monotone_nat_of_le_succ
  intro n
  match n with
  | 0 => exact Nat.zero_le _
  | 1 => exact le_idxAfter
  | 2 => exact Nat.le_add_right _ _
  | 3 =>
    show c.vtStackMax d ≤ c.userAclStartIx d
    rw [userAclStartIx_eq]
    exact le_idxAfter
  | 4 => exact Nat.le_add_right _ _
  | _ + 5 => exact le_rfl

namespace Reserved

variable {u u' : RuleUse} {rule : PortRule}

/-- The index is among those that are taken for the port. -/
theorem port_block (h : c.Reserved d ix (.port pid rule)) :
    c.idxAfter d (c.stackTraps d) PortRule.total (pid - 1) ≤ ix ∧
      ix < c.idxAfter d (c.stackTraps d) PortRule.total (pid - 1) + PortRule.total := by
  obtain ⟨-, rfl, hle, hlt⟩ := h
  unfold portRuleIx at hle hlt
  have hcount := rule.offset_add_count_le
  exact ⟨by omega, by omega⟩

@[inherit_doc port_block]
theorem vtDef_block {ingress : Bool} (h : c.Reserved d ix (.vtDef pid ingress)) :
    (1 ≤ pid ∧ pid ≤ c.NPORTS) ∧ (c.port pid).ldev = d ∧
      c.idxAfter d (c.vtStackMax d) 2 (pid - 1) ≤ ix ∧
      ix < c.idxAfter d (c.vtStackMax d) 2 (pid - 1) + 2 := by
  cases ingress with
  | true =>
    obtain ⟨hpid, rfl, rfl⟩ := h
    exact ⟨hpid, rfl, le_rfl, Nat.lt_add_of_pos_right Nat.two_pos⟩
  | false =>
    obtain ⟨hpid, rfl, rfl⟩ := h
    exact ⟨hpid, rfl, Nat.le_succ _, Nat.lt_succ_self _⟩

theorem part_bounds (h : c.Reserved d ix u) :
    c.bound d u.part ≤ ix ∧ ix < c.bound d (u.part + 1) := by
  cases u with
  | stackmailTrap primary =>
    refine ⟨Nat.zero_le _, ?_⟩
    show ix < c.stackTraps d
    unfold stackTraps
    cases primary with
    | true =>
      obtain ⟨hid, hd, rfl⟩ := h
      rw [if_pos ⟨hid, hd⟩]
      omega
    | false =>
      obtain ⟨hid, hd, hix⟩ := h
      by_cases hpri : (c.port c.stack_pri_port).ldev = d
      · simp [hid, hd, hix, hpri]
      · simp [hid, hd, hix, hpri]
  | port pid rule =>
    obtain ⟨hge, hlt⟩ := h.port_block
    obtain ⟨⟨hpid, hle⟩, hd, -⟩ := h
    exact ⟨le_idxAfter.trans hge, hlt.trans_le (idxAfter_add_le hpid hd hle)⟩
  | vt => exact h
  | vtDef pid ingress =>
    obtain ⟨⟨hpid, hle⟩, hd, hge, hlt⟩ := h.vtDef_block
    refine ⟨le_idxAfter.trans hge, hlt.trans_le ?_⟩
    show _ ≤ c.userAclStartIx d
    rw [userAclStartIx_eq]
    exact idxAfter_add_le hpid hd hle
  | userAcl => exact h

theorem part_eq (h : c.Reserved d ix u) (h' : c.Reserved d ix u') : u.part = u'.part := by
  have hb := h.part_bounds
  have hb' := h'.part_bounds
  rcases lt_trichotomy u.part u'.part with hlt | heq | hlt
  · have hle := bound_mono (c := c) d (Nat.succ_le_of_lt hlt)
    exact absurd (hb.2.trans_le (hle.trans hb'.1)) (lt_irrefl ix)
  · exact heq
  · have hle := bound_mono (c := c) d (Nat.succ_le_of_lt hlt)
    exact absurd (hb'.2.trans_le (hle.trans hb.1)) (lt_irrefl ix)

/-- An index has one use at most. -/
theorem unique (h : c.Reserved d ix u) (h' : c.Reserved d ix u') : u = u' := by
  have hpart := h.part_eq h'
  -- two kinds of use do not meet, so only the uses of one kind remain
  cases u with
  | stackmailTrap primary =>
    cases u' with
    | stackmailTrap primary' =>
      cases primary <;> cases primary' <;> try rfl
      · obtain ⟨-, hpri, rfl⟩ := h'
        obtain ⟨-, -, hix⟩ := h
        rw [if_pos hpri] at hix
        omega
      · obtain ⟨-, hpri, rfl⟩ := h
        obtain ⟨-, -, hix⟩ := h'
        rw [if_pos hpri] at hix
        omega
    | _ => exact absurd hpart (by simp [RuleUse.part])
  | port pid rule =>
    cases u' with
    | port pid' rule' =>
      have hblock := h.port_block
      have hblock' := h'.port_block
      obtain ⟨hpid, rfl, hle, hlt⟩ := h
      obtain ⟨hpid', hd', hle', hlt'⟩ := h'
      obtain rfl := eq_of_idxAfter hpid.1 hpid'.1 rfl hd' hblock.1 hblock.2 hblock'.1 hblock'.2
      unfold portRuleIx at hle hlt hle' hlt'
      have hrule : rule = rule' := by
        rcases PortRule.apart rule rule' with heq | hlt₁ | hlt₁
        · exact heq
        · omega
        · omega
      rw [hrule]
    | _ => exact absurd hpart (by simp [RuleUse.part])
  | vt =>
    cases u' with
    | vt => rfl
    | _ => exact absurd hpart (by simp [RuleUse.part])
  | vtDef pid ingress =>
    cases u' with
    | vtDef pid' ingress' =>
      obtain ⟨hpid, hd, hle, hlt⟩ := h.vtDef_block
      obtain ⟨hpid', hd', hle', hlt'⟩ := h'.vtDef_block
      obtain rfl := eq_of_idxAfter hpid.1 hpid'.1 hd hd' hle hlt hle' hlt'
      cases ingress <;> cases ingress' <;> try rfl
      · exact absurd (h.2.2.symm.trans h'.2.2) (Nat.succ_ne_self _)
      · exact absurd (h'.2.2.symm.trans h.2.2) (Nat.succ_ne_self _)
    | _ => exact absurd hpart (by simp [RuleUse.part])
  | userAcl =>
    cases u' with
    | userAcl => rfl
    | _ => exact absurd hpart (by simp [RuleUse.part])

end Reserved

end AclConf

end Presteramgr
