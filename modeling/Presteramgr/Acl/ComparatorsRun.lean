import Presteramgr.Acl.FakeMode

/-!
# Runs with port comparators (`pcl.c`)

Calls on a unit keep the comparators of every device in order, as long as no rule with comparators
moves, no comparator other than the first one is shared, and the comparators do not run out.

## Main definitions

* `PclDev.SetsOk`: a rule can be set on the devices that the loop comes to;
* `AclLog.ComparatorsOk`: a call keeps the comparators in order.

## Main results

* `AclLog.comparators_in_order`: in every run of such calls.
-/

namespace Presteramgr

namespace PclDev

/-- A rule can be set on the devices that the loop comes to. It goes on where the rule gets an index
and an entry. -/
def SetsOk (dev : ℕ → PclDev) (a : RuleArgs) (p : RuleParams) : List ℕ → Prop
  | [] => True
  | d :: ds => (dev d).SetOk a p ∧ ((dev d).Accepts a.bindKey → a.Known p → SetsOk dev a p ds)

/-- Whether a rule can be set can be computed. -/
def SetsOk.decide (dev : ℕ → PclDev) (a : RuleArgs) (p : RuleParams) :
    ∀ ds : List ℕ, Decidable (SetsOk dev a p ds)
  | [] => .isTrue trivial
  | d :: ds =>
    letI := SetsOk.decide dev a p ds
    inferInstanceAs (Decidable ((dev d).SetOk a p ∧
      ((dev d).Accepts a.bindKey → a.Known p → SetsOk dev a p ds)))

instance (dev : ℕ → PclDev) (a : RuleArgs) (p : RuleParams) (ds : List ℕ) :
    Decidable (SetsOk dev a p ds) := SetsOk.decide dev a p ds

variable {dev dev' : ℕ → PclDev} {a : RuleArgs} {p : RuleParams} {ds : List ℕ}

/-- A rule that gets an entry has an action and a direction that there are. -/
theorem known_of_ruleEntry {pcl_id rule_ix : ℕ} {cmp_ix : List ℕ} {entry : PclEntry}
    (h : ruleEntry a p pcl_id rule_ix cmp_ix = some entry) : a.Known p := by
  obtain ⟨act, hact, h⟩ := Option.bind_eq_some_iff.mp h
  obtain ⟨type, htype, -⟩ := Option.map_eq_some_iff.mp h
  obtain ⟨act', hrule, htrap⟩ := Option.bind_eq_some_iff.mp hact
  refine ⟨?_, by rw [htype]; rfl⟩
  unfold setPclAction
  rw [hrule, Option.bind_some]
  cases hp : p.trapAction with
  | other n =>
    rw [hp] at htrap
    exact absurd htrap (Option.some_ne_none _).symm
  | _ => rfl

variable (dev a p) in
/-- The devices that the loop comes to. It goes on where the rule gets an index, its comparators and
an entry. -/
def reached : List ℕ → List ℕ
  | [] => []
  | d :: ds => d :: if (dev d).Takes a p ∧ a.Known p then reached ds else []

theorem reached_congr (hdev : ∀ d ∈ ds, dev d = dev' d) :
    reached dev a p ds = reached dev' a p ds := by
  induction ds with
  | nil => rfl
  | cons d ds ih =>
    unfold reached
    rw [hdev d List.mem_cons_self, ih fun d' hd' => hdev d' (List.mem_cons_of_mem _ hd')]

/-- The rule can be set on the devices that the loop comes to. -/
theorem SetsOk.of_mem_reached (h : SetsOk dev a p ds) {d : ℕ} (hd : d ∈ reached dev a p ds) :
    (dev d).SetOk a p := by
  induction ds with
  | nil => exact absurd hd List.not_mem_nil
  | cons d' ds ih =>
    rcases List.mem_cons.mp hd with rfl | hd
    · exact h.1
    · split_ifs at hd with hgo
      · exact ih (h.2 hgo.1.1 hgo.2) hd
      · exact absurd hd List.not_mem_nil

/-- The loop goes on from a device where the rule has got an index, its comparators and an entry. -/
theorem ruleSet_installed_of_ok {s : PclDev} {pcl_id : ℕ}
    (h : (s.ruleSet false a p pcl_id).1.status = .ST_OK) : s.Takes a p ∧ a.Known p := by
  refine ⟨ruleSet_takes h, ?_⟩
  have hset : s.ruleSet false a p pcl_id =
      ((s.ruleSet false a p pcl_id).1, (s.ruleSet false a p pcl_id).2) := rfl
  obtain ⟨-, ho, -⟩ | ⟨rule_ix, s₁, -, hend⟩ := ruleSet_cases hset
  · rw [ho] at h
    exact absurd h Status.noConfusion
  · generalize (s.ruleSet false a p pcl_id).1 = o at h hend
    generalize (s.ruleSet false a p pcl_id).2 = s' at hend
    generalize s₁.addPortCmps false rule_ix (p.cmps a.dest) = r at hend
    cases hend with
    | short => exact absurd h Status.noConfusion
    | tried _ _ hfake => exact absurd hfake Bool.false_ne_true
    | wrong => exact absurd h Status.noConfusion
    | installed _ _ entry _ hentry => exact known_of_ruleEntry hentry

end PclDev

namespace AclState

open PclDev (reached reached_congr)

variable {c : AclConf} {s t : AclState} {a : RuleArgs} {p : RuleParams}

/-- What a call reports is about devices that the loop comes to. -/
theorem mem_reached_of_ruleSetDevs (pcl_id : ℕ) {ds : List ℕ} (hds : ds.Nodup) :
    ∀ r ∈ (ruleSetDevs false a p pcl_id ds s).1.devs, r.1 ∈ reached s.dev a p ds := by
  induction ds generalizing s with
  | nil => exact fun r hr => absurd hr List.not_mem_nil
  | cons d ds ih =>
    obtain ⟨hd, hnodup⟩ := List.nodup_cons.mp hds
    intro r hr
    rw [ruleSetDevs_cons] at hr
    by_cases hfail : ((s.dev d).ruleSet false a p pcl_id).1.status ≠ .ST_OK
    · rw [if_pos hfail] at hr
      obtain rfl := List.mem_singleton.mp hr
      exact List.mem_cons_self
    · rw [if_neg hfail] at hr
      rcases List.mem_cons.mp hr with rfl | hr
      · exact List.mem_cons_self
      · have hsame : ∀ d' ∈ ds,
            s.dev d' = (s.setDev d ((s.dev d).ruleSet false a p pcl_id).2).dev d' := by
          intro d' hd'
          have hne : d' ≠ d := fun heq => hd (heq ▸ hd')
          rw [dev_setDev, if_neg hne]
        refine List.mem_cons_of_mem _ ?_
        rw [if_pos (PclDev.ruleSet_installed_of_ok (not_ne_iff.mp hfail)), reached_congr hsame]
        exact ih hnodup r hr

/-- Setting a rule leaves a device as it is, or the loop comes to the device and sets the rule
there. -/
theorem pclRuleSet_reached {r : Report} (h : s.pclRuleSet c false a p = some (r, t)) (L : Ledger)
    (d : ℕ) : (t.dev d = s.dev d ∧ L.logReport a p r.devs d = L d) ∨
      d ∈ reached s.dev a p (s.ruleDevs c a) ∧ ∃ pcl_id,
        t.dev d = ((s.dev d).ruleSet false a p pcl_id).2 ∧
        L.logReport a p r.devs d =
            PclDev.logRule (L d) a p ((s.dev d).ruleSet false a p pcl_id).1 := by
  rw [pclRuleSet_eq] at h
  obtain ⟨⟨targets, s₁⟩, htargets, h⟩ := Option.map_eq_some_iff.mp h
  obtain ⟨hdev, hds⟩ := ruleTargets_spec htargets
  cases targets with
  | none =>
    obtain ⟨rfl, rfl⟩ := Prod.mk.inj h
    exact .inl ⟨hdev d, rfl⟩
  | some x =>
    obtain ⟨pcl_id, ds⟩ := x
    obtain rfl := hds pcl_id ds rfl
    have hrun : ruleSetDevs false a p pcl_id (s.ruleDevs c a) s₁ = (r, t) := h
    have hmem : ∀ r ∈ (ruleSetDevs false a p pcl_id (s.ruleDevs c a) s₁).1.devs,
        r.1 ∈ reached s₁.dev a p (s.ruleDevs c a) :=
      mem_reached_of_ruleSetDevs pcl_id (ruleDevs_nodup a)
    rw [hrun, reached_congr fun d _ => hdev d] at hmem
    rw [← hdev d]
    obtain hsame | ⟨⟨r', hr', rfl⟩, hset⟩ :=
      ruleSetDevs_dev false a p pcl_id (ruleDevs_nodup a) s₁ L d
    · rw [hrun] at hsame
      exact .inl hsame
    · rw [hrun] at hr' hset
      exact .inr ⟨hmem r' hr', pcl_id, hset⟩

/-- A rule that can be set on the devices that the loop comes to keeps the comparators in order. -/
theorem pclRuleSet_compared {r : Report} {L : Ledger} {d : ℕ}
    (h : s.pclRuleSet c false a p = some (r, t)) (hok : PclDev.SetsOk s.dev a p (s.ruleDevs c a))
    (hp : (s.dev d).sw.Placed (L d)) (hc : (s.dev d).Compared (L d)) :
    (t.dev d).Compared (L.logReport a p r.devs d) := by
  obtain ⟨hdev, hlog⟩ | ⟨hd, pcl_id, hdev, hlog⟩ := pclRuleSet_reached h L d
  · rw [hdev, hlog]
    exact hc
  · rw [hdev, hlog]
    exact PclDev.ruleSet_compared hp hc (hok.of_mem_reached hd) rfl

/-- Resetting an interface that can be reset on every device keeps the comparators in order. -/
theorem pclResetRules_compared {interface : PclInterface} {dest : PclDest}
    {action_type : PclActionType} {L : Ledger} {d : ℕ} {devs : List (ℕ × PclDev.Outcome)}
    (h : s.pclResetRules c false interface dest action_type = some t)
    (hok : ∀ d < c.NDEVS, (s.dev d).ResetOk interface dest action_type)
    (hp : (s.dev d).sw.Placed (L d)) (hc : (s.dev d).Compared (L d)) :
    (t.dev d).Compared (L.after c (.resetRules interface dest action_type) devs d) := by
  have hreset (s₁ : AclState) (hs₁ : s₁.dev d = s.dev d) :
      ((s₁.resetDevs c false interface dest action_type).dev d).Compared
        (if d < c.NDEVS then PclDev.afterReset interface dest action_type (L d) else L d) := by
    rw [resetDevs_dev, hs₁]
    by_cases hd : d < c.NDEVS
    · rw [if_pos hd, if_pos hd]
      exact PclDev.resetRules_compared hp hc (hok d hd)
    · rw [if_neg hd, if_neg hd]
      exact hc
  unfold pclResetRules at h
  unfold Ledger.after
  dsimp only
  cases htype : interface.type with
  | VLAN =>
    rw [htype] at h
    dsimp only at h
    split_ifs at h
    obtain rfl := Option.some_inj.mp h
    exact hreset (s.freeVlanPclId interface.num) rfl
  | PORT =>
    rw [htype] at h
    obtain rfl := Option.some_inj.mp h
    exact hreset s rfl
  | other n =>
    rw [htype] at h
    obtain rfl := Option.some_inj.mp h
    exact hc

end AclState

namespace AclLog

variable (c : AclConf)

/-- A call keeps the comparators in order. In fake mode every call does. -/
def ComparatorsOk (s : AclLog) (op : PclOp) : Prop :=
  s.pcl.user_acl_fake_mode = true ∨
    match op with
    | .ipRuleSet a rule => PclDev.SetsOk s.pcl.curr.dev a (.ip rule) (s.pcl.curr.ruleDevs c a)
    | .macRuleSet a rule => PclDev.SetsOk s.pcl.curr.dev a (.mac rule) (s.pcl.curr.ruleDevs c a)
    | .ipv6RuleSet a rule => PclDev.SetsOk s.pcl.curr.dev a (.ipv6 rule) (s.pcl.curr.ruleDevs c a)
    | .resetRules interface dest action_type =>
      ∀ d < c.NDEVS, (s.pcl.curr.dev d).ResetOk interface dest action_type
    | .setFakeModeEnabled _ => True

instance (s : AclLog) (op : PclOp) : Decidable (s.ComparatorsOk c op) :=
  match op with
  | .ipRuleSet a rule => inferInstanceAs (Decidable (_ = true ∨
      PclDev.SetsOk s.pcl.curr.dev a (.ip rule) (s.pcl.curr.ruleDevs c a)))
  | .macRuleSet a rule => inferInstanceAs (Decidable (_ = true ∨
      PclDev.SetsOk s.pcl.curr.dev a (.mac rule) (s.pcl.curr.ruleDevs c a)))
  | .ipv6RuleSet a rule => inferInstanceAs (Decidable (_ = true ∨
      PclDev.SetsOk s.pcl.curr.dev a (.ipv6 rule) (s.pcl.curr.ruleDevs c a)))
  | .resetRules interface dest action_type => inferInstanceAs (Decidable (_ = true ∨
      ∀ d < c.NDEVS, (s.pcl.curr.dev d).ResetOk interface dest action_type))
  | .setFakeModeEnabled _ => inferInstanceAs (Decidable (_ = true ∨ True))

variable {c} {s s' : AclLog} {d : ℕ}

theorem compared_init (c : AclConf) (d : ℕ) : ((init c).userDev d).Compared ((init c).user d) := by
  refine ⟨⟨List.nodup_nil, ?_, fun k i => ?_, ?_, ?_, ?_⟩, ?_⟩
  · exact List.Perm.of_eq (List.append_nil _)
  · refine iff_of_false ?_ ?_
    · rintro ⟨c, hc, -⟩
      exact List.not_mem_nil hc
    · rintro ⟨r, hr, -⟩
      exact List.not_mem_nil hr
  all_goals exact fun _ h => absurd h List.not_mem_nil

/-- Setting a rule that can be set, out of fake mode. -/
theorem compared_of_set {a : RuleArgs} {p : RuleParams} {r : AclState.Report} {t : AclState}
    (hfake : s.pcl.user_acl_fake_mode = false)
    (hset : s.pcl.curr.pclRuleSet c s.pcl.user_acl_fake_mode a p = some (r, t))
    (hok : PclDev.SetsOk s.pcl.curr.dev a p (s.pcl.curr.ruleDevs c a))
    (hp : (s.userDev d).sw.Placed (s.user d)) (hc : (s.userDev d).Compared (s.user d)) :
    (t.dev d).Compared (s.user.logReport a p r.devs d) := by
  have hcurr : s.pcl.curr.dev d = s.userDev d := by
    unfold Pcl.curr
    rw [hfake]
    rfl
  rw [hfake] at hset
  rw [← hcurr] at hp hc
  exact AclState.pclRuleSet_compared hset hok hp hc

/-- A call that keeps the comparators in order does. -/
theorem step_compared {op : PclOp} (h : s.step c op = some s') (hok : s.ComparatorsOk c op)
    (hp : (s.userDev d).sw.Placed (s.user d)) (hc : (s.userDev d).Compared (s.user d)) :
    (s'.userDev d).Compared (s'.user d) := by
  cases hfake : s.pcl.user_acl_fake_mode with
  | true =>
    obtain ⟨hdev, hlive⟩ := step_user_of_fake h hfake d
    rw [hdev, hlive]
    exact hc
  | false =>
    have hok := hok.resolve_left fun htrue => Bool.false_ne_true (hfake.symm.trans htrue)
    have hset (t : AclState) (L : Ledger) (hcomp : (t.dev d).Compared (L d)) :
        ((s.setCurr (s.pcl.setCurr t) L).userDev d).Compared
          ((s.setCurr (s.pcl.setCurr t) L).user d) := by
      unfold setCurr Pcl.setCurr userDev
      rw [hfake]
      exact hcomp
    have hcurrent : s.curr = s.user := by
      unfold curr
      rw [hfake]
      rfl
    obtain ⟨⟨devs, pcl⟩, hs, rfl⟩ := Option.map_eq_some_iff.mp h
    unfold Pcl.step at hs
    cases op with
    | resetRules interface dest action_type =>
      obtain ⟨t, hreset, heq⟩ := Option.map_eq_some_iff.mp hs
      obtain ⟨rfl, rfl⟩ := Prod.mk.inj heq
      have hcurr : s.pcl.curr.dev d = s.userDev d := by
        unfold Pcl.curr
        rw [hfake]
        rfl
      rw [hfake] at hreset
      rw [← hcurr] at hp hc
      refine hset t _ ?_
      rw [hcurrent]
      exact AclState.pclResetRules_compared hreset hok hp hc
    | setFakeModeEnabled enable =>
      obtain ⟨rfl, rfl⟩ := Prod.mk.inj (Option.some_inj.mp hs)
      cases enable <;> exact hc
    | _ =>
      obtain ⟨⟨r, t⟩, hrule, heq⟩ := Option.map_eq_some_iff.mp hs
      obtain ⟨rfl, rfl⟩ := Prod.mk.inj heq
      refine hset t _ ?_
      rw [hcurrent]
      exact compared_of_set hfake hrule hok hp hc

/-- In every run of calls that keep the comparators in order, they are in order on each device: the
eight comparators are free or in use, those in use are set to what they test and are used by the
rules that need them, rules test their own comparators, and there is a comparator for a test exactly
while a rule needs it. -/
theorem comparators_in_order
    (hr : Guarded.Reach (AclLog.step c) (ComparatorsOk c) (init c) s) (d : ℕ) :
    (s.userDev d).Compared (s.user d) ∧
      ∀ k, ((s.userDev d).sw.cmpOf k).isSome = true ↔ ∃ r ∈ s.user d, k ∈ r.cmps := by
  have hboth : s.Ordered c ∧ (s.userDev d).Compared (s.user d) :=
    hr.invariant (fun s => s.Ordered c ∧ (s.userDev d).Compared (s.user d))
      ⟨init_ordered c, compared_init c d⟩ fun s op s' h hok hs =>
        ⟨h.1.step hs, step_compared hs hok (h.1.user d) h.2⟩
  obtain ⟨hord, hc⟩ := hboth
  refine ⟨hc, fun k => ⟨fun hk => ?_, fun ⟨r, hr, hk⟩ => ?_⟩⟩
  · -- a comparator in use has a user
    obtain ⟨j, hj⟩ := Option.isSome_iff_exists.mp hk
    obtain ⟨port_cmp, hmem, rfl, -⟩ := hc.comparing.cmpOf_eq_some_iff.mp hj
    obtain ⟨i, hi⟩ := List.exists_mem_of_ne_nil _ (hc.comparing.used port_cmp hmem)
    obtain ⟨r, hr, hk, -⟩ := (hc.comparing.users _ i).mp ⟨port_cmp, hmem, rfl, hi⟩
    exact ⟨r, hr, hk⟩
  · obtain ⟨A, B, -, hix⟩ := (hord.user d).exists_place hr
    obtain ⟨j, hj⟩ := hc.comparing.exists_of_user ⟨r, hr, hk, hix⟩
    exact Option.isSome_iff_exists.mpr ⟨j, hj⟩

/-- A rule for TCP source ports from `lo` to `hi`. -/
def tcpRange (lo hi : ℕ) : IpPclRule where
  proto := IP_PROTO_TCP
  src_ip_port_single := false
  src_ip_port := lo
  src_ip_port_max := hi
  src_ip_port_mask := 0
  dst_ip_port_single := true
  dst_ip_port := 0
  dst_ip_port_max := 0
  dst_ip_port_mask := 0
  dscp := 0
  dscp_mask := 0
  icmp_type := 0
  icmp_type_mask := 0
  icmp_code := 0
  icmp_code_mask := 0
  tcp_flags := 0
  tcp_flags_mask := 0
  trap_action := .NONE
  src_ip := 0
  src_ip_mask := 0
  dst_ip := 0
  dst_ip_mask := 0
  igmp_type := 0
  igmp_type_mask := 0

/-- A rule of a port and one of a VLAN share the first comparator, and the VLAN is reset. -/
def sharedRun : List PclOp :=
  [.ipRuleSet ⟨[1], .ACL, 1, ⟨.PORT, 1⟩, .INGRESS, .DENY⟩ (tcpRange 1000 2000),
    .ipRuleSet ⟨[2], .ACL, 1, ⟨.VLAN, 5⟩, .INGRESS, .DENY⟩ (tcpRange 1000 3000),
    .macRuleSet ⟨[2], .ACL, 2, ⟨.VLAN, 5⟩, .INGRESS, .DENY⟩ anyMac,
    .setFakeModeEnabled true,
    .resetRules ⟨.PORT, 1⟩ .INGRESS .ACL,
    .setFakeModeEnabled false,
    .resetRules ⟨.VLAN, 5⟩ .INGRESS .ACL]

theorem comparators_in_order_sharedRun : ∃ s : AclLog,
    (s.userDev 0).sw.port_cmps.map (fun c => (c.cmp_ix, c.rule_idxs)) = [(0, [366]), (1, [366])] ∧
      (s.userDev 0).Compared (s.user 0) := by
  have hlast : (Guarded.run (AclLog.step twoPorts) (ComparatorsOk twoPorts) (init twoPorts)
      sharedRun).map (fun s => (s.userDev 0).sw.port_cmps.map fun c => (c.cmp_ix, c.rule_idxs)) =
        some [(0, [366]), (1, [366])] := by
    decide +kernel
  obtain ⟨s, hs, hshown⟩ := Option.map_eq_some_iff.mp hlast
  exact ⟨s, hshown, (comparators_in_order (Guarded.Reach.init.of_run hs) 0).1⟩

/-- The third rule has the range of the second one. -/
def sameRangeRun : List PclOp :=
  [.ipRuleSet ⟨[1], .ACL, 1, ⟨.PORT, 1⟩, .INGRESS, .DENY⟩ (tcpRange 1000 2000),
    .ipRuleSet ⟨[1], .ACL, 2, ⟨.PORT, 1⟩, .INGRESS, .DENY⟩ (tcpRange 3000 4000),
    .ipRuleSet ⟨[2], .ACL, 1, ⟨.PORT, 2⟩, .INGRESS, .DENY⟩ (tcpRange 3000 4000)]

/-- The comparators are not in order in general: a rule that shares comparators other than the first
one tests the first one. -/
theorem not_comparators_in_order : ¬∀ (c : AclConf) (s : AclLog),
    Guarded.Reach (AclLog.step c) (fun _ _ => True) (init c) s →
      ∀ d, (s.userDev d).Compared (s.user d) := by
  intro h
  have hlast : (Guarded.run (AclLog.step twoPorts) (fun _ _ => True) (init twoPorts)
      sameRangeRun).map (fun s =>
        ((s.userDev 0).sw.cmpOf ⟨.INGRESS, IP_PROTO_TCP, .SRC, .GTE, 3000⟩,
        (s.user 0)[2]?.map fun r => (r.cmps.head?, r.written.map fun entry =>
          (entry.rule .portComparator).mask))) =
      some (some 2, some (some ⟨.INGRESS, IP_PROTO_TCP, .SRC, .GTE, 3000⟩, some 1)) := by
    decide +kernel
  obtain ⟨s, hs, hshown⟩ := Option.map_eq_some_iff.mp hlast
  obtain ⟨hcmp, hrule⟩ := Prod.mk.inj hshown
  obtain ⟨r, hr, hshown⟩ := Option.map_eq_some_iff.mp hrule
  obtain ⟨hhead, hwritten⟩ := Prod.mk.inj hshown
  obtain ⟨entry, hentry, hmask⟩ := Option.map_eq_some_iff.mp hwritten
  have hc := h twoPorts s (Guarded.Reach.init.of_run hs) 0
  obtain ⟨-, -, hbits⟩ := hc.tests r (List.mem_of_getElem? hr) entry hentry
  have hbit := (hbits 2).mpr ⟨_, List.mem_of_mem_head? hhead, hcmp⟩
  rw [hmask] at hbit
  exact absurd hbit (by decide)

end AclLog

end Presteramgr
