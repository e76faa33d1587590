import Presteramgr.Acl.Counting

/-!
# Runs with counters of rules (`pcl.c`)

In runs of calls and packets the counter of a rule that logs is the number of the packets that it
has matched, as long as rules that have counted packets do not move, packets are counted where the
counter of the rule is read, and fake mode clears nothing.

## Main definitions

* `CountedAcl.CountsOk`: a call or a packet keeps the counters right;
* `CounterEvent.Spares`: a rule is not meant by a call.

## Main results

* `CountedAcl.counters_follow`: in every run of such calls and packets.
-/

namespace Presteramgr

/-! ### Calls out of fake mode -/

namespace AclState

variable {c : AclConf} {s t : AclState} {interface : PclInterface} {dest : PclDest}
  {action_type : PclActionType}

/-- Resetting an interface resets it on each device if it is a VLAN or a port. -/
theorem pclResetRules_eq {fake : Bool}
    (h : s.pclResetRules c fake interface dest action_type = some t)
    (d : ℕ) : t.dev d = if d < c.NDEVS ∧ (resetBlock interface).isSome then
      (s.dev d).resetRules fake interface dest action_type else s.dev d := by
  unfold pclResetRules at h
  unfold resetBlock
  cases htype : interface.type with
  | VLAN =>
    rw [htype] at h
    dsimp only at h
    split_ifs at h
    obtain rfl := Option.some_inj.mp h
    rw [resetDevs_dev]
    exact if_congr (and_iff_left rfl).symm rfl rfl
  | PORT =>
    rw [htype] at h
    obtain rfl := Option.some_inj.mp h
    rw [resetDevs_dev]
    exact if_congr (and_iff_left rfl).symm rfl rfl
  | other n =>
    rw [htype] at h
    obtain rfl := Option.some_inj.mp h
    exact (if_neg fun h => Bool.false_ne_true h.2).symm

theorem ledger_after_reset (L : Ledger) (devs : List (ℕ × PclDev.Outcome)) (d : ℕ) :
    L.after c (.resetRules interface dest action_type) devs d =
      if d < c.NDEVS ∧ (resetBlock interface).isSome then
        PclDev.afterReset interface dest action_type (L d) else L d := by
  unfold Ledger.after resetBlock
  dsimp only
  cases interface.type with
  | other n => exact (if_neg fun h => Bool.false_ne_true h.2).symm
  | _ => exact if_congr (and_iff_left rfl).symm rfl rfl

end AclState

namespace AclLog

variable {c : AclConf} {s s' : AclLog} {op : PclOp} {a : RuleArgs} {p : RuleParams}

/-- A call that sets a rule leaves a device as it is, or the loop comes to the device and sets the
rule there. -/
theorem step_set (h : s.step c op = some s') (hop : op.rule? = some (a, p))
    (hfake : s.pcl.user_acl_fake_mode = false) (d : ℕ) :
    (s'.userDev d = s.userDev d ∧ s'.user d = s.user d) ∨
      d ∈ PclDev.reached s.userDev a p (s.pcl.curr.ruleDevs c a) ∧ ∃ pcl_id,
        s'.userDev d = ((s.userDev d).ruleSet false a p pcl_id).2 ∧
        s'.user d = PclDev.logRule (s.user d) a p ((s.userDev d).ruleSet false a p pcl_id).1 := by
  obtain ⟨⟨devs, pcl⟩, hs, rfl⟩ := Option.map_eq_some_iff.mp h
  obtain ⟨r, t, hset, rfl, rfl⟩ := step_rule hop hs
  rw [hfake] at hset
  have hreached := AclState.pclRuleSet_reached hset s.user d
  have hdev : s.pcl.curr.dev = s.userDev := funext (curr_dev hfake)
  rw [hdev] at hreached
  cases op with
  | resetRules interface dest action_type => exact absurd hop.symm (Option.some_ne_none _)
  | setFakeModeEnabled enable => exact absurd hop.symm (Option.some_ne_none _)
  | _ =>
    obtain ⟨rfl, rfl⟩ := Prod.mk.inj (Option.some_inj.mp hop)
    rw [userDev_setCurr hfake, user_setCurr hfake, curr_eq_user hfake]
    exact hreached

/-- A call that resets an interface resets it on each device if it is a VLAN or a port. -/
theorem step_reset {interface : PclInterface} {dest : PclDest} {action_type : PclActionType}
    (h : s.step c (.resetRules interface dest action_type) = some s')
    (hfake : s.pcl.user_acl_fake_mode = false) (d : ℕ) :
    s'.userDev d = (if d < c.NDEVS ∧ (AclState.resetBlock interface).isSome then
        (s.userDev d).resetRules false interface dest action_type else s.userDev d) ∧
      s'.user d = if d < c.NDEVS ∧ (AclState.resetBlock interface).isSome then
        PclDev.afterReset interface dest action_type (s.user d) else s.user d := by
  obtain ⟨⟨devs, pcl⟩, hs, rfl⟩ := Option.map_eq_some_iff.mp h
  obtain ⟨t, hreset, heq⟩ := Option.map_eq_some_iff.mp hs
  obtain ⟨rfl, rfl⟩ := Prod.mk.inj heq
  rw [hfake] at hreset
  rw [userDev_setCurr hfake, user_setCurr hfake, curr_eq_user hfake, ← curr_dev hfake]
  exact ⟨AclState.pclResetRules_eq hreset d, AclState.ledger_after_reset s.user _ d⟩

/-- Fake mode is entered and left with the devices as they are. -/
theorem step_setFakeMode {enable : Bool} (h : s.step c (.setFakeModeEnabled enable) = some s')
    (d : ℕ) :
    s'.userDev d = s.userDev d ∧ s'.user d = s.user d := by
  have hd := step_user h d
  generalize s.userDev d = dev at hd ⊢
  generalize s.user d = live at hd ⊢
  generalize s'.userDev d = dev' at hd ⊢
  generalize s'.user d = live' at hd ⊢
  cases hd with
  | same => exact ⟨rfl, rfl⟩
  | set a p pcl_id hop => exact absurd hop.symm (Option.some_ne_none _)
  | reset interface dest action_type hop => exact PclOp.noConfusion hop

/-- A call that can be tried leaves the mode as it is. -/
theorem step_mode {x : PclCall} (h : s.step c x.op = some s') :
    s'.pcl.user_acl_fake_mode = s.pcl.user_acl_fake_mode := by
  obtain ⟨enable, hop, -⟩ | ⟨t, L, rfl, -⟩ := step_cases h
  · cases x <;> exact PclOp.noConfusion hop
  · unfold setCurr
    split_ifs
    · exact Pcl.setCurr_mode _ _
    · exact Pcl.setCurr_mode _ _

end AclLog

/-! ### Conditions -/

/-- A call is about other rules: it resets an interface that the rule is not reset with, or it
clears the counter of another rule. -/
def CounterEvent.Spares (k : RuleBindingKey) : CounterEvent → Prop
  | .call (.resetRules interface dest action_type) =>
    PclDev.resets interface dest action_type k = false
  | .clearCounter a => a.bindKey ≠ k
  | _ => False

namespace CountedAcl

variable (c : AclConf) (s : CountedAcl)

/-- A rule can be set on the devices that the loop comes to and that take it: the rules that move up
have counted nothing, and a rule of a port that logs is on the first device. -/
def SetRight (a : RuleArgs) (p : RuleParams) : Prop :=
  ∀ d ∈ PclDev.reached s.log.userDev a p (s.log.pcl.curr.ruleDevs c a),
    (s.log.userDev d).Accepts a.bindKey →
      (s.log.userDev d).sw.CountedNothing (s.counters d)
          ((s.log.userDev d).sw.index_book.zoneEnd (a.action_type.zone + 1)) ∧
        (p.trapAction = .LOG_INPUT → a.interface.type = .PORT → d = 0)

instance (a : RuleArgs) (p : RuleParams) : Decidable (s.SetRight c a p) :=
  inferInstanceAs (Decidable (∀ d ∈ PclDev.reached s.log.userDev a p (s.log.pcl.curr.ruleDevs c a),
    _ → _ ∧ (_ → _ → d = 0)))

/-- An interface can be reset: the rules behind those that go have counted nothing. -/
def ResetRight (interface : PclInterface) (dest : PclDest) (action_type : PclActionType) : Prop :=
  ∀ d < c.NDEVS, ∀ bind ∈ (s.log.userDev d).sw.bindings,
    PclDev.resets interface dest action_type bind.key = true →
      (s.log.userDev d).sw.CountedNothing (s.counters d) (bind.rule_ix + 1)

instance (interface : PclInterface) (dest : PclDest) (action_type : PclActionType) :
    Decidable (s.ResetRight c interface dest action_type) :=
  inferInstanceAs (Decidable (∀ d < c.NDEVS, ∀ bind ∈ (s.log.userDev d).sw.bindings, _ = true → _))

/-- An interface can be reset in fake mode: the counters that are cleared are zero. -/
def DryResetRight (interface : PclInterface) (dest : PclDest) (action_type : PclActionType) :
    Prop :=
  ∀ d < c.NDEVS, ∀ ix ∈ PclDev.clearedIxs true interface dest action_type
      ((s.log.pcl.curr.acl.devs d).bindings.map RuleBinding.key) (s.log.pcl.curr.dev d),
    ∀ b ∈ AclState.resetBlock interface, s.counters d b ix = 0

instance (interface : PclInterface) (dest : PclDest) (action_type : PclActionType) :
    Decidable (s.DryResetRight c interface dest action_type) :=
  inferInstanceAs (Decidable
    (∀ d < c.NDEVS, ∀ ix ∈ PclDev.clearedIxs true interface dest action_type _ _,
    ∀ b ∈ AclState.resetBlock interface, s.counters d b ix = 0))

/-- The counter of a rule can be cleared: each round clears the counter of its own device, or one
that is zero. In fake mode the counters are zero. -/
def ClearRight (a : CounterArgs) : Prop :=
  ∀ r ∈ s.clearedRounds c a, (s.fakeMode = false ∧ r.d = r.dev) ∨
    ∀ b ∈ AclState.resetBlock a.interface, s.counters r.d b r.rule_ix = 0

instance (a : CounterArgs) : Decidable (s.ClearRight c a) :=
  inferInstanceAs (Decidable (∀ r ∈ s.clearedRounds c a, (_ ∧ _) ∨
    ∀ b ∈ AclState.resetBlock a.interface, _ = 0))

/-- A packet is counted right: if it matches a rule that logs, then the rule has not moved since it
was set, and the lookup counts in the block of the rule. -/
def PacketRight (d : ℕ) (lookup : PclLookup) (ix : ℕ) : Prop :=
  ∀ e ∈ s.hit d lookup ix, ∀ m ∈ e.act.matchCounterIndex,
    m = ix ∧ ∀ bind ∈ (s.log.userDev d).sw.bindings, bind.rule_ix = ix →
      AclState.resetBlock bind.key.interface = lookup.block

instance (d : ℕ) (lookup : PclLookup) (ix : ℕ) : Decidable (s.PacketRight d lookup ix) :=
  inferInstanceAs (Decidable (∀ e ∈ s.hit d lookup ix, ∀ m ∈ e.act.matchCounterIndex,
    m = ix ∧ ∀ bind ∈ (s.log.userDev d).sw.bindings, _ → _))

/-- A call or a packet keeps the counters right. -/
def CountsOk : CounterEvent → Prop
  | .call (.ipRuleSet a rule) => s.fakeMode = true ∨ s.SetRight c a (.ip rule)
  | .call (.macRuleSet a rule) => s.fakeMode = true ∨ s.SetRight c a (.mac rule)
  | .call (.ipv6RuleSet a rule) => s.fakeMode = true ∨ s.SetRight c a (.ipv6 rule)
  | .call (.resetRules interface dest action_type) =>
    if s.fakeMode = true then s.DryResetRight c interface dest action_type
    else s.ResetRight c interface dest action_type
  | .setFakeModeEnabled _ => True
  | .clearCounter a => s.ClearRight c a
  | .packet d lookup ix => s.PacketRight d lookup ix

instance (e : CounterEvent) : Decidable (s.CountsOk c e) :=
  match e with
  | .call (.ipRuleSet a rule) => inferInstanceAs (Decidable (_ = true ∨ s.SetRight c a (.ip rule)))
  | .call (.macRuleSet a rule) =>
    inferInstanceAs (Decidable (_ = true ∨ s.SetRight c a (.mac rule)))
  | .call (.ipv6RuleSet a rule) =>
    inferInstanceAs (Decidable (_ = true ∨ s.SetRight c a (.ipv6 rule)))
  | .call (.resetRules interface dest action_type) =>
    inferInstanceAs (Decidable (if _ = true then s.DryResetRight c interface dest action_type
      else s.ResetRight c interface dest action_type))
  | .setFakeModeEnabled _ => .isTrue trivial
  | .clearCounter a => inferInstanceAs (Decidable (s.ClearRight c a))
  | .packet d lookup ix => inferInstanceAs (Decidable (s.PacketRight d lookup ix))

/-! ### The invariant -/

/-- On each device the counters agree with the packets, and rules of ports that log are on the first
device, which is the one whose counter is read. -/
structure Right (c : AclConf) (s : CountedAcl) : Prop where
  ordered : s.log.Ordered c
  counting : ∀ d, (s.log.userDev d).sw.Counting (s.log.user d) (s.counters d) (s.matched d)
  ports : ∀ d, ∀ r ∈ s.log.user d, r.Logs → r.key.interface.type = .PORT → d = 0

variable {c} {s} {s' : CountedAcl}

theorem init_right (c : AclConf) : (init c).Right c where
  ordered := AclLog.init_ordered c
  counting := fun _ => ⟨fun _ hr => absurd hr List.not_mem_nil, fun _ _ hne => absurd rfl hne⟩
  ports := fun _ _ hr => absurd hr List.not_mem_nil

theorem kept_of_mem {d : ℕ} {r : LiveRule} (hr : r ∈ s.log.user d) :
    s.kept d r.key = s.matched d r.key :=
  if_pos (List.mem_map_of_mem hr)

theorem kept_of_forall_ne {d : ℕ} {k : RuleBindingKey} (hne : ∀ r ∈ s.log.user d, r.key ≠ k) :
    s.kept d k = 0 :=
  if_neg fun hk => by
    obtain ⟨r, hr, hk⟩ := List.mem_map.mp hk
    exact hne r hr hk

/-- Where the rules and the counters stay as they are, the counters stay right. -/
theorem Right.congr (h : s.Right c) (hord : s'.log.Ordered c)
    (hdev : ∀ d, s'.log.userDev d = s.log.userDev d ∧ s'.log.user d = s.log.user d)
    (hcounters : s'.counters = s.counters)
    (hm : ∀ d, ∀ r ∈ s.log.user d, s'.matched d r.key = s.matched d r.key) : s'.Right c where
  ordered := hord
  counting := by
    intro d
    rw [(hdev d).1, (hdev d).2, hcounters]
    exact (h.counting d).congr rfl (hm d)
  ports := by
    intro d
    rw [(hdev d).2]
    exact h.ports d

/-- A rule is set. -/
theorem Right.set (h : s.Right c) {op : PclOp} {log : AclLog} {a : RuleArgs} {p : RuleParams}
    (hop : op.rule? = some (a, p)) (hs : s.log.step c op = some log) (hfake : s.fakeMode = false)
    (hok : s.SetRight c a p) : Right c ⟨log, s.counters, s.kept⟩ where
  ordered := h.ordered.step hs
  counting := by
    intro d
    obtain ⟨hdev, huser⟩ | ⟨hd, pcl_id, hdev, huser⟩ := AclLog.step_set hs hop hfake d
    · dsimp only
      rw [hdev, huser]
      exact (h.counting d).congr rfl fun r hr => kept_of_mem hr
    · dsimp only
      rw [hdev, huser]
      exact PclDev.ruleSet_counting (h.ordered.user d) (h.counting d) rfl
        (fun hacc => (hok d hd hacc).1) (fun r hr => kept_of_mem hr) kept_of_forall_ne
  ports := by
    intro d r hr hlogs hport
    obtain ⟨-, huser⟩ | ⟨hd, pcl_id, -, huser⟩ := AclLog.step_set hs hop hfake d
    · exact h.ports d r (huser ▸ hr) hlogs hport
    · dsimp only at hr
      rw [huser] at hr
      obtain hr | ⟨hacc, rfl, rfl⟩ := PclDev.mem_logRule rfl hr
      · exact h.ports d r hr hlogs hport
      · exact (hok d hd hacc).2 hlogs hport

/-- An interface is reset. -/
theorem Right.reset (h : s.Right c) {interface : PclInterface} {dest : PclDest}
    {action_type : PclActionType} {log : AclLog}
    (hs : s.log.step c (.resetRules interface dest action_type) = some log)
    (hfake : s.fakeMode = false)
    (hok : s.ResetRight c interface dest action_type) :
    Right c ⟨log, s.log.pcl.curr.clearCounters c false s.counters
      (.resetRules interface dest action_type), s.kept⟩ where
  ordered := h.ordered.step hs
  counting := by
    intro d
    obtain ⟨hdev, huser⟩ := AclLog.step_reset hs hfake d
    dsimp only
    rw [hdev, huser]
    by_cases hd : d < c.NDEVS ∧ (AclState.resetBlock interface).isSome
    · rw [if_pos hd, if_pos hd]
      refine PclDev.resetRules_counting (h.ordered.user d) (h.counting d) (hok d hd.1)
        (fun b ix => ?_)
        fun r hr => kept_of_mem hr
      have hsw : s.log.pcl.curr.acl.devs d = (s.log.userDev d).sw :=
        congrArg PclDev.sw (AclLog.curr_dev hfake d)
      unfold AclState.clearCounters
      dsimp only
      rw [hsw, AclLog.curr_dev hfake]
      exact if_congr (and_iff_right hd.1) rfl rfl
    · have hsame : s.log.pcl.curr.clearCounters c false s.counters
          (.resetRules interface dest action_type) d = s.counters d :=
        funext fun b => funext fun ix => if_neg fun hclear =>
          hd ⟨hclear.1, Option.isSome_iff_exists.mpr ⟨b, hclear.2.1⟩⟩
      rw [if_neg hd, if_neg hd, hsame]
      exact (h.counting d).congr rfl fun r hr => kept_of_mem hr
  ports := by
    intro d r hr hlogs hport
    obtain ⟨-, huser⟩ := AclLog.step_reset hs hfake d
    dsimp only at hr
    rw [huser] at hr
    split_ifs at hr
    · exact h.ports d r (List.mem_filter.mp hr).1 hlogs hport
    · exact h.ports d r hr hlogs hport

/-- What happens to counters in fake mode. -/
theorem Right.dry (h : s.Right c) {x : PclCall} {log : AclLog} (hs : s.log.step c x.op = some log)
    (hfake : s.fakeMode = true) (hok : s.CountsOk c (.call x)) :
    Right c ⟨log, s.log.pcl.curr.clearCounters c true s.counters x, s.kept⟩ := by
  refine h.congr (h.ordered.step hs) (AclLog.step_user_of_fake hs hfake) ?_
    fun d r hr => kept_of_mem hr
  cases x with
  | resetRules interface dest action_type =>
    have hok : s.DryResetRight c interface dest action_type :=
      (if_pos hfake : (if _ then _ else _) = _).mp hok
    funext d b ix
    unfold AclState.clearCounters
    dsimp only
    split_ifs with hclear
    · exact (hok d hclear.1 ix hclear.2.2 b hclear.2.1).symm
    · rfl
  | _ => rfl

/-- A packet. -/
theorem Right.packet (h : s.Right c) {d : ℕ} {lookup : PclLookup} {ix : ℕ}
    (hok : s.PacketRight d lookup ix) : (s.packet d lookup ix).Right c := by
  unfold CountedAcl.packet
  cases hhit : s.hit d lookup ix with
  | none => exact h
  | some e =>
    dsimp only
    refine ⟨h.ordered, fun d' => ?_, h.ports⟩
    by_cases hd : d' = d
    · subst hd
      have hord := PclDev.inOrder_of_placed (h.ordered.user d') (h.ordered.installed d')
      have hok := hok e hhit
      unfold hit at hhit
      split_ifs at hhit with hrange
      obtain ⟨htcam, -⟩ := Option.filter_eq_some_iff.mp hhit
      -- behind the rules there is no entry
      have hlt : ix < (s.log.userDev d').sw.index_book.pbr_end := by
        by_contra hge
        rw [hord.invalid ix (Nat.le_of_not_lt hge) hrange.2] at htcam
        exact absurd htcam.symm (Option.some_ne_none _)
      refine (h.counting d').packet (h.ordered.user d') lookup.block e.act.matchCounterIndex
        ((hord.onto ix).mpr ⟨hrange.1, hlt⟩) hok ?_ ?_ ?_
      · intro r hr hlogs hix
        exact (h.ordered.genuine d' r hr).isSome_matchCounterIndex hlogs
          ((hord.entries r hr ix hix).symm.trans htcam)
      · intro b ix'
        exact if_congr (and_iff_right rfl) rfl rfl
      · intro k
        exact if_congr (and_iff_right rfl) rfl rfl
    · simp only [hd, false_and, if_false]
      exact h.counting d'

/-- The counter of a rule is cleared. -/
theorem Right.clear (h : s.Right c) {a : CounterArgs} (hok : s.ClearRight c a) :
    (s.clearCounter c a).Right c := by
  cases htargets : a.targets c with
  | none =>
    -- no round is made
    have hrounds : s.clearedRounds c a = [] := by
      unfold clearedRounds
      rw [htargets]
    refine h.congr h.ordered (fun _ => ⟨rfl, rfl⟩) ?_ fun d r _ => ?_
    · unfold clearCounter AclState.pclClearCounter
      dsimp only
      rw [htargets]
    · exact if_neg fun hclear => by simp [hrounds] at hclear
  | some x =>
    obtain ⟨devs, block⟩ := x
    obtain ⟨hblock, htarget⟩ := CounterArgs.targets_spec htargets
    have hrounds : s.clearedRounds c a = (s.log.pcl.curr.acl.counterRounds a.bindKey 0 devs).2 := by
      unfold clearedRounds
      rw [htargets]
    have hcounters (d b ix : ℕ) : (s.clearCounter c a).counters d b ix =
        if b = block ∧ ∃ r ∈ s.clearedRounds c a, r.d = d ∧ r.rule_ix = ix then 0
        else s.counters d b ix := by
      unfold clearCounter AclState.pclClearCounter
      dsimp only
      rw [htargets, hrounds]
      rfl
    cases hfake : s.fakeMode with
    | true =>
      refine h.congr h.ordered (fun _ => ⟨rfl, rfl⟩) ?_ fun d r _ => ?_
      · funext d b ix
        rw [hcounters]
        split_ifs with hclear
        · obtain ⟨rfl, r, hr, rfl, rfl⟩ := hclear
          obtain ⟨hno, -⟩ | hzero := hok r hr
          · exact absurd (hno.symm.trans hfake) Bool.false_ne_true
          · exact (hzero b hblock).symm
        · rfl
      · exact if_neg fun hclear => Bool.false_ne_true (hclear.1.symm.trans hfake)
    | false =>
      refine ⟨h.ordered, fun d => ?_, h.ports⟩
      have hsw (d : ℕ) : s.log.pcl.curr.acl.devs d = (s.log.userDev d).sw :=
        congrArg PclDev.sw (AclLog.curr_dev hfake d)
      refine (h.counting d).clear (h.ordered.user d) hblock (fun r hr hrd => ?_)
        (fun r hr hrd => ?_)
        (fun r hr hrd => ?_) (hcounters d) fun k => if_congr (and_iff_right hfake) rfl rfl
      · subst hrd
        rw [hrounds] at hr
        have hix := (mem_counterRounds hr).1
        rwa [hsw] at hix
      · subst hrd
        obtain ⟨-, hdev⟩ | hzero := hok r hr
        · exact .inl hdev.symm
        · exact .inr (hzero block hblock)
      · subst hrd
        rw [hrounds] at hr
        obtain ⟨-, i, hi, hdev⟩ := mem_counterRounds hr
        obtain rfl | ⟨hport, rfl⟩ := htarget i r.dev hdev
        · exact .inl (hi.trans (Nat.zero_add _))
        · by_cases hzero : r.dev = 0
          · exact .inl (hi.trans hzero.symm)
          · refine .inr fun l hl hkey hlogs => hzero (h.ports _ l hl hlogs ?_)
            rw [hkey]
            exact hport

theorem Right.step (h : s.Right c) {e : CounterEvent} (hok : s.CountsOk c e)
    (hs : s.step c e = some s') : s'.Right c := by
  cases e with
  | packet d lookup ix =>
    obtain rfl := Option.some_inj.mp hs
    exact h.packet hok
  | clearCounter a =>
    obtain rfl := Option.some_inj.mp hs
    exact h.clear hok
  | setFakeModeEnabled enable =>
    have hs : (s.log.step c (.setFakeModeEnabled enable)).map (fun log => { s with log := log }) =
      some s' := hs
    obtain ⟨log, hlog, rfl⟩ := Option.map_eq_some_iff.mp hs
    exact h.congr (h.ordered.step hlog) (AclLog.step_setFakeMode hlog) rfl fun _ _ _ => rfl
  | call x =>
    obtain ⟨log, hlog, rfl⟩ := Option.map_eq_some_iff.mp hs
    cases hfake : s.fakeMode with
    | true =>
      exact h.dry hlog hfake hok
    | false =>
      have hnot : ¬s.fakeMode = true := fun htrue => Bool.false_ne_true (hfake.symm.trans htrue)
      cases x with
      | resetRules interface dest action_type =>
        exact h.reset hlog hfake ((if_neg hnot : (if _ then _ else _) = _).mp hok)
      | _ => exact h.set rfl hlog hfake (Or.resolve_left hok hnot)

theorem Right.of_reach (hr : Guarded.Reach (CountedAcl.step c) (CountsOk c) (init c) s) :
    s.Right c :=
  hr.invariant (Right c) (init_right c) fun _ _ _ h hok hs => h.step hok hs

/-! ### Reading -/

/-- On each of some devices there is the rule, and it logs. -/
def LogsOn (s : CountedAcl) (devs : List ℕ) (k : RuleBindingKey) : Prop :=
  ∀ d ∈ devs, ∃ r ∈ s.log.user d, r.key = k ∧ r.Logs

instance (s : CountedAcl) (devs : List ℕ) (k : RuleBindingKey) : Decidable (s.LogsOn devs k) :=
  inferInstanceAs (Decidable (∀ d ∈ devs, ∃ r ∈ s.log.user d, r.key = k ∧ r.Logs))

/-- What is read for a rule that logs is the number of packets that it has matched on its
devices. -/
theorem Right.getCounter_eq (h : s.Right c) (hfake : s.fakeMode = false) {a : CounterArgs}
    {devs : List ℕ}
    {block : ℕ} (htargets : a.targets c = some (devs, block)) (hlogs : s.LogsOn devs a.bindKey) :
    s.getCounter c a = some (devs.map fun d => s.matched d a.bindKey).sum := by
  obtain ⟨hblock, htarget⟩ := CounterArgs.targets_spec htargets
  have hsw (d : ℕ) : s.log.pcl.curr.acl.devs d = (s.log.userDev d).sw :=
    congrArg PclDev.sw (AclLog.curr_dev hfake d)
  have hfound : ∀ d ∈ devs, ∃ ix,
      (s.log.pcl.curr.acl.devs d).pclFindRuleIx a.bindKey = some ix := by
    intro d hd
    obtain ⟨r, hr, hkey, -⟩ := hlogs d hd
    rw [hsw, ← hkey]
    exact (h.ordered.user d).exists_ix hr
  obtain ⟨hok, hdevs⟩ := counterRounds_ok 0 hfound
  have hread : ∀ r ∈ (s.log.pcl.curr.acl.counterRounds a.bindKey 0 devs).2,
      s.counters r.d block r.rule_ix = s.matched r.dev a.bindKey := by
    intro r hr
    obtain ⟨hix, i, hi, hdev⟩ := mem_counterRounds hr
    rw [hsw] at hix
    obtain ⟨l, hl, hkey, hlog⟩ := hlogs r.dev (List.mem_of_getElem? hdev)
    -- the number of the round is the device
    have hd : r.d = r.dev := by
      obtain rfl | ⟨hport, rfl⟩ := htarget i r.dev hdev
      · exact hi.trans (Nat.zero_add _)
      · refine hi.trans (h.ports r.dev l hl hlog ?_).symm
        rw [hkey]
        exact hport
    rw [← hkey] at hix ⊢
    rw [hd]
    refine (h.counting r.dev).reads l hl hlog r.rule_ix hix block ?_
    rw [hkey]
    exact hblock
  unfold getCounter AclState.pclGetCounter
  rw [htargets, Option.bind_some]
  dsimp only
  generalize s.log.pcl.curr.acl.counterRounds a.bindKey 0 devs = rounds at hok hdevs hread
  obtain ⟨status, rounds⟩ := rounds
  obtain rfl : status = .ST_OK := hok
  obtain rfl : rounds.map CounterRound.dev = devs := hdevs
  dsimp only
  rw [List.map_congr_left hread, List.map_map]
  rfl

/-! ### Runs -/

/-- What a call about other rules leaves as it is. -/
theorem spared (hfake : s.fakeMode = false) {e : CounterEvent} {k : RuleBindingKey}
    {devs : List ℕ} (hspares : e.Spares k) (hs : s.step c e = some s') (hlogs : s.LogsOn devs k) :
    s'.fakeMode = false ∧ s'.LogsOn devs k ∧ ∀ d ∈ devs, s'.matched d k = s.matched d k := by
  cases e with
  | packet d lookup ix => exact hspares.elim
  | setFakeModeEnabled enable => exact hspares.elim
  | clearCounter a =>
    obtain rfl := Option.some_inj.mp hs
    exact ⟨hfake, hlogs, fun d _ => if_neg fun hclear => hspares hclear.2.1.symm⟩
  | call x =>
    obtain ⟨log, hlog, rfl⟩ := Option.map_eq_some_iff.mp hs
    cases x with
    | resetRules interface dest action_type =>
      refine ⟨(AclLog.step_mode hlog).trans hfake, fun d hd => ?_, fun d hd => ?_⟩
      · obtain ⟨r, hr, rfl, hlog'⟩ := hlogs d hd
        refine ⟨r, ?_, rfl, hlog'⟩
        obtain ⟨-, huser⟩ := AclLog.step_reset hlog hfake d
        dsimp only
        rw [huser]
        split_ifs
        · exact List.mem_filter.mpr ⟨hr, (Bool.not_eq_true' _).mpr hspares⟩
        · exact hr
      · obtain ⟨r, hr, rfl, -⟩ := hlogs d hd
        exact kept_of_mem hr
    | _ => exact hspares.elim

/-- In every run of such calls and packets, out of fake mode, the counter of a rule that logs is the
number of the packets that it has matched since it was set or its counter was cleared, summed over
its devices, and clearing the counter of another rule or resetting others does not change it. -/
theorem counters_follow (hr : Guarded.Reach (CountedAcl.step c) (CountsOk c) (init c) s)
    (hfake : s.fakeMode = false) {a : CounterArgs} {devs : List ℕ} {block : ℕ}
    (htargets : a.targets c = some (devs, block)) (hlogs : s.LogsOn devs a.bindKey) :
    s.getCounter c a = some (devs.map fun d => s.matched d a.bindKey).sum ∧
      ∀ e s', e.Spares a.bindKey → s.CountsOk c e → s.step c e = some s' →
        s'.getCounter c a = s.getCounter c a := by
  have h := Right.of_reach hr
  have hread := h.getCounter_eq hfake htargets hlogs
  refine ⟨hread, fun e s' hspares hok hs => ?_⟩
  obtain ⟨hfake', hlogs', hm⟩ := spared hfake hspares hs hlogs
  rw [hread, (h.step hok hs).getCounter_eq hfake' htargets hlogs', List.map_congr_left hm]

theorem ldev_twoDevs (pid : ℕ) : (if pid = 2 then 1 else 0) < 2 := by
  split_ifs
  · exact Nat.one_lt_two
  · exact Nat.two_pos

/-- A unit with two devices and a port on each. -/
def twoDevs : AclConf where
  NDEVS := 2
  NPORTS := 2
  port pid := ⟨if pid = 2 then 1 else 0, false⟩
  stack_id := 0
  stack_pri_port := 0
  stack_sec_port := 0
  NPORTS_pos := Nat.two_pos
  ldev_lt := ldev_twoDevs

/-- A rule for MAC addresses that logs. -/
def loggedMac : MacPclRule := { AclLog.anyMac with trap_action := .LOG_INPUT }

/-- The rule of the VLAN. -/
def vlanRule : CounterArgs := ⟨⟨.VLAN, 5⟩, .INGRESS, [1], 1⟩

/-- The rule of the first port. -/
def firstRule : CounterArgs := ⟨⟨.PORT, 1⟩, .INGRESS, [2], 1⟩

/-- A rule of a VLAN on both devices and a rule of a port match packets, a rule is tried in fake
mode, and the counter of the port is cleared before its last packet. -/
def countedRun : List CounterEvent :=
  [.call (.macRuleSet ⟨[1], .ACL, 1, ⟨.VLAN, 5⟩, .INGRESS, .DENY⟩ loggedMac),
    .call (.macRuleSet ⟨[2], .ACL, 1, ⟨.PORT, 1⟩, .INGRESS, .DENY⟩ loggedMac),
    .packet 0 .INGRESS_1 333, .packet 1 .INGRESS_1 333, .packet 1 .INGRESS_1 333,
    .packet 0 .INGRESS_0 334, .packet 0 .INGRESS_0 334,
    .setFakeModeEnabled true,
    .call (.macRuleSet ⟨[3], .POLICY, 1, ⟨.PORT, 1⟩, .INGRESS, .PERMIT⟩ AclLog.anyMac),
    .call (.resetRules ⟨.PORT, 1⟩ .INGRESS .POLICY),
    .setFakeModeEnabled false,
    .clearCounter firstRule,
    .packet 0 .INGRESS_0 334]

theorem counters_follow_countedRun : ∃ s : CountedAcl, s.getCounter twoDevs vlanRule = some 3 ∧
    ∀ s', s.step twoDevs (.clearCounter firstRule) = some s' →
      s'.getCounter twoDevs vlanRule = some 3 := by
  have hlast : (Guarded.run (CountedAcl.step twoDevs) (CountsOk twoDevs)
      (init twoDevs) countedRun).map
      (fun s => (s.fakeMode, decide (s.LogsOn [0, 1] vlanRule.bindKey),
        s.matched 0 vlanRule.bindKey, s.matched 1 vlanRule.bindKey,
        decide (s.CountsOk twoDevs (.clearCounter firstRule)))) =
      some (false, true, 1, 2, true) := by
    decide +kernel
  obtain ⟨s, hs, hshown⟩ := Option.map_eq_some_iff.mp hlast
  simp only [Prod.mk.injEq, decide_eq_true_eq] at hshown
  obtain ⟨hfake, hlogs, hzero, hone, hok⟩ := hshown
  have htargets : vlanRule.targets twoDevs = some ([0, 1], 1) := rfl
  obtain ⟨hread, hspared⟩ := counters_follow (Guarded.Reach.init.of_run hs) hfake htargets hlogs
  have hthree : s.getCounter twoDevs vlanRule = some 3 := by
    rw [hread, List.map_cons, List.map_singleton, hzero, hone]
    rfl
  have hother : firstRule.bindKey ≠ vlanRule.bindKey := by decide
  exact ⟨s, hthree, fun s' hs' =>
    (hspared (.clearCounter firstRule) s' hother hok hs').trans hthree⟩

/-- Rules of two ports log, the second one matches a packet, and the first port is reset. -/
def movedRun : List CounterEvent :=
  [.call (.macRuleSet ⟨[1], .ACL, 1, ⟨.PORT, 1⟩, .INGRESS, .DENY⟩ loggedMac),
    .call (.macRuleSet ⟨[2], .ACL, 1, ⟨.PORT, 2⟩, .INGRESS, .DENY⟩ loggedMac),
    .packet 0 .INGRESS_0 367,
    .call (.resetRules ⟨.PORT, 1⟩ .INGRESS .ACL)]

/-- The rule of the second port. -/
def portRule : CounterArgs := ⟨⟨.PORT, 2⟩, .INGRESS, [2], 1⟩

/-- Counters do not follow their rules in general: when the rules of a port are reset, the rule
behind them moves, and a counter is read that has not counted its packet. -/
theorem not_counters_follow : ¬∀ (c : AclConf) (s : CountedAcl) (a : CounterArgs) (devs : List ℕ)
    (block : ℕ), Guarded.Reach (CountedAcl.step c) (fun _ _ => True) (init c) s →
      s.fakeMode = false → a.targets c = some (devs, block) → s.LogsOn devs a.bindKey →
      s.getCounter c a = some (devs.map fun d => s.matched d a.bindKey).sum := by
  intro h
  have hlast : (Guarded.run (CountedAcl.step AclLog.twoPorts) (fun _ _ => True)
      (init AclLog.twoPorts) movedRun).map
      (fun s => (s.fakeMode, decide (s.LogsOn [0] portRule.bindKey), s.matched 0 portRule.bindKey,
        s.getCounter AclLog.twoPorts portRule)) = some (false, true, 1, some 0) := by
    decide +kernel
  obtain ⟨s, hs, hshown⟩ := Option.map_eq_some_iff.mp hlast
  simp only [Prod.mk.injEq, decide_eq_true_eq] at hshown
  obtain ⟨hfake, hlogs, hone, hread⟩ := hshown
  have hcount := h AclLog.twoPorts s portRule [0] 0 (Guarded.Reach.init.of_run hs) hfake rfl hlogs
  rw [hread, List.map_singleton, hone] at hcount
  exact absurd (Option.some_inj.mp hcount) (by decide)

end CountedAcl

end Presteramgr
