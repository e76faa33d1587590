import Presteramgr.Acl.DryRun
import Presteramgr.Acl.Encoded

/-!
# Counters of rules (`pcl.c`)

A rule that logs packets counts them in the counter that its entry names: the one with the index
that the rule had when it was set, in the block of the lookup. The counter of a rule is read and
cleared by the index that the rule has then.

## Main definitions

* `AclState.pclGetCounter`, `AclState.pclClearCounter`;
* `CountedAcl`: the state with the counters, and with a record of the packets that each rule has
  matched;
* `CountedAcl.step`: calls and packets.
-/

namespace Presteramgr

/-! ### Reading and clearing -/

/-- The arguments of `pcl_get_counter` and `pcl_clear_counter`. -/
structure CounterArgs where
  interface : PclInterface
  dest : PclDest
  name : List ℕ
  rule_num : ℕ
deriving DecidableEq, Repr

namespace CounterArgs

variable (c : AclConf) (a : CounterArgs)

/-- The key of the rule that is meant, which is an ACL rule. The name is filled up with zeros. -/
def bindKey : RuleBindingKey where
  name := a.name ++ List.replicate (NAME_SZ - a.name.length) 0
  acttype := .ACL
  num := a.rule_num
  interface := a.interface
  destination := a.dest

/-- What the `switch` over interfaces gives: `devs` and `block`, `none` for `ST_BAD_VALUE`. -/
def targets : Option (List ℕ × ℕ) :=
  if NAME_SZ < a.name.length then none
  else match a.interface.type with
    | .VLAN => some (List.range c.NDEVS, 1)
    | .PORT => (c.getPortPtr a.interface.num).map fun port => ([port.ldev], 0)
    | .other _ => none

/-- What `targets` gives: the block of the interface, and all devices or the one of the port. -/
theorem targets_spec {c : AclConf} {a : CounterArgs} {devs : List ℕ} {block : ℕ}
    (h : a.targets c = some (devs, block)) : AclState.resetBlock a.interface = some block ∧
      ∀ d dev, devs[d]? = some dev → d = dev ∨ a.interface.type = .PORT ∧ d = 0 := by
  unfold targets at h
  unfold AclState.resetBlock
  split_ifs at h
  cases htype : a.interface.type with
  | VLAN =>
    rw [htype] at h
    obtain ⟨rfl, rfl⟩ := Prod.mk.inj (Option.some_inj.mp h)
    refine ⟨rfl, fun d dev hdev => .inl ?_⟩
    obtain ⟨hlt, hdev⟩ := List.getElem?_eq_some_iff.mp hdev
    rw [← hdev, List.getElem_range]
  | PORT =>
    rw [htype] at h
    obtain ⟨port, -, heq⟩ := Option.map_eq_some_iff.mp h
    obtain ⟨rfl, rfl⟩ := Prod.mk.inj heq
    refine ⟨rfl, fun d dev hdev => .inr ⟨rfl, ?_⟩⟩
    obtain ⟨hlt, -⟩ := List.getElem?_eq_some_iff.mp hdev
    exact Nat.lt_one_iff.mp hlt
  | other n =>
    rw [htype] at h
    exact absurd h.symm (Option.some_ne_none _)

end CounterArgs

/-- A round of the loops over devices: its number `d`, the device `devs[d]`, and the index that the
rule has there. -/
structure CounterRound where
  d : ℕ
  dev : ℕ
  rule_ix : ℕ
deriving DecidableEq, Repr

/-- The rounds from the number `d` on, up to one where `pcl_find_rule_ix` fails. -/
def UserAcl.counterRounds (acl : UserAcl) (key : RuleBindingKey) :
    ℕ → List ℕ → Status × List CounterRound
  | _, [] => (.ST_OK, [])
  | d, dev :: devs =>
    match (acl.devs dev).pclFindRuleIx key with
    | none => (.ST_BAD_VALUE, [])
    | some rule_ix =>
      let (status, rounds) := counterRounds acl key (d + 1) devs
      (status, ⟨d, dev, rule_ix⟩ :: rounds)

section Rounds

variable {acl : UserAcl} {key : RuleBindingKey} {devs : List ℕ}

theorem mem_counterRounds {n : ℕ} {r : CounterRound} (hr : r ∈ (acl.counterRounds key n devs).2) :
    (acl.devs r.dev).pclFindRuleIx key = some r.rule_ix ∧ ∃ i, r.d = n + i ∧
      devs[i]? = some r.dev := by
  induction devs generalizing n with
  | nil => exact absurd hr List.not_mem_nil
  | cons dev devs ih =>
    unfold UserAcl.counterRounds at hr
    cases hfind : (acl.devs dev).pclFindRuleIx key with
    | none =>
      rw [hfind] at hr
      exact absurd hr List.not_mem_nil
    | some rule_ix =>
      rw [hfind] at hr
      rcases List.mem_cons.mp hr with rfl | hr
      · exact ⟨hfind, 0, rfl, rfl⟩
      · obtain ⟨hix, i, hd, hi⟩ := ih hr
        exact ⟨hix, i + 1, hd.trans (by omega), hi⟩

/-- Where the rule is found on every device, there is a round for each device. -/
theorem counterRounds_ok (n : ℕ)
    (h : ∀ dev ∈ devs, ∃ ix, (acl.devs dev).pclFindRuleIx key = some ix) :
    (acl.counterRounds key n devs).1 = .ST_OK ∧
      (acl.counterRounds key n devs).2.map CounterRound.dev = devs := by
  induction devs generalizing n with
  | nil => exact ⟨rfl, rfl⟩
  | cons dev devs ih =>
    obtain ⟨ix, hix⟩ := h dev List.mem_cons_self
    obtain ⟨hok, hdevs⟩ := ih (n + 1) fun dev' hdev' => h dev' (List.mem_cons_of_mem _ hdev')
    unfold UserAcl.counterRounds
    rw [hix]
    exact ⟨hok, congrArg (dev :: ·) hdevs⟩

end Rounds

/-- The calls of `cpssDxChCncCounterSet` of some rounds. The device is the number of the round. -/
def clearRounds (block : ℕ) (rounds : List CounterRound) (counters : ℕ → ℕ → ℕ → ℕ) :
    ℕ → ℕ → ℕ → ℕ :=
  fun d b ix =>
    if b = block ∧ ∃ r ∈ rounds, r.d = d ∧ r.rule_ix = ix then 0 else counters d b ix

namespace AclState

variable (c : AclConf) (s : AclState) (counters : ℕ → ℕ → ℕ → ℕ) (a : CounterArgs)

/-- `pcl_get_counter`, `none` for `ST_BAD_VALUE`. The device whose counter is read is the number of
the round. Packets are counted without a bound. -/
def pclGetCounter : Option ℕ :=
  (a.targets c).bind fun (devs, block) =>
    match s.acl.counterRounds a.bindKey 0 devs with
    | (.ST_OK, rounds) => some (rounds.map fun r => counters r.d block r.rule_ix).sum
    | _ => none

/-- `pcl_clear_counter`. -/
def pclClearCounter : Status × (ℕ → ℕ → ℕ → ℕ) :=
  match a.targets c with
  | none => (.ST_BAD_VALUE, counters)
  | some (devs, block) =>
    let (status, rounds) := s.acl.counterRounds a.bindKey 0 devs
    (status, clearRounds block rounds counters)

end AclState

/-! ### Packets -/

/-- The lookups that `pcl_port_setup` sets up. -/
inductive PclLookup
  | INGRESS_0
  | INGRESS_1
  | EGRESS_0
deriving DecidableEq, Repr

namespace PclLookup

/-- The direction of a lookup. -/
def direction : PclLookup → PclDirection
  | .INGRESS_0 => .INGRESS
  | .INGRESS_1 => .INGRESS
  | .EGRESS_0 => .EGRESS

/-- The block that counts for a lookup, as `pcl_init_cnc_counters` sets it up. None counts for the
egress lookup. -/
def block : PclLookup → Option ℕ
  | .INGRESS_0 => some 0
  | .INGRESS_1 => some 1
  | .EGRESS_0 => none

end PclLookup

/-- The state with the counters of rules, by the device, the block and the index. -/
structure CountedAcl where
  log : AclLog
  counters : ℕ → ℕ → ℕ → ℕ
  /-- The packets that a rule has matched on a device since it was set or its counter was
  cleared. -/
  matched : ℕ → RuleBindingKey → ℕ

/-- What happens: a call that can be tried, the other calls, and a packet that matches the entry
with an index of a device in a lookup. -/
inductive CounterEvent
  | call (x : PclCall)
  | setFakeModeEnabled (enable : Bool)
  | clearCounter (a : CounterArgs)
  | packet (d : ℕ) (lookup : PclLookup) (ix : ℕ)
deriving DecidableEq, Repr

namespace CountedAcl

variable (c : AclConf) (s : CountedAcl)

/-- The state before any rule is set. -/
def init : CountedAcl := ⟨AclLog.init c, fun _ _ _ => 0, fun _ _ => 0⟩

/-- `user_acl_fake_mode`. -/
def fakeMode : Bool := s.log.pcl.user_acl_fake_mode

/-- What `pcl_get_counter` returns. -/
def getCounter (a : CounterArgs) : Option ℕ := s.log.pcl.curr.pclGetCounter c s.counters a

/-- The entry of a user rule that a packet matches: a lookup finds entries of its direction. -/
def hit (d : ℕ) (lookup : PclLookup) (ix : ℕ) : Option PclEntry :=
  if (s.log.userDev d).sw.index_book.start ≤ ix ∧ ix < (s.log.userDev d).sw.index_book.end_ then
    ((s.log.userDev d).hw.tcam ix).filter fun e => e.type.direction = lookup.direction
  else none

/-- The rule stands at an index of a device. -/
def StandsAt (d : ℕ) (k : RuleBindingKey) (ix : ℕ) : Prop :=
  (s.log.userDev d).sw.pclFindRuleIx k = some ix

instance (d : ℕ) (k : RuleBindingKey) (ix : ℕ) : Decidable (s.StandsAt d k ix) :=
  inferInstanceAs (Decidable (_ = some ix))

/-- A packet is counted, and the rule that it matches has matched one more. -/
def packet (d : ℕ) (lookup : PclLookup) (ix : ℕ) : CountedAcl :=
  match s.hit d lookup ix with
  | none => s
  | some e =>
    { s with
      counters := fun d' b ix' =>
        if d' = d ∧ lookup.block = some b ∧ e.act.matchCounterIndex = some ix' then
          s.counters d' b ix' + 1
        else s.counters d' b ix'
      matched := fun d' k =>
        if d' = d ∧ s.StandsAt d k ix then s.matched d' k + 1 else s.matched d' k }

/-- The record of the rules that were there before a call. The other ones start from zero. -/
def kept : ℕ → RuleBindingKey → ℕ := fun d k =>
  if k ∈ (s.log.user d).map LiveRule.key then s.matched d k else 0

/-- The rounds of `pcl_clear_counter`. -/
def clearedRounds (a : CounterArgs) : List CounterRound :=
  match a.targets c with
  | none => []
  | some (devs, _) => (s.log.pcl.curr.acl.counterRounds a.bindKey 0 devs).2

/-- The counter of a rule is cleared. In fake mode no rule is meant to change. -/
def clearCounter (a : CounterArgs) : CountedAcl :=
  { s with
    counters := (s.log.pcl.curr.pclClearCounter c s.counters a).2
    matched := fun d k =>
      if s.fakeMode = false ∧ k = a.bindKey ∧ ∃ r ∈ s.clearedRounds c a, r.dev = d then 0
      else s.matched d k }

/-- What happens in an event. The result is `none` where `vlan_ipcl_id` is accessed outside of its
bounds. -/
def step : CounterEvent → Option CountedAcl
  | .call x =>
    (s.log.step c x.op).map fun log =>
      ⟨log, s.log.pcl.curr.clearCounters c s.fakeMode s.counters x, s.kept⟩
  | .setFakeModeEnabled enable =>
    (s.log.step c (.setFakeModeEnabled enable)).map fun log => { s with log := log }
  | .clearCounter a => some (s.clearCounter c a)
  | .packet d lookup ix => some (s.packet d lookup ix)

end CountedAcl

end Presteramgr
