import Presteramgr.Acl.ComparatorsRun
import Presteramgr.Ret.LttIndex
import Presteramgr.Ret.Pbr

/-!
# Requests for policy routing (`control.c`)

A request for policy routing takes a row before its arguments are read, sets its rules, which
redirect to the row, and makes a policy. Some of the ways in which it fails give the row back.

## Main definitions

* `pbrSet` and `pbrReset`: the handlers;
* `PolicyUnit.step`: a request or another call.

## Main results

* `PolicyUnit.rows_leased`: in every run the list holds the rows that were handed out and not given
  back, no two policies have the same row, and no rules of different interfaces redirect to the same
  row unless it was given back while rules redirected to it.
-/

namespace Presteramgr

open Guarded (Reach run)

/-- The rule actions that `CC_POLICY_BASED_ROUTING_SET` accepts. -/
inductive PbrRuleAction
  | DENY
  | PERMIT
  | DENY_POLICY
  | PERMIT_POLICY (params : PclRuleActionPolicy)
  | DENY_PBR
  | PERMIT_PBR
deriving DecidableEq, Repr

/-- The action with its parameters: `rule_action_params` is the row. -/
def PbrRuleAction.params (ltt_index : RowColum) : PbrRuleAction → PclRuleAction
  | .DENY => .DENY
  | .PERMIT => .PERMIT
  | .DENY_POLICY => .DENY_POLICY
  | .PERMIT_POLICY params => .PERMIT_POLICY params
  | .DENY_PBR => .DENY_PBR ltt_index
  | .PERMIT_PBR => .PERMIT_PBR ltt_index

/-- The row that a rule redirects to. -/
def PclRuleAction.row? : PclRuleAction → Option RowColum
  | .PERMIT_PBR ltt_index => some ltt_index
  | .DENY_PBR ltt_index => some ltt_index
  | _ => none

/-- A rule of a request: the status of `POP_ARG` where an argument is missing, a wrong action, an
IPv4 rule, a MAC or IPv6 rule, which is only read, or a wrong type. -/
inductive PbrRule
  | missing (st : Status)
  | badAction
  | ip (name : List ℕ) (rule_action : PbrRuleAction) (rule_num : ℕ) (rule : IpPclRule)
  | unset
  | badType
deriving DecidableEq, Repr

/-- The arguments of `CC_POLICY_BASED_ROUTING_SET`. -/
structure PbrSetArgs where
  interface : PclInterface
  dest : PclDest
  nextHop : Ip4
  vid : ℕ
  action_type : PclActionType
  rules : List PbrRule
deriving DecidableEq, Repr

/-- The call of `pcl_ip_rule_set`. -/
def PbrSetArgs.ruleArgs (a : PbrSetArgs) (ltt_index : RowColum) (name : List ℕ)
    (rule_action : PbrRuleAction) (rule_num : ℕ) : RuleArgs :=
  ⟨name, a.action_type, rule_num, a.interface, a.dest, rule_action.params ltt_index⟩

/-- How the loop over rules ends: with all rules set, or with a failure, which gives the row back or
not. -/
inductive PbrEnd
  | done
  | out (st : Status)
  | del (st : Status)
deriving DecidableEq, Repr

/-- `pcl_ip_rule_set`, with its status and whether the rule has got an index on a device. -/
def AclLog.ipRuleSet (c : AclConf) (s : AclLog) (a : RuleArgs) (rule : IpPclRule) :
    Option (Status × Bool × AclLog) := do
  let r ← s.pcl.curr.pclIpRuleSet c s.pcl.user_acl_fake_mode a rule
  some (r.1.status, r.1.devs.any (·.2.bound), ← s.step c (.ipRuleSet a rule))

/-- The loop over rules, with whether a rule that redirects to the row has got an index. -/
def pbrSetRules (c : AclConf) (a : PbrSetArgs) (ltt_index : RowColum) :
    List PbrRule → Bool → AclLog → Option (PbrEnd × Bool × AclLog)
  | [], bound, s => some (.done, bound, s)
  | .missing st :: _, bound, s => some (.out st, bound, s)
  | .badAction :: _, bound, s => some (.del .ST_BAD_VALUE, bound, s)
  | .ip name rule_action rule_num rule :: rules, bound, s => do
    let (st, bound', s) ← s.ipRuleSet c (a.ruleArgs ltt_index name rule_action rule_num) rule
    let bound := bound || bound' && (rule_action.params ltt_index).row?.isSome
    if st ≠ .ST_OK then some (.del st, bound, s)
    else pbrSetRules c a ltt_index rules bound s
  | .unset :: rules, bound, s => pbrSetRules c a ltt_index rules bound s
  | .badType :: _, bound, s => some (.del .ST_BAD_VALUE, bound, s)

/-- The rows, the rules and the policies. Two records go beside them: the rows that were handed out
and not given back, and those that were given back while a rule redirected to them. -/
structure PolicyUnit where
  rows : LttRows
  acl : AclLog
  pbr : PbrRouter
  taken : List RowColum
  stale : List RowColum

/-- A request, with the address that `calloc` returns and the indices that `res_pop` does not write,
or another call: of the rules, or of the gateways and their groups. -/
inductive PolicyOp
  | set (add : ℕ) (junk : ℕ → ℤ) (args : Except Status PbrSetArgs)
  | reset (args : Except Status (PclInterface × PclDest × PclActionType))
  | acl (op : PclOp)
  | gw (op : GwOp)

namespace PolicyUnit

variable (c : AclConf) (env : RouteEnv) (s : PolicyUnit)

/-- `CC_POLICY_BASED_ROUTING_SET`. -/
def pbrSet (add : ℕ) (junk : ℕ → ℤ) (args : Except Status PbrSetArgs) :
    Option (Status × PolicyUnit) := do
  let (ltt_index, rows) ← s.rows.lttIndexGet add
  let s := { s with rows := rows, taken := s.taken ++ [ltt_index] }
  match args with
  | .error st => some (st, s)
  | .ok a =>
    let (ended, bound, acl) ← pbrSetRules c a ltt_index a.rules false s.acl
    match ended with
    | .done =>
      let (_, pbr) := s.pbr.pbrRouteSet env ltt_index a.nextHop a.vid a.interface junk
      some (.ST_OK, { s with acl := acl, pbr := pbr })
    | .out st => some (st, { s with acl := acl })
    | .del st =>
      some (st, { s with
        rows := ← s.rows.lttIndexDel ltt_index
        taken := s.taken.erase ltt_index
        acl := acl
        stale := if bound then ltt_index :: s.stale else s.stale })

/-- `CC_POLICY_BASED_ROUTING_RESET`, which reports no failure. -/
def pbrReset (args : Except Status (PclInterface × PclDest × PclActionType)) :
    Option (Status × PolicyUnit) :=
  match args with
  | .error _ => some (.ST_OK, s)
  | .ok (interface, dest, action_type) => do
    let acl ← s.acl.step c (.resetRules interface dest action_type)
    some (.ST_OK, { s with acl := acl, pbr := (s.pbr.pbrRouteUnset interface).2 })

/-- A request or another call. -/
def step : PolicyOp → Option PolicyUnit
  | .set add junk args => (s.pbrSet c env add junk args).map Prod.snd
  | .reset args => (s.pbrReset c args).map Prod.snd
  | .acl op => (s.acl.step c op).map fun acl => { s with acl := acl }
  | .gw op => (Router.gwStep env s.pbr.router op).map fun router =>
    { s with pbr := { s.pbr with router := router } }

/-- No row is taken, no rule is set, and there is no policy. -/
def start (router : Router) : PolicyUnit := ⟨.start, .init c, ⟨router, []⟩, [], []⟩

end PolicyUnit

/-- `calloc` returns memory that is not in use, and the other requests for rules do not accept the
actions of policy routing. -/
def PolicyOk (s : PolicyUnit) : PolicyOp → Prop
  | .set add _ _ => s.rows.heap.data add = none ∧ add ≠ Dlist.NULL
  | .reset _ => True
  | .acl op => ∀ x ∈ op.rule?, x.1.rule_action.row? = none
  | .gw _ => True

instance (s : PolicyUnit) : ∀ op, Decidable (PolicyOk s op)
  | .set add _ _ => inferInstanceAs (Decidable (s.rows.heap.data add = none ∧ add ≠ Dlist.NULL))
  | .reset _ => .isTrue trivial
  | .acl op => inferInstanceAs (Decidable (∀ x ∈ op.rule?, x.1.rule_action.row? = none))
  | .gw _ => .isTrue trivial

/-! ## Rules that are set -/

theorem DevStep.mem {fake : Bool} {op : PclOp} {dev dev' : PclDev}
    {live live' : List LiveRule} {r : LiveRule} (h : DevStep fake op dev live dev' live')
    (hr : r ∈ live') :
    r ∈ live ∨ ∃ x ∈ op.rule?, r.args = x.1 := by
  cases h with
  | same => exact Or.inl hr
  | set a p pcl_id hop =>
    unfold PclDev.logRule at hr
    split_ifs at hr
    · rcases List.mem_append.mp hr with hr | hr
      · exact Or.inl hr
      · exact Or.inr ⟨(a, p), hop, by rw [List.mem_singleton.mp hr]⟩
    · exact Or.inl hr
  | reset => exact Or.inl (List.mem_of_mem_filter hr)

namespace AclLog

variable {c : AclConf} {s s' : AclLog} {r : LiveRule}

/-- The rule is set on a device, really or in fake mode. -/
def Live (s : AclLog) (r : LiveRule) : Prop := ∃ d, r ∈ s.user d ∨ r ∈ s.fake d

/-- A call sets its rule at most. -/
theorem step_live {op : PclOp} (h : s.step c op = some s') (hr : s'.Live r) :
    s.Live r ∨ ∃ x ∈ op.rule?, r.args = x.1 := by
  obtain ⟨d, hr | hr⟩ := hr
  · exact ((step_user h d).mem hr).imp_left fun hr => ⟨d, Or.inl hr⟩
  · obtain ⟨-, heq⟩ | ⟨-, heq⟩ | ⟨dev', hdev, -⟩ := step_fake h d
    · exact Or.inl ⟨d, Or.inr (heq ▸ hr)⟩
    · exact Or.inl ⟨d, Or.inl (heq ▸ hr)⟩
    · exact (hdev.mem hr).imp_left fun hr => ⟨d, Or.inr hr⟩

theorem mem_logReport {L : Ledger} {a : RuleArgs} {p : RuleParams}
    {devs : List (ℕ × PclDev.Outcome)}
    {d : ℕ} (hr : r ∈ L.logReport a p devs d) :
    r ∈ L d ∨ r.args = a ∧ devs.any (·.2.bound) = true := by
  induction devs generalizing L with
  | nil => exact Or.inl hr
  | cons x devs ih =>
    rcases ih hr with hr | ⟨ha, hb⟩
    · dsimp only at hr
      by_cases hd : d = x.1
      · subst hd
        rw [Function.update_self] at hr
        unfold PclDev.logRule at hr
        split_ifs at hr with hbound
        · rcases List.mem_append.mp hr with hr | hr
          · exact Or.inl hr
          · exact Or.inr ⟨by rw [List.mem_singleton.mp hr], by simp [hbound]⟩
        · exact Or.inl hr
      · rw [Function.update_of_ne hd] at hr
        exact Or.inl hr
    · exact Or.inr ⟨ha, by simp [hb]⟩

/-- A rule that gets no index is not set. -/
theorem ipRuleSet_live {a : RuleArgs} {rule : IpPclRule} {st : Status} {bound : Bool}
    (h : s.ipRuleSet c a rule = some (st, bound, s')) (hr : s'.Live r) :
    s.Live r ∨ r.args = a ∧ bound = true := by
  simp only [ipRuleSet, Option.bind_eq_bind, Option.bind_eq_some_iff] at h
  obtain ⟨x, hset, t, hstep, heq⟩ := h
  obtain ⟨rfl, rfl, rfl⟩ : _ ∧ _ ∧ _ := by simpa using heq
  have hlog : t.user = s.user ∧ t.fake = s.curr.logReport a (.ip rule) x.1.devs ∨
      t.fake = s.fake ∧ t.user = s.curr.logReport a (.ip rule) x.1.devs := by
    simp only [step, Pcl.step, hset, Option.map_some, Option.some.injEq] at hstep
    subst hstep
    unfold setCurr
    split_ifs
    · exact Or.inl ⟨rfl, rfl⟩
    · exact Or.inr ⟨rfl, rfl⟩
  have hcurr : ∀ d, r ∈ s.curr d → s.Live r := by
    intro d hd
    unfold curr at hd
    split_ifs at hd
    · exact ⟨d, Or.inr hd⟩
    · exact ⟨d, Or.inl hd⟩
  obtain ⟨d, hr⟩ := hr
  rcases hlog with ⟨huser, hfake⟩ | ⟨hfake, huser⟩
  all_goals
    rw [huser, hfake] at hr
    rcases hr with hr | hr
  · exact Or.inl ⟨d, Or.inl hr⟩
  · exact (mem_logReport hr).imp_left (hcurr d)
  · exact (mem_logReport hr).imp_left (hcurr d)
  · exact Or.inl ⟨d, Or.inr hr⟩

end AclLog

section Rules

variable {c : AclConf} {a : PbrSetArgs} {ix : RowColum} {rules : List PbrRule} {bound bound' : Bool}
  {s s' : AclLog} {ended : PbrEnd}

/-- What a rule of the request leaves. -/
theorem pbrSetRules_ip {name : List ℕ} {rule_action : PbrRuleAction} {rule_num : ℕ}
    {rule : IpPclRule}
    (h : pbrSetRules c a ix (.ip name rule_action rule_num rule :: rules) bound s =
      some (ended, bound', s')) :
    ∃ st b t, s.ipRuleSet c (a.ruleArgs ix name rule_action rule_num) rule = some (st, b, t) ∧
      (st ≠ .ST_OK ∧ ended = .del st ∧
          bound' = (bound || b && (rule_action.params ix).row?.isSome) ∧ s' = t ∨
        st = .ST_OK ∧ pbrSetRules c a ix rules
          (bound || b && (rule_action.params ix).row?.isSome) t = some (ended, bound', s')) := by
  simp only [pbrSetRules, Option.bind_eq_bind, Option.bind_eq_some_iff] at h
  obtain ⟨⟨st, b, t⟩, hset, h⟩ := h
  refine ⟨st, b, t, hset, ?_⟩
  dsimp only at h
  split_ifs at h with hst
  · obtain ⟨rfl, rfl, rfl⟩ : _ ∧ _ ∧ _ := by simpa [eq_comm] using h
    exact Or.inl ⟨hst, rfl, rfl, rfl⟩
  · exact Or.inr ⟨not_not.mp hst, h⟩

theorem pbrSetRules_bound (h : pbrSetRules c a ix rules bound s = some (ended, bound', s')) :
    bound = true → bound' = true := by
  induction rules generalizing bound s with
  | nil =>
    obtain ⟨-, rfl, -⟩ : _ ∧ _ ∧ _ := by simpa [pbrSetRules] using h
    exact id
  | cons rule rules ih =>
    cases rule with
    | ip name rule_action rule_num rule =>
      intro hb
      obtain ⟨st, b, t, -, ⟨-, -, rfl, -⟩ | ⟨-, h⟩⟩ := pbrSetRules_ip h
      · simp [hb]
      · exact ih h (by simp [hb])
    | unset => exact ih h
    | missing st =>
      obtain ⟨-, rfl, -⟩ : _ ∧ _ ∧ _ := by simpa [pbrSetRules] using h
      exact id
    | badAction =>
      obtain ⟨-, rfl, -⟩ : _ ∧ _ ∧ _ := by simpa [pbrSetRules] using h
      exact id
    | badType =>
      obtain ⟨-, rfl, -⟩ : _ ∧ _ ∧ _ := by simpa [pbrSetRules] using h
      exact id

theorem row?_params {rule_action : PbrRuleAction} {ix ix' : RowColum}
    (h : ix' ∈ (rule_action.params ix).row?) : ix' = ix := by
  cases rule_action with
  | DENY_PBR => exact (Option.some_inj.mp h).symm
  | PERMIT_PBR => exact (Option.some_inj.mp h).symm
  | _ => exact absurd h (Option.not_mem_none _)

/-- The rules of a request are for its interface, and those that redirect redirect to its row. -/
theorem pbrSetRules_live {r : LiveRule}
    (h : pbrSetRules c a ix rules bound s = some (ended, bound', s'))
    (hr : s'.Live r) : s.Live r ∨ r.args.interface = a.interface ∧
      ∀ ix' ∈ r.args.rule_action.row?, bound' = true ∧ ix' = ix := by
  induction rules generalizing bound s with
  | nil =>
    obtain ⟨-, -, rfl⟩ : _ ∧ _ ∧ _ := by simpa [pbrSetRules] using h
    exact Or.inl hr
  | cons rule rules ih =>
    cases rule with
    | ip name rule_action rule_num rule =>
      obtain ⟨st, b, t, hset, hend⟩ := pbrSetRules_ip h
      have hlive : t.Live r → s.Live r ∨ r.args.interface = a.interface ∧
          ∀ ix' ∈ r.args.rule_action.row?, bound' = true ∧ ix' = ix := by
        intro ht
        refine (AclLog.ipRuleSet_live hset ht).imp_right ?_
        rintro ⟨hargs, rfl⟩
        rw [hargs]
        refine ⟨rfl, fun ix' hrow => ⟨?_, row?_params hrow⟩⟩
        -- the rule has got an index and redirects
        have hsome : (rule_action.params ix).row?.isSome = true :=
          Option.isSome_iff_exists.mpr ⟨ix', hrow⟩
        rw [hsome, Bool.and_self, Bool.or_true] at hend
        obtain ⟨-, -, hb, -⟩ | ⟨-, hrest⟩ := hend
        · exact hb
        · exact pbrSetRules_bound hrest rfl
      obtain ⟨-, -, -, rfl⟩ | ⟨-, hrest⟩ := hend
      · exact hlive hr
      · exact (ih hrest).elim hlive Or.inr
    | unset => exact ih h
    | missing st =>
      obtain ⟨-, -, rfl⟩ : _ ∧ _ ∧ _ := by simpa [pbrSetRules] using h
      exact Or.inl hr
    | badAction =>
      obtain ⟨-, -, rfl⟩ : _ ∧ _ ∧ _ := by simpa [pbrSetRules] using h
      exact Or.inl hr
    | badType =>
      obtain ⟨-, -, rfl⟩ : _ ∧ _ ∧ _ := by simpa [pbrSetRules] using h
      exact Or.inl hr

end Rules

/-! ## The invariant -/

/-- The row of a policy, with its interface. -/
def PbrEntry.lease (pe : PbrEntry) : RowColum × PclInterface := (pe.ltt_index, pe.interface)

/-- A policy keeps its row, and a new one gets that of the request. -/
theorem PbrRouter.pbrRouteSet_lease (env : RouteEnv) (s : PbrRouter) (ix : RowColum) (nextHop : Ip4)
    (vid : ℕ) (interface : PclInterface) (junk : ℕ → ℤ) :
    (s.pbrRouteSet env ix nextHop vid interface junk).2.pbr_entry.map PbrEntry.lease =
        s.pbr_entry.map PbrEntry.lease ∨
      (s.pbrRouteSet env ix nextHop vid interface junk).2.pbr_entry.map PbrEntry.lease =
        s.pbr_entry.map PbrEntry.lease ++ [(ix, interface)] := by
  have hmod : ∀ (t : List PbrEntry) (gid : ℤ),
      (Keyed.modify PbrEntry.interface t interface fun pe =>
      { pe with group_id := gid }).map PbrEntry.lease = t.map PbrEntry.lease :=
    fun _ _ => Keyed.map_modify PbrEntry.lease fun _ => rfl
  unfold pbrRouteSet
  cases Keyed.find PbrEntry.interface s.pbr_entry interface with
  | some pe => exact Or.inl (hmod _ _)
  | none => exact Or.inr ((hmod _ _).trans (List.map_append ..))

namespace PolicyUnit

variable {c : AclConf} {env : RouteEnv} {s s' : PolicyUnit}

/-- The rules that redirect to a row are all for one interface, that of the policy with the row if
there is one, and the row is taken. -/
def Apart (s : PolicyUnit) (ix : RowColum) : Prop :=
  ∀ r, s.acl.Live r → r.args.rule_action.row? = some ix → ix ∈ s.taken ∧
    (∀ r', s.acl.Live r' → r'.args.rule_action.row? = some ix →
      r'.args.interface = r.args.interface) ∧
      ∀ pe ∈ s.pbr.pbr_entry, pe.ltt_index = ix → pe.interface = r.args.interface

/-- The list holds the rows that were handed out and not given back. Each policy has one of its own,
and so have the rules of each interface, but for rows that were given back while rules redirected to
them. -/
structure Leased (s : PolicyUnit) : Prop where
  rows : ∃ cells, s.rows.Holds s.taken cells
  policies : ∀ pe ∈ s.pbr.pbr_entry, pe.ltt_index ∈ s.taken
  unique : Keyed.Unique PbrEntry.ltt_index s.pbr.pbr_entry
  apart : ∀ ix ∉ s.stale, s.Apart ix

theorem Leased.start (router : Router) : (start c router).Leased where
  rows := ⟨[], LttRows.Holds.start⟩
  policies _ h := absurd h List.not_mem_nil
  unique := Keyed.unique_nil
  apart _ _ r hr := by
    obtain ⟨d, hr | hr⟩ := hr <;> exact absurd hr List.not_mem_nil

/-- Fewer rules and policies are apart as well. -/
theorem Apart.mono {ix : RowColum} (h : s.Apart ix)
    (hacl : ∀ r, s'.acl.Live r → r.args.rule_action.row? = some ix → s.acl.Live r)
    (hpbr : ∀ pe ∈ s'.pbr.pbr_entry, pe.ltt_index = ix →
      ∃ pe' ∈ s.pbr.pbr_entry, pe'.ltt_index = ix ∧ pe'.interface = pe.interface)
    (htaken : ix ∈ s.taken → ix ∈ s'.taken) : s'.Apart ix := by
  intro r hr hix
  obtain ⟨hmem, hrules, hpes⟩ := h r (hacl r hr hix) hix
  refine ⟨htaken hmem, fun r' hr' hix' => hrules r' (hacl r' hr' hix') hix', fun pe hpe heq => ?_⟩
  obtain ⟨pe', hpe', heq', hif⟩ := hpbr pe hpe heq
  exact hif ▸ hpes pe' hpe' heq'

/-- A row that is free. -/
theorem Apart.of_free {ix : RowColum} (h : s.Apart ix) (hix : ix ∉ s.taken) :
    ∀ r, s.acl.Live r → r.args.rule_action.row? ≠ some ix :=
  fun r hr heq => hix (h r hr heq).1

/-! ### Requests -/

/-- A row is handed out, and nothing else changes. -/
theorem Leased.take (h : s.Leased) {rows : LttRows} {cells : List (ℕ × RowColum)} {ix : RowColum}
    (hrows : rows.Holds (s.taken ++ [ix]) cells) :
    ({ s with rows := rows, taken := s.taken ++ [ix] } : PolicyUnit).Leased where
  rows := ⟨cells, hrows⟩
  policies pe hpe := List.mem_append_left _ (h.policies pe hpe)
  unique := h.unique
  apart ix' hix' := (h.apart ix' hix').mono (fun _ hr _ => hr)
    (fun pe hpe heq => ⟨pe, hpe, heq, rfl⟩)
    (List.mem_append_left _)

/-- The rules of a request are set, some of which redirect to its row. -/
theorem Leased.setRules (h : s.Leased) {ix : RowColum} (hix : ix ∉ s.taken) {acl : AclLog}
    {i : PclInterface} {bound : Bool} (hlive : ∀ r, acl.Live r → s.acl.Live r ∨
      r.args.interface = i ∧ ∀ ix' ∈ r.args.rule_action.row?, bound = true ∧ ix' = ix) :
    (∀ ix' ∉ s.stale, ix' ≠ ix → ({ s with acl := acl } : PolicyUnit).Apart ix') ∧
      (ix ∉ s.stale → ∀ r, acl.Live r → r.args.rule_action.row? = some ix →
        bound = true ∧ r.args.interface = i) := by
  constructor
  · intro ix' hstale hne
    refine (h.apart ix' hstale).mono (fun r hr hrow => ?_)
      (fun pe hpe heq => ⟨pe, hpe, heq, rfl⟩) id
    exact (hlive r hr).resolve_right fun hnew => hne (hnew.2 ix' hrow).2
  · intro hstale r hr hrow
    obtain ⟨hif, hrows⟩ := (hlive r hr).resolve_left fun hold =>
      (h.apart ix hstale).of_free hix r hold hrow
    exact ⟨(hrows ix hrow).1, hif⟩

/-- A request that takes a row keeps it, and makes its policy or fails, or gives it back. -/
theorem Leased.pbrSet (h : s.Leased) {add : ℕ} {junk : ℕ → ℤ} {args : Except Status PbrSetArgs}
    {st : Status} (hadd : s.rows.heap.data add = none) (hnull : add ≠ Dlist.NULL)
    (hset : s.pbrSet c env add junk args = some (st, s')) : s'.Leased := by
  obtain ⟨cells, hcells⟩ := h.rows
  by_cases hfull : ROWS ≤ s.taken.length
  · simp [PolicyUnit.pbrSet, hcells.get_none hfull] at hset
  obtain ⟨k, -, hfree, -, rows, hget, hrows⟩ := hcells.get (Nat.lt_of_not_le hfull) hadd hnull
  simp only [PolicyUnit.pbrSet, hget, Option.bind_eq_bind, Option.bind_some] at hset
  cases args with
  | error st' =>
    obtain ⟨-, rfl⟩ := Prod.mk.inj (Option.some_inj.mp hset)
    exact h.take hrows
  | ok a =>
    obtain ⟨⟨ended, bound, acl⟩, hloop, hset⟩ := Option.bind_eq_some_iff.mp hset
    obtain ⟨hothers, hown⟩ := h.setRules hfree fun r => pbrSetRules_live (r := r) hloop
    have hpe : ∀ pe ∈ s.pbr.pbr_entry, pe.ltt_index ≠ rowAt k :=
      fun pe hpe heq => hfree (heq ▸ h.policies pe hpe)
    have hothers' : ∀ ix' ∉ s.stale, ix' ≠ rowAt k →
        ({ s with rows := rows, acl := acl, taken := s.taken ++ [rowAt k] } : PolicyUnit).Apart ix' :=
      fun ix' hstale hne => (hothers ix' hstale hne).mono (fun _ hr _ => hr)
        (fun pe hpe heq => ⟨pe, hpe, heq, rfl⟩) (List.mem_append_left _)
    cases ended with
    | done =>
      obtain ⟨-, rfl⟩ := Prod.mk.inj (Option.some_inj.mp hset)
      have hlease := s.pbr.pbrRouteSet_lease env (rowAt k) a.nextHop a.vid a.interface junk
      dsimp only
      generalize (s.pbr.pbrRouteSet env (rowAt k) a.nextHop a.vid a.interface junk).2 =
        pbr at hlease ⊢
      -- a policy is one of those before, or it is that of the request
      have hsplit : ∀ pe ∈ pbr.pbr_entry, (∃ pe' ∈ s.pbr.pbr_entry, pe'.lease = pe.lease) ∨
          pe.lease = (rowAt k, a.interface) := by
        intro pe hpe
        have hmem : pe.lease ∈ s.pbr.pbr_entry.map PbrEntry.lease ++ [(rowAt k, a.interface)] := by
          rcases hlease with hlease | hlease
          · exact List.mem_append_left _ (hlease ▸ List.mem_map_of_mem hpe)
          · exact hlease ▸ List.mem_map_of_mem hpe
        rcases List.mem_append.mp hmem with hold | hnew
        · exact Or.inl (List.mem_map.mp hold)
        · exact Or.inr (List.mem_singleton.mp hnew)
      refine ⟨⟨_, hrows⟩, fun pe hpe' => ?_, ?_, fun ix' hstale => ?_⟩
      · rcases hsplit pe hpe' with ⟨pe', hmem, heq⟩ | heq
        · have hrow : pe'.ltt_index = pe.ltt_index := congrArg Prod.fst heq
          exact List.mem_append_left _ (hrow ▸ h.policies pe' hmem)
        · exact List.mem_append_right _ (List.mem_singleton.mpr (congrArg Prod.fst heq))
      · have hfst : ∀ t : List PbrEntry,
            t.map PbrEntry.ltt_index = (t.map PbrEntry.lease).map Prod.fst := by
          intro t
          rw [List.map_map]
          rfl
        have hunique := h.unique
        unfold Keyed.Unique at hunique ⊢
        rw [hfst] at hunique ⊢
        rcases hlease with hlease | hlease
        · exact hlease ▸ hunique
        · rw [hlease, List.map_append, List.nodup_append]
          refine ⟨hunique, List.nodup_singleton _, fun ix hix ix' hix' heq => ?_⟩
          obtain ⟨pe, hmem, rfl⟩ := List.mem_map.mp (hfst _ ▸ hix)
          exact hpe pe hmem (heq.trans (List.mem_singleton.mp hix'))
      · by_cases hne : ix' = rowAt k
        · subst hne
          intro r hr hrow
          have hif := (hown hstale r hr hrow).2
          refine ⟨by simp, fun r' hr' hrow' => (hown hstale r' hr' hrow').2.trans hif.symm,
            fun pe hpe' heq => ?_⟩
          rcases hsplit pe hpe' with ⟨pe', hmem, hpe''⟩ | hpe''
          · exact absurd ((congrArg Prod.fst hpe'').trans heq) (hpe pe' hmem)
          · exact (congrArg Prod.snd hpe'').trans hif.symm
        · refine (hothers' ix' hstale hne).mono (fun _ hr _ => hr) (fun pe hpe' heq => ?_) id
          rcases hsplit pe hpe' with ⟨pe', hmem, hpe''⟩ | hpe''
          · exact ⟨pe', hmem, (congrArg Prod.fst hpe'').trans heq, congrArg Prod.snd hpe''⟩
          · exact absurd (heq.symm.trans (congrArg Prod.fst hpe'')) hne
    | out st' =>
      obtain ⟨-, rfl⟩ := Prod.mk.inj (Option.some_inj.mp hset)
      refine ⟨⟨_, hrows⟩, fun pe hpe => List.mem_append_left _ (h.policies pe hpe),
        h.unique, fun ix' hstale => ?_⟩
      by_cases hne : ix' = rowAt k
      · subst hne
        intro r hr hrow
        refine ⟨by simp, fun r' hr' hrow' => ?_, fun pe hpe' heq => absurd heq (hpe pe hpe')⟩
        exact (hown hstale r' hr' hrow').2.trans (hown hstale r hr hrow).2.symm
      · exact hothers' ix' hstale hne
    | del st' =>
      obtain ⟨rows', cells', hdel, hrows'⟩ := hrows.del
        (List.mem_append_right s.taken (List.mem_singleton_self (rowAt k)))
      have herase : (s.taken ++ [rowAt k]).erase (rowAt k) = s.taken := by
        rw [List.erase_append_right _ hfree, List.erase_cons_head, List.append_nil]
      rw [herase] at hrows'
      simp only [hdel, herase, Option.bind_some, Option.some.injEq] at hset
      obtain ⟨-, rfl⟩ := Prod.mk.inj hset
      refine ⟨⟨_, hrows'⟩, h.policies, h.unique, fun ix' hstale => ?_⟩
      dsimp only at hstale
      by_cases hne : ix' = rowAt k
      · -- the row is not stale: no rule that redirects to it got an index
        subst hne
        split_ifs at hstale with hbound
        · exact absurd List.mem_cons_self hstale
        · exact fun r hr hrow => absurd (hown hstale r hr hrow).1 hbound
      · refine hothers ix' (fun hmem => hstale ?_) hne
        split_ifs
        · exact List.mem_cons_of_mem _ hmem
        · exact hmem

/-- A policy goes, with rules of its interface. -/
theorem Leased.pbrReset (h : s.Leased)
    {args : Except Status (PclInterface × PclDest × PclActionType)} {st : Status}
    (hreset : s.pbrReset c args = some (st, s')) : s'.Leased := by
  cases args with
  | error st' =>
    obtain ⟨-, rfl⟩ := Prod.mk.inj (Option.some_inj.mp hreset)
    exact h
  | ok args =>
    obtain ⟨interface, dest, action_type⟩ := args
    obtain ⟨acl, hacl, heq⟩ := Option.bind_eq_some_iff.mp hreset
    obtain ⟨-, rfl⟩ := Prod.mk.inj (Option.some_inj.mp heq)
    have hlive : ∀ r, acl.Live r → s.acl.Live r := by
      intro r hr
      refine (AclLog.step_live hacl hr).resolve_right ?_
      rintro ⟨x, hx, -⟩
      exact absurd hx (Option.not_mem_none _)
    have hsub : (s.pbr.pbrRouteUnset interface).2.pbr_entry.Sublist s.pbr.pbr_entry := by
      unfold PbrRouter.pbrRouteUnset
      cases Keyed.find PbrEntry.interface s.pbr.pbr_entry interface with
      | none => exact List.Sublist.refl _
      | some pe => exact List.eraseP_sublist
    refine ⟨h.rows, fun pe hpe => h.policies pe (hsub.subset hpe),
      h.unique.sublist (hsub.map PbrEntry.ltt_index), fun ix hix => ?_⟩
    exact (h.apart ix hix).mono (fun r hr _ => hlive r hr)
      (fun pe hpe heq => ⟨pe, hsub.subset hpe, heq, rfl⟩) id

theorem Leased.step (h : s.Leased) {op : PolicyOp} (hok : PolicyOk s op)
    (hstep : s.step c env op = some s') : s'.Leased := by
  cases op with
  | set add junk args =>
    obtain ⟨⟨st, t⟩, hset, rfl⟩ := Option.map_eq_some_iff.mp hstep
    exact h.pbrSet hok.1 hok.2 hset
  | reset args =>
    obtain ⟨⟨st, t⟩, hreset, rfl⟩ := Option.map_eq_some_iff.mp hstep
    exact h.pbrReset hreset
  | acl op =>
    obtain ⟨acl, hacl, rfl⟩ := Option.map_eq_some_iff.mp hstep
    refine ⟨h.rows, h.policies, h.unique, fun ix hix => ?_⟩
    refine (h.apart ix hix).mono (fun r hr hrow => ?_) (fun pe hpe heq => ⟨pe, hpe, heq, rfl⟩) id
    refine (AclLog.step_live hacl hr).resolve_right ?_
    rintro ⟨x, hx, hargs⟩
    rw [hargs, hok x hx] at hrow
    exact Option.some_ne_none ix hrow.symm
  | gw op =>
    obtain ⟨router, -, rfl⟩ := Option.map_eq_some_iff.mp hstep
    exact ⟨h.rows, h.policies, h.unique, h.apart⟩

/-- In every run, whichever requests fail and wherever: the list holds the rows that were handed out
and not given back; no two policies have the same row; and the rules that redirect to a row are for
one interface, that of the policy with the row if there is one, unless the row was given back while
rules redirected to it. A row that is taken can be given back. The row of the next request is the
lowest that is free: no policy has it, and no rules redirect to it, but for such a row. -/
theorem rows_leased {router : Router} (hr : Reach (step c env) PolicyOk (start c router) s) :
    s.Leased ∧ (∀ ix ∈ s.taken, ∃ rows, s.rows.lttIndexDel ix = some rows) ∧
      ∀ add, s.rows.heap.data add = none → add ≠ Dlist.NULL →
      s.taken.length < ROWS → ∃ k rows, s.rows.lttIndexGet add = some (rowAt k, rows) ∧
        rowAt k ∉ s.taken ∧ (∀ j < k, rowAt j ∈ s.taken) ∧
        (∀ pe ∈ s.pbr.pbr_entry, pe.ltt_index ≠ rowAt k) ∧
        (rowAt k ∉ s.stale → ∀ r, s.acl.Live r → r.args.rule_action.row? ≠ some (rowAt k)) := by
  have h : s.Leased := hr.invariant Leased (.start router) fun _ _ _ h hok hstep => h.step hok hstep
  obtain ⟨cells, hcells⟩ := h.rows
  have hdel : ∀ ix ∈ s.taken, ∃ rows, s.rows.lttIndexDel ix = some rows := by
    intro ix hix
    obtain ⟨rows, _, hdel, -⟩ := hcells.del hix
    exact ⟨rows, hdel⟩
  refine ⟨h, hdel, fun add hadd hnull hlt => ?_⟩
  obtain ⟨k, -, hfree, hbelow, rows, hget, -⟩ := hcells.get hlt hadd hnull
  exact ⟨k, rows, hget, hfree, hbelow, fun pe hpe heq => hfree (heq ▸ h.policies pe hpe),
    fun hstale => (h.apart _ hstale).of_free hfree⟩

/-- A policy for a port. -/
def portPolicy (pid : ℕ) (rules : List PbrRule) : Except Status PbrSetArgs :=
  .ok ⟨⟨.PORT, pid⟩, .INGRESS, 1, 10, .POLICY_ROUTE, rules⟩

/-- The row of the second request is given back, and the third gets it. -/
def retriedRun : List PolicyOp :=
  [.set 8 (fun _ => 0) (portPolicy 1 [.ip [1] .PERMIT_PBR 1 (AclLog.tcpRange 80 80)]),
    .set 16 (fun _ => 0) (portPolicy 2 [.badAction]),
    .set 24 (fun _ => 0) (portPolicy 2 [.ip [2] .PERMIT_PBR 1 (AclLog.tcpRange 80 80), .unset]),
    .reset (.ok (⟨.PORT, 1⟩, .INGRESS, .POLICY_ROUTE))]

theorem rows_leased_retriedRun : ∃ s : PolicyUnit,
    s.pbr.pbr_entry.map PbrEntry.lease = [(⟨1206, 0⟩, ⟨.PORT, 2⟩)] ∧
      s.taken = [⟨1205, 0⟩, ⟨1206, 0⟩] ∧ s.stale = [] ∧ s.Leased := by
  have hrun : (run (step AclLog.twoPorts .onePort) PolicyOk (start AclLog.twoPorts .blank)
      retriedRun).map (fun s => (s.pbr.pbr_entry.map PbrEntry.lease, s.taken, s.stale)) =
        some ([(⟨1206, 0⟩, ⟨.PORT, 2⟩)], [⟨1205, 0⟩, ⟨1206, 0⟩], []) := by
    decide +kernel
  obtain ⟨s, hs, hprobe⟩ := Option.map_eq_some_iff.mp hrun
  obtain ⟨hlease, hprobe⟩ := Prod.mk.inj hprobe
  obtain ⟨htaken, hstale⟩ := Prod.mk.inj hprobe
  exact ⟨s, hlease, htaken, hstale, (rows_leased (Reach.init.of_run hs)).1⟩

end PolicyUnit

end Presteramgr
