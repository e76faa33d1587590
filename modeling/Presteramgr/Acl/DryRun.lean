import Presteramgr.Acl.ComparatorsRun
import Presteramgr.Lib.Lockstep

/-!
# Dry runs (`pcl_set_fake_mode_enabled` in `pcl.c`)

Requests are tried in fake mode on a copy of the tables before they are carried out. The counters of
rules are cleared in either mode.

## Main definitions

* `PclCall`, `CountedPcl.call`: the calls with the values that they return, and the counters;
* `CountedPcl.DryOk`: when a call in fake mode is faithful;
* `AclState.PoolsLast`: no pool runs out in a call.

## Main results

* `CountedPcl.dry_run_faithful`: a dry run of such calls returns what the calls would return, and
  leaves the tables, the hardware and the counters as they are.
-/

namespace Presteramgr

open Function (update)

/-- A call that can be tried. -/
inductive PclCall
  | ipRuleSet (a : RuleArgs) (rule : IpPclRule)
  | macRuleSet (a : RuleArgs) (rule : MacPclRule)
  | ipv6RuleSet (a : RuleArgs) (rule : Ipv6PclRule)
  | resetRules (interface : PclInterface) (dest : PclDest) (action_type : PclActionType)
deriving DecidableEq, Repr

namespace PclCall

/-- A call as an operation of the unit. -/
def op : PclCall → PclOp
  | .ipRuleSet a rule => .ipRuleSet a rule
  | .macRuleSet a rule => .macRuleSet a rule
  | .ipv6RuleSet a rule => .ipv6RuleSet a rule
  | .resetRules interface dest action_type => .resetRules interface dest action_type

/-- The interface of a call. -/
def interface : PclCall → PclInterface
  | .ipRuleSet a _ => a.interface
  | .macRuleSet a _ => a.interface
  | .ipv6RuleSet a _ => a.interface
  | .resetRules interface _ _ => interface

end PclCall

namespace AclState

variable (c : AclConf) (fake : Bool) (s : AclState)

/-- A call with the value that it returns, which `pcl_reset_rules` does not. -/
def call : PclCall → Option (Option Status × AclState)
  | .ipRuleSet a rule => (s.pclIpRuleSet c fake a rule).map fun (r, t) => (some r.status, t)
  | .macRuleSet a rule => (s.pclMacRuleSet c fake a rule).map fun (r, t) => (some r.status, t)
  | .ipv6RuleSet a rule => (s.pclIpv6RuleSet c fake a rule).map fun (r, t) => (some r.status, t)
  | .resetRules interface dest action_type =>
    (s.pclResetRules c fake interface dest action_type).map fun t => (none, t)

/-- The value of `block` in `pcl_reset_rules`, where it comes to the loop. -/
def resetBlock (interface : PclInterface) : Option ℕ :=
  match interface.type with
  | .VLAN => some 1
  | .PORT => some 0
  | .other _ => none

/-- The calls of `cpssDxChCncCounterSet` of a call. They are made in either mode. -/
def clearCounters (counters : ℕ → ℕ → ℕ → ℕ) : PclCall → ℕ → ℕ → ℕ → ℕ
  | .resetRules interface dest action_type => fun d block ix =>
    if d < c.NDEVS ∧ resetBlock interface = some block ∧
        ix ∈ PclDev.clearedIxs fake interface dest action_type
          ((s.acl.devs d).bindings.map RuleBinding.key) (s.dev d) then 0
    else counters d block ix
  | _ => counters

end AclState

/-- The unit with the counters of rules, by the device, the block and the index. -/
structure CountedPcl where
  pcl : Pcl
  counters : ℕ → ℕ → ℕ → ℕ

namespace CountedPcl

variable (c : AclConf) (u : CountedPcl)

/-- `pcl_set_fake_mode_enabled`. -/
def setFakeMode (enable : Bool) : CountedPcl := { u with pcl := u.pcl.pclSetFakeModeEnabled enable }

/-- A call on the tables in use, with the value that it returns. -/
def call (x : PclCall) : Option (Option Status × CountedPcl) :=
  (u.pcl.curr.call c u.pcl.user_acl_fake_mode x).map fun (status, t) =>
    (status, ⟨u.pcl.setCurr t, u.pcl.curr.clearCounters c u.pcl.user_acl_fake_mode u.counters x⟩)

/-- The calls of a list, one after the other. -/
def calls (xs : List PclCall) : Option (List (Option Status) × CountedPcl) :=
  Lockstep.outputs (call c) xs u

end CountedPcl

/-! ### Conditions -/

namespace AclState

variable (c : AclConf) (s : AclState)

/-- Setting a rule is tried faithfully: where the rule gets an index and its comparators on the
first device, the checks that are not made in fake mode have nothing to say against it. -/
def SetDryOk (a : RuleArgs) (p : RuleParams) : Prop :=
  ∀ d ∈ (s.ruleDevs c a).head?, (s.dev d).Takes a p → a.Known p

instance (a : RuleArgs) (p : RuleParams) : Decidable (s.SetDryOk c a p) :=
  inferInstanceAs (Decidable (∀ d ∈ (s.ruleDevs c a).head?, (s.dev d).Takes a p → a.Known p))

/-- No pool runs out when a rule is set: there is a PCL id for a VLAN, and an index with comparators
on each device. -/
def SetPoolsLast (a : RuleArgs) (p : RuleParams) : Prop :=
  (a.interface.type = .VLAN → ¬(s.acl.vlan_ipcl_id a.interface.num = 0 ∧ s.acl.pcl_ids = [])) ∧
    ∀ d ∈ s.ruleDevs c a, (s.dev d).Takes a p

/-- No pool runs out in a call. -/
def PoolsLast : PclCall → Prop
  | .ipRuleSet a rule => s.SetPoolsLast c a (.ip rule)
  | .macRuleSet a rule => s.SetPoolsLast c a (.mac rule)
  | .ipv6RuleSet a rule => s.SetPoolsLast c a (.ipv6 rule)
  | .resetRules _ _ _ => True

end AclState

namespace CountedPcl

variable (c : AclConf) (u : CountedPcl)

/-- An interface is reset faithfully: the counters are zero up to the index of each rule that
goes. -/
def ResetDryOk (interface : PclInterface) (dest : PclDest) (action_type : PclActionType) : Prop :=
  ∀ d < c.NDEVS, ∀ bind ∈ (u.pcl.curr.acl.devs d).bindings,
    PclDev.resets interface dest action_type bind.key = true →
      ∀ block ∈ AclState.resetBlock interface, ∀ ix ≤ bind.rule_ix, u.counters d block ix = 0

instance (interface : PclInterface) (dest : PclDest) (action_type : PclActionType) :
    Decidable (u.ResetDryOk c interface dest action_type) :=
  inferInstanceAs (Decidable (∀ d < c.NDEVS, ∀ bind ∈ (u.pcl.curr.acl.devs d).bindings, _ = true →
    ∀ block ∈ AclState.resetBlock interface, ∀ ix ≤ bind.rule_ix, u.counters d block ix = 0))

/-- A call is tried faithfully. -/
def DryOk : PclCall → Prop
  | .ipRuleSet a rule => u.pcl.curr.SetDryOk c a (.ip rule)
  | .macRuleSet a rule => u.pcl.curr.SetDryOk c a (.mac rule)
  | .ipv6RuleSet a rule => u.pcl.curr.SetDryOk c a (.ipv6 rule)
  | .resetRules interface dest action_type => u.ResetDryOk c interface dest action_type

instance (x : PclCall) : Decidable (u.DryOk c x) :=
  match x with
  | .ipRuleSet a rule => inferInstanceAs (Decidable (u.pcl.curr.SetDryOk c a (.ip rule)))
  | .macRuleSet a rule => inferInstanceAs (Decidable (u.pcl.curr.SetDryOk c a (.mac rule)))
  | .ipv6RuleSet a rule => inferInstanceAs (Decidable (u.pcl.curr.SetDryOk c a (.ipv6 rule)))
  | .resetRules interface dest action_type =>
    inferInstanceAs (Decidable (u.ResetDryOk c interface dest action_type))

/-- The copy of `vlan_ipcl_id` that a dry run starts with is right for the VLAN of a call. -/
def CopiesVlan (x : PclCall) : Prop :=
  x.interface.type = .VLAN →
    copyVlanIpclId u.pcl.user_acl.vlan_ipcl_id u.pcl.user_acl_fake.vlan_ipcl_id x.interface.num =
      u.pcl.user_acl.vlan_ipcl_id x.interface.num

instance (x : PclCall) : Decidable (u.CopiesVlan x) := inferInstanceAs (Decidable (_ → _ = _))

end CountedPcl

/-! ### Two runs -/

namespace AclState

variable {c : AclConf} {f r : AclState}

/-- Tables on which calls are tried, with those that they were copied from after the same calls. The
PCL ids of VLANs are the same for the VLANs in `V`. -/
structure Shadows (V : ℕ → Prop) (f r : AclState) : Prop where
  devs : ∀ d, (f.acl.devs d).Alike (r.acl.devs d)
  pcl_ids : f.acl.pcl_ids = r.acl.pcl_ids
  vlan_ipcl_id : ∀ vid, V vid → f.acl.vlan_ipcl_id vid = r.acl.vlan_ipcl_id vid

variable {V : ℕ → Prop}

namespace Shadows

/-- A shadow stays one when a device changes alike in both. -/
theorem setDev (h : f.Shadows V r) (d : ℕ) {dev dev' : PclDev} (hdev : dev.sw.Alike dev'.sw) :
    (f.setDev d dev).Shadows V (r.setDev d dev') where
  devs := by
    intro d'
    by_cases hd : d' = d
    · subst hd
      have hf : (f.setDev d' dev).acl.devs d' = dev.sw := Function.update_self _ _ _
      have hr : (r.setDev d' dev').acl.devs d' = dev'.sw := Function.update_self _ _ _
      rw [hf, hr]
      exact hdev
    · have hf : (f.setDev d dev).acl.devs d' = f.acl.devs d' := Function.update_of_ne hd _ _
      have hr : (r.setDev d dev').acl.devs d' = r.acl.devs d' := Function.update_of_ne hd _ _
      rw [hf, hr]
      exact h.devs d'
  pcl_ids := h.pcl_ids
  vlan_ipcl_id := h.vlan_ipcl_id

/-- Setting a rule on the devices gives the same status in a dry run. -/
theorem ruleSetDevs {a : RuleArgs} {p : RuleParams} {pcl_id pcl_id' : ℕ} {ds : List ℕ}
    (h : f.Shadows V r) (hok : ∀ d ∈ ds.head?, (f.dev d).Takes a p → a.Known p) :
    (AclState.ruleSetDevs true a p pcl_id ds f).1.status =
        (AclState.ruleSetDevs false a p pcl_id' ds r).1.status ∧
      (AclState.ruleSetDevs true a p pcl_id ds f).2.Shadows V
        (AclState.ruleSetDevs false a p pcl_id' ds r).2 := by
  induction ds generalizing f r with
  | nil => exact ⟨rfl, h⟩
  | cons d ds ih =>
    have hknown : ((f.dev d).ruleSet true a p pcl_id).1.status = .ST_OK → a.Known p :=
      fun hst => hok d rfl (PclDev.ruleSet_takes hst)
    obtain ⟨hst, halike⟩ := PclDev.ruleSet_alike (s := f.dev d) (t := r.dev d) pcl_id pcl_id'
      (h.devs d) hknown
    rw [ruleSetDevs_cons, ruleSetDevs_cons, ← hst]
    by_cases hfail : ((f.dev d).ruleSet true a p pcl_id).1.status ≠ .ST_OK
    · rw [if_pos hfail, if_pos hfail]
      exact ⟨rfl, h.setDev d halike⟩
    · rw [if_neg hfail, if_neg hfail]
      exact ih (h.setDev d halike) fun _ _ _ => hknown (not_ne_iff.mp hfail)

/-- Two maps that agree agree after the same update. -/
theorem update_agree {ids ids' : ℕ → ℕ} (h : ∀ vid, V vid → ids vid = ids' vid) (vid pcl_id : ℕ) :
    ∀ vid', V vid' → update ids vid pcl_id vid' = update ids' vid pcl_id vid' := by
  intro vid' hvid'
  rw [Function.update_apply, Function.update_apply, h vid' hvid']

/-- A VLAN gets a list of rules in a dry run when it gets one. -/
theorem pclAddVlanPclId (h : f.Shadows V r) {vid : ℕ} (hvid : V vid) :
    Lockstep.Same (Shadows V) (f.pclAddVlanPclId true vid) (r.pclAddVlanPclId false vid) := by
  unfold AclState.pclAddVlanPclId
  rw [h.vlan_ipcl_id vid hvid, h.pcl_ids]
  by_cases hcount : VLAN_IPCL_ID_COUNT ≤ vid
  · rw [if_pos hcount, if_pos hcount]
    exact .none
  rw [if_neg hcount, if_neg hcount]
  by_cases hid : r.acl.vlan_ipcl_id vid ≠ 0
  · rw [if_pos hid, if_pos hid]
    exact .answer h
  rw [if_neg hid, if_neg hid]
  cases r.acl.pcl_ids with
  | nil => exact .answer h
  | cons pcl_id pcl_ids =>
    exact .answer ⟨h.devs, rfl, update_agree h.vlan_ipcl_id vid pcl_id⟩

/-- A rule goes to the same devices in a dry run. -/
theorem ruleTargets (h : f.Shadows V r) {a : RuleArgs}
    (hvid : a.interface.type = .VLAN → V a.interface.num) :
    Option.Rel (fun x y => x.1.map Prod.snd = y.1.map Prod.snd ∧ x.2.Shadows V y.2)
      (f.ruleTargets c true a) (r.ruleTargets c false a) := by
  unfold AclState.ruleTargets
  by_cases hname : NAME_SZ < a.name.length
  · rw [if_pos hname, if_pos hname]
    exact .some ⟨rfl, h⟩
  rw [if_neg hname, if_neg hname]
  cases htype : a.interface.type with
  | VLAN =>
    have hadd := h.pclAddVlanPclId (hvid htype)
    dsimp only
    revert hadd
    generalize f.pclAddVlanPclId true a.interface.num = x
    generalize r.pclAddVlanPclId false a.interface.num = y
    intro hadd
    cases hadd with
    | none => exact .none
    | @some x y hxy =>
      refine .some ⟨?_, hxy.2⟩
      dsimp only
      rw [hxy.1]
      split_ifs <;> rfl
  | PORT =>
    dsimp only
    cases c.getPortPtr a.interface.num with
    | none => exact .some ⟨rfl, h⟩
    | some port => cases a.dest <;> exact .some ⟨rfl, h⟩
  | other n => exact .some ⟨rfl, h⟩

/-- A rule is set on both sides. -/
theorem pclRuleSet (h : f.Shadows V r) {a : RuleArgs} {p : RuleParams}
    (hvid : a.interface.type = .VLAN → V a.interface.num) (hok : f.SetDryOk c a p) :
    Option.Rel (fun x y => x.1.status = y.1.status ∧ x.2.Shadows V y.2)
      (f.pclRuleSet c true a p) (r.pclRuleSet c false a p) := by
  have htargets := h.ruleTargets (c := c) hvid
  have hspec (targets : Option (ℕ × List ℕ)) (t : AclState)
      (heq : f.ruleTargets c true a = some (targets, t)) := ruleTargets_spec heq
  rw [pclRuleSet_eq, pclRuleSet_eq]
  revert htargets hspec
  generalize f.ruleTargets c true a = x
  generalize r.ruleTargets c false a = y
  intro htargets hspec
  cases htargets with
  | none => exact .none
  | @some x y hxy =>
    obtain ⟨targets, t⟩ := x
    obtain ⟨targets', t'⟩ := y
    obtain ⟨htargets, ht⟩ := hxy
    obtain ⟨hdev, hds⟩ := hspec targets t rfl
    cases targets with
    | none =>
      cases targets' with
      | none => exact .some ⟨rfl, ht⟩
      | some _ => exact absurd htargets.symm (Option.some_ne_none _)
    | some x =>
      cases targets' with
      | none => exact absurd htargets (Option.some_ne_none _)
      | some y =>
        obtain ⟨pcl_id, ds⟩ := x
        obtain ⟨pcl_id', ds'⟩ := y
        obtain rfl : ds = ds' := Option.some_inj.mp htargets
        refine .some (ht.ruleSetDevs fun d hd => ?_)
        rw [hdev]
        exact hok d (hds _ _ rfl ▸ hd)

/-- An interface is reset on both sides. -/
theorem pclResetRules (h : f.Shadows V r) {interface : PclInterface} (dest : PclDest)
    (action_type : PclActionType) (hvid : interface.type = .VLAN → V interface.num) :
    Option.Rel (Shadows V) (f.pclResetRules c true interface dest action_type)
      (r.pclResetRules c false interface dest action_type) := by
  have hreset {f r : AclState} (h : f.Shadows V r) :
      (f.resetDevs c true interface dest action_type).Shadows V
        (r.resetDevs c false interface dest action_type) := by
    have hframe (fake : Bool) (s : AclState) :
        (s.resetDevs c fake interface dest action_type).acl.pcl_ids = s.acl.pcl_ids ∧
          (s.resetDevs c fake interface dest action_type).acl.vlan_ipcl_id = s.acl.vlan_ipcl_id :=
      ⟨(resetDevs_frame s).1, (resetDevs_frame s).2.1⟩
    refine ⟨fun d => ?_, by rw [(hframe _ _).1, (hframe _ _).1, h.pcl_ids], fun vid hvid => ?_⟩
    · have hdev (fake : Bool) (s : AclState) :
          (s.resetDevs c fake interface dest action_type).acl.devs d =
          (if d < c.NDEVS then (s.dev d).resetRules fake interface dest action_type else s.dev d).sw :=
        congrArg PclDev.sw (resetDevs_dev s d)
      rw [hdev, hdev]
      split_ifs
      · exact PclDev.resetRules_alike _ _ (h.devs d)
      · exact h.devs d
    · rw [(hframe _ _).2, (hframe _ _).2]
      exact h.vlan_ipcl_id vid hvid
  unfold AclState.pclResetRules
  cases htype : interface.type with
  | VLAN =>
    dsimp only
    split_ifs
    · exact .none
    · refine .some (hreset ⟨h.devs, ?_, update_agree h.vlan_ipcl_id _ 0⟩)
      exact congrArg₂ List.cons (h.vlan_ipcl_id _ (hvid htype)) h.pcl_ids
  | PORT => exact .some (hreset h)
  | other n => exact .some h

end Shadows

/-! ### The hardware in fake mode -/

/-- A device whose hardware is as it was leaves that of the unit alone. -/
theorem setDev_hw {s : AclState} {d : ℕ} {dev : PclDev} (h : dev.hw = (s.dev d).hw) :
    (s.setDev d dev).hw = s.hw := by
  unfold setDev
  rw [h]
  exact congrArg (fun devs => { s.hw with devs := devs }) (Function.update_eq_self _ _)

/-- Setting a rule in a dry run writes nothing. -/
theorem ruleSetDevs_hw (a : RuleArgs) (p : RuleParams) (pcl_id : ℕ) (ds : List ℕ) (s : AclState) :
    (ruleSetDevs true a p pcl_id ds s).2.hw = s.hw := by
  induction ds generalizing s with
  | nil => rfl
  | cons d ds ih =>
    have hdev : (s.setDev d ((s.dev d).ruleSet true a p pcl_id).2).hw = s.hw :=
      setDev_hw (PclDev.ruleSet_fake rfl)
    rw [ruleSetDevs_cons]
    split_ifs
    · exact hdev
    · exact (ih _).trans hdev

/-- A list of rules for a VLAN is not written in a dry run. -/
theorem pclAddVlanPclId_hw {s : AclState} {vid : ℕ} {r : Status × AclState}
    (h : s.pclAddVlanPclId true vid = some r) : r.2.hw = s.hw := by
  unfold pclAddVlanPclId at h
  by_cases hvid : VLAN_IPCL_ID_COUNT ≤ vid
  · rw [if_pos hvid] at h
    exact absurd h (Option.some_ne_none _).symm
  rw [if_neg hvid] at h
  by_cases hid : s.acl.vlan_ipcl_id vid ≠ 0
  · rw [if_pos hid] at h
    exact Option.some_inj.mp h ▸ rfl
  rw [if_neg hid] at h
  cases hids : s.acl.pcl_ids with
  | nil =>
    rw [hids] at h
    exact Option.some_inj.mp h ▸ rfl
  | cons id ids =>
    rw [hids] at h
    exact Option.some_inj.mp h ▸ rfl

/-- A reset in a dry run writes nothing. -/
theorem resetDevs_hw (s : AclState) (interface : PclInterface) (dest : PclDest)
    (action_type : PclActionType) : (s.resetDevs c true interface dest action_type).hw = s.hw := by
  refine Sweep.sweep_invariant (fun t : AclState => t.hw = s.hw) rfl fun t d _ h => ?_
  exact (setDev_hw (PclDev.resetRules_fake _)).trans h

/-- Finding the devices of a rule in a dry run writes nothing. -/
theorem ruleTargets_hw {s : AclState} {a : RuleArgs} {r : Option (ℕ × List ℕ) × AclState}
    (h : s.ruleTargets c true a = some r) : r.2.hw = s.hw := by
  unfold ruleTargets at h
  by_cases hname : NAME_SZ < a.name.length
  · rw [if_pos hname] at h
    exact Option.some_inj.mp h ▸ rfl
  rw [if_neg hname] at h
  cases htype : a.interface.type with
  | VLAN =>
    rw [htype] at h
    obtain ⟨x, hadd, rfl⟩ := Option.map_eq_some_iff.mp h
    exact pclAddVlanPclId_hw hadd
  | PORT =>
    rw [htype] at h
    dsimp only at h
    cases hport : c.getPortPtr a.interface.num with
    | none =>
      rw [hport] at h
      exact Option.some_inj.mp h ▸ rfl
    | some port =>
      rw [hport] at h
      cases hdest : a.dest <;> rw [hdest] at h <;> exact Option.some_inj.mp h ▸ rfl
  | other n =>
    rw [htype] at h
    exact Option.some_inj.mp h ▸ rfl

/-- `pcl_rule_set` in a dry run writes nothing. -/
theorem pclRuleSet_hw {s : AclState} {a : RuleArgs} {p : RuleParams} {r : Report × AclState}
    (h : s.pclRuleSet c true a p = some r) : r.2.hw = s.hw := by
  rw [pclRuleSet_eq] at h
  obtain ⟨⟨targets, s₁⟩, htargets, rfl⟩ := Option.map_eq_some_iff.mp h
  have hs₁ := ruleTargets_hw htargets
  cases targets with
  | none => exact hs₁
  | some x => exact (ruleSetDevs_hw a p x.1 x.2 s₁).trans hs₁

/-- In fake mode no call changes the hardware. -/
theorem call_hw {s t : AclState} {x : PclCall} {status : Option Status}
    (h : s.call c true x = some (status, t)) : t.hw = s.hw := by
  cases x with
  | resetRules interface dest action_type =>
    obtain ⟨t', hreset, heq⟩ := Option.map_eq_some_iff.mp h
    obtain ⟨-, rfl⟩ := Prod.mk.inj heq
    unfold pclResetRules at hreset
    cases htype : interface.type with
    | VLAN =>
      rw [htype] at hreset
      dsimp only at hreset
      split_ifs at hreset
      obtain rfl := Option.some_inj.mp hreset
      exact resetDevs_hw (s.freeVlanPclId interface.num) interface dest action_type
    | PORT =>
      rw [htype] at hreset
      obtain rfl := Option.some_inj.mp hreset
      exact resetDevs_hw s interface dest action_type
    | other n =>
      rw [htype] at hreset
      obtain rfl := Option.some_inj.mp hreset
      rfl
  | _ =>
    obtain ⟨r, hr, heq⟩ := Option.map_eq_some_iff.mp h
    obtain ⟨-, rfl⟩ := Prod.mk.inj heq
    exact pclRuleSet_hw hr

/-! ### Pools -/

/-- Devices that take the rule one by one take it before the call. -/
theorem takes_of_ruleSetDevs {fake : Bool} {a : RuleArgs} {p : RuleParams} {pcl_id : ℕ}
    {ds : List ℕ} {s : AclState} (hds : ds.Nodup)
    (h : (ruleSetDevs fake a p pcl_id ds s).1.status = .ST_OK) : ∀ d ∈ ds, (s.dev d).Takes a p := by
  induction ds generalizing s with
  | nil => exact fun d hd => absurd hd List.not_mem_nil
  | cons d ds ih =>
    obtain ⟨hd, hnodup⟩ := List.nodup_cons.mp hds
    rw [ruleSetDevs_cons] at h
    by_cases hfail : ((s.dev d).ruleSet fake a p pcl_id).1.status ≠ .ST_OK
    · rw [if_pos hfail] at h
      exact absurd h hfail
    · rw [if_neg hfail] at h
      intro d' hd'
      rcases List.mem_cons.mp hd' with rfl | hd'
      · exact PclDev.ruleSet_takes (not_ne_iff.mp hfail)
      · have hne : d' ≠ d := fun heq => hd (heq ▸ hd')
        have htakes := ih hnodup h d' hd'
        rwa [dev_setDev, if_neg hne] at htakes

/-- A rule that is set found everything that it needed. -/
theorem setPoolsLast_of_pclRuleSet {fake : Bool} {s t : AclState} {a : RuleArgs} {p : RuleParams}
    {r : Report} (h : s.pclRuleSet c fake a p = some (r, t)) (hst : r.status = .ST_OK) :
    s.SetPoolsLast c a p := by
  rw [pclRuleSet_eq] at h
  obtain ⟨⟨targets, s₁⟩, htargets, h⟩ := Option.map_eq_some_iff.mp h
  obtain ⟨hdev, hds⟩ := ruleTargets_spec htargets
  cases targets with
  | none =>
    obtain ⟨rfl, -⟩ := Prod.mk.inj h
    exact absurd hst Status.noConfusion
  | some x =>
    obtain ⟨pcl_id, ds⟩ := x
    obtain rfl := hds pcl_id ds rfl
    refine ⟨fun hvlan => ?_, fun d hd => ?_⟩
    · unfold ruleTargets at htargets
      rw [hvlan] at htargets
      split_ifs at htargets
      · exact absurd (Prod.mk.inj (Option.some_inj.mp htargets)).1.symm (Option.some_ne_none _)
      · obtain ⟨⟨status, s₂⟩, hadd, heq⟩ := Option.map_eq_some_iff.mp htargets
        have hok := (Prod.mk.inj heq).1
        split_ifs at hok with hstatus
        obtain rfl := not_ne_iff.mp hstatus
        exact pclAddVlanPclId_ok hadd
    · have hrep : ruleSetDevs fake a p pcl_id (s.ruleDevs c a) s₁ = (r, t) := h
      have hok : (ruleSetDevs fake a p pcl_id (s.ruleDevs c a) s₁).1.status = .ST_OK := by
        rw [hrep]
        exact hst
      rw [← hdev]
      exact takes_of_ruleSetDevs (ruleDevs_nodup a) hok d hd

/-- In a call that is not refused no pool runs out. -/
theorem poolsLast_of_call {fake : Bool} {s t : AclState} {x : PclCall} {status : Option Status}
    (h : s.call c fake x = some (status, t)) (hst : status = none ∨ status = some .ST_OK) :
    s.PoolsLast c x := by
  have hset {a : RuleArgs} {p : RuleParams}
      (h : (s.pclRuleSet c fake a p).map (fun (r, t) => (some r.status, t)) = some (status, t)) :
      s.SetPoolsLast c a p := by
    obtain ⟨⟨r, t'⟩, hr, heq⟩ := Option.map_eq_some_iff.mp h
    obtain ⟨rfl, rfl⟩ := Prod.mk.inj heq
    rcases hst with hst | hst
    · exact absurd hst (Option.some_ne_none _)
    · exact setPoolsLast_of_pclRuleSet hr (Option.some_inj.mp hst)
  cases x with
  | ipRuleSet a rule => exact hset h
  | macRuleSet a rule => exact hset h
  | ipv6RuleSet a rule => exact hset h
  | resetRules => trivial

/-- A call is tried faithfully. -/
theorem Shadows.call {V : ℕ → Prop} {f r : AclState} (h : f.Shadows V r) {x : PclCall}
    (hvid : x.interface.type = .VLAN → V x.interface.num)
    (hok : ∀ a p, x.op.rule? = some (a, p) → f.SetDryOk c a p) :
    Lockstep.Same (Shadows V) (f.call c true x) (r.call c false x) := by
  have hset {a : RuleArgs} {p : RuleParams} (hvid : a.interface.type = .VLAN → V a.interface.num)
      (hok : f.SetDryOk c a p) :
      Lockstep.Same (Shadows V) ((f.pclRuleSet c true a p).map fun (r, t) => (some r.status, t))
        ((r.pclRuleSet c false a p).map fun (r, t) => (some r.status, t)) :=
    .map (h.pclRuleSet hvid hok) fun _ _ hxy => ⟨congrArg some hxy.1, hxy.2⟩
  cases x with
  | ipRuleSet a rule => exact hset hvid (hok _ _ rfl)
  | macRuleSet a rule => exact hset hvid (hok _ _ rfl)
  | ipv6RuleSet a rule => exact hset hvid (hok _ _ rfl)
  | resetRules interface dest action_type =>
    exact .map (h.pclResetRules dest action_type hvid) fun _ _ hxy => ⟨rfl, hxy⟩

end AclState

namespace Pcl

variable (s : Pcl) (t : AclState)

/-- The state that was made current is current. -/
@[simp]
theorem curr_setCurr : (s.setCurr t).curr = t := by
  unfold setCurr curr
  cases s.user_acl_fake_mode <;> simp

/-- Making a state current does not change the mode. -/
@[simp]
theorem setCurr_mode : (s.setCurr t).user_acl_fake_mode = s.user_acl_fake_mode := by
  unfold setCurr
  split_ifs <;> rfl

end Pcl

namespace CountedPcl

variable {c : AclConf} {u u' r : CountedPcl} {xs : List PclCall}

/-- A dry run next to a run. -/
structure Beside (V : ℕ → Prop) (u r : CountedPcl) : Prop where
  fake : u.pcl.user_acl_fake_mode = true
  real : r.pcl.user_acl_fake_mode = false
  shadows : u.pcl.curr.Shadows V r.pcl.curr

/-- A call next to itself. -/
theorem Beside.call {V : ℕ → Prop} (h : u.Beside V r) {x : PclCall}
    (hvid : x.interface.type = .VLAN → V x.interface.num) (hok : u.DryOk c x) :
    Lockstep.Same (Beside V) (u.call c x) (r.call c x) := by
  have hset : ∀ a p, x.op.rule? = some (a, p) → u.pcl.curr.SetDryOk c a p := by
    intro a p hrule
    cases x with
    | resetRules => exact absurd hrule.symm (Option.some_ne_none _)
    | _ =>
      obtain ⟨rfl, rfl⟩ := Prod.mk.inj (Option.some_inj.mp hrule)
      exact hok
  unfold CountedPcl.call
  rw [h.fake, h.real]
  refine .map (h.shadows.call hvid hset) fun y z hyz => ⟨hyz.1, ?_, ?_, ?_⟩
  · exact (Pcl.setCurr_mode _ _).trans h.fake
  · exact (Pcl.setCurr_mode _ _).trans h.real
  · rw [Pcl.curr_setCurr, Pcl.curr_setCurr]
    exact hyz.2

/-- A dry run returns what the calls return on the tables that it was started from. -/
theorem calls_same (hacl : r.pcl.user_acl = u.pcl.user_acl) (hcopy : ∀ x ∈ xs, u.CopiesVlan x)
    (hok : Lockstep.Ok (call c) (DryOk c) xs (u.setFakeMode true)) :
    ((u.setFakeMode true).calls c xs).map Prod.fst =
      ((r.setFakeMode false).calls c xs).map Prod.fst := by
  have hbeside : (u.setFakeMode true).Beside
      (fun vid => copyVlanIpclId u.pcl.user_acl.vlan_ipcl_id u.pcl.user_acl_fake.vlan_ipcl_id vid =
        u.pcl.user_acl.vlan_ipcl_id vid) (r.setFakeMode false) := by
    have hr : (r.setFakeMode false).pcl.curr.acl = u.pcl.user_acl := hacl
    refine ⟨rfl, rfl, fun d => ?_, ?_, fun vid hvid => ?_⟩ <;> rw [hr]
    · exact (u.pcl.user_acl.devs d).copy_alike
    · rfl
    · exact hvid
  exact (Lockstep.Same.outputs (fun u r x h hx hok => h.call (hcopy x hx) hok) hbeside hok).map_fst

/-- What a dry run leaves as it is. -/
structure Untouched (u u' : CountedPcl) : Prop where
  fake : u'.pcl.user_acl_fake_mode = true
  user_acl : u'.pcl.user_acl = u.pcl.user_acl
  hw : u'.pcl.hw = u.pcl.hw
  counters : u'.counters = u.counters

/-- A reset that is faithful finds the counters it clears at zero, so that nothing changes. -/
theorem clearCounters_eq {fake : Bool} {interface : PclInterface} {dest : PclDest}
    {action_type : PclActionType} (h : u.ResetDryOk c interface dest action_type) :
    u.pcl.curr.clearCounters c fake u.counters (.resetRules interface dest action_type) =
      u.counters := by
  funext d block ix
  unfold AclState.clearCounters
  dsimp only
  split_ifs with hclear
  · obtain ⟨hd, hblock, hix⟩ := hclear
    obtain ⟨bind, hbind, hres, hle⟩ := PclDev.clearedIxs_le hix
    exact (h d hd bind hbind hres block hblock ix hle).symm
  · rfl

/-- A call in a dry run leaves these things as they are. -/
theorem Untouched.call (h : u.Untouched u') {x : PclCall} (hok : u'.DryOk c x)
    {status : Option Status} {v : CountedPcl} (hcall : u'.call c x = some (status, v)) :
    u.Untouched v := by
  obtain ⟨⟨status', t⟩, ht, heq⟩ := Option.map_eq_some_iff.mp hcall
  obtain ⟨rfl, rfl⟩ := Prod.mk.inj heq
  rw [h.fake] at ht
  have hcurr : u'.pcl.setCurr t = { u'.pcl with user_acl_fake := t.acl, hw := t.hw } :=
    if_pos h.fake
  refine ⟨(Pcl.setCurr_mode _ _).trans h.fake, ?_, ?_, ?_⟩
  · dsimp only
    rw [hcurr]
    exact h.user_acl
  · dsimp only
    rw [hcurr]
    exact (AclState.call_hw ht).trans h.hw
  · refine Eq.trans ?_ h.counters
    cases x with
    | resetRules interface dest action_type => exact clearCounters_eq hok
    | _ => rfl

/-- A dry run is faithful: it returns what the calls would return, it leaves the tables, the
hardware and the counters as they are, and if it refuses nothing then no pool runs out when the
calls are made after it. -/
theorem dry_run_faithful (hcopy : ∀ x ∈ xs, u.CopiesVlan x)
    (hok : Lockstep.Ok (call c) (DryOk c) xs (u.setFakeMode true)) :
    ((u.setFakeMode true).calls c xs).map Prod.fst =
        ((u.setFakeMode false).calls c xs).map Prod.fst ∧
      ∀ statuses u', (u.setFakeMode true).calls c xs = some (statuses, u') →
        u'.pcl.user_acl = u.pcl.user_acl ∧ u'.pcl.hw = u.pcl.hw ∧ u'.counters = u.counters ∧
          ((∀ status ∈ statuses, status = none ∨ status = some .ST_OK) →
            Lockstep.Ok (call c) (fun r x => r.pcl.curr.PoolsLast c x) xs
                (u'.setFakeMode false)) := by
  refine ⟨calls_same rfl hcopy hok, fun statuses u' hrun => ?_⟩
  have huntouched : u.Untouched u' :=
    hok.invariant u.Untouched ⟨rfl, rfl, rfl, rfl⟩ (fun _ _ _ _ h hx hcall => h.call hx hcall) hrun
  refine ⟨huntouched.user_acl, huntouched.hw, huntouched.counters, fun haccepted => ?_⟩
  -- the calls return the same in the run that follows
  have hsame := calls_same huntouched.user_acl hcopy hok
  rw [hrun] at hsame
  obtain ⟨⟨statuses', v⟩, hreal, heq⟩ := Option.map_eq_some_iff.mp hsame.symm
  obtain rfl : statuses' = statuses := heq
  refine Lockstep.ok_of_outputs _ haccepted (fun r x status v hst hcall => ?_) hreal
  obtain ⟨⟨status', t⟩, ht, heq⟩ := Option.map_eq_some_iff.mp hcall
  obtain ⟨rfl, -⟩ := Prod.mk.inj heq
  exact AclState.poolsLast_of_call ht hst

/-- A unit with one device and two ports. -/
def twoPortUnit : CountedPcl := ⟨Pcl.init AclLog.twoPorts, fun _ _ _ => 0⟩

/-- Two rules of a VLAN, the second one twice, a wrong action for a name that is too long, and the
VLAN is reset. -/
def triedCalls : List PclCall :=
  [.ipRuleSet ⟨[1], .ACL, 1, ⟨.VLAN, 5⟩, .INGRESS, .PERMIT⟩ (AclLog.tcpRange 1000 2000),
    .macRuleSet ⟨[1], .ACL, 2, ⟨.VLAN, 5⟩, .INGRESS, .DENY⟩ AclLog.anyMac,
    .macRuleSet ⟨[1], .ACL, 2, ⟨.VLAN, 5⟩, .INGRESS, .DENY⟩ AclLog.anyMac,
    .macRuleSet ⟨List.replicate 33 1, .ACL, 2, ⟨.VLAN, 5⟩, .INGRESS, .other 9⟩ AclLog.anyMac,
    .resetRules ⟨.VLAN, 5⟩ .INGRESS .ACL]

/-- The calls of the example, carried out, return what they returned in the dry run. -/
theorem dry_run_faithful_triedCalls :
    ((twoPortUnit.setFakeMode false).calls AclLog.twoPorts triedCalls).map Prod.fst =
      some [some .ST_OK, some .ST_OK, some .ST_BAD_VALUE, some .ST_BAD_VALUE, none] := by
  have hdry : ((twoPortUnit.setFakeMode true).calls AclLog.twoPorts triedCalls).map Prod.fst =
      some [some .ST_OK, some .ST_OK, some .ST_BAD_VALUE, some .ST_BAD_VALUE, none] := by
    decide +kernel
  rw [← hdry]
  have hcopy : ∀ x ∈ triedCalls, twoPortUnit.CopiesVlan x := by decide +kernel
  have hok : Lockstep.Ok (call AclLog.twoPorts) (DryOk AclLog.twoPorts) triedCalls
      (twoPortUnit.setFakeMode true) := by decide +kernel
  exact (dry_run_faithful hcopy hok).1.symm

/-- The unit after a rule of port 1 that counts packets was set and has counted some. -/
def countedUnit : CountedPcl where
  pcl := ((twoPortUnit.call AclLog.twoPorts (.macRuleSet ⟨[1], .ACL, 1, ⟨.PORT, 1⟩, .INGRESS, .DENY⟩
    { AclLog.anyMac with trap_action := .LOG_INPUT })).map fun r => r.2.pcl).getD twoPortUnit.pcl
  counters := fun _ _ _ => 5

/-- A dry run is not faithful in general: when the rules of a port are removed in fake mode, the
counter of its rule is cleared. -/
theorem not_dry_run_faithful : ¬∀ (c : AclConf) (u : CountedPcl) (xs : List PclCall),
    ((u.setFakeMode true).calls c xs).map Prod.fst =
        ((u.setFakeMode false).calls c xs).map Prod.fst ∧
      ∀ statuses u', (u.setFakeMode true).calls c xs = some (statuses, u') →
        u'.pcl.user_acl = u.pcl.user_acl ∧ u'.pcl.hw = u.pcl.hw ∧ u'.counters = u.counters := by
  intro h
  have hcleared : ((countedUnit.setFakeMode true).calls AclLog.twoPorts
      [.resetRules ⟨.PORT, 1⟩ .INGRESS .ACL]).map (fun r => r.2.counters 0 0 366) = some 0 := by
    decide +kernel
  obtain ⟨r, hr, hzero⟩ := Option.map_eq_some_iff.mp hcleared
  obtain ⟨-, -, hcounters⟩ := (h AclLog.twoPorts countedUnit _).2 r.1 r.2 hr
  have hfive : (0 : ℕ) = 5 := by rw [← hzero, hcounters]; rfl
  exact absurd hfive (by decide)

end CountedPcl

end Presteramgr
