import Presteramgr.Acl.Placed
import Presteramgr.Lib.Guarded
import Presteramgr.Lib.Sweep

/-!
# Runs of ACL calls (`pcl.c`)

A record of the rules that were set and not removed goes with the state, and what a call does is
seen from one device.

## Main definitions

* `Ledger`: the rules of each device in the order in which they were set;
* `DevStep`: what a call does on one device;
* `AclLog`: the state with the record, `AclLog.step`: a call.

## Main results

* `AclLog.step_user`, `AclLog.step_fake`: a call on the tables in use, and on those for fake mode.
-/

namespace Presteramgr

open Function (update update_self update_of_ne)
open Zones (layout Numbers Holds)

/-- The rules of each device in the order in which they were set. -/
abbrev Ledger := ℕ → List LiveRule

/-- The arguments and the rule of a call that sets a rule. -/
def PclOp.rule? : PclOp → Option (RuleArgs × RuleParams)
  | .ipRuleSet a rule => some (a, .ip rule)
  | .macRuleSet a rule => some (a, .mac rule)
  | .ipv6RuleSet a rule => some (a, .ipv6 rule)
  | .resetRules _ _ _ => none
  | .setFakeModeEnabled _ => none

/-- What a call does on one device: nothing, it sets its rule, or it resets its interface. -/
inductive DevStep (fake : Bool) (op : PclOp) :
    PclDev → List LiveRule → PclDev → List LiveRule → Prop
  | same (dev : PclDev) (live : List LiveRule) : DevStep fake op dev live dev live
  | set (dev : PclDev) (live : List LiveRule) (a : RuleArgs) (p : RuleParams) (pcl_id : ℕ) :
      op.rule? = some (a, p) →
      DevStep fake op dev live (dev.ruleSet fake a p pcl_id).2
        (PclDev.logRule live a p (dev.ruleSet fake a p pcl_id).1)
  | reset (dev : PclDev) (live : List LiveRule) (interface : PclInterface) (dest : PclDest)
      (action_type : PclActionType) : op = .resetRules interface dest action_type →
      DevStep fake op dev live (dev.resetRules fake interface dest action_type)
        (PclDev.afterReset interface dest action_type live)

namespace DevStep

variable {fake : Bool} {op : PclOp} {dev dev' : PclDev} {live live' : List LiveRule}

/-- A step keeps the rules placed. -/
theorem placed (h : DevStep fake op dev live dev' live') (hp : dev.sw.Placed live) :
    dev'.sw.Placed live' := by
  cases h with
  | same => exact hp
  | set => exact PclDev.ruleSet_placed hp rfl
  | reset => exact PclDev.resetRules_placed hp

/-- A step that is no dry run keeps the rules installed. -/
theorem installed (h : DevStep false op dev live dev' live') (hp : dev.sw.Placed live)
    (hi : dev.Installed live) : dev'.Installed live' := by
  cases h with
  | same => exact hi
  | set => exact PclDev.ruleSet_installed hp hi rfl
  | reset => exact PclDev.resetRules_installed hp hi

/-- A dry run writes nothing. -/
theorem hw_fake (h : DevStep true op dev live dev' live') : dev'.hw = dev.hw := by
  cases h with
  | same => rfl
  | set => exact PclDev.ruleSet_fake rfl
  | reset => exact PclDev.resetRules_fake _

end DevStep

/-- The rules of the devices after a rule was set. -/
def Ledger.logReport (L : Ledger) (a : RuleArgs) (p : RuleParams)
    (devs : List (ℕ × PclDev.Outcome)) : Ledger :=
  devs.foldl (fun L r => update L r.1 (PclDev.logRule (L r.1) a p r.2)) L

/-- The rules after a call. -/
def Ledger.after (c : AclConf) (L : Ledger) (op : PclOp) (devs : List (ℕ × PclDev.Outcome)) :
    Ledger :=
  match op with
  | .ipRuleSet a rule => L.logReport a (.ip rule) devs
  | .macRuleSet a rule => L.logReport a (.mac rule) devs
  | .ipv6RuleSet a rule => L.logReport a (.ipv6 rule) devs
  | .resetRules interface dest action_type =>
    match interface.type with
    | .other _ => L
    | _ => fun d =>
      if d < c.NDEVS then PclDev.afterReset interface dest action_type (L d) else L d
  | .setFakeModeEnabled _ => L

namespace AclState

variable {c : AclConf} {fake : Bool} {s s' : AclState}

/-! ### Loops over devices -/

/-- One device changes. -/
theorem dev_setDev (s : AclState) (d d' : ℕ) (dev : PclDev) :
    (s.setDev d dev).dev d' = if d' = d then dev else s.dev d' := by
  by_cases hd : d' = d
  · subst hd
    rw [if_pos rfl]
    exact congrArg₂ PclDev.mk (update_self _ _ _) (update_self _ _ _)
  · rw [if_neg hd]
    exact congrArg₂ PclDev.mk (update_of_ne hd _ _) (update_of_ne hd _ _)

/-- A device that no rule went to keeps its record. -/
theorem logReport_of_not_mem {a : RuleArgs} {p : RuleParams} {devs : List (ℕ × PclDev.Outcome)}
    {L : Ledger} {d : ℕ} (hd : ∀ r ∈ devs, r.1 ≠ d) : L.logReport a p devs d = L d := by
  unfold Ledger.logReport
  exact Sweep.foldl_keeps (fun L : Ledger => L d) (fun L r hr => update_of_ne (hd r hr).symm ..) L

section RuleSetDevs

variable {a : RuleArgs} {p : RuleParams} {pcl_id : ℕ}

/-- The devices take the rule one after the other, up to the first that refuses. -/
theorem ruleSetDevs_cons (d : ℕ) (ds : List ℕ) (s : AclState) :
    ruleSetDevs fake a p pcl_id (d :: ds) s =
      if ((s.dev d).ruleSet fake a p pcl_id).1.status ≠ .ST_OK then
        (⟨((s.dev d).ruleSet fake a p pcl_id).1.status,
            [(d, ((s.dev d).ruleSet fake a p pcl_id).1)]⟩,
          s.setDev d ((s.dev d).ruleSet fake a p pcl_id).2)
      else
        let r := ruleSetDevs fake a p pcl_id ds (s.setDev d ((s.dev d).ruleSet fake a p pcl_id).2)
        (⟨r.1.status, (d, ((s.dev d).ruleSet fake a p pcl_id).1) :: r.1.devs⟩, r.2) := rfl

variable (fake a p pcl_id) in
/-- The devices that report are among those asked. -/
theorem ruleSetDevs_mem (ds : List ℕ) (s : AclState) :
    ∀ r ∈ (ruleSetDevs fake a p pcl_id ds s).1.devs, r.1 ∈ ds := by
  induction ds generalizing s with
  | nil => exact fun r hr => absurd hr List.not_mem_nil
  | cons d ds ih =>
    intro r hr
    rw [ruleSetDevs_cons] at hr
    split_ifs at hr
    · rw [List.mem_singleton.mp hr]
      exact List.mem_cons_self
    · rcases List.mem_cons.mp hr with rfl | hr
      · exact List.mem_cons_self
      · exact List.mem_cons_of_mem _ (ih _ r hr)

variable (fake a p pcl_id) in
/-- Setting a rule leaves a device as it is, or sets the rule there. -/
theorem ruleSetDevs_dev {ds : List ℕ} (hds : ds.Nodup) (s : AclState) (L : Ledger) (d : ℕ) :
    ((ruleSetDevs fake a p pcl_id ds s).2.dev d = s.dev d ∧
      L.logReport a p (ruleSetDevs fake a p pcl_id ds s).1.devs d = L d) ∨
    (∃ r ∈ (ruleSetDevs fake a p pcl_id ds s).1.devs, r.1 = d) ∧
      (ruleSetDevs fake a p pcl_id ds s).2.dev d = ((s.dev d).ruleSet fake a p pcl_id).2 ∧
      L.logReport a p (ruleSetDevs fake a p pcl_id ds s).1.devs d =
        PclDev.logRule (L d) a p ((s.dev d).ruleSet fake a p pcl_id).1 := by
  induction ds generalizing s L with
  | nil => exact Or.inl ⟨rfl, rfl⟩
  | cons d' ds ih =>
    obtain ⟨hd', hnodup⟩ := List.nodup_cons.mp hds
    rw [ruleSetDevs_cons]
    by_cases hd : d = d'
    · -- the rounds for other devices do not come to this one
      subst hd
      split_ifs
      · refine Or.inr ⟨⟨_, List.mem_singleton_self _, rfl⟩, by rw [dev_setDev, if_pos rfl], ?_⟩
        unfold Ledger.logReport
        rw [List.foldl_cons, List.foldl_nil, update_self]
      · have hrest := ruleSetDevs_mem fake a p pcl_id ds
          (s.setDev d ((s.dev d).ruleSet fake a p pcl_id).2)
        have hne : ∀ r ∈ (ruleSetDevs fake a p pcl_id ds
            (s.setDev d ((s.dev d).ruleSet fake a p pcl_id).2)).1.devs, r.1 ≠ d :=
          fun r hr heq => hd' (heq ▸ hrest r hr)
        refine Or.inr ⟨⟨_, List.mem_cons_self, rfl⟩, ?_, ?_⟩
        · rcases ih hnodup (s.setDev d ((s.dev d).ruleSet fake a p pcl_id).2) L with ⟨hdev, -⟩ | h
          · rw [hdev, dev_setDev, if_pos rfl]
          · obtain ⟨⟨r, hr, heq⟩, -⟩ := h
            exact absurd heq (hne r hr)
        · have hlog := logReport_of_not_mem (a := a) (p := p) (L := update L d
            (PclDev.logRule (L d) a p ((s.dev d).ruleSet fake a p pcl_id).1)) hne
          rw [update_self] at hlog
          exact hlog
    · split_ifs
      · refine Or.inl ⟨by rw [dev_setDev, if_neg hd], ?_⟩
        unfold Ledger.logReport
        rw [List.foldl_cons, List.foldl_nil, update_of_ne hd]
      · have hih := ih hnodup (s.setDev d' ((s.dev d').ruleSet fake a p pcl_id).2)
          (update L d' (PclDev.logRule (L d') a p ((s.dev d').ruleSet fake a p pcl_id).1))
        rw [dev_setDev, if_neg hd, update_of_ne hd] at hih
        rcases hih with h | ⟨hmem, h⟩
        · exact Or.inl h
        · obtain ⟨r, hr, heq⟩ := hmem
          exact Or.inr ⟨⟨r, List.mem_cons_of_mem _ hr, heq⟩, h⟩

/-- The loop over devices changes nothing else. -/
theorem ruleSetDevs_frame (ds : List ℕ) (s : AclState) :
    (ruleSetDevs fake a p pcl_id ds s).2.acl.pcl_ids = s.acl.pcl_ids ∧
      (ruleSetDevs fake a p pcl_id ds s).2.acl.vlan_ipcl_id = s.acl.vlan_ipcl_id ∧
      (ruleSetDevs fake a p pcl_id ds s).2.hw.vlan_pcl_id = s.hw.vlan_pcl_id := by
  induction ds generalizing s with
  | nil => exact ⟨rfl, rfl, rfl⟩
  | cons d ds ih =>
    rw [ruleSetDevs_cons]
    split_ifs
    · exact ⟨rfl, rfl, rfl⟩
    · exact ih _

end RuleSetDevs

section ResetDevs

variable {interface : PclInterface} {dest : PclDest} {action_type : PclActionType}

/-- Resetting an interface resets it on every device. -/
theorem resetDevs_dev (s : AclState) (d : ℕ) :
    (s.resetDevs c fake interface dest action_type).dev d =
      if d < c.NDEVS then (s.dev d).resetRules fake interface dest action_type else s.dev d := by
  refine Sweep.sweep_at (fun (s : AclState) d => s.dev d)
    (fun _ (dev : PclDev) => dev.resetRules fake interface dest action_type) d fun s d' _ => ?_
  rw [dev_setDev]
  by_cases hd : d = d'
  · rw [if_pos hd, if_pos hd, hd]
  · rw [if_neg hd, if_neg hd]

/-- Resetting an interface changes nothing but devices. -/
theorem resetDevs_frame (s : AclState) :
    (s.resetDevs c fake interface dest action_type).acl.pcl_ids = s.acl.pcl_ids ∧
      (s.resetDevs c fake interface dest action_type).acl.vlan_ipcl_id = s.acl.vlan_ipcl_id ∧
      (s.resetDevs c fake interface dest action_type).hw.vlan_pcl_id = s.hw.vlan_pcl_id :=
  Sweep.sweep_invariant (fun t : AclState => t.acl.pcl_ids = s.acl.pcl_ids ∧
    t.acl.vlan_ipcl_id = s.acl.vlan_ipcl_id ∧ t.hw.vlan_pcl_id = s.hw.vlan_pcl_id)
    ⟨rfl, rfl, rfl⟩ fun _ _ _ h => h

end ResetDevs

/-! ### Calls -/

/-- A list of rules for a VLAN touches no device. -/
theorem pclAddVlanPclId_dev {vid : ℕ} {r : Status × AclState}
    (h : s.pclAddVlanPclId fake vid = some r) (d : ℕ) : r.2.dev d = s.dev d := by
  unfold pclAddVlanPclId at h
  by_cases hvid : VLAN_IPCL_ID_COUNT ≤ vid
  · rw [if_pos hvid] at h
    exact absurd h (Option.some_ne_none _).symm
  · rw [if_neg hvid] at h
    by_cases hid : s.acl.vlan_ipcl_id vid ≠ 0
    · rw [if_pos hid] at h
      obtain rfl := Option.some_inj.mp h
      rfl
    · rw [if_neg hid] at h
      cases hids : s.acl.pcl_ids with
      | nil =>
        rw [hids] at h
        obtain rfl := Option.some_inj.mp h
        rfl
      | cons id ids =>
        rw [hids] at h
        obtain rfl := Option.some_inj.mp h
        cases fake <;> rfl

variable (c fake) in
/-- What the `switch` over interfaces gives: the PCL id with the devices that the loop is for,
`none` for `ST_BAD_VALUE`. The result is `none` where the VLAN is outside of `vlan_ipcl_id`. -/
def ruleTargets (s : AclState) (a : RuleArgs) : Option (Option (ℕ × List ℕ) × AclState) :=
  if NAME_SZ < a.name.length then some (none, s)
  else match a.interface.type with
    | .VLAN =>
      (s.pclAddVlanPclId fake a.interface.num).map fun (status, s) =>
        (if status ≠ .ST_OK then none
          else some (s.acl.vlan_ipcl_id a.interface.num, List.range c.NDEVS), s)
    | .PORT =>
      match c.getPortPtr a.interface.num, a.dest with
      | some port, .INGRESS => some (some (AclConf.portIpclId a.interface.num, [port.ldev]), s)
      | some port, .EGRESS => some (some (AclConf.portEpclId a.interface.num, [port.ldev]), s)
      | _, _ => some (none, s)
    | .other _ => some (none, s)

/-- Setting a rule ends before the loop over devices, or comes to it. -/
theorem pclRuleSet_eq (a : RuleArgs) (p : RuleParams) : s.pclRuleSet c fake a p =
    (s.ruleTargets c fake a).map fun (targets, s) =>
      match targets with
      | none => s.refused
      | some (pcl_id, ds) => s.ruleSetDevs fake a p pcl_id ds := by
  unfold pclRuleSet ruleTargets
  split_ifs
  · rfl
  · cases a.interface.type with
    | VLAN =>
      dsimp only
      rw [Option.map_map]
      refine congrArg (Option.map · _) (funext fun x => ?_)
      rw [Function.comp_apply]
      by_cases hst : x.1 ≠ .ST_OK
      · rw [if_pos hst, if_pos hst]
      · rw [if_neg hst, if_neg hst]
    | PORT =>
      dsimp only
      cases c.getPortPtr a.interface.num with
      | none => rfl
      | some port => cases a.dest <;> rfl
    | other n => rfl

variable (c s) in
/-- The devices that the loop is for. -/
def ruleDevs (a : RuleArgs) : List ℕ :=
  if NAME_SZ < a.name.length then []
  else match a.interface.type with
    | .VLAN =>
      if s.acl.vlan_ipcl_id a.interface.num = 0 ∧ s.acl.pcl_ids = [] then [] else List.range c.NDEVS
    | .PORT =>
      match c.getPortPtr a.interface.num, a.dest with
      | some port, .INGRESS => [port.ldev]
      | some port, .EGRESS => [port.ldev]
      | _, _ => []
    | .other _ => []

/-- The devices of a rule are named once. -/
theorem ruleDevs_nodup (a : RuleArgs) : (s.ruleDevs c a).Nodup := by
  unfold ruleDevs
  by_cases hname : NAME_SZ < a.name.length
  · rw [if_pos hname]
    exact List.nodup_nil
  · rw [if_neg hname]
    cases a.interface.type with
    | VLAN =>
      dsimp only
      split_ifs
      · exact List.nodup_nil
      · exact List.nodup_range
    | PORT =>
      cases c.getPortPtr a.interface.num with
      | none => exact List.nodup_nil
      | some port =>
        cases a.dest with
        | INGRESS => exact List.nodup_singleton _
        | EGRESS => exact List.nodup_singleton _
        | other n => exact List.nodup_nil
    | other n => exact List.nodup_nil

/-- A list of rules for a VLAN is there or free. -/
theorem pclAddVlanPclId_ok {vid : ℕ} {t : AclState}
    (h : s.pclAddVlanPclId fake vid = some (.ST_OK, t)) :
    ¬(s.acl.vlan_ipcl_id vid = 0 ∧ s.acl.pcl_ids = []) := by
  rintro ⟨hid, hids⟩
  unfold pclAddVlanPclId at h
  rw [hids, if_neg (not_not_intro hid)] at h
  by_cases hvid : VLAN_IPCL_ID_COUNT ≤ vid
  · rw [if_pos hvid] at h
    exact absurd h (Option.some_ne_none _).symm
  · rw [if_neg hvid] at h
    exact absurd (Prod.mk.inj (Option.some_inj.mp h)).1 Status.noConfusion

/-- Before the loop the devices stay as they are. -/
theorem ruleTargets_spec {a : RuleArgs} {targets : Option (ℕ × List ℕ)} {t : AclState}
    (h : s.ruleTargets c fake a = some (targets, t)) :
    (∀ d, t.dev d = s.dev d) ∧ ∀ pcl_id ds, targets = some (pcl_id, ds) → ds = s.ruleDevs c a := by
  unfold ruleTargets at h
  unfold ruleDevs
  by_cases hname : NAME_SZ < a.name.length
  · rw [if_pos hname] at h
    obtain ⟨rfl, rfl⟩ := Prod.mk.inj (Option.some_inj.mp h)
    exact ⟨fun _ => rfl, fun _ _ h => absurd h.symm (Option.some_ne_none _)⟩
  · rw [if_neg hname] at h ⊢
    cases htype : a.interface.type with
    | VLAN =>
      rw [htype] at h
      obtain ⟨⟨status, s₁⟩, hadd, h⟩ := Option.map_eq_some_iff.mp h
      obtain ⟨rfl, rfl⟩ := Prod.mk.inj h
      refine ⟨pclAddVlanPclId_dev hadd, fun pcl_id ds h => ?_⟩
      split_ifs at h with hst
      obtain ⟨-, rfl⟩ := Prod.mk.inj (Option.some_inj.mp h)
      obtain rfl := not_ne_iff.mp hst
      exact (if_neg (pclAddVlanPclId_ok hadd)).symm
    | PORT =>
      rw [htype] at h
      dsimp only at h ⊢
      cases hport : c.getPortPtr a.interface.num with
      | none =>
        rw [hport] at h
        obtain ⟨rfl, rfl⟩ := Prod.mk.inj (Option.some_inj.mp h)
        exact ⟨fun _ => rfl, fun _ _ h => absurd h.symm (Option.some_ne_none _)⟩
      | some port =>
        rw [hport] at h
        cases hdest : a.dest with
        | INGRESS =>
          rw [hdest] at h
          obtain ⟨rfl, rfl⟩ := Prod.mk.inj (Option.some_inj.mp h)
          exact ⟨fun _ => rfl, fun _ _ h => (Prod.mk.inj (Option.some_inj.mp h)).2.symm⟩
        | EGRESS =>
          rw [hdest] at h
          obtain ⟨rfl, rfl⟩ := Prod.mk.inj (Option.some_inj.mp h)
          exact ⟨fun _ => rfl, fun _ _ h => (Prod.mk.inj (Option.some_inj.mp h)).2.symm⟩
        | other n =>
          rw [hdest] at h
          obtain ⟨rfl, rfl⟩ := Prod.mk.inj (Option.some_inj.mp h)
          exact ⟨fun _ => rfl, fun _ _ h => absurd h.symm (Option.some_ne_none _)⟩
    | other n =>
      rw [htype] at h
      obtain ⟨rfl, rfl⟩ := Prod.mk.inj (Option.some_inj.mp h)
      exact ⟨fun _ => rfl, fun _ _ h => absurd h.symm (Option.some_ne_none _)⟩

/-- A rule is set on its devices, or on none of them. -/
theorem pclRuleSet_cases {a : RuleArgs} {p : RuleParams} {r : Report} {t : AclState}
    (h : s.pclRuleSet c fake a p = some (r, t)) :
    (r.devs = [] ∧ ∀ d, t.dev d = s.dev d) ∨
    ∃ s₁ pcl_id ds, ds.Nodup ∧ (∀ d, s₁.dev d = s.dev d) ∧
      (r, t) = ruleSetDevs fake a p pcl_id ds s₁ := by
  rw [pclRuleSet_eq] at h
  obtain ⟨⟨targets, s₁⟩, htargets, h⟩ := Option.map_eq_some_iff.mp h
  obtain ⟨hdev, hds⟩ := ruleTargets_spec htargets
  cases targets with
  | none =>
    obtain ⟨rfl, rfl⟩ := Prod.mk.inj h
    exact Or.inl ⟨rfl, hdev⟩
  | some x => exact Or.inr ⟨s₁, x.1, x.2, hds _ _ rfl ▸ ruleDevs_nodup a, hdev, h.symm⟩

/-- Setting a rule, seen from one device. -/
theorem pclRuleSet_dev {a : RuleArgs} {p : RuleParams} {r : Report} {t : AclState} {op : PclOp}
    (hop : op.rule? = some (a, p)) (h : s.pclRuleSet c fake a p = some (r, t)) (L : Ledger)
    (d : ℕ) :
    DevStep fake op (s.dev d) (L d) (t.dev d) (L.logReport a p r.devs d) := by
  obtain ⟨hdevs, ht⟩ | ⟨s₁, pcl_id, ds, hds, hs₁, h⟩ := pclRuleSet_cases h
  · rw [hdevs, ht]
    exact .same _ _
  · obtain ⟨rfl, rfl⟩ := Prod.mk.inj h
    rw [← hs₁ d]
    obtain ⟨hdev, hlog⟩ | ⟨-, hdev, hlog⟩ := ruleSetDevs_dev fake a p pcl_id hds
      s₁ L d
    · rw [hdev, hlog]
      exact .same _ _
    · rw [hdev, hlog]
      exact .set _ _ a p pcl_id hop

/-- Resetting an interface, seen from one device. -/
theorem pclResetRules_dev {interface : PclInterface} {dest : PclDest} {action_type : PclActionType}
    {t : AclState} (h : s.pclResetRules c fake interface dest action_type = some t) (L : Ledger)
    (devs : List (ℕ × PclDev.Outcome)) (d : ℕ) :
    DevStep fake (.resetRules interface dest action_type) (s.dev d) (L d) (t.dev d)
      (L.after c (.resetRules interface dest action_type) devs d) := by
  have hreset (s₁ : AclState) (hs₁ : s₁.dev d = s.dev d) :
      DevStep fake (.resetRules interface dest action_type) (s.dev d) (L d)
        ((s₁.resetDevs c fake interface dest action_type).dev d)
        (if d < c.NDEVS then PclDev.afterReset interface dest action_type (L d) else L d) := by
    rw [resetDevs_dev, hs₁]
    split_ifs
    · exact .reset _ _ _ _ _ rfl
    · exact .same _ _
  unfold pclResetRules at h
  unfold Ledger.after
  dsimp only
  cases htype : interface.type with
  | VLAN =>
    rw [htype] at h
    dsimp only at h
    split_ifs at h
    obtain rfl := Option.some_inj.mp h
    exact hreset (s.freeVlanPclId interface.num) rfl
  | PORT =>
    rw [htype] at h
    obtain rfl := Option.some_inj.mp h
    exact hreset s rfl
  | other n =>
    rw [htype] at h
    obtain rfl := Option.some_inj.mp h
    exact .same _ _

end AclState

/-! ### Runs -/

/-- The state with the rules that were set and not removed, those of the tables in use and those of
the tables for fake mode. -/
structure AclLog where
  pcl : Pcl
  user : Ledger
  fake : Ledger

namespace AclLog

variable (c : AclConf)

/-- The state before any rule is set. -/
def init : AclLog := ⟨Pcl.init c, fun _ => [], fun _ => []⟩

/-- The rules of the tables in use. -/
def curr (s : AclLog) : Ledger := if s.pcl.user_acl_fake_mode then s.fake else s.user

/-- The rules of the tables in use change, and the state. -/
def setCurr (s : AclLog) (pcl : Pcl) (L : Ledger) : AclLog :=
  if s.pcl.user_acl_fake_mode then ⟨pcl, s.user, L⟩ else ⟨pcl, L, s.fake⟩

/-- A call. -/
def step (s : AclLog) (op : PclOp) : Option AclLog :=
  (s.pcl.step c op).map fun (devs, pcl) =>
    match op with
    | .setFakeModeEnabled true => ⟨pcl, s.user, s.user⟩
    | .setFakeModeEnabled false => ⟨pcl, s.user, s.fake⟩
    | op => s.setCurr pcl (s.curr.after c op devs)

/-- The record does not change what calls do. -/
theorem step_pcl {s s' : AclLog} {op : PclOp} (h : s.step c op = some s') :
    ∃ devs, s.pcl.step c op = some (devs, s'.pcl) := by
  obtain ⟨⟨devs, pcl⟩, hs, rfl⟩ := Option.map_eq_some_iff.mp h
  refine ⟨devs, hs.trans (congrArg (fun pcl => some (devs, pcl)) ?_)⟩
  unfold setCurr
  dsimp only
  split <;> first | rfl | split_ifs <;> rfl

variable {c}

/-- A call changes the mode, or it works on the tables in use, on each device. -/
theorem step_cases {s s' : AclLog} {op : PclOp} (h : s.step c op = some s') :
    (∃ enable, op = .setFakeModeEnabled enable ∧ s'.pcl = s.pcl.pclSetFakeModeEnabled enable ∧
      s'.user = s.user ∧ s'.fake = if enable then s.user else s.fake) ∨
    ∃ t L, s' = s.setCurr (s.pcl.setCurr t) L ∧ ∀ d,
      DevStep s.pcl.user_acl_fake_mode op (s.pcl.curr.dev d) (s.curr d) (t.dev d) (L d) := by
  obtain ⟨⟨devs, pcl⟩, hs, rfl⟩ := Option.map_eq_some_iff.mp h
  unfold Pcl.step at hs
  cases op with
  | ipRuleSet a rule =>
    obtain ⟨⟨r, t⟩, hset, heq⟩ := Option.map_eq_some_iff.mp hs
    obtain ⟨rfl, rfl⟩ := Prod.mk.inj heq
    exact Or.inr ⟨t, _, rfl, AclState.pclRuleSet_dev rfl hset s.curr⟩
  | macRuleSet a rule =>
    obtain ⟨⟨r, t⟩, hset, heq⟩ := Option.map_eq_some_iff.mp hs
    obtain ⟨rfl, rfl⟩ := Prod.mk.inj heq
    exact Or.inr ⟨t, _, rfl, AclState.pclRuleSet_dev rfl hset s.curr⟩
  | ipv6RuleSet a rule =>
    obtain ⟨⟨r, t⟩, hset, heq⟩ := Option.map_eq_some_iff.mp hs
    obtain ⟨rfl, rfl⟩ := Prod.mk.inj heq
    exact Or.inr ⟨t, _, rfl, AclState.pclRuleSet_dev rfl hset s.curr⟩
  | resetRules interface dest action_type =>
    obtain ⟨t, hset, heq⟩ := Option.map_eq_some_iff.mp hs
    obtain ⟨rfl, rfl⟩ := Prod.mk.inj heq
    exact Or.inr ⟨t, _, rfl, AclState.pclResetRules_dev hset s.curr _⟩
  | setFakeModeEnabled enable =>
    obtain ⟨rfl, rfl⟩ := Prod.mk.inj (Option.some_inj.mp hs)
    refine Or.inl ⟨enable, rfl, ?_⟩
    cases enable <;> exact ⟨rfl, rfl, rfl⟩

/-- The tables in use out of fake mode and the hardware, on one device. -/
def userDev (s : AclLog) (d : ℕ) : PclDev := ⟨s.pcl.user_acl.devs d, s.pcl.hw.devs d⟩

section Real

variable {s : AclLog} (hfake : s.pcl.user_acl_fake_mode = false)

include hfake

/-- Out of fake mode the tables in use are those of the devices. -/
theorem curr_dev (d : ℕ) : s.pcl.curr.dev d = s.userDev d := by
  unfold Pcl.curr
  rw [hfake]
  rfl

/-- Outside a dry run the record of the current state is that of the user. -/
theorem curr_eq_user : s.curr = s.user := by
  unfold curr
  rw [hfake]
  rfl

/-- The devices of a state that was made current are its own. -/
theorem userDev_setCurr (t : AclState) (L : Ledger) (d : ℕ) :
    (s.setCurr (s.pcl.setCurr t) L).userDev d = t.dev d := by
  unfold setCurr Pcl.setCurr userDev
  rw [hfake]
  rfl

/-- The record of a state that was made current is its own. -/
theorem user_setCurr (pcl : Pcl) (L : Ledger) : (s.setCurr pcl L).user = L := by
  unfold setCurr
  rw [hfake]
  rfl

end Real

/-- In fake mode a call leaves the tables and the hardware as they are. -/
theorem step_user_of_fake {s s' : AclLog} {op : PclOp} (h : s.step c op = some s')
    (hfake : s.pcl.user_acl_fake_mode = true) (d : ℕ) :
    s'.userDev d = s.userDev d ∧ s'.user d = s.user d := by
  obtain ⟨enable, -, hpcl, huser, -⟩ | ⟨t, L, rfl, hdev⟩ := step_cases h
  · refine ⟨?_, congrFun huser d⟩
    unfold userDev
    rw [hpcl]
    cases enable <;> rfl
  · have hd := hdev d
    rw [hfake] at hd
    have hhw : (t.dev d).hw = (s.pcl.curr.dev d).hw := hd.hw_fake
    unfold setCurr Pcl.setCurr userDev
    rw [if_pos hfake, if_pos hfake]
    exact ⟨congrArg (PclDev.mk _) hhw, rfl⟩

/-- A call, seen from the tables in use out of fake mode. -/
theorem step_user {s s' : AclLog} {op : PclOp} (h : s.step c op = some s') (d : ℕ) :
    DevStep false op (s.userDev d) (s.user d) (s'.userDev d) (s'.user d) := by
  cases hfake : s.pcl.user_acl_fake_mode with
  | true =>
    obtain ⟨hdev, hlive⟩ := step_user_of_fake h hfake d
    rw [hdev, hlive]
    exact .same _ _
  | false =>
    obtain ⟨enable, -, hpcl, huser, -⟩ | ⟨t, L, rfl, hdev⟩ := step_cases h
    · unfold userDev
      rw [hpcl, huser]
      cases enable <;> exact .same _ _
    · have hd := hdev d
      rw [hfake] at hd
      unfold setCurr Pcl.setCurr userDev
      unfold Pcl.curr curr at hd
      rw [hfake] at hd ⊢
      exact hd

/-- A call, seen from the tables for fake mode. -/
theorem step_fake {s s' : AclLog} {op : PclOp} (h : s.step c op = some s') (d : ℕ) :
    (s'.pcl.user_acl_fake.devs d = s.pcl.user_acl_fake.devs d ∧ s'.fake d = s.fake d) ∨
    (s'.pcl.user_acl_fake.devs d = (s.pcl.user_acl.devs d).copy ∧ s'.fake d = s.user d) ∨
    ∃ dev', DevStep true op ⟨s.pcl.user_acl_fake.devs d, s.pcl.hw.devs d⟩
      (s.fake d) dev' (s'.fake d) ∧
      dev'.sw = s'.pcl.user_acl_fake.devs d := by
  obtain ⟨enable, -, hpcl, -, hlive⟩ | ⟨t, L, rfl, hdev⟩ := step_cases h
  · cases enable with
    | true => exact Or.inr (Or.inl ⟨by rw [hpcl]; rfl, by rw [hlive]; rfl⟩)
    | false => exact Or.inl ⟨by rw [hpcl]; rfl, by rw [hlive]; rfl⟩
  · have hd := hdev d
    unfold setCurr Pcl.setCurr
    cases hfake : s.pcl.user_acl_fake_mode with
    | true =>
      unfold Pcl.curr curr at hd
      rw [hfake] at hd
      exact Or.inr (Or.inr ⟨t.dev d, hd, rfl⟩)
    | false => exact Or.inl ⟨rfl, rfl⟩

end AclLog

/-! ### The invariant -/

/-- The entry of a rule was made from the rule. -/
def LiveRule.Genuine (r : LiveRule) : Prop :=
  ∀ entry, r.written = some entry →
    ∃ pcl_id rule_ix cmp_ix, PclDev.ruleEntry r.args r.params pcl_id rule_ix cmp_ix = some entry

/-- A step keeps the entries of the recorded rules made from their rules. -/
theorem DevStep.genuine {fake : Bool} {op : PclOp} {dev dev' : PclDev} {live live' : List LiveRule}
    (h : DevStep fake op dev live dev' live') (hg : ∀ r ∈ live, r.Genuine) :
    ∀ r ∈ live', r.Genuine := by
  cases h with
  | same => exact hg
  | reset => exact fun r hr => hg r (List.mem_filter.mp hr).1
  | set a p pcl_id _ =>
    intro r hr
    rcases hset : dev.ruleSet fake a p pcl_id with ⟨o, s'⟩
    rw [hset] at hr
    obtain ⟨-, rfl, -⟩ | ⟨rule_ix, s₁, -, hend⟩ := PclDev.ruleSet_cases hset
    · exact hg r hr
    · unfold PclDev.logRule at hr
      rw [if_pos hend.bound] at hr
      rcases List.mem_append.mp hr with hr | hr
      · exact hg r hr
      · obtain rfl := List.mem_singleton.mp hr
        intro entry hw
        obtain ⟨cmp_ix, hentry⟩ := hend.written hw
        exact ⟨pcl_id, rule_ix, cmp_ix, hentry⟩

/-- The part of the TCAM that the index book hands out stays the same. -/
theorem DevStep.range {fake : Bool} {op : PclOp} {dev dev' : PclDev} {live live' : List LiveRule}
    (h : DevStep fake op dev live dev' live') (hp : dev.sw.Placed live) :
    dev'.sw.index_book.start = dev.sw.index_book.start ∧
      dev'.sw.index_book.end_ = dev.sw.index_book.end_ := by
  cases h with
  | same => exact ⟨rfl, rfl⟩
  | set a p pcl_id _ =>
    rcases hset : dev.ruleSet fake a p pcl_id with ⟨o, s'⟩
    obtain ⟨-, -, rfl⟩ | ⟨rule_ix, s₁, hadd, hend⟩ := PclDev.ruleSet_cases hset
    · exact ⟨rfl, rfl⟩
    · rw [hend.sw, (PclDev.addPortCmps_same fake s₁ rule_ix (p.cmps a.dest)).index_book,
        (PclDev.pclAddRuleIx_spec hadd).index_book]
      exact ⟨rfl, rfl⟩
  | reset interface dest action_type _ =>
    refine (PclDev.resetRules_induction (fun s live => s.sw.Placed live ∧
      s.sw.index_book.start = dev.sw.index_book.start ∧
        s.sw.index_book.end_ = dev.sw.index_book.end_) (fun _ _ h => h.1) ?_ ⟨hp, rfl, rfl⟩).2
    intro s live A B r bind h hAB hkey hix _
    have hrem := (PclDev.removeRule_spec fake h.1 hAB bind hkey hix).1
    refine ⟨hrem.placed hAB hix h.1, ?_⟩
    rw [hrem.index_book]
    exact h.2

end Presteramgr
