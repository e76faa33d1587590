import Presteramgr.Acl.InOrder
import Presteramgr.Lib.Owned

/-!
# The PCL ids of VLANs (`pcl.c`)

A VLAN gets a PCL id with its first rule, and `pcl_reset_rules` takes it back, whichever rules of
the VLAN it resets.

## Main definitions

* `UserAcl.OwnIds`: the pool of ids and those of the VLANs are right;
* `AclLog.Sparing`: a VLAN is reset that has an id, and no rule of it stays.

## Main results

* `AclLog.ownIds_iff_sparing`: in a run of such resets the ids are right in every state, and the
  next call keeps them so if and only if it is sparing;
* `AclLog.not_ownIds`: one of two rule sets of a VLAN is reset.
-/

namespace Presteramgr

open Function (update update_self update_of_ne)
open Owned (Divides)

namespace AclConf

variable (c : AclConf)

/-- The PCL ids for VLANs. -/
def VlanPclId (pcl_id : ℕ) : Prop := c.vlanPclIdFirst ≤ pcl_id ∧ pcl_id ≤ maxPclId

/-- A PCL id of a port. -/
def PortPclId (pcl_id : ℕ) : Prop :=
  ∃ pid, 1 ≤ pid ∧ pid ≤ c.NPORTS ∧ (pcl_id = portIpclId pid ∨ pcl_id = portEpclId pid)

variable {c}

theorem VlanPclId.ne_zero {pcl_id : ℕ} (h : c.VlanPclId pcl_id) : pcl_id ≠ 0 := by
  have hpos := c.NPORTS_pos
  have hfirst := h.1
  unfold vlanPclIdFirst at hfirst
  omega

theorem VlanPclId.not_port {pcl_id : ℕ} (h : c.VlanPclId pcl_id) : ¬c.PortPclId pcl_id := by
  have hfirst := h.1
  unfold vlanPclIdFirst at hfirst
  rintro ⟨pid, hpid, hle, heq⟩
  unfold portIpclId portEpclId at heq
  omega

end AclConf

namespace UserAcl

variable (c : AclConf) (acl : UserAcl)

/-- The id of a VLAN, if it has one. -/
def ownId (vid : ℕ) : Option ℕ :=
  if acl.vlan_ipcl_id vid = 0 then none else some (acl.vlan_ipcl_id vid)

/-- The free ids and those of the VLANs divide the ids for VLANs among them, no VLAN has an id of a
port, and every VLAN with a rule has an id. -/
structure OwnIds : Prop where
  divides : Divides c.VlanPclId acl.pcl_ids acl.ownId
  not_port : ∀ vid pcl_id, acl.ownId vid = some pcl_id → ¬c.PortPclId pcl_id
  live : ∀ d < c.NDEVS, ∀ bind ∈ (acl.devs d).bindings, bind.key.interface.type = .VLAN →
    acl.vlan_ipcl_id bind.key.interface.num ≠ 0

variable {c acl} {acl' : UserAcl} {vid pcl_id : ℕ}

theorem ownId_eq_some : acl.ownId vid = some pcl_id ↔ pcl_id ≠ 0 ∧
    acl.vlan_ipcl_id vid = pcl_id := by
  unfold ownId
  by_cases hid : acl.vlan_ipcl_id vid = 0
  · rw [if_pos hid]
    refine iff_of_false (Option.some_ne_none _).symm ?_
    rintro ⟨hne, heq⟩
    exact hne (heq.symm.trans hid)
  · rw [if_neg hid, Option.some_inj]
    exact ⟨fun heq => ⟨heq ▸ hid, heq⟩, And.right⟩

theorem ownId_update (h : acl'.vlan_ipcl_id = update acl.vlan_ipcl_id vid pcl_id) :
    acl'.ownId = update acl.ownId vid (if pcl_id = 0 then none else some pcl_id) := by
  funext v
  unfold ownId
  rw [h]
  by_cases hv : v = vid
  · rw [hv, update_self, update_self]
  · rw [update_of_ne hv, update_of_ne hv]

/-- What is given out of the pool is no id of a port. -/
theorem OwnIds.of_divides (h : Divides c.VlanPclId acl.pcl_ids acl.ownId)
    (hlive : ∀ d < c.NDEVS, ∀ bind ∈ (acl.devs d).bindings, bind.key.interface.type = .VLAN →
      acl.vlan_ipcl_id bind.key.interface.num ≠ 0) : acl.OwnIds c :=
  ⟨h, fun vid pcl_id hown => ((h.cover pcl_id).mpr (.inr ⟨vid, hown⟩)).not_port, hlive⟩

/-- What a rule does to the ids: nothing, or the VLAN gets its first one. -/
inductive VlanIds (acl : UserAcl) (vid : ℕ) (acl' : UserAcl) : Prop
  | kept : acl'.pcl_ids = acl.pcl_ids → acl'.vlan_ipcl_id = acl.vlan_ipcl_id → VlanIds acl vid acl'
  | taken (pcl_id : ℕ) : acl.vlan_ipcl_id vid = 0 → acl.pcl_ids = pcl_id :: acl'.pcl_ids →
      acl'.vlan_ipcl_id = update acl.vlan_ipcl_id vid pcl_id → VlanIds acl vid acl'

namespace VlanIds

theorem divides (h : VlanIds acl vid acl') (hdiv : Divides c.VlanPclId acl.pcl_ids acl.ownId) :
    Divides c.VlanPclId acl'.pcl_ids acl'.ownId := by
  cases h with
  | kept hids hvlan =>
    have hown : acl'.ownId = acl.ownId := funext fun v => by rw [ownId, ownId, hvlan]
    rwa [hids, hown]
  | taken pcl_id hzero hids hvlan =>
    rw [hids] at hdiv
    have hid : pcl_id ≠ 0 := ((hdiv.cover pcl_id).mpr (.inl List.mem_cons_self)).ne_zero
    rw [ownId_update hvlan, if_neg hid]
    exact hdiv.take (if_pos hzero)

/-- A VLAN keeps its id. -/
theorem ne_zero (h : VlanIds acl vid acl') {v : ℕ} (hv : acl.vlan_ipcl_id v ≠ 0) :
    acl'.vlan_ipcl_id v ≠ 0 := by
  cases h with
  | kept hids hvlan => rwa [hvlan]
  | taken pcl_id hzero hids hvlan =>
    rw [hvlan, update_of_ne]
    · exact hv
    · rintro rfl
      exact hv hzero

end VlanIds

end UserAcl

namespace AclState

variable {c : AclConf} {fake : Bool} {s t : AclState} {a : RuleArgs} {p : RuleParams}

theorem pclAddVlanPclId_ids {vid : ℕ} {status : Status}
    (h : s.pclAddVlanPclId fake vid = some (status, t)) : UserAcl.VlanIds s.acl vid t.acl ∧
      (status = .ST_OK → t.acl.vlan_ipcl_id vid ≠ 0 ∨ t.acl.vlan_ipcl_id vid ∈ s.acl.pcl_ids) := by
  unfold pclAddVlanPclId at h
  have hvid : ¬VLAN_IPCL_ID_COUNT ≤ vid := by
    intro hvid
    rw [if_pos hvid] at h
    exact absurd h (Option.some_ne_none _).symm
  rw [if_neg hvid] at h
  by_cases hid : s.acl.vlan_ipcl_id vid ≠ 0
  · rw [if_pos hid] at h
    obtain ⟨-, rfl⟩ := Prod.mk.inj (Option.some_inj.mp h)
    exact ⟨.kept rfl rfl, fun _ => .inl hid⟩
  · rw [if_neg hid] at h
    -- a VLAN without an id takes the one on top of the stack
    cases hids : s.acl.pcl_ids with
    | nil =>
      rw [hids] at h
      obtain ⟨rfl, rfl⟩ := Prod.mk.inj (Option.some_inj.mp h)
      exact ⟨.kept rfl rfl, fun hst => by cases hst⟩
    | cons pcl_id pcl_ids =>
      rw [hids] at h
      obtain ⟨-, rfl⟩ := Prod.mk.inj (Option.some_inj.mp h)
      refine ⟨.taken pcl_id (not_not.mp hid) hids rfl, fun _ => .inr ?_⟩
      dsimp only
      rw [update_self]
      exact List.mem_cons_self

/-- Before the loop over devices, a rule for a VLAN has made sure of its id. -/
theorem ruleTargets_ids {targets : Option (ℕ × List ℕ)}
    (h : s.ruleTargets c fake a = some (targets, t)) :
    UserAcl.VlanIds s.acl a.interface.num t.acl ∧ (targets ≠ none → a.interface.type = .VLAN →
      t.acl.vlan_ipcl_id a.interface.num ≠ 0 ∨
        t.acl.vlan_ipcl_id a.interface.num ∈ s.acl.pcl_ids) := by
  unfold ruleTargets at h
  by_cases hname : NAME_SZ < a.name.length
  · rw [if_pos hname] at h
    obtain ⟨rfl, rfl⟩ := Prod.mk.inj (Option.some_inj.mp h)
    exact ⟨.kept rfl rfl, fun hno => absurd rfl hno⟩
  · rw [if_neg hname] at h
    cases htype : a.interface.type with
    | VLAN =>
      rw [htype] at h
      obtain ⟨⟨status, s₁⟩, hadd, h⟩ := Option.map_eq_some_iff.mp h
      obtain ⟨rfl, rfl⟩ := Prod.mk.inj h
      obtain ⟨hids, hok⟩ := pclAddVlanPclId_ids hadd
      refine ⟨hids, fun hsome _ => hok ?_⟩
      by_contra hst
      exact hsome (if_pos hst)
    | PORT =>
      rw [htype] at h
      dsimp only at h
      have ht : t = s := by
        split at h <;> exact (Prod.mk.inj (Option.some_inj.mp h)).2.symm
      rw [ht]
      exact ⟨.kept rfl rfl, fun _ hno => by cases hno⟩
    | other n =>
      rw [htype] at h
      obtain ⟨-, rfl⟩ := Prod.mk.inj (Option.some_inj.mp h)
      exact ⟨.kept rfl rfl, fun _ hno => by cases hno⟩

/-- A rule that comes to a device is one for a port or for a VLAN with an id. -/
theorem pclRuleSet_ids {r : Report} (h : s.pclRuleSet c fake a p = some (r, t)) :
    UserAcl.VlanIds s.acl a.interface.num t.acl ∧ ((∀ d, t.dev d = s.dev d) ∨
      (a.interface.type = .VLAN → t.acl.vlan_ipcl_id a.interface.num ≠ 0 ∨
        t.acl.vlan_ipcl_id a.interface.num ∈ s.acl.pcl_ids)) := by
  rw [pclRuleSet_eq] at h
  obtain ⟨⟨targets, s₁⟩, htargets, h⟩ := Option.map_eq_some_iff.mp h
  obtain ⟨hids, hok⟩ := ruleTargets_ids htargets
  cases targets with
  | none =>
    obtain ⟨-, rfl⟩ := Prod.mk.inj h
    exact ⟨hids, .inl (ruleTargets_spec htargets).1⟩
  | some x =>
    dsimp only at h
    obtain ⟨hpcl, hvlan, -⟩ : (ruleSetDevs fake a p x.1 x.2 s₁).2.acl.pcl_ids = _ ∧
      (ruleSetDevs fake a p x.1 x.2 s₁).2.acl.vlan_ipcl_id = _ ∧ _ := ruleSetDevs_frame x.2 s₁
    rw [h] at hpcl hvlan
    dsimp only at hpcl hvlan
    refine ⟨?_, .inr fun htype => ?_⟩
    · cases hids with
      | kept h₁ h₂ => exact .kept (hpcl.trans h₁) (hvlan.trans h₂)
      | taken pcl_id h₀ h₁ h₂ => exact .taken pcl_id h₀ (hpcl ▸ h₁) (hvlan.trans h₂)
    · rw [hvlan]
      exact hok (Option.some_ne_none x) htype

/-- A reset of a VLAN pushes its id, and then resets the devices. -/
theorem pclResetRules_vlan {interface : PclInterface} {dest : PclDest} {action_type : PclActionType}
    (htype : interface.type = .VLAN)
    (h : s.pclResetRules c fake interface dest action_type = some t) :
    t.acl.pcl_ids = s.acl.vlan_ipcl_id interface.num :: s.acl.pcl_ids ∧
      t.acl.vlan_ipcl_id = update s.acl.vlan_ipcl_id interface.num 0 ∧
      ∀ d < c.NDEVS, t.dev d = (s.dev d).resetRules fake interface dest action_type := by
  unfold pclResetRules at h
  rw [htype] at h
  dsimp only at h
  split_ifs at h
  obtain rfl := Option.some_inj.mp h
  obtain ⟨hpcl, hvlan, -⟩ := @resetDevs_frame c fake interface dest action_type
    (s.freeVlanPclId interface.num)
  refine ⟨hpcl, hvlan, fun d hd => ?_⟩
  rw [resetDevs_dev, if_pos hd]
  rfl

/-- Another reset leaves the ids as they are. -/
theorem pclResetRules_other {interface : PclInterface} {dest : PclDest}
    {action_type : PclActionType}
    (htype : interface.type ≠ .VLAN)
    (h : s.pclResetRules c fake interface dest action_type = some t) :
    t.acl.pcl_ids = s.acl.pcl_ids ∧ t.acl.vlan_ipcl_id = s.acl.vlan_ipcl_id := by
  unfold pclResetRules at h
  cases hinterface : interface.type with
  | VLAN => exact absurd hinterface htype
  | PORT =>
    rw [hinterface] at h
    obtain rfl := Option.some_inj.mp h
    obtain ⟨hpcl, hvlan, -⟩ := @resetDevs_frame c fake interface dest action_type s
    exact ⟨hpcl, hvlan⟩
  | other n =>
    rw [hinterface] at h
    obtain rfl := Option.some_inj.mp h
    exact ⟨rfl, rfl⟩

end AclState

/-- The bindings of a device after a call: those that there were, and that of the rule. -/
theorem DevStep.mem_bindings {fake : Bool} {op : PclOp} {dev dev' : PclDev}
    {live live' : List LiveRule}
    (h : DevStep fake op dev live dev' live') (hp : dev.sw.Placed live) {k : RuleBindingKey}
    (hk : k ∈ dev'.sw.bindings.map RuleBinding.key) : k ∈ dev.sw.bindings.map RuleBinding.key ∨
      ∃ a p, op.rule? = some (a, p) ∧ k = a.bindKey := by
  have hp' := h.placed hp
  rw [hp'.keys] at hk
  rw [hp.keys]
  cases h with
  | same => exact .inl hk
  | set a p pcl_id hop =>
    unfold PclDev.logRule at hk
    split_ifs at hk
    · rw [List.map_append, List.mem_append] at hk
      exact hk.imp_right fun hk => ⟨a, p, hop, List.mem_singleton.mp hk⟩
    · exact .inl hk
  | reset =>
    obtain ⟨r, hr, rfl⟩ := List.mem_map.mp hk
    exact .inl (List.mem_map_of_mem (List.mem_filter.mp hr).1)

/-- The bindings of a device after its interface was reset. -/
theorem PclDev.mem_resetRules {fake : Bool} {dev : PclDev} {live : List LiveRule}
    {interface : PclInterface} {dest : PclDest} {action_type : PclActionType}
    (hp : dev.sw.Placed live) {k : RuleBindingKey} :
    k ∈ (dev.resetRules fake interface dest action_type).sw.bindings.map RuleBinding.key ↔
      k ∈ dev.sw.bindings.map RuleBinding.key ∧ resets interface dest action_type k = false := by
  have hp' : (dev.resetRules fake interface dest action_type).sw.Placed
      (afterReset interface dest action_type live) := resetRules_placed hp
  rw [hp'.keys, hp.keys, List.mem_map, List.mem_map]
  unfold afterReset
  constructor
  · rintro ⟨r, hr, rfl⟩
    obtain ⟨hr, hres⟩ := List.mem_filter.mp hr
    exact ⟨⟨r, hr, rfl⟩, Bool.not_eq_true' _ ▸ hres⟩
  · rintro ⟨⟨r, hr, rfl⟩, hres⟩
    exact ⟨r, List.mem_filter.mpr ⟨hr, by rw [hres]; rfl⟩, rfl⟩

/-! ### Runs -/

namespace AclLog

variable {c : AclConf} {s s' : AclLog} {op : PclOp}

/-- A reset of a VLAN out of fake mode is one of a VLAN that has an id, and all rules of the VLAN
are among those that it removes. -/
def Sparing (c : AclConf) (s : AclLog) : PclOp → Prop
  | .resetRules interface dest action_type =>
    s.pcl.user_acl_fake_mode = false → interface.type = .VLAN →
      s.pcl.user_acl.vlan_ipcl_id interface.num ≠ 0 ∧
      ∀ d < c.NDEVS, ∀ bind ∈ (s.pcl.user_acl.devs d).bindings, bind.key.interface = interface →
        bind.key.destination = dest ∧ bind.key.acttype = action_type
  | _ => True

/-- New tables are those in use out of fake mode unless the unit is in it. -/
theorem setCurr_cases (p : Pcl) (t : AclState) :
    p.user_acl_fake_mode = true ∧ (p.setCurr t).user_acl = p.user_acl ∨
      p.user_acl_fake_mode = false ∧ (p.setCurr t).user_acl = t.acl := by
  unfold Pcl.setCurr
  cases p.user_acl_fake_mode with
  | true => exact .inl ⟨rfl, rfl⟩
  | false => exact .inr ⟨rfl, rfl⟩

/-- A call leaves the tables in use out of fake mode as they are, or it is one of the two. -/
theorem step_acl (h : s.step c op = some s') : s'.pcl.user_acl = s.pcl.user_acl ∧
      (∀ interface dest action_type, op = .resetRules interface dest action_type →
        s.pcl.user_acl_fake_mode = true) ∨
    s.pcl.user_acl_fake_mode = false ∧ ∃ t : AclState, s'.pcl.user_acl = t.acl ∧
      ((∃ a p r, op.rule? = some (a, p) ∧ s.pcl.curr.pclRuleSet c false a p = some (r, t)) ∨
      ∃ interface dest action_type, op = .resetRules interface dest action_type ∧
        s.pcl.curr.pclResetRules c false interface dest action_type = some t) := by
  obtain ⟨devs, hs⟩ := step_pcl c h
  have hrule (a : RuleArgs) (p : RuleParams) (hop : op.rule? = some (a, p))
      (hs : (s.pcl.curr.pclRuleSet c s.pcl.user_acl_fake_mode a p).map
        (fun x => (x.1.devs, s.pcl.setCurr x.2)) = some (devs, s'.pcl)) :
      s'.pcl.user_acl = s.pcl.user_acl ∧ (∀ interface dest action_type,
        op = .resetRules interface dest action_type → s.pcl.user_acl_fake_mode = true) ∨
      s.pcl.user_acl_fake_mode = false ∧ ∃ t : AclState, s'.pcl.user_acl = t.acl ∧
        ((∃ a p r, op.rule? = some (a, p) ∧ s.pcl.curr.pclRuleSet c false a p = some (r, t)) ∨
        ∃ interface dest action_type, op = .resetRules interface dest action_type ∧
          s.pcl.curr.pclResetRules c false interface dest action_type = some t) := by
    obtain ⟨⟨r, t⟩, hset, heq⟩ := Option.map_eq_some_iff.mp hs
    have hpcl : s.pcl.setCurr t = s'.pcl := congrArg Prod.snd heq
    rcases setCurr_cases s.pcl t with ⟨hfake, hacl⟩ | ⟨hfake, hacl⟩
    · exact .inl ⟨hpcl ▸ hacl, fun _ _ _ _ => hfake⟩
    · rw [hfake] at hset
      exact .inr ⟨hfake, t, hpcl ▸ hacl, .inl ⟨a, p, r, hop, hset⟩⟩
  cases op with
  | ipRuleSet a rule => exact hrule a (.ip rule) rfl hs
  | macRuleSet a rule => exact hrule a (.mac rule) rfl hs
  | ipv6RuleSet a rule => exact hrule a (.ipv6 rule) rfl hs
  | resetRules interface dest action_type =>
    obtain ⟨t, hset, heq⟩ := Option.map_eq_some_iff.mp hs
    have hpcl : s.pcl.setCurr t = s'.pcl := congrArg Prod.snd heq
    rcases setCurr_cases s.pcl t with ⟨hfake, hacl⟩ | ⟨hfake, hacl⟩
    · exact .inl ⟨hpcl ▸ hacl, fun _ _ _ _ => hfake⟩
    · rw [hfake] at hset
      exact .inr ⟨hfake, t, hpcl ▸ hacl, .inr ⟨interface, dest, action_type, rfl, hset⟩⟩
  | setFakeModeEnabled enable =>
    have hacl := congrArg (fun x => x.2.user_acl) (Option.some_inj.mp hs)
    refine .inl ⟨hacl.symm.trans ?_, fun _ _ _ hno => by cases hno⟩
    cases enable <;> rfl

theorem curr_acl (hfake : s.pcl.user_acl_fake_mode = false) : s.pcl.curr.acl = s.pcl.user_acl := by
  unfold Pcl.curr
  rw [hfake]
  rfl

/-- Setting a rule keeps the ids right. -/
theorem ownIds_set (hord : s.Ordered c) (h : s.pcl.user_acl.OwnIds c) (hs : s.step c op = some s')
    (hfake : s.pcl.user_acl_fake_mode = false) {t : AclState} (hacl : s'.pcl.user_acl = t.acl)
    {a : RuleArgs} {p : RuleParams} {r : AclState.Report} (hop : op.rule? = some (a, p))
    (hset : s.pcl.curr.pclRuleSet c false a p = some (r, t)) : s'.pcl.user_acl.OwnIds c := by
  obtain ⟨hids, hdev⟩ := AclState.pclRuleSet_ids hset
  rw [curr_acl hfake] at hids hdev
  rw [hacl]
  refine UserAcl.OwnIds.of_divides (hids.divides h.divides) fun d hd bind hbind htype => ?_
  have hmem := (step_user hs d).mem_bindings (hord.user d) (k := bind.key)
    (List.mem_map_of_mem (by rw [userDev, hacl]; exact hbind))
  obtain hold | ⟨a', p', hop', hkey⟩ := hmem
  · obtain ⟨bind', hbind', hkey⟩ := List.mem_map.mp hold
    refine hids.ne_zero ?_
    rw [← hkey] at htype ⊢
    exact h.live d hd bind' hbind' htype
  · obtain ⟨rfl, -⟩ := Prod.mk.inj (Option.some_inj.mp (hop.symm.trans hop'))
    have hinterface : bind.key.interface = a.interface := congrArg RuleBindingKey.interface hkey
    obtain hsame | hid := hdev
    · -- the rule was refused before the devices, and the binding was there
      have hsw : t.acl.devs d = s.pcl.user_acl.devs d := by
        rw [← curr_acl hfake]
        exact congrArg PclDev.sw (hsame d)
      rw [hsw] at hbind
      exact hids.ne_zero (h.live d hd bind hbind htype)
    · rw [hinterface] at htype ⊢
      obtain hne | hfree := hid htype
      · exact hne
      · exact ((h.divides.cover _).mpr (.inl hfree)).ne_zero

section Reset

variable {interface : PclInterface} {dest : PclDest} {action_type : PclActionType} {t : AclState}

/-- A reset of a VLAN keeps the ids right if and only if it is sparing. -/
theorem ownIds_reset_iff (hord : s.Ordered c) (h : s.pcl.user_acl.OwnIds c)
    (hfake : s.pcl.user_acl_fake_mode = false) (htype : interface.type = .VLAN)
    (hreset : s.pcl.curr.pclResetRules c false interface dest action_type = some t) :
    t.acl.OwnIds c ↔ Sparing c s (.resetRules interface dest action_type) := by
  obtain ⟨hpcl, hvlan, hdevs⟩ := AclState.pclResetRules_vlan htype hreset
  rw [curr_acl hfake] at hpcl hvlan
  -- the rules that are left are those that the reset does not hit
  have hmem (d : ℕ) (hd : d < c.NDEVS) (k : RuleBindingKey) :
      k ∈ (t.acl.devs d).bindings.map RuleBinding.key ↔
        k ∈ (s.pcl.user_acl.devs d).bindings.map RuleBinding.key ∧
          PclDev.resets interface dest action_type k = false := by
    have hdev : (t.dev d).sw.bindings = ((s.pcl.curr.dev d).resetRules false interface dest
      action_type).sw.bindings := by rw [hdevs d hd]
    have hsw : (s.pcl.curr.dev d).sw = s.pcl.user_acl.devs d := by
      rw [← curr_acl hfake]
      rfl
    show k ∈ (t.dev d).sw.bindings.map RuleBinding.key ↔ _
    rw [hdev, ← hsw]
    exact PclDev.mem_resetRules (hsw ▸ hord.user d)
  constructor
  · intro h' _ _
    refine ⟨fun hzero => ?_, fun d hd bind hbind hinterface => ?_⟩
    · -- the VLAN had no id, and zero is on the stack now
      have hdiv := h'.divides
      rw [hpcl, hzero] at hdiv
      exact Owned.not_divides_cons (fun hid => hid.ne_zero rfl) hdiv
    · by_contra hno
      have hres : PclDev.resets interface dest action_type bind.key = false := by
        unfold PclDev.resets
        rw [decide_eq_true hinterface, Bool.true_and, Bool.and_eq_false_iff]
        rcases not_and_or.mp hno with hdest | hact
        · exact .inl (decide_eq_false hdest)
        · exact .inr (decide_eq_false hact)
      obtain ⟨bind', hbind', hkey⟩ := List.mem_map.mp
        ((hmem d hd bind.key).mpr ⟨List.mem_map_of_mem hbind, hres⟩)
      have hint' : bind'.key.interface = interface := hkey ▸ hinterface
      refine h'.live d hd bind' hbind' (hint' ▸ htype) ?_
      rw [hvlan, hint', update_self]
  · -- the id goes back, and no rule of the VLAN is left
    intro hsparing
    obtain ⟨hne, hall⟩ := hsparing hfake htype
    refine UserAcl.OwnIds.of_divides ?_ fun d hd bind hbind hvlantype => ?_
    · rw [hpcl, UserAcl.ownId_update hvlan, if_pos rfl]
      exact h.divides.give (UserAcl.ownId_eq_some.mpr ⟨hne, rfl⟩)
    · obtain ⟨hold, hres⟩ := (hmem d hd bind.key).mp (List.mem_map_of_mem hbind)
      obtain ⟨bind', hbind', hkey⟩ := List.mem_map.mp hold
      -- a rule that is left is of another VLAN: those of this one are all reset
      have hother : bind.key.interface.num ≠ interface.num := by
        intro hnum
        have hinterface : bind.key.interface = interface := by
          rw [PclInterface.mk.injEq]
          exact ⟨hvlantype.trans htype.symm, hnum⟩
        obtain ⟨hdest, hact⟩ := hall d hd bind' hbind' (hkey ▸ hinterface)
        rw [hkey] at hdest hact
        unfold PclDev.resets at hres
        rw [decide_eq_true hinterface, decide_eq_true hdest, decide_eq_true hact] at hres
        exact absurd hres (by decide)
      rw [hvlan, update_of_ne hother]
      rw [← hkey] at hvlantype ⊢
      exact h.live d hd bind' hbind' hvlantype

end Reset

/-- In a state with the right ids, a call keeps them right if and only if it is sparing. -/
theorem ownIds_step_iff (hord : s.Ordered c) (h : s.pcl.user_acl.OwnIds c)
    (hs : s.step c op = some s') : s'.pcl.user_acl.OwnIds c ↔ Sparing c s op := by
  obtain ⟨hacl, hreset⟩ | ⟨hfake, t, hacl, ⟨a, p, r, hop, hset⟩ |
    ⟨interface, dest, action_type, rfl, hreset⟩⟩ := step_acl hs
  · refine iff_of_true (hacl ▸ h) ?_
    cases op with
    | resetRules interface dest action_type =>
      intro hfake
      have htrue := hreset interface dest action_type rfl
      exact absurd (hfake.symm.trans htrue) (by decide)
    | _ => trivial
  · refine iff_of_true (ownIds_set hord h hs hfake hacl hop hset) ?_
    cases op with
    | resetRules interface dest action_type => exact absurd hop (Option.some_ne_none _).symm
    | _ => trivial
  · rw [hacl]
    by_cases htype : interface.type = .VLAN
    · exact ownIds_reset_iff hord h hfake htype hreset
    · refine iff_of_true ?_ fun _ hvlan => absurd hvlan htype
      obtain ⟨hpcl, hvlan⟩ := AclState.pclResetRules_other htype hreset
      rw [curr_acl hfake] at hpcl hvlan
      -- a reset of a port leaves the ids of VLANs alone
      have hown : t.acl.ownId = s.pcl.user_acl.ownId :=
        funext fun vid => by rw [UserAcl.ownId, UserAcl.ownId, hvlan]
      refine UserAcl.OwnIds.of_divides ?_ fun d hd bind hbind hbtype => ?_
      · rw [hpcl, hown]
        exact h.divides
      · have hmem := (step_user hs d).mem_bindings (hord.user d) (k := bind.key)
          (List.mem_map_of_mem (by rw [userDev, hacl]; exact hbind))
        obtain hold | ⟨a, p, hop, -⟩ := hmem
        · obtain ⟨bind', hbind', hkey⟩ := List.mem_map.mp hold
          rw [hvlan]
          rw [← hkey] at hbtype ⊢
          exact h.live d hd bind' hbind' hbtype
        · exact absurd hop (Option.some_ne_none _).symm

theorem init_ownIds (c : AclConf) : (init c).pcl.user_acl.OwnIds c := by
  refine UserAcl.OwnIds.of_divides ⟨List.nodup_range', ?_, ?_, fun pcl_id => ?_⟩ ?_
  · exact fun _ _ _ h => absurd h (Option.some_ne_none _).symm
  · exact fun _ _ h => absurd h (Option.some_ne_none _).symm
  · have hno : ¬∃ vid, (init c).pcl.user_acl.ownId vid = some pcl_id := by
      rintro ⟨vid, h⟩
      exact absurd h (Option.some_ne_none _).symm
    show AclConf.VlanPclId c pcl_id ↔ pcl_id ∈ List.range' _ _ ∨ _
    rw [List.mem_range'_1]
    unfold AclConf.VlanPclId
    refine ⟨fun h => .inl (by omega), fun h => ?_⟩
    obtain h | h := h
    · omega
    · exact absurd h hno
  · exact fun _ _ bind h => absurd h List.not_mem_nil

/-- In every run of sparing calls the ids are right, and the next call keeps them right if and only
if it is sparing. -/
theorem ownIds_iff_sparing (hr : Guarded.Reach (AclLog.step c) (Sparing c) (init c) s) :
    s.pcl.user_acl.OwnIds c ∧
      ∀ op s', s.step c op = some s' → (s'.pcl.user_acl.OwnIds c ↔ Sparing c s op) := by
  have hinv := hr.invariant (fun s => s.Ordered c ∧ s.pcl.user_acl.OwnIds c)
    ⟨init_ordered c, init_ownIds c⟩ fun s op s' h hok hs =>
      ⟨h.1.step hs, (ownIds_step_iff h.1 h.2 hs).mpr hok⟩
  exact ⟨hinv.2, fun op s' hs => ownIds_step_iff hinv.1 hinv.2 hs⟩

instance (c : AclConf) (s : AclLog) : ∀ op, Decidable (Sparing c s op)
  | .ipRuleSet _ _ | .macRuleSet _ _ | .ipv6RuleSet _ _ | .setFakeModeEnabled _ => isTrue trivial
  | .resetRules interface dest action_type =>
    inferInstanceAs (Decidable (s.pcl.user_acl_fake_mode = false → interface.type = .VLAN →
      s.pcl.user_acl.vlan_ipcl_id interface.num ≠ 0 ∧
      ∀ d < c.NDEVS, ∀ bind ∈ (s.pcl.user_acl.devs d).bindings, bind.key.interface = interface →
        bind.key.destination = dest ∧ bind.key.acttype = action_type))

/-- Two rule sets of a VLAN, set while another VLAN comes and goes. -/
def twoSets : List PclOp :=
  [.macRuleSet ⟨[1], .ACL, 1, ⟨.VLAN, 6⟩, .EGRESS, .DENY⟩ anyMac,
    .macRuleSet ⟨[2], .ACL, 1, ⟨.VLAN, 5⟩, .INGRESS, .DENY⟩ anyMac,
    .macRuleSet ⟨[3], .POLICY, 1, ⟨.VLAN, 5⟩, .INGRESS, .PERMIT⟩ anyMac,
    .resetRules ⟨.VLAN, 6⟩ .EGRESS .ACL]

theorem ownIds_iff_sparing_twoSets : ∃ s : AclLog, s.pcl.user_acl.OwnIds twoPorts ∧
    s.pcl.user_acl.vlan_ipcl_id 5 = 5 ∧ s.pcl.user_acl.pcl_ids.take 2 = [4, 6] := by
  have hlast : (Guarded.run (AclLog.step twoPorts) (Sparing twoPorts) (init twoPorts) twoSets).map
      (fun s => (s.pcl.user_acl.vlan_ipcl_id 5, s.pcl.user_acl.pcl_ids.take 2)) =
          some (5, [4, 6]) := by
    decide +kernel
  obtain ⟨s, hs, hshown⟩ := Option.map_eq_some_iff.mp hlast
  obtain ⟨hid, hids⟩ := Prod.mk.inj hshown
  exact ⟨s, (ownIds_iff_sparing (Guarded.Reach.init.of_run hs)).1, hid, hids⟩

/-- A rule is set, or an interface is reset. -/
def isCall : PclOp → Bool
  | .setFakeModeEnabled _ => false
  | _ => true

/-- One of the rule sets of VLAN 5 is reset, and a rule of the other one stays, but the VLAN has no
id any more. -/
theorem not_ownIds : ¬∀ (c : AclConf) (s : AclLog),
    Guarded.Reach (AclLog.step c) (fun _ op => isCall op = true) (init c) s →
      s.pcl.user_acl.OwnIds c := by
  intro h
  have hlast : (Guarded.run (AclLog.step twoPorts) (fun _ op => isCall op = true) (init twoPorts)
      (twoSets ++ [.resetRules ⟨.VLAN, 5⟩ .INGRESS .ACL])).map (fun s =>
        (s.pcl.user_acl.vlan_ipcl_id 5, (s.pcl.user_acl.devs 0).bindings.map fun bind =>
          bind.key.interface)) = some (0, [⟨.VLAN, 5⟩]) := by
    decide +kernel
  obtain ⟨s, hs, hshown⟩ := Option.map_eq_some_iff.mp hlast
  obtain ⟨hid, hbind⟩ := Prod.mk.inj hshown
  obtain ⟨bind, hmem, hinterface⟩ := List.mem_map.mp (hbind ▸ List.mem_singleton_self _)
  have hlive := (h twoPorts s (Guarded.Reach.init.of_run hs)).live 0 Nat.one_pos bind hmem
  rw [hinterface] at hlive
  exact hlive rfl hid

end AclLog

end Presteramgr
