import Presteramgr.Port.Translation

/-!
# Runs of VLAN translations

The counters are right as long as no specific rule drops in place of one that maps, and a default
rule that maps to a VLAN is deleted before the rules of the port are cleared.

## Main definitions

* `Vt.Counted`: the counters are the numbers of rules;
* `VtOp`, `Vt.call`: a run;
* `Vt.Ok`: what a call must meet.

## Main results

* `Vt.translations_counted`: then the counters are right in every state reached, every call returns,
  and the deletion of a rule that is not there changes nothing;
* `Vt.not_translations_counted`: a specific rule that drops in place of one that maps.
-/

namespace Presteramgr

open Function (update update_self update_of_ne)

namespace VtPort

/-- The rules of a port and its counters. Specific rules do not drop. -/
structure Wf (p : VtPort) : Prop where
  clean : ∀ ix, (p.vlan_conf ix).map_to = (p.rule (ix + 1)).getD 0
  valid : ∀ ix toVid, p.rule (ix + 1) = some toVid → ix < 4094 ∧ vlanValid toVid
  def_valid : ∀ toVid, p.rule 0 = some toVid → toVid = 0 ∨ vlanValid toVid
  exact : Tally.Exact p.target p.refcAt

/-- A port without rules whose counters are 0. -/
theorem wf_of_no_rules {p : VtPort} (hr : ∀ fromVid, p.rule fromVid = none)
    (hclean : ∀ ix, (p.vlan_conf ix).map_to = 0) (hrefc : ∀ toVid, p.refcAt toVid = 0) : p.Wf := by
  have hno : ∀ {fromVid toVid : ℕ} {P : Prop}, p.rule fromVid = some toVid → P := fun h => by
    rw [hr] at h
    exact absurd h.symm (Option.some_ne_none _)
  refine ⟨fun ix => ?_, fun ix toVid h => hno h, fun toVid h => hno h, fun toVid => ?_⟩
  · rw [hclean, hr]
    rfl
  · rw [hrefc, Tally.tally_eq_zero fun j h => hno (target_eq_some_iff.mp h).1]
    rfl

/-- The ports are well formed after the start. -/
theorem wf_start (stack : Bool) : (start stack).Wf :=
  wf_of_no_rules (fun fromVid => by simp [rule, start]) (fun _ => rfl) fun toVid => by
    simp [refcAt, start]

variable {p : VtPort}

/-- A counter has twelve bits. -/
theorem Wf.refcAt_lt (hw : p.Wf) (toVid : ℕ) : p.refcAt toVid < 4096 := by
  rw [hw.exact toVid]
  have hle : Tally.tally p.target toVid ≤ 4095 :=
    Tally.tally_le_card.trans_eq (Fintype.card_fin 4095)
  omega

/-- The counter of a VLAN that a rule maps to is not 0. -/
theorem Wf.refcAt_pos (hw : p.Wf) {fromVid toVid : ℕ} (hlt : fromVid < 4095)
    (hr : p.rule fromVid = some toVid) (ht : toVid ≠ 0) : 0 < p.refcAt toVid :=
  hw.exact.pos (i := ⟨fromVid, hlt⟩) (target_eq_some_iff.mpr ⟨hr, ht⟩)

/-- The counter of a VLAN that a rule does not map to is below its maximum. -/
theorem Wf.refcAt_lt_of_ne (hw : p.Wf) {fromVid toVid : ℕ} (hlt : fromVid < 4095)
    (hne : p.rule fromVid ≠ some toVid) : p.refcAt toVid < 4095 := by
  have hne : p.target ⟨fromVid, hlt⟩ ≠ some toVid := fun h => hne (target_eq_some_iff.mp h).1
  rw [hw.exact toVid]
  have hlt : Tally.tally p.target toVid < 4095 :=
    (Tally.tally_lt_card hne).trans_eq (Fintype.card_fin 4095)
  omega

end VtPort

namespace Vt

variable {c : VtConf} {s s' s'' : Vt} {i : ℕ}

/-- The counters are right. -/
structure Counted (c : VtConf) (s : Vt) : Prop where
  refc : ∀ i < c.nports, ∀ toVid, vlanValid toVid →
    ((s.ports i).vlan_conf (toVid - 1)).refc = (s.ports i).nrules toVid
  vt_refc : ∀ toVid, vlanValid toVid → s.vt_refc (toVid - 1) =
    ∑ i ∈ Finset.range c.nports, (((s.ports i).vlan_conf (toVid - 1)).refc : ℤ)

/-- What the calls keep. -/
structure Inv (c : VtConf) (s : Vt) : Prop where
  wf : ∀ i, (s.ports i).Wf
  sum : ∀ toVid, toVid ≠ 0 → s.vt_refc (toVid - 1) =
    ∑ i ∈ Finset.range c.nports, (s.ports i).refcAt toVid

/-- Nothing is counted after the start. -/
theorem inv_start (stack : ℕ → Bool) (tunnel : Bool) : Inv c (start stack tunnel) where
  wf i := VtPort.wf_start (stack i)
  sum toVid ht := by simp [start, VtPort.start, VtPort.refcAt]

/-- Where the invariant holds the counters are those of the rules. -/
theorem Inv.counted (hi : Inv c s) : Counted c s where
  refc i _ toVid ht := by
    have ht : toVid ≠ 0 := Nat.pos_iff_ne_zero.mp ht.1
    have hexact := (hi.wf i).exact toVid
    rw [VtPort.tally_target ht] at hexact
    unfold VtPort.refcAt at hexact
    rw [if_neg ht] at hexact
    exact_mod_cast hexact
  vt_refc toVid ht := by
    have ht : toVid ≠ 0 := Nat.pos_iff_ne_zero.mp ht.1
    rw [hi.sum toVid ht]
    refine Finset.sum_congr rfl fun i _ => ?_
    unfold VtPort.refcAt
    rw [if_neg ht]

/-! ## Changes of a port -/

/-- Port `i` gets the rules `r`, and the counters of the port and of the VLANs change by `d`. -/
structure Shift (i : ℕ) (r : ℕ → Option ℕ) (d : ℕ → ℤ) (s s' : Vt) : Prop where
  other : ∀ i' ≠ i, s'.ports i' = s.ports i'
  mode : (s'.ports i).mode = (s.ports i).mode
  rule : (s'.ports i).rule = r
  clean : (∀ ix, ((s.ports i).vlan_conf ix).map_to = ((s.ports i).rule (ix + 1)).getD 0) →
    ∀ ix, ((s'.ports i).vlan_conf ix).map_to = (r (ix + 1)).getD 0
  refc : ∀ toVid, (s'.ports i).refcAt toVid = (s.ports i).refcAt toVid + d toVid
  vt_refc : ∀ toVid, toVid ≠ 0 → s'.vt_refc (toVid - 1) = s.vt_refc (toVid - 1) + d toVid

/-- Nothing has changed. -/
theorem Shift.refl (i : ℕ) (s : Vt) : Shift i (s.ports i).rule (fun _ => 0) s s where
  other _ _ := rfl
  mode := rfl
  rule := rfl
  clean hc := hc
  refc _ := (add_zero _).symm
  vt_refc _ _ := (add_zero _).symm

/-- Two changes at a port are one. -/
theorem Shift.trans {r r' : ℕ → Option ℕ} {d d' : ℕ → ℤ} (h : Shift i r d s s')
    (h' : Shift i r' d' s' s'') : Shift i r' (fun t => d t + d' t) s s'' where
  other i' hi' := (h'.other i' hi').trans (h.other i' hi')
  mode := h'.mode.trans h.mode
  rule := h'.rule
  clean hc := h'.clean (h.rule ▸ h.clean hc)
  refc toVid := by rw [h'.refc, h.refc, add_assoc]
  vt_refc toVid ht := by rw [h'.vt_refc toVid ht, h.vt_refc toVid ht, add_assoc]

/-- A change may be named in another way. -/
theorem Shift.congr {r r' : ℕ → Option ℕ} {d d' : ℕ → ℤ} (h : Shift i r d s s') (hr : r = r')
    (hd : ∀ t, d t = d' t) : Shift i r' d' s s' := by
  obtain rfl := hr
  obtain rfl : d = d' := funext hd
  exact h

/-- The sums change with the counters of the port. -/
theorem Shift.inv {r : ℕ → Option ℕ} {d : ℕ → ℤ} (h : Shift i r d s s') (hi : Inv c s)
    (hlt : i < c.nports) (hw : (s'.ports i).Wf) : Inv c s' := by
  refine ⟨fun i' => ?_, fun toVid ht => ?_⟩
  · by_cases hi' : i' = i
    · rw [hi']
      exact hw
    · rw [h.other i' hi']
      exact hi.wf i'
  · have hmem : i ∈ Finset.range c.nports := Finset.mem_range.mpr hlt
    have hrest : ∑ j ∈ Finset.range c.nports \ {i}, (s'.ports j).refcAt toVid =
        ∑ j ∈ Finset.range c.nports \ {i}, (s.ports j).refcAt toVid :=
      Finset.sum_congr rfl fun j hj => by
        have hne : j ≠ i := by simpa using (Finset.mem_sdiff.mp hj).2
        rw [h.other j hne]
    have hsum := hi.sum toVid ht
    rw [← Finset.sum_sdiff (Finset.singleton_subset_iff.mpr hmem), Finset.sum_singleton] at hsum ⊢
    rw [hrest, h.refc, h.vt_refc toVid ht, hsum, add_assoc]

/-- One more and one rule less, as the number of rules to a VLAN changes. -/
def delta (old new : Option ℕ) (toVid : ℕ) : ℤ :=
  (if new.filter (· ≠ 0) = some toVid then 1 else 0) -
    if old.filter (· ≠ 0) = some toVid then 1 else 0

/-- A rule changes, and the counters with it. -/
theorem Shift.wf {fromVid : ℕ} {x : Option ℕ} {d : ℕ → ℤ}
    (h : Shift i (update (s.ports i).rule fromVid x) d s s') (hw : (s.ports i).Wf)
    (hlt : fromVid < 4095) (hd : ∀ t, d t = delta ((s.ports i).rule fromVid) x t)
    (hx : ∀ toVid, x = some toVid → vlanValid toVid ∨ fromVid = 0 ∧ toVid = 0) :
    (s'.ports i).Wf := by
  refine ⟨fun ix => ?_, fun ix toVid hr => ?_, fun toVid hr => ?_, ?_⟩
  · rw [h.rule]
    exact h.clean hw.clean ix
  · rw [h.rule] at hr
    by_cases hix : ix + 1 = fromVid
    · subst hix
      rw [update_self] at hr
      exact ⟨by omega, (hx toVid hr).resolve_right fun h => absurd h.1 (Nat.succ_ne_zero ix)⟩
    · rw [update_of_ne hix] at hr
      exact hw.valid ix toVid hr
  · rw [h.rule] at hr
    by_cases h0 : 0 = fromVid
    · subst h0
      rw [update_self] at hr
      exact (hx toVid hr).symm.imp_left And.right
    · rw [update_of_ne h0] at hr
      exact hw.def_valid toVid hr
  · have htarget : (s'.ports i).target =
        update (s.ports i).target ⟨fromVid, hlt⟩ (x.filter (· ≠ 0)) := by
      funext j
      unfold VtPort.target
      rw [h.rule]
      by_cases hj : j = ⟨fromVid, hlt⟩
      · subst hj
        rw [update_self, update_self]
      · have hne : (j : ℕ) ≠ fromVid := fun h => hj (Fin.ext h)
        rw [update_of_ne hne, update_of_ne hj]
    rw [htarget]
    refine hw.exact.update ⟨fromVid, hlt⟩ _ fun t => ?_
    rw [h.refc, hd]
    unfold delta VtPort.target
    rw [add_assoc, sub_add_cancel]

/-! ### The steps of a change -/

/-- A counter of the unit changes at one VLAN. -/
theorem update_vt_refc {f : ℕ → ℤ} {toVid : ℕ} (ht : toVid ≠ 0) (n : ℤ) {vid : ℕ} (hv : vid ≠ 0) :
    update f (toVid - 1) (f (toVid - 1) + n) (vid - 1) =
      f (vid - 1) + if vid = toVid then n else 0 := by
  by_cases hvid : vid = toVid
  · subst hvid
    simp
  · have hne : vid - 1 ≠ toVid - 1 := by omega
    rw [update_of_ne hne, if_neg hvid, add_zero]

/-- A counter of the port and that of the VLAN are written. -/
theorem shift_conf {toVid : ℕ} (ht : toVid ≠ 0) {f : PortVlanConf → PortVlanConf}
    (hf : ∀ c, (f c).xlate = c.xlate ∧ (f c).map_to = c.map_to) {n : ℤ}
    (hn : ((f ((s.ports i).vlan_conf (toVid - 1))).refc : ℤ) = (s.ports i).refcAt toVid + n)
    (hports : s'.ports = update s.ports i ((s.ports i).conf (toVid - 1) f))
    (hvt : s'.vt_refc = update s.vt_refc (toVid - 1) (s.vt_refc (toVid - 1) + n)) :
    Shift i (s.ports i).rule (fun vid => if vid = toVid then n else 0) s s' := by
  have hport : s'.ports i = (s.ports i).conf (toVid - 1) f := by rw [hports, update_self]
  refine ⟨fun i' hi' => by rw [hports, update_of_ne hi'], ?_, ?_, fun hc ix => ?_, fun vid => ?_,
    fun vid hv => by rw [hvt, update_vt_refc ht n hv]⟩
  all_goals rw [hport]
  · rfl
  · exact VtPort.rule_conf _ hf
  · rw [← hc ix, VtPort.conf_vlan_conf]
    by_cases hix : ix = toVid - 1
    · rw [hix, update_self, (hf _).2]
    · rw [update_of_ne hix]
  · rw [VtPort.refcAt_conf ht]
    split_ifs with hvid
    · rw [hn, hvid]
    · rw [add_zero]

/-- A counter below its maximum goes up. -/
theorem shift_incr {toVid : ℕ} (ht : toVid ≠ 0) (hlt : (s.ports i).refcAt toVid < 4095) :
    Shift i (s.ports i).rule (fun vid => if vid = toVid then 1 else 0) s (s.incr i toVid) := by
  refine shift_conf ht PortVlanConf.incr_rule ?_ rfl rfl
  unfold VtPort.refcAt at *
  rw [if_neg ht] at *
  rw [PortVlanConf.incr_refc]
  omega

/-- A counter above 0 goes down. -/
theorem shift_decr (toVid : ℕ) (hpos : 0 < (s.ports i).refcAt toVid)
    (hlt : (s.ports i).refcAt toVid < 4096) :
    Shift i (s.ports i).rule (fun vid => if vid = toVid then -1 else 0) s (s.decr i toVid) := by
  have ht : toVid ≠ 0 := by
    rintro rfl
    rw [VtPort.refcAt, if_pos rfl] at hpos
    exact lt_irrefl _ hpos
  have hvt : (s.decr i toVid).vt_refc =
      update s.vt_refc (toVid - 1) (s.vt_refc (toVid - 1) + -1) := by
    rw [← sub_eq_add_neg]
    rfl
  refine shift_conf ht PortVlanConf.decr_rule ?_ rfl hvt
  unfold VtPort.refcAt at *
  rw [if_neg ht] at *
  rw [PortVlanConf.decr_refc]
  omega

/-- A specific rule is written. -/
theorem shift_setRule (ix : ℕ) (xlate : Bool) {map_to : ℕ} (hm : xlate = false → map_to = 0) :
    Shift i (update (s.ports i).rule (ix + 1) (if xlate then some map_to else none)) (fun _ => 0) s
      (s.port i (·.setRule ix xlate map_to)) := by
  have hports : (s.port i (·.setRule ix xlate map_to)).ports i =
      (s.ports i).setRule ix xlate map_to := update_self _ _ _
  refine ⟨fun i' hi' => update_of_ne hi' _ _, ?_, ?_, fun hc ix' => ?_, fun vid => ?_, fun vid hv =>
    (add_zero _).symm⟩
  all_goals rw [hports]
  · rfl
  · funext fromVid
    rw [VtPort.rule_setRule]
    by_cases hix : fromVid = ix + 1
    · subst hix
      rw [if_pos rfl, update_self]
    · rw [if_neg hix, update_of_ne hix]
  · rw [VtPort.setRule_vlan_conf]
    by_cases hix : ix' = ix
    · subst hix
      rw [update_self, update_self]
      cases xlate with
      | true => rfl
      | false => exact hm rfl
    · rw [update_of_ne hix, update_of_ne (by omega), hc]
  · rw [VtPort.refcAt_setRule, add_zero]

/-- Setting a rule counts nothing by itself. -/
theorem shift_addRule (ix toVid : ℕ) (s : Vt) :
    Shift i (update (s.ports i).rule (ix + 1) (some toVid)) (fun _ => 0) s
      (s.port i (·.setRule ix true toVid)) :=
  shift_setRule ix true fun h => absurd h.symm Bool.false_ne_true

/-- Deleting a rule counts nothing by itself. -/
theorem shift_delRule (ix : ℕ) (s : Vt) :
    Shift i (update (s.ports i).rule (ix + 1) none) (fun _ => 0) s
      (s.port i (·.setRule ix false 0)) :=
  shift_setRule ix false fun _ => rfl

/-- The default rule is written. -/
theorem shift_setDef (xlate : Bool) (map_to : ℕ) (s : Vt) :
    Shift i (update (s.ports i).rule 0 (if xlate then some map_to else none)) (fun _ => 0) s
      (s.port i (·.setDef xlate map_to)) := by
  have hports : (s.port i (·.setDef xlate map_to)).ports i =
      (s.ports i).setDef xlate map_to := update_self _ _ _
  refine ⟨fun i' hi' => update_of_ne hi' _ _, ?_, ?_, fun hc ix' => ?_, fun vid => ?_, fun vid hv =>
    (add_zero _).symm⟩
  all_goals rw [hports]
  · rfl
  · funext fromVid
    rw [VtPort.rule_setDef]
    by_cases h0 : fromVid = 0
    · subst h0
      rw [if_pos rfl, update_self]
    · rw [if_neg h0, update_of_ne h0]
  · rw [update_of_ne (Nat.succ_ne_zero ix')]
    exact hc ix'
  · rw [VtPort.refcAt_setDef, add_zero]

/-! ## The calls -/

/-- A rule changes as the guard of its call admits. -/
theorem Shift.step {fromVid : ℕ} {x : Option ℕ} {d : ℕ → ℤ}
    (h : Shift i (update (s.ports i).rule fromVid x) d s s') (hi : Inv c s) (hlt : i < c.nports)
    (hf : fromVid < 4095) (hd : ∀ t, d t = delta ((s.ports i).rule fromVid) x t)
    (hx : ∀ toVid, x = some toVid → vlanValid toVid ∨ fromVid = 0 ∧ toVid = 0) : Inv c s' :=
  h.inv hi hlt (h.wf (hi.wf i) hf hd hx)

/-- What a rule with the target `toVid`, none standing for 0, adds to the counters. -/
def unit (toVid : ℕ) (n : ℤ) (t : ℕ) : ℤ := if toVid ≠ 0 ∧ t = toVid then n else 0

/-- A rule that is replaced counts its old VLAN down and its new one up. -/
theorem delta_eq (old new : Option ℕ) (t : ℕ) :
    delta old new t = unit (old.getD 0) (-1) t + unit (new.getD 0) 1 t := by
  have hone : ∀ x : Option ℕ, (if x.filter (· ≠ 0) = some t then (1 : ℤ) else 0) =
      if x.getD 0 ≠ 0 ∧ t = x.getD 0 then 1 else 0 := by
    intro x
    cases x with
    | none => simp
    | some m =>
      by_cases hm : m = 0
      · subst hm
        rfl
      · have hfilter : (some m).filter (· ≠ 0) = some m := by simp [Option.filter, hm]
        rw [hfilter, Option.getD_some]
        simp [hm, eq_comm]
  unfold delta unit
  rw [hone, hone]
  split_ifs <;> rfl

/-- The counter of the target of a rule that changes goes down, if it has one. -/
theorem shift_old (hw : (s.ports i).Wf) {fromVid m : ℕ} (hf : fromVid < 4095)
    (hm : ((s.ports i).rule fromVid).getD 0 = m) :
    Shift i (s.ports i).rule (unit m (-1)) s (if m ≠ 0 then s.decr i m else s) := by
  by_cases h0 : m = 0
  · have hzero : unit m (-1) = fun _ => 0 := by
      funext t
      simp [unit, h0]
    rw [if_neg (not_not.mpr h0), hzero]
    exact .refl i s
  · have hr : (s.ports i).rule fromVid = some m := by
      cases hr : (s.ports i).rule fromVid with
      | none =>
        rw [hr] at hm
        exact absurd hm.symm h0
      | some m' =>
        rw [hr] at hm
        exact congrArg some hm
    have hunit : unit m (-1) = fun t => if t = m then -1 else 0 := by
      funext t
      simp [unit, h0]
    rw [if_pos h0, hunit]
    exact shift_decr _ (hw.refcAt_pos hf hr h0) (hw.refcAt_lt m)

/-- The counter of the target of a new rule goes up, if it has one. -/
theorem shift_new {m : ℕ} (hlt : m ≠ 0 → (s.ports i).refcAt m < 4095) :
    Shift i (s.ports i).rule (unit m 1) s (if m ≠ 0 then s.incr i m else s) := by
  by_cases h0 : m = 0
  · have hzero : unit m 1 = fun _ => 0 := by
      funext t
      simp [unit, h0]
    rw [if_neg (not_not.mpr h0), hzero]
    exact .refl i s
  · have hunit : unit m 1 = fun t => if t = m then 1 else 0 := by
      funext t
      simp [unit, h0]
    rw [if_pos h0, hunit]
    exact shift_incr h0 (hlt h0)

/-- A rule is replaced: the counter of its old target goes down, and that of its new one up. -/
theorem replace_inv (hi : Inv c s) (hlt : i < c.nports) {fromVid toVid old : ℕ} {x : Option ℕ}
    {write : VtPort → VtPort} (hf : fromVid < 4095)
    (hwrite : ∀ s : Vt, Shift i (update (s.ports i).rule fromVid x) (fun _ => 0) s (s.port i write))
    (hold : ((s.ports i).rule fromVid).getD 0 = old) (hnew : x.getD 0 = toVid)
    (hx : ∀ t, x = some t → vlanValid t ∨ fromVid = 0 ∧ t = 0)
    (hne : toVid ≠ 0 → (s.ports i).rule fromVid ≠ some toVid) :
    Inv c (if toVid ≠ 0 then ((if old ≠ 0 then s.decr i old else s).port i write).incr i toVid
      else (if old ≠ 0 then s.decr i old else s).port i write) := by
  have hw := hi.wf i
  have h₁ := shift_old hw hf hold
  have h₂ := hwrite (if old ≠ 0 then s.decr i old else s)
  rw [h₁.rule] at h₂
  have h₁₂ := h₁.trans h₂
  -- the old rule did not map to the new target, so its counter is below its maximum
  have hroom : toVid ≠ 0 →
      (((if old ≠ 0 then s.decr i old else s).port i write).ports i).refcAt toVid < 4095 := by
    intro h0
    rw [h₁₂.refc]
    have hlt := hw.refcAt_lt_of_ne hf (hne h0)
    have hle : unit old (-1) toVid ≤ 0 := by
      unfold unit
      split_ifs <;> omega
    omega
  have h₃ := shift_new hroom
  rw [h₁₂.rule] at h₃
  refine (h₁₂.trans h₃).step hi hlt hf (fun t => ?_) hx
  rw [delta_eq, hold, hnew, add_zero]

/-- The VLAN that a rule maps to, 0 standing for none, is valid if it is not 0. -/
theorem vlanValid_iff (hw : (s.ports i).Wf) {fromVid m : ℕ}
    (hm : ((s.ports i).rule fromVid).getD 0 = m) : vlanValid m ↔ m ≠ 0 := by
  refine ⟨fun h => Nat.pos_iff_ne_zero.mp h.1, fun h0 => ?_⟩
  cases hr : (s.ports i).rule fromVid with
  | none =>
    rw [hr] at hm
    exact absurd hm.symm h0
  | some m' =>
    rw [hr] at hm
    obtain rfl : m' = m := hm
    cases fromVid with
    | zero => exact (hw.def_valid m' hr).resolve_left h0
    | succ ix => exact (hw.valid ix m' hr).2

/-- **Step.** Adding a rule keeps the counters right. -/
theorem addSpecific_inv (hi : Inv c s) (hlt : i < c.nports) {fromVid toVid : ℕ}
    (hf : vlanValid fromVid) (ht : vlanValid toVid) :
    ∃ s', s.addSpecific i fromVid toVid = some s' ∧ Inv c s' := by
  obtain ⟨ix, rfl⟩ : ∃ ix, fromVid = ix + 1 := ⟨fromVid - 1, by have := hf.1; omega⟩
  have ht0 : toVid ≠ 0 := Nat.pos_iff_ne_zero.mp ht.1
  have hold := ((hi.wf i).clean ix).symm
  have hlt' : ix + 1 < 4095 := hf.2
  unfold addSpecific
  simp only [Nat.add_sub_cancel]
  by_cases heq : ((s.ports i).vlan_conf ix).map_to = toVid
  · rw [if_pos heq]
    exact ⟨s, rfl, hi⟩
  · rw [if_neg heq, if_neg ht0]
    refine ⟨_, rfl, ?_⟩
    have hinv := replace_inv hi hlt hlt' (shift_addRule ix toVid) hold Option.getD_some
      (fun t h => .inl (Option.some_inj.mp h ▸ ht)) fun _ h => by
        rw [h] at hold
        exact heq hold.symm
    rw [if_pos ht0] at hinv
    simpa only [vlanValid_iff (hi.wf i) hold] using hinv

/-- **Step.** Setting the default rule keeps the counters right. -/
theorem addDefault_inv (hi : Inv c s) (hlt : i < c.nports) {toVid : ℕ}
    (ht : toVid = 0 ∨ vlanValid toVid) : Inv c (s.addDefault i toVid) := by
  have ht0 : vlanValid toVid ↔ toVid ≠ 0 :=
    ⟨fun h => Nat.pos_iff_ne_zero.mp h.1, ht.resolve_left⟩
  have hrule := (s.ports i).rule_zero
  unfold addDefault
  simp only
  by_cases heq : (s.ports i).def_xlate = true ∧ (s.ports i).def_map_to = toVid
  · rw [if_pos heq]
    exact hi
  · rw [if_neg heq]
    have hne : toVid ≠ 0 → (s.ports i).rule 0 ≠ some toVid := by
      rintro - h
      rw [hrule] at h
      split_ifs at h with hx
      exact heq ⟨hx, Option.some_inj.mp h⟩
    have hinv : ∀ old, ((s.ports i).rule 0).getD 0 = old → _ := fun old hold =>
      replace_inv (x := some toVid) hi hlt (by omega) (shift_setDef true toVid) hold
        Option.getD_some (fun t h => by
          obtain rfl : toVid = t := Option.some_inj.mp h
          exact ht.symm.imp_right fun h => ⟨rfl, h⟩) hne
    simp only [ht0]
    cases hx : (s.ports i).def_xlate with
    | true =>
      have hold : ((s.ports i).rule 0).getD 0 = (s.ports i).def_map_to := by
        rw [hrule, if_pos hx, Option.getD_some]
      simpa only [true_and, vlanValid_iff (hi.wf i) hold] using hinv _ hold
    | false =>
      have hold : ((s.ports i).rule 0).getD 0 = 0 := by
        rw [hrule, hx]
        rfl
      simpa only [Bool.false_eq_true, false_and, if_false, ne_eq, not_true] using hinv 0 hold

/-- A rule that is there is deleted. -/
theorem delRule_inv (hi : Inv c s) (hlt : i < c.nports) {fromVid : ℕ}
    (hf : fromVid = 0 ∨ vlanValid fromVid) :
    ∃ s', s.delRule i fromVid = some s' ∧ Inv c s' := by
  have hw := hi.wf i
  unfold delRule
  simp only
  by_cases hx : fromVid ≠ 0 ∧ ((s.ports i).vlan_conf (fromVid - 1)).xlate = true
  · obtain ⟨ix, rfl⟩ : ∃ ix, fromVid = ix + 1 := ⟨fromVid - 1, by omega⟩
    rw [if_pos hx]
    simp only [Nat.add_sub_cancel] at hx ⊢
    have hr : (s.ports i).rule (ix + 1) = some ((s.ports i).vlan_conf ix).map_to := by
      rw [VtPort.rule_succ, if_pos hx.2]
    obtain ⟨hix, hvalid⟩ := hw.valid ix _ hr
    have ht0 := Nat.pos_iff_ne_zero.mp hvalid.1
    rw [if_neg ht0]
    refine ⟨_, rfl, ?_⟩
    have h₁ := shift_delRule (i := i) ix s
    have hsame : ((s.port i (·.setRule ix false 0)).ports i).refcAt
        ((s.ports i).vlan_conf ix).map_to =
        (s.ports i).refcAt ((s.ports i).vlan_conf ix).map_to := by
      rw [h₁.refc, add_zero]
    have h₂ : Shift i _ _ (s.port i (·.setRule ix false 0)) _ :=
      shift_decr ((s.ports i).vlan_conf ix).map_to
        (by rw [hsame]; exact hw.refcAt_pos (by omega) hr ht0)
        (by rw [hsame]; exact hw.refcAt_lt _)
    rw [h₁.rule] at h₂
    refine (h₁.trans h₂).step hi hlt (by omega) (fun t => ?_) fun t h =>
      absurd h.symm (Option.some_ne_none t)
    rw [delta_eq, hr]
    simp [unit, ht0]
  · rw [if_neg hx]
    cases hd : (s.ports i).def_xlate with
    | true =>
      have hold : ((s.ports i).rule 0).getD 0 = (s.ports i).def_map_to := by
        rw [VtPort.rule_zero, if_pos hd, Option.getD_some]
      have hinv := replace_inv hi hlt (by omega) (shift_setDef false 0) hold rfl
        (fun t h => absurd h.symm (Option.some_ne_none t)) fun h => absurd rfl h
      exact ⟨_, rfl, hinv⟩
    | false => exact ⟨s, rfl, hi⟩

/-- A rule that drops is not set where there is no rule. -/
theorem addSpecific_zero (hw : (s.ports i).Wf) {fromVid : ℕ} (hf : vlanValid fromVid)
    (hr : (s.ports i).rule fromVid = none) : s.addSpecific i fromVid 0 = some s := by
  obtain ⟨ix, rfl⟩ : ∃ ix, fromVid = ix + 1 := ⟨fromVid - 1, by have := hf.1; omega⟩
  have hclean : ((s.ports i).vlan_conf ix).map_to = 0 := by
    rw [hw.clean ix, hr]
    rfl
  unfold addSpecific
  simp only [Nat.add_sub_cancel]
  rw [if_pos hclean]

/-- A rule that is not there is not deleted, if there is no default rule either. -/
theorem delRule_none {fromVid : ℕ} (hr : (s.ports i).rule fromVid = none)
    (hd : (s.ports i).rule 0 = none) : s.delRule i fromVid = some s := by
  have hdef : (s.ports i).def_xlate = false := by
    by_contra hx
    rw [VtPort.rule_zero, if_pos (by simpa using hx)] at hd
    exact absurd hd (Option.some_ne_none _)
  have hx : ¬(fromVid ≠ 0 ∧ ((s.ports i).vlan_conf (fromVid - 1)).xlate = true) := by
    rintro ⟨h0, hx⟩
    rw [VtPort.rule, if_neg h0, if_pos hx] at hr
    exact absurd hr (Option.some_ne_none _)
  unfold delRule
  simp only [if_neg hx, hdef, Bool.false_eq_true, if_false]

/-! ## Clearing a port -/

/-- The rules that are left after `k` rounds. -/
def rulesFrom (r : ℕ → Option ℕ) (k fromVid : ℕ) : Option ℕ :=
  if 1 ≤ fromVid ∧ fromVid ≤ k then none else r fromVid

/-- After `k` rounds the counters of the VLANs that a rule mapped to are 0. -/
def cleared (p : VtPort) (k toVid : ℕ) : ℤ :=
  if ∃ ix < k, p.rule (ix + 1) = some toVid then -p.refcAt toVid else 0

/-- One more round clears one more rule. -/
theorem rulesFrom_succ (r : ℕ → Option ℕ) (k : ℕ) :
    rulesFrom r (k + 1) = update (rulesFrom r k) (k + 1) none := by
  funext fromVid
  unfold rulesFrom
  by_cases hk : fromVid = k + 1
  · subst hk
    rw [update_self, if_pos ⟨by omega, le_refl _⟩]
  · rw [update_of_ne hk]
    by_cases h : 1 ≤ fromVid ∧ fromVid ≤ k
    · rw [if_pos h, if_pos ⟨h.1, h.2.trans (Nat.le_succ k)⟩]
    · rw [if_neg h, if_neg (by omega)]

/-- The rules that the loop has not met are as they were. -/
theorem rulesFrom_self (r : ℕ → Option ℕ) (k : ℕ) : rulesFrom r k (k + 1) = r (k + 1) :=
  if_neg (by omega)

/-- Something is below `k + 1` when it is below `k` or `k` itself. -/
theorem exists_lt_succ {P : ℕ → Prop} {k : ℕ} : (∃ ix < k + 1, P ix) ↔ (∃ ix < k, P ix) ∨ P k := by
  constructor
  · rintro ⟨ix, hix, h⟩
    rcases Nat.lt_succ_iff_lt_or_eq.mp hix with hlt | rfl
    · exact .inl ⟨ix, hlt, h⟩
    · exact .inr h
  · rintro (⟨ix, hix, h⟩ | h)
    · exact ⟨ix, hix.trans (Nat.lt_succ_self k), h⟩
    · exact ⟨k, Nat.lt_succ_self k, h⟩

/-- A counter is set to 0. -/
theorem shift_zero {m : ℕ} (hm : m ≠ 0) :
    Shift i (s.ports i).rule (fun t => if t = m then -(s.ports i).refcAt m else 0) s
      (if ((s.ports i).vlan_conf (m - 1)).refc ≠ 0 then
        { s.port i (·.conf (m - 1) fun c => { c with refc := 0 }) with
          vt_refc := update s.vt_refc (m - 1)
            (s.vt_refc (m - 1) - ((s.ports i).vlan_conf (m - 1)).refc) }
      else s) := by
  have hrefc : (s.ports i).refcAt m = ((s.ports i).vlan_conf (m - 1)).refc := if_neg hm
  by_cases h0 : ((s.ports i).vlan_conf (m - 1)).refc ≠ 0
  · rw [if_pos h0]
    refine shift_conf hm (f := fun c => { c with refc := 0 }) (fun _ => ⟨rfl, rfl⟩) ?_ rfl ?_
    · rw [add_neg_cancel]
      rfl
    · rw [hrefc, ← sub_eq_add_neg]
  · rw [if_neg h0]
    refine (Shift.refl i s).congr rfl fun t => ?_
    rw [hrefc, not_not.mp h0]
    split_ifs <;> rfl

/-- A round of the loop. -/
theorem clearRule_shift (hw : (s.ports i).Wf) (hmode : (s.ports i).mode = .PM_TRUNK) {k : ℕ}
    (h : Shift i (rulesFrom (s.ports i).rule k) (cleared (s.ports i) k) s s') :
    ∃ s'', clearRule i s' k = some s'' ∧
      Shift i (rulesFrom (s.ports i).rule (k + 1)) (cleared (s.ports i) (k + 1)) s s'' := by
  have hrule : (s'.ports i).rule (k + 1) = (s.ports i).rule (k + 1) := by
    rw [h.rule, rulesFrom_self]
  have hmode' : (s'.ports i).mode = .PM_TRUNK := h.mode.trans hmode
  by_cases hx : ((s'.ports i).vlan_conf k).xlate = true
  · obtain ⟨m, hm⟩ : ∃ m, ((s'.ports i).vlan_conf k).map_to = m := ⟨_, rfl⟩
    have hr : (s.ports i).rule (k + 1) = some m := by
      rw [← hrule, VtPort.rule_succ, if_pos hx, hm]
    have hm0 : m ≠ 0 := Nat.pos_iff_ne_zero.mp (hw.valid k m hr).2.1
    have h₂ := shift_zero (s := s') (i := i) hm0
    have h₃ := shift_delRule (i := i) k (if ((s'.ports i).vlan_conf (m - 1)).refc ≠ 0 then
        { s'.port i (·.conf (m - 1) fun c => { c with refc := 0 }) with
          vt_refc := update s'.vt_refc (m - 1)
            (s'.vt_refc (m - 1) - ((s'.ports i).vlan_conf (m - 1)).refc) }
      else s')
    rw [h₂.rule, h.rule, ← rulesFrom_succ] at h₃
    rw [h.rule] at h₂
    refine ⟨_, ?_, (h.trans (h₂.trans h₃)).congr rfl fun t => ?_⟩
    · unfold clearRule
      simp only [hmode', hx, and_self, if_true, hm, if_neg hm0]
    · -- what had been cleared before is 0 already
      rw [h.refc]
      unfold cleared
      rw [if_congr (exists_lt_succ (P := fun ix => (s.ports i).rule (ix + 1) = some t)) rfl rfl, hr]
      by_cases ht : t = m
      · subst ht
        simp only [if_true, or_true]
        omega
      · have hne : ¬some m = some t := fun h => ht (Option.some_inj.mp h).symm
        simp only [hne, or_false, if_neg ht, add_zero]
  · have hr : (s.ports i).rule (k + 1) = none := by
      rw [← hrule, VtPort.rule_succ, if_neg hx]
    refine ⟨s', ?_, h.congr ?_ fun t => ?_⟩
    · unfold clearRule
      simp only [hx, and_false, if_false, Bool.false_eq_true]
    · rw [rulesFrom_succ, eq_comm, Function.update_eq_self_iff, rulesFrom_self, hr]
    · unfold cleared
      rw [if_congr (exists_lt_succ (P := fun ix => (s.ports i).rule (ix + 1) = some t)) rfl rfl, hr]
      simp only [reduceCtorEq, or_false]

/-- The loop of a port in trunk mode. -/
theorem clearRules_shift (hw : (s.ports i).Wf) (hmode : (s.ports i).mode = .PM_TRUNK) (k : ℕ) :
    ∃ s', (List.range k).foldlM (clearRule i) s = some s' ∧
      Shift i (rulesFrom (s.ports i).rule k) (cleared (s.ports i) k) s s' := by
  induction k with
  | zero =>
    refine ⟨s, rfl, (Shift.refl i s).congr ?_ fun t => ?_⟩
    · funext fromVid
      exact (if_neg (by omega)).symm
    · exact (if_neg fun ⟨ix, hix, _⟩ => absurd hix (Nat.not_lt_zero ix)).symm
  | succ k ih =>
    obtain ⟨s₁, hs₁, h₁⟩ := ih
    obtain ⟨s₂, hs₂, h₂⟩ := clearRule_shift hw hmode h₁
    refine ⟨s₂, ?_, h₂⟩
    rw [List.range_succ, List.foldlM_append, hs₁]
    simpa using hs₂

/-- In other modes the loop does nothing. -/
theorem clearRules_of_ne (hmode : (s.ports i).mode ≠ .PM_TRUNK) (l : List ℕ) :
    l.foldlM (clearRule i) s = some s := by
  induction l with
  | nil => rfl
  | cons k l ih =>
    have hk : clearRule i s k = some s := by
      unfold clearRule
      simp only [hmode, false_and, if_false]
    rw [List.foldlM_cons, hk]
    exact ih

/-- The rules of a port can be cleared: in trunk mode, a default rule maps to a VLAN only if a
specific rule does so too, and in other modes to none. -/
def ClearOk (p : VtPort) : Prop :=
  if p.mode = .PM_TRUNK then
    ∀ toVid ∈ p.rule 0, toVid ≠ 0 → ∃ ix < 4094, p.rule (ix + 1) = some toVid
  else ∀ toVid ∈ p.rule 0, toVid = 0

/-- Clearing the rules of a port keeps the counters right, where each is counted once. -/
theorem clearTranslation_inv (hi : Inv c s) (hlt : i < c.nports) (hok : ClearOk (s.ports i)) :
    ∃ s', s.clearTranslation i = some s' ∧ Inv c s' ∧ ∀ i' ≠ i, s'.ports i' = s.ports i' := by
  have hw := hi.wf i
  unfold ClearOk at hok
  unfold clearTranslation
  -- in trunk mode the loop clears the rules of all VLANs, and the counters with them
  by_cases hmode : (s.ports i).mode = .PM_TRUNK
  · rw [if_pos hmode] at hok
    obtain ⟨s₁, hs₁, h₁⟩ := clearRules_shift hw hmode 4094
    have h₂ := shift_setDef (i := i) false 0 s₁
    rw [h₁.rule] at h₂
    have h := h₁.trans h₂
    -- no rule is left
    have hnone : ∀ fromVid, update (rulesFrom (s.ports i).rule 4094) 0 none fromVid = none := by
      intro fromVid
      cases fromVid with
      | zero => rw [update_self]
      | succ ix =>
        rw [update_of_ne (Nat.succ_ne_zero ix)]
        unfold rulesFrom
        split_ifs with hix
        · rfl
        · by_contra hr
          obtain ⟨toVid, hr⟩ := Option.ne_none_iff_exists'.mp hr
          exact hix ⟨by omega, (hw.valid ix toVid hr).1⟩
    refine ⟨_, by rw [hs₁]; rfl, h.inv hi hlt (VtPort.wf_of_no_rules (fun fromVid => ?_)
      (fun ix => ?_) fun toVid => ?_), h.other⟩
    · rw [h.rule]
      exact hnone fromVid
    · rw [h.clean hw.clean]
      exact congrArg (Option.getD · 0) (hnone (ix + 1))
    · rw [h.refc]
      unfold cleared
      split_ifs with hex
      · omega
      · -- no rule maps to the VLAN, neither a specific one nor the default rule
        rw [hw.exact toVid, Tally.tally_eq_zero fun j hj => ?_]
        · rfl
        · obtain ⟨hj, h0⟩ := VtPort.target_eq_some_iff.mp hj
          obtain ⟨fromVid, hfrom⟩ := j
          cases fromVid with
          | zero => exact hex (hok toVid hj h0)
          | succ ix => exact hex ⟨ix, by omega, hj⟩
  · -- in another mode only the default rule goes, which counts for nothing
    rw [if_neg hmode] at hok
    rw [clearRules_of_ne hmode]
    have h := shift_setDef (i := i) false 0 s
    refine ⟨_, rfl, h.step hi hlt (by omega) (fun t => ?_) fun t ht =>
      absurd ht.symm (Option.some_ne_none t), h.other⟩
    have hold : ((s.ports i).rule 0).getD 0 = 0 := by
      cases hr : (s.ports i).rule 0 with
      | none => rfl
      | some m => exact hok m hr
    have hnew : (if false = true then some 0 else none : Option ℕ).getD 0 = 0 := rfl
    rw [delta_eq, hold, hnew]
    simp [unit]

/-- The rules of all ports are cleared. -/
theorem clearAll_inv (hi : Inv c s) (hok : ∀ i < c.nports, ClearOk (s.ports i)) :
    ∃ s', (List.range c.nports).foldlM clearTranslation s = some s' ∧ Inv c s' := by
  have hloop : ∀ k ≤ c.nports, ∃ s', (List.range k).foldlM clearTranslation s = some s' ∧
      Inv c s' ∧ ∀ i, k ≤ i → s'.ports i = s.ports i := by
    intro k hk
    induction k with
    | zero => exact ⟨s, rfl, hi, fun _ _ => rfl⟩
    | succ k ih =>
      obtain ⟨s₁, hs₁, hi₁, hrest₁⟩ := ih (by omega)
      obtain ⟨s₂, hs₂, hi₂, hrest₂⟩ :=
        clearTranslation_inv hi₁ (i := k) (by omega) (by
          rw [hrest₁ k le_rfl]
          exact hok k (by omega))
      refine ⟨s₂, ?_, hi₂, fun i hik => ?_⟩
      · rw [List.range_succ, List.foldlM_append, hs₁]
        simpa using hs₂
      · rw [hrest₂ i (by omega), hrest₁ i (by omega)]
  obtain ⟨s', hs', hi', -⟩ := hloop c.nports le_rfl
  exact ⟨s', hs', hi'⟩

/-! ## Runs -/

end Vt

/-- The calls that concern translation. -/
inductive VtOp
  | translate (pid fromVid toVid : ℕ) (add : Bool)
  | clear (pid : ℕ)
  /-- `result` is that of the function for the mode. -/
  | setMode (pid : ℕ) (mode : PortMode) (result : Status)
  | setXlateTunnel (enable : Bool)

namespace Vt

variable (c)

/-- A call. -/
def call (s : Vt) : VtOp → Option (Status × Vt)
  | .translate pid fromVid toVid add => s.portVlanTranslate c pid fromVid toVid add
  | .clear pid => s.portClearTranslation c pid
  | .setMode pid mode result => some (s.portSetMode c pid mode result)
  | .setXlateTunnel enable => s.vlanSetXlateTunnel c enable

/-- A step of a run. -/
def step (s : Vt) (op : VtOp) : Option Vt := (call c s op).map (·.2)

/-- A specific rule that drops does not take the place of one that maps, a specific rule that is
deleted is there or there is no default rule, and the ports that are cleared can be. -/
def Ok (s : Vt) : VtOp → Prop
  | .translate pid fromVid toVid add =>
    portValid c pid → vlanValid fromVid → toVid = 0 ∨ vlanValid toVid →
      if add then toVid = 0 → (s.ports (pid - 1)).rule fromVid = none
      else (s.ports (pid - 1)).rule fromVid = none → (s.ports (pid - 1)).rule 0 = none
  | .clear pid =>
    if pid = c.ALL_PORTS then ∀ i < c.nports, ClearOk (s.ports i)
    else portValid c pid → ClearOk (s.ports (pid - 1))
  | .setMode .. => True
  | .setXlateTunnel enable => s.vlan_xlate_tunnel ≠ enable → ∀ i < c.nports, ClearOk (s.ports i)

variable {c}

/-- A rule that is added or deleted as the guard admits. -/
theorem translate_inv (hi : Inv c s) {pid fromVid toVid : ℕ} {add : Bool}
    (hok : Ok c s (.translate pid fromVid toVid add)) :
    ∃ st s', s.portVlanTranslate c pid fromVid toVid add = some (st, s') ∧ Inv c s' ∧
      (add = false → (s.ports (pid - 1)).rule fromVid = none → s' = s) := by
  unfold portVlanTranslate
  by_cases hpid : portValid c pid
  · by_cases hf : fromVid ≠ 0 ∧ ¬vlanValid fromVid
    · rw [if_neg (not_not.mpr hpid), if_pos hf]
      exact ⟨_, s, rfl, hi, fun _ _ => rfl⟩
    by_cases ht : toVid ≠ 0 ∧ ¬vlanValid toVid
    · rw [if_neg (not_not.mpr hpid), if_neg hf, if_pos ht]
      exact ⟨_, s, rfl, hi, fun _ _ => rfl⟩
    by_cases htunnel : fromVid = 0 ∧ toVid ≠ 0 ∧ ¬s.vlan_xlate_tunnel
    · rw [if_neg (not_not.mpr hpid), if_neg hf, if_neg ht, if_pos htunnel]
      exact ⟨_, s, rfl, hi, fun _ _ => rfl⟩
    rw [if_neg (not_not.mpr hpid), if_neg hf, if_neg ht, if_neg htunnel]
    have hlt : pid - 1 < c.nports := by
      have := hpid.1
      have := hpid.2
      omega
    have hf : fromVid = 0 ∨ vlanValid fromVid := by tauto
    have ht : toVid = 0 ∨ vlanValid toVid := by tauto
    cases add with
    | true =>
      rcases hf with rfl | hf
      · exact ⟨_, _, rfl, addDefault_inv hi hlt ht, fun h => absurd h.symm Bool.false_ne_true⟩
      · have hadd : ∃ s', s.addSpecific (pid - 1) fromVid toVid = some s' ∧ Inv c s' := by
          rcases ht with rfl | ht
          · exact ⟨s, addSpecific_zero (hi.wf _) hf (hok hpid hf (.inl rfl) rfl), hi⟩
          · exact addSpecific_inv hi hlt hf ht
        obtain ⟨s', hs', hi'⟩ := hadd
        refine ⟨.ST_OK, s', ?_, hi', fun h => absurd h.symm Bool.false_ne_true⟩
        simp only [if_true, if_pos (Nat.pos_iff_ne_zero.mp hf.1), hs', Option.map_some]
    | false =>
      obtain ⟨s', hs', hi'⟩ := delRule_inv hi hlt hf
      refine ⟨.ST_OK, s', ?_, hi', fun _ hr => ?_⟩
      · simp only [Bool.false_eq_true, if_false, hs', Option.map_some]
      · have hd : (s.ports (pid - 1)).rule 0 = none := by
          rcases hf with rfl | hf
          · exact hr
          · exact hok hpid hf ht hr
        rw [delRule_none hr hd] at hs'
        exact (Option.some_inj.mp hs').symm
  · rw [if_pos hpid]
    exact ⟨_, s, rfl, hi, fun _ _ => rfl⟩

/-- **Step.** `port_clear_translation` keeps the counters right. -/
theorem clear_inv (hi : Inv c s) {pid : ℕ}
    (hok : if pid = c.ALL_PORTS then ∀ i < c.nports, ClearOk (s.ports i)
      else portValid c pid → ClearOk (s.ports (pid - 1))) :
    ∃ st s', s.portClearTranslation c pid = some (st, s') ∧ Inv c s' := by
  unfold portClearTranslation
  by_cases hall : pid = c.ALL_PORTS
  · rw [if_pos hall] at hok ⊢
    obtain ⟨s', hs', hi'⟩ := clearAll_inv hi hok
    exact ⟨_, s', by rw [hs']; rfl, hi'⟩
  · rw [if_neg hall] at hok ⊢
    by_cases hpid : portValid c pid
    · rw [if_neg (not_not.mpr hpid)]
      have hlt : pid - 1 < c.nports := by
        have := hpid.1
        have := hpid.2
        omega
      obtain ⟨s', hs', hi', -⟩ := clearTranslation_inv hi hlt (hok hpid)
      exact ⟨_, s', by rw [hs']; rfl, hi'⟩
    · rw [if_pos hpid]
      exact ⟨_, s, rfl, hi⟩

/-- The mode of a port and the kind of tunneling have no part in the counters. -/
theorem Inv.congr (hi : Inv c s) (hports : ∀ i, (s'.ports i).vlan_conf = (s.ports i).vlan_conf ∧
    (s'.ports i).def_xlate = (s.ports i).def_xlate ∧
      (s'.ports i).def_map_to = (s.ports i).def_map_to)
    (hvt : s'.vt_refc = s.vt_refc) : Inv c s' := by
  have hrule : ∀ i, (s'.ports i).rule = (s.ports i).rule := fun i => by
    funext fromVid
    unfold VtPort.rule
    rw [(hports i).1, (hports i).2.1, (hports i).2.2]
  have hrefc : ∀ i, (s'.ports i).refcAt = (s.ports i).refcAt := fun i => by
    funext toVid
    unfold VtPort.refcAt
    rw [(hports i).1]
  have htarget : ∀ i, (s'.ports i).target = (s.ports i).target := fun i => by
    funext fromVid
    unfold VtPort.target
    rw [hrule]
  refine ⟨fun i => ⟨fun ix => ?_, ?_, ?_, ?_⟩, fun toVid ht => ?_⟩
  · rw [(hports i).1, hrule]
    exact (hi.wf i).clean ix
  · rw [hrule]
    exact (hi.wf i).valid
  · rw [hrule]
    exact (hi.wf i).def_valid
  · rw [htarget, hrefc]
    exact (hi.wf i).exact
  · rw [hvt, hi.sum toVid ht]
    exact Finset.sum_congr rfl fun i _ => by rw [hrefc]

/-- **Step.** `port_set_mode` keeps the counters right. -/
theorem setMode_inv (hi : Inv c s) (pid : ℕ) (mode : PortMode) (result : Status) :
    Inv c (s.portSetMode c pid mode result).2 := by
  have hset : Inv c (s.port (pid - 1) fun p => { p with mode := mode }) := by
    refine hi.congr (fun i => ?_) rfl
    by_cases hne : i = pid - 1
    · subst hne
      simp [port]
    · simp [port, hne]
  unfold portSetMode
  simp only
  split_ifs
  · exact hi
  · exact hi
  all_goals first | exact hset | exact hi

/-- **Step.** `vlan_set_xlate_tunnel` keeps the counters right. -/
theorem setXlateTunnel_inv (hi : Inv c s) {enable : Bool} (hok : Ok c s (.setXlateTunnel enable)) :
    ∃ st s', s.vlanSetXlateTunnel c enable = some (st, s') ∧ Inv c s' := by
  unfold vlanSetXlateTunnel
  by_cases hne : s.vlan_xlate_tunnel ≠ enable
  · rw [if_pos hne]
    have hall : if c.ALL_PORTS = c.ALL_PORTS then ∀ i < c.nports, ClearOk (s.ports i)
        else portValid c c.ALL_PORTS → ClearOk (s.ports (c.ALL_PORTS - 1)) := by
      rw [if_pos rfl]
      exact hok hne
    obtain ⟨st, s', hs', hi'⟩ := clear_inv hi hall
    refine ⟨.ST_OK, { s' with vlan_xlate_tunnel := enable }, ?_,
      hi'.congr (fun i => ⟨rfl, rfl, rfl⟩) rfl⟩
    rw [hs', Option.map_some]
  · rw [if_neg hne]
    exact ⟨_, s, rfl, hi⟩

/-- The deletion of a rule that is not there. -/
def DeletesNothing (s : Vt) : VtOp → Prop
  | .translate pid fromVid _ add => add = false ∧ (s.ports (pid - 1)).rule fromVid = none
  | _ => False

/-- What a call returns and leaves. -/
structure Returned (c : VtConf) (s : Vt) (op : VtOp) (st : Status) (s' : Vt) : Prop where
  call_eq : call c s op = some (st, s')
  of_deletesNothing : DeletesNothing s op → s' = s

/-- **Step.** A call that meets the condition returns and keeps the counters right. -/
theorem Inv.returned (hi : Inv c s) {op : VtOp} (hok : Ok c s op) :
    ∃ st s', Returned c s op st s' ∧ Inv c s' := by
  cases op with
  | translate pid fromVid toVid add =>
    obtain ⟨st, s', hs', hi', hsame⟩ := translate_inv hi hok
    exact ⟨st, s', ⟨hs', fun h => hsame h.1 h.2⟩, hi'⟩
  | clear pid =>
    obtain ⟨st, s', hs', hi'⟩ := clear_inv hi hok
    exact ⟨st, s', ⟨hs', False.elim⟩, hi'⟩
  | setMode pid mode result => exact ⟨_, _, ⟨rfl, False.elim⟩, setMode_inv hi pid mode result⟩
  | setXlateTunnel enable =>
    obtain ⟨st, s', hs', hi'⟩ := setXlateTunnel_inv hi hok
    exact ⟨st, s', ⟨hs', False.elim⟩, hi'⟩

/-- In every run of calls that the guard admits the counters of the ports and of the VLANs are the
numbers of rules, every call returns, and the deletion of a rule that is not there changes
nothing. -/
theorem translations_counted (c : VtConf) (stack : ℕ → Bool) (tunnel : Bool)
    (hr : Guarded.Reach (step c) (Ok c) (start stack tunnel) s) :
    Counted c s ∧ ∀ op, Ok c s op → ∃ st s', Returned c s op st s' := by
  have hi : Inv c s := by
    refine hr.invariant (Inv c) (inv_start stack tunnel) fun s op s' hi hok hs => ?_
    obtain ⟨st, s₁, hret, hi₁⟩ := hi.returned hok
    unfold step at hs
    rw [hret.call_eq, Option.map_some] at hs
    rwa [← Option.some_inj.mp hs]
  refine ⟨hi.counted, fun op hok => ?_⟩
  obtain ⟨st, s', hret, -⟩ := hi.returned hok
  exact ⟨st, s', hret⟩

/-! ### Runs -/

instance (p : VtPort) : Decidable (ClearOk p) := by
  unfold ClearOk
  infer_instance

instance (s : Vt) (op : VtOp) : Decidable (Ok c s op) :=
  match op with
  | .translate .. => inferInstanceAs (Decidable (_ → _ → _ → ite _ (_ → _) (_ → _)))
  | .clear _ => inferInstanceAs (Decidable (ite _ (∀ i < c.nports, _) (_ → _)))
  | .setMode .. => .isTrue trivial
  | .setXlateTunnel _ => inferInstanceAs (Decidable (_ → ∀ i < c.nports, _))

/-- Two ports. -/
def twoPorts : VtConf := ⟨2, 0⟩

/-- Two VLANs mapped to one on a port in trunk mode, one of them mapped elsewhere then, and a
default rule that is deleted. -/
theorem translations_counted_two : ∃ s, Guarded.Reach (step twoPorts) (Ok twoPorts)
    (start (fun _ => false) true) s ∧
      (Counted twoPorts s ∧ ∀ op, Ok twoPorts s op → ∃ st s', Returned twoPorts s op st s') ∧
      s.vt_refc 19 = 2 := by
  have hlast : (Guarded.run (step twoPorts) (Ok twoPorts) (start (fun _ => false) true)
      [.setMode 1 .PM_TRUNK .ST_OK, .translate 1 10 20 true, .translate 1 11 20 true,
        .translate 2 10 20 true, .translate 1 11 21 true, .translate 2 0 21 true,
        .translate 2 0 0 false]).map (fun s => s.vt_refc 19) = some 2 := by
    decide +kernel
  obtain ⟨s, hs, hlast⟩ := Option.map_eq_some_iff.mp hlast
  have hreach := Guarded.Reach.init.of_run hs
  exact ⟨s, hreach, translations_counted _ _ _ hreach, hlast⟩

/-- A specific rule that drops in place of one that maps is counted before the first VLAN. -/
theorem not_translations_counted : ¬∀ (c : VtConf) (stack : ℕ → Bool) (tunnel : Bool) (s : Vt),
    Guarded.Reach (step c) (fun _ _ => True) (start stack tunnel) s →
      Counted c s ∧ ∀ op, ∃ st s', Returned c s op st s' := by
  intro h
  have hlast : (Guarded.run (step twoPorts) (fun _ _ => True) (start (fun _ => false) false)
      [.translate 1 10 20 true]).map (fun s => (call twoPorts s (.translate 1 10 0 true)).isSome) =
      some false := by
    decide +kernel
  obtain ⟨s, hs, hlast⟩ := Option.map_eq_some_iff.mp hlast
  obtain ⟨st, s', hret⟩ := (h _ _ _ s (Guarded.Reach.init.of_run hs)).2 (.translate 1 10 0 true)
  rw [hret.call_eq, Option.isSome_some] at hlast
  exact Bool.false_ne_true hlast.symm

end Vt

end Presteramgr
