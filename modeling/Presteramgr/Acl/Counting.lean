import Presteramgr.Acl.Counters

/-!
# Counters of a device (`pcl.c`)

The counters of a device agree with the packets that its rules have matched, as long as only rules
that have counted nothing move.

## Main definitions

* `LiveRule.Logs`: a rule that counts packets;
* `AclDev.Counting`: the counters agree with the packets;
* `AclDev.CountedNothing`: rules that may move.

## Main results

* `PclDev.ruleSet_counting`, `PclDev.resetRules_counting`: setting a rule, and resetting an
  interface;
* `AclDev.Counting.packet`, `AclDev.Counting.clear`: a packet, and a counter that is cleared.
-/

namespace Presteramgr

/-! ### Indices -/

theorem AclDev.Placed.pclFindRuleIx_eq_some_iff {sw : AclDev} {live : List LiveRule}
    (hp : sw.Placed live) {k : RuleBindingKey} {ix : ℕ} :
    sw.pclFindRuleIx k = some ix ↔ ∃ bind ∈ sw.bindings, bind.key = k ∧ bind.rule_ix = ix := by
  unfold AclDev.pclFindRuleIx
  rw [Option.map_eq_some_iff]
  refine exists_congr fun bind => ?_
  rw [hp.bindings_unique.find_eq_some_iff, and_assoc]

/-- Different rules have different indices. -/
theorem AclDev.Placed.key_inj {sw : AclDev} {live : List LiveRule} (hp : sw.Placed live)
    {k k' : RuleBindingKey} {ix : ℕ} (hk : sw.pclFindRuleIx k = some ix)
    (hk' : sw.pclFindRuleIx k' = some ix) : k = k' := by
  obtain ⟨bind, hbind, rfl, hix⟩ := hp.pclFindRuleIx_eq_some_iff.mp hk
  obtain ⟨bind', hbind', rfl, hix'⟩ := hp.pclFindRuleIx_eq_some_iff.mp hk'
  rw [hp.one_to_one hbind hbind' (hix.trans hix'.symm)]

/-- Every rule has an index. -/
theorem AclDev.Placed.exists_ix {sw : AclDev} {live : List LiveRule} (hp : sw.Placed live)
    {r : LiveRule} (hr : r ∈ live) : ∃ ix, sw.pclFindRuleIx r.key = some ix := by
  obtain ⟨A, B, -, hix⟩ := hp.exists_place hr
  exact ⟨_, hix⟩

namespace PclDev

variable {fake : Bool} {s : PclDev} {live : List LiveRule} {interface : PclInterface}
  {dest : PclDest}
  {action_type : PclActionType} {p : ℕ}

/-- Rules that are to go have indices from `p` on. -/
def ResetsFrom (s : PclDev) (interface : PclInterface) (dest : PclDest)
    (action_type : PclActionType)
    (p : ℕ) : Prop :=
  ∀ bind ∈ s.sw.bindings, resets interface dest action_type bind.key = true → p ≤ bind.rule_ix

variable (fake) in
theorem ResetsFrom.removeRule (h : s.ResetsFrom interface dest action_type p)
    (hp : s.sw.Placed live) {A B : List LiveRule} {r : LiveRule} (hAB : placing live = A ++ r :: B)
    {bind : RuleBinding} (hkey : bind.key = r.key)
    (hix : bind.rule_ix = s.sw.index_book.start + A.length)
    (hres : resets interface dest action_type r.key = true) :
    p ≤ bind.rule_ix ∧ (s.removeRule fake bind).ResetsFrom interface dest action_type p := by
  have hle : p ≤ bind.rule_ix := by
    obtain ⟨bind', hbind', hkey', hix'⟩ := hp.exists_binding hAB
    rw [hix, ← hix']
    exact h bind' hbind' (hkey' ▸ hres)
  have hrem := (removeRule_spec fake hp hAB bind hkey hix).1
  refine ⟨hle, fun bind' hbind' hres' => ?_⟩
  rw [hrem.bindings] at hbind'
  obtain ⟨bind₀, hbind₀, rfl⟩ := List.mem_map.mp (Keyed.mem_of_mem_del hbind')
  exact Zones.le_down hle (h bind₀ hbind₀ hres')

variable (fake) in
/-- When an interface is reset whose rules have indices from `p` on, the rules below `p` stay where
they are, and the other ones stay above. -/
theorem resetRules_index (hp : s.sw.Placed live) (h : s.ResetsFrom interface dest action_type p)
    {r : LiveRule} (hr : r ∈ afterReset interface dest action_type live) {ix : ℕ}
    (hix : s.sw.pclFindRuleIx r.key = some ix) :
    ∃ ix', (s.resetRules fake interface dest action_type).sw.pclFindRuleIx r.key = some ix' ∧
      (ix < p → ix' = ix) ∧ (p ≤ ix → p ≤ ix') := by
  refine (resetRules_induction (fun t L => t.sw.Placed L ∧
    t.ResetsFrom interface dest action_type p ∧
    ∀ r ∈ L, ∀ ix, s.sw.pclFindRuleIx r.key = some ix → ∃ ix', t.sw.pclFindRuleIx r.key = some ix' ∧
      (ix < p → ix' = ix) ∧ (p ≤ ix → p ≤ ix')) (fun _ _ h => h.1) ?_
    ⟨hp, h, fun r _ ix hix => ⟨ix, hix, fun _ => rfl, id⟩⟩).2.2 r hr ix hix
  rintro t L A B r₀ bind ⟨hp, hfrom, hind⟩ hAB hkey hbind hres
  have hrem := (removeRule_spec fake hp hAB bind hkey hbind).1
  obtain ⟨hle, hfrom'⟩ := hfrom.removeRule fake hp hAB hkey hbind hres
  refine ⟨hrem.placed hAB hbind hp, hfrom', fun r hr ix hix => ?_⟩
  obtain ⟨hr, hne⟩ := List.mem_filter.mp hr
  obtain ⟨ix', hix', hlow, hhigh⟩ := hind r hr ix hix
  refine ⟨Zones.down bind.rule_ix B.length ix', ?_, fun hlt => ?_, fun hge => ?_⟩
  · rw [hrem.pclFindRuleIx_of_ne (of_decide_eq_true hne), hix']
    rfl
  · rw [hlow hlt, Zones.down_of_le (hlt.le.trans hle)]
  · exact Zones.le_down hle (hhigh hge)

variable (fake) in
/-- The counters that are cleared have indices from `p` on, and if the rule with the index `p` goes
then its counter is cleared. -/
theorem mem_clearedIxs (keys : List RuleBindingKey) (hp : s.sw.Placed live)
    (h : s.ResetsFrom interface dest action_type p) :
    (∀ ix ∈ clearedIxs fake interface dest action_type keys s, p ≤ ix) ∧
      ∀ k ∈ keys, resets interface dest action_type k = true → s.sw.pclFindRuleIx k = some p →
        p ∈ clearedIxs fake interface dest action_type keys s := by
  -- on the keys that are still to be looked at; the rules move as others go
  induction keys generalizing s live with
  | nil => exact ⟨fun ix hix => absurd hix List.not_mem_nil, fun k hk => absurd hk List.not_mem_nil⟩
  | cons k keys ih =>
    unfold clearedIxs resetRound
    -- a key without a rule is passed over
    cases hfind : Keyed.find RuleBinding.key s.sw.bindings k with
    | none =>
      obtain ⟨hge, hmem⟩ := ih hp h
      refine ⟨hge, fun k' hk' hres hix => ?_⟩
      rcases List.mem_cons.mp hk' with rfl | hk'
      · -- a rule that has an index has a binding
        unfold AclDev.pclFindRuleIx at hix
        rw [hfind] at hix
        exact absurd hix (Option.some_ne_none _).symm
      · exact hmem k' hk' hres hix
    | some bind =>
      have hkey : bind.key = k := Keyed.key_of_find hfind
      dsimp only
      rw [hkey]
      -- only the rules that are reset go
      cases hres : resets interface dest action_type k with
      | false =>
        obtain ⟨hge, hmem⟩ := ih hp h
        refine ⟨hge, fun k' hk' hres' hix => ?_⟩
        rcases List.mem_cons.mp hk' with rfl | hk'
        · exact absurd (hres.symm.trans hres') Bool.false_ne_true
        · exact hmem k' hk' hres' hix
      | true =>
        obtain ⟨A, B, r, hAB, rfl, hbind⟩ := hp.exists_of_find hfind
        have hrem := (removeRule_spec fake hp hAB bind hkey hbind).1
        obtain ⟨hle, hfrom⟩ := h.removeRule fake hp hAB hkey hbind hres
        obtain ⟨hge, hmem⟩ := ih (hrem.placed hAB hbind hp) hfrom
        refine ⟨fun ix hix => ?_, fun k' hk' hres' hix => ?_⟩
        · rcases List.mem_cons.mp hix with rfl | hix
          · exact hle
          · exact hge ix hix
        · by_cases hk : k' = r.key
          · subst hk
            unfold AclDev.pclFindRuleIx at hix
            rw [hfind] at hix
            obtain rfl := Option.some_inj.mp hix
            exact List.mem_cons_self
          · -- another rule goes first, from behind this one
            refine List.mem_cons_of_mem _
              (hmem k' ((List.mem_cons.mp hk').resolve_left hk) hres' ?_)
            rw [hrem.pclFindRuleIx_of_ne hk, hix, Option.map_some, Zones.down_of_le hle]

/-- Rules below those that go keep their bindings. -/
theorem mem_resetRules_of_lt (hp : s.sw.Placed live) (h : s.ResetsFrom interface dest action_type p)
    {bind : RuleBinding} (hbind : bind ∈ s.sw.bindings) (hlt : bind.rule_ix < p) :
    bind ∈ (s.resetRules fake interface dest action_type).sw.bindings := by
  obtain ⟨A, B, r, hAB, hr, -⟩ := hp.exists_of_mem hbind
  have hlive : r ∈ live := hp.mem_placing.mp (hAB ▸ List.mem_append_right _ List.mem_cons_self)
  have hstays : r ∈ afterReset interface dest action_type live := by
    refine List.mem_filter.mpr ⟨hlive, ?_⟩
    rw [hr, Bool.not_eq_true']
    exact Bool.eq_false_of_not_eq_true fun hres => absurd (h bind hbind hres) (Nat.not_le.mpr hlt)
  have hp' : (s.resetRules fake interface dest action_type).sw.Placed
    (afterReset interface dest action_type live) := resetRules_placed hp
  obtain ⟨ix, hix, hsame, -⟩ := resetRules_index fake hp h hstays
    (hp.pclFindRuleIx_eq_some_iff.mpr ⟨bind, hbind, hr.symm, rfl⟩)
  obtain ⟨bind', hbind', hkey, hix'⟩ := hp'.pclFindRuleIx_eq_some_iff.mp hix
  obtain ⟨k, i⟩ := bind
  obtain ⟨k', i'⟩ := bind'
  obtain rfl : k' = k := hkey.trans hr
  obtain rfl : i' = i := hix'.trans (hsame hlt)
  exact hbind'

end PclDev

/-! ### Counters of a device -/

/-- A rule logs the packets that it matches. -/
def LiveRule.Logs (r : LiveRule) : Prop := r.params.trapAction = .LOG_INPUT

instance (r : LiveRule) : Decidable r.Logs := inferInstanceAs (Decidable (_ = _))

namespace AclDev

/-- The counters of a device agree with the packets that its rules have matched: the counter of a
rule that logs, read with the index and the block of the rule, is their number, and a counter that
is not zero is that of a rule. -/
structure Counting (sw : AclDev) (live : List LiveRule) (counters : ℕ → ℕ → ℕ)
    (matched : RuleBindingKey → ℕ) : Prop where
  reads : ∀ r ∈ live, r.Logs → ∀ ix, sw.pclFindRuleIx r.key = some ix →
    ∀ b ∈ AclState.resetBlock r.key.interface, counters b ix = matched r.key
  owned : ∀ b ix, counters b ix ≠ 0 → ∃ bind ∈ sw.bindings, bind.rule_ix = ix ∧
    AclState.resetBlock bind.key.interface = some b

/-- The rules with indices from `p` on have counted nothing. -/
def CountedNothing (sw : AclDev) (counters : ℕ → ℕ → ℕ) (p : ℕ) : Prop :=
  ∀ bind ∈ sw.bindings, p ≤ bind.rule_ix →
    ∀ b ∈ AclState.resetBlock bind.key.interface, counters b bind.rule_ix = 0

instance (sw : AclDev) (counters : ℕ → ℕ → ℕ) (p : ℕ) : Decidable (sw.CountedNothing counters p) :=
  inferInstanceAs (Decidable (∀ bind ∈ sw.bindings, p ≤ bind.rule_ix →
    ∀ b ∈ AclState.resetBlock bind.key.interface, counters b bind.rule_ix = 0))

variable {sw sw' : AclDev} {live live' : List LiveRule} {counters counters' : ℕ → ℕ → ℕ}
  {matched matched' : RuleBindingKey → ℕ} {p : ℕ}

theorem Counting.congr (h : sw.Counting live counters matched) (hbind : sw'.bindings = sw.bindings)
    (hm : ∀ r ∈ live, matched' r.key = matched r.key) : sw'.Counting live counters matched' where
  reads := by
    intro r hr hlogs ix hix b hb
    unfold pclFindRuleIx at hix
    rw [hbind] at hix
    exact (h.reads r hr hlogs ix hix b hb).trans (hm r hr).symm
  owned := by
    rw [hbind]
    exact h.owned

/-- Where the rules from an index on have counted nothing, the counters from there on are zero. -/
theorem Counting.eq_zero (h : sw.Counting live counters matched)
    (hno : sw.CountedNothing counters p)
    (b : ℕ) {ix : ℕ} (hix : p ≤ ix) : counters b ix = 0 := by
  by_contra hne
  obtain ⟨bind, hbind, rfl, hb⟩ := h.owned b ix hne
  exact hne (hno bind hbind hix b hb)

/-- A change below which the counters and the rules stay as they are, and above which the counters
are zero: a rule that logs is below and stays there, or it is above and has counted nothing. -/
theorem Counting.change (h : sw.Counting live counters matched)
    (hlow : ∀ b ix, ix < p → counters' b ix = counters b ix)
    (hhigh : ∀ b ix, p ≤ ix → counters' b ix = 0)
    (hstay : ∀ bind ∈ sw.bindings, bind.rule_ix < p → bind ∈ sw'.bindings)
    (hrule : ∀ r ∈ live', r.Logs →
      (r ∈ live ∧ matched' r.key = matched r.key ∧
        ∃ ix < p, sw.pclFindRuleIx r.key = some ix ∧ sw'.pclFindRuleIx r.key = some ix) ∨
      (∀ b ∈ AclState.resetBlock r.key.interface, matched' r.key = 0) ∧
        ∀ ix, sw'.pclFindRuleIx r.key = some ix → p ≤ ix) :
    sw'.Counting live' counters' matched' where
  reads := by
    intro r hr hlogs ix hix b hb
    obtain ⟨hr, hm, ix', hlt, hix', hix''⟩ | ⟨hm, hge⟩ := hrule r hr hlogs
    · obtain rfl := Option.some_inj.mp (hix.symm.trans hix'')
      rw [hlow b ix hlt, hm]
      exact h.reads r hr hlogs ix hix' b hb
    · rw [hhigh b ix (hge ix hix), hm b hb]
  owned := by
    intro b ix hne
    have hlt : ix < p := by
      by_contra hge
      exact hne (hhigh b ix (Nat.le_of_not_lt hge))
    rw [hlow b ix hlt] at hne
    obtain ⟨bind, hbind, rfl, hb⟩ := h.owned b ix hne
    exact ⟨bind, hstay bind hbind hlt, rfl, hb⟩

end AclDev

namespace PclDev

variable {s s' : PclDev} {live : List LiveRule} {counters counters' : ℕ → ℕ → ℕ}
  {matched matched' : RuleBindingKey → ℕ}

/-- Setting a rule keeps the counters right if the rules that move have counted nothing. -/
theorem ruleSet_counting {a : RuleArgs} {p : RuleParams} {pcl_id : ℕ} {o : Outcome}
    (hp : s.sw.Placed live) (h : s.sw.Counting live counters matched)
    (hset : s.ruleSet false a p pcl_id = (o, s'))
    (hno : s.Accepts a.bindKey →
      s.sw.CountedNothing counters (s.sw.index_book.zoneEnd (a.action_type.zone + 1)))
    (hm : ∀ r ∈ live, matched' r.key = matched r.key)
    (hnew : (∀ r ∈ live, r.key ≠ a.bindKey) → matched' a.bindKey = 0) :
    s'.sw.Counting (logRule live a p o) counters matched' := by
  obtain ⟨-, rfl, rfl⟩ | ⟨rule_ix, s₁, hadd, hend⟩ := ruleSet_cases hset
  · exact h.congr rfl hm
  · have hadded : Added false s (LiveRule.key ⟨a, p, o.written⟩) rule_ix s₁ :=
      pclAddRuleIx_spec hadd
    have hbindings : s'.sw.bindings = s₁.sw.bindings :=
      (congrArg AclDev.bindings hend.sw).trans (addPortCmps_same false s₁ rule_ix _).bindings
    have hzero {ix : ℕ} (b : ℕ) (hix : rule_ix ≤ ix) : counters b ix = 0 :=
      h.eq_zero (hno ⟨hadded.find, hadded.zone_lt, hadded.not_full⟩) b (hadded.ix_eq ▸ hix)
    refine AclDev.Counting.congr ?_ hbindings fun _ _ => rfl
    unfold logRule
    rw [if_pos hend.bound]
    refine h.change (fun _ _ _ => rfl) (fun b ix => hzero b) (fun bind hbind hlt => ?_)
      fun r hr hlogs => ?_
    · -- a rule below the new one does not move
      rw [hadded.bindings]
      refine List.mem_append_left _ (List.mem_map.mpr ⟨bind, hbind, ?_⟩)
      rw [Zones.up_of_lt hlt]
    · rcases List.mem_append.mp hr with hr | hr
      · obtain ⟨ix, hix⟩ := hp.exists_ix hr
        have hix' := hadded.pclFindRuleIx_of_ne (hadded.key_ne hp hr)
        rw [hix, Option.map_some] at hix'
        by_cases hlt : ix < rule_ix
        · rw [Zones.up_of_lt hlt] at hix'
          exact .inl ⟨hr, hm r hr, ix, hlt, hix, hix'⟩
        · have hle := Nat.le_of_not_lt hlt
          refine .inr ⟨fun b hb => ?_, fun ix' hfind => ?_⟩
          · rw [hm r hr, ← h.reads r hr hlogs ix hix b hb, hzero b hle]
          · obtain rfl := Option.some_inj.mp (hix'.symm.trans hfind)
            exact hle.trans Zones.le_up
      · obtain rfl := List.mem_singleton.mp hr
        refine .inr ⟨fun _ _ => hnew fun r hr => hadded.key_ne hp hr, fun ix hfind => ?_⟩
        obtain rfl := Option.some_inj.mp (hadded.pclFindRuleIx_self.symm.trans hfind)
        exact le_rfl

/-- A rule that is new after a rule was set is the one that was set. -/
theorem mem_logRule {fake : Bool} {a : RuleArgs} {p : RuleParams} {pcl_id : ℕ} {o : Outcome}
    {r : LiveRule} (hset : s.ruleSet fake a p pcl_id = (o, s')) (hr : r ∈ logRule live a p o) :
    r ∈ live ∨ s.Accepts a.bindKey ∧ r.args = a ∧ r.params = p := by
  obtain ⟨-, rfl, -⟩ | ⟨rule_ix, s₁, hadd, hend⟩ := ruleSet_cases hset
  · exact .inl hr
  · have hadded := pclAddRuleIx_spec hadd
    unfold logRule at hr
    rw [if_pos hend.bound] at hr
    refine (List.mem_append.mp hr).imp_right fun hr => ?_
    obtain rfl := List.mem_singleton.mp hr
    exact ⟨⟨hadded.find, hadded.zone_lt, hadded.not_full⟩, rfl, rfl⟩

variable {interface : PclInterface} {dest : PclDest} {action_type : PclActionType}

theorem interface_of_resets {k : RuleBindingKey}
    (h : resets interface dest action_type k = true) : k.interface = interface := by
  unfold resets at h
  simp only [Bool.and_eq_true, decide_eq_true_eq] at h
  exact h.1.1

/-- The index of the first rule that goes, or one behind all rules. -/
theorem exists_first_reset (hp : s.sw.Placed live)
    (hno : ∀ bind ∈ s.sw.bindings, resets interface dest action_type bind.key = true →
      s.sw.CountedNothing counters (bind.rule_ix + 1)) :
    ∃ p, s.ResetsFrom interface dest action_type p ∧ s.sw.CountedNothing counters (p + 1) ∧
      ∀ bind ∈ s.sw.bindings, bind.rule_ix = p →
        resets interface dest action_type bind.key = true := by
  by_cases hex : ∃ p, ∃ bind ∈ s.sw.bindings, bind.rule_ix = p ∧
      resets interface dest action_type bind.key = true
  · obtain ⟨bind, hbind, hix, hres⟩ := Nat.find_spec hex
    refine ⟨Nat.find hex, fun bind' hbind' hres' => ?_, hix ▸ hno bind hbind hres,
      fun bind' hbind' hix' => ?_⟩
    · exact Nat.find_min' hex ⟨bind', hbind', rfl, hres'⟩
    · obtain rfl := hp.one_to_one hbind' hbind (hix'.trans hix.symm)
      exact hres
  · have hlt {bind : RuleBinding} (hbind : bind ∈ s.sw.bindings) :
        bind.rule_ix < s.sw.index_book.pbr_end := ((hp.onto _).mp ⟨bind, hbind, rfl⟩).2
    refine ⟨s.sw.index_book.pbr_end, fun bind hbind hres => ?_, fun bind hbind hle => ?_,
      fun bind hbind hix => ?_⟩
    · exact absurd ⟨bind.rule_ix, bind, hbind, rfl, hres⟩ hex
    · exact absurd (hlt hbind) (by omega)
    · exact absurd (hlt hbind) (by omega)

/-- Resetting an interface keeps the counters right if the rules behind those that go have counted
nothing. -/
theorem resetRules_counting (hp : s.sw.Placed live) (h : s.sw.Counting live counters matched)
    (hno : ∀ bind ∈ s.sw.bindings, resets interface dest action_type bind.key = true →
      s.sw.CountedNothing counters (bind.rule_ix + 1))
    (hcounters : ∀ b ix, counters' b ix =
      if AclState.resetBlock interface = some b ∧ ix ∈ clearedIxs false interface dest action_type
        (s.sw.bindings.map RuleBinding.key) s then 0 else counters b ix)
    (hm : ∀ r ∈ live, matched' r.key = matched r.key) :
    (s.resetRules false interface dest action_type).sw.Counting
      (afterReset interface dest action_type live) counters' matched' := by
  obtain ⟨p, hfrom, hno, hfirst⟩ := exists_first_reset hp hno
  obtain ⟨hge, hmem⟩ := mem_clearedIxs false (s.sw.bindings.map RuleBinding.key) hp hfrom
  have hlow (b ix : ℕ) (hix : ix < p) : counters' b ix = counters b ix := by
    rw [hcounters]
    exact if_neg fun hclear => absurd (hge ix hclear.2) (Nat.not_le.mpr hix)
  have hhigh (b ix : ℕ) (hix : p ≤ ix) : counters' b ix = 0 := by
    rw [hcounters]
    split_ifs with hclear
    · rfl
    · by_contra hne
      -- only the counter of the first rule that goes can have counted
      obtain rfl : p = ix := hix.antisymm (not_lt.mp fun hlt => hne (h.eq_zero hno b hlt))
      obtain ⟨bind, hbind, hix, hb⟩ := h.owned b p hne
      have hres := hfirst bind hbind hix
      rw [interface_of_resets hres] at hb
      exact hclear ⟨hb, hmem bind.key (List.mem_map_of_mem hbind) hres
        (hp.pclFindRuleIx_eq_some_iff.mpr ⟨bind, hbind, rfl, hix⟩)⟩
  refine h.change hlow hhigh (fun bind => mem_resetRules_of_lt hp hfrom) fun r hr hlogs => ?_
  obtain ⟨hlive, hstays⟩ := List.mem_filter.mp hr
  obtain ⟨ix, hix⟩ := hp.exists_ix hlive
  obtain ⟨ix', hix', hsame, habove⟩ := resetRules_index false hp hfrom hr hix
  by_cases hlt : ix < p
  · exact .inl ⟨hlive, hm r hlive, ix, hlt, hix, hsame hlt ▸ hix'⟩
  · have hle := Nat.le_of_not_lt hlt
    refine .inr ⟨fun b hb => ?_, fun ix'' hfind => ?_⟩
    · -- a rule that stays is not the first one that goes
      have hne : p ≠ ix := by
        rintro rfl
        obtain ⟨bind, hbind, hkey, hix⟩ := hp.pclFindRuleIx_eq_some_iff.mp hix
        rw [← hkey, hfirst bind hbind hix] at hstays
        exact Bool.false_ne_true hstays
      rw [hm r hlive, ← h.reads r hlive hlogs ix hix b hb,
        h.eq_zero hno b (Nat.lt_of_le_of_ne hle hne)]
    · obtain rfl := Option.some_inj.mp (hix'.symm.trans hfind)
      exact habove hle

end PclDev

namespace AclDev.Counting

variable {sw : AclDev} {live : List LiveRule} {counters counters' : ℕ → ℕ → ℕ}
  {matched matched' : RuleBindingKey → ℕ}

/-- A packet is counted right if the rule that it matches has its counter at the index where the
rule stands, in the block of the lookup. -/
theorem packet (h : sw.Counting live counters matched) (hp : sw.Placed live) {ix : ℕ}
    (block index : Option ℕ) (hbound : ∃ bind ∈ sw.bindings, bind.rule_ix = ix)
    (hindex : ∀ m ∈ index, m = ix ∧
      ∀ bind ∈ sw.bindings, bind.rule_ix = ix → AclState.resetBlock bind.key.interface = block)
    (hlogs : ∀ r ∈ live, r.Logs → sw.pclFindRuleIx r.key = some ix → index.isSome)
    (hcounters : ∀ b ix', counters' b ix' =
      if block = some b ∧ index = some ix' then counters b ix' + 1 else counters b ix')
    (hm : ∀ k, matched' k = if sw.pclFindRuleIx k = some ix then matched k + 1 else matched k) :
    sw.Counting live counters' matched' where
  reads := by
    intro r hr hlog i hi b hb
    rw [hcounters, hm]
    by_cases hix : i = ix
    · subst hix
      obtain ⟨m, hcount⟩ := Option.isSome_iff_exists.mp (hlogs r hr hlog hi)
      obtain ⟨rfl, hblock⟩ := hindex m hcount
      obtain ⟨bind, hbind, hkey, hat⟩ := hp.pclFindRuleIx_eq_some_iff.mp hi
      have hb' : block = some b := by rw [← hblock bind hbind hat, hkey, hb]
      rw [if_pos ⟨hb', hcount⟩, if_pos hi, h.reads r hr hlog m hi b hb]
    · -- the packet matches another rule
      rw [if_neg fun hcount => hix (hindex i hcount.2).1, if_neg fun hfind => hix ?_]
      · exact h.reads r hr hlog i hi b hb
      · exact Option.some_inj.mp (hi.symm.trans hfind)
  owned := by
    intro b i hne
    rw [hcounters] at hne
    split_ifs at hne with hcount
    · obtain ⟨rfl, hblock⟩ := hindex i hcount.2
      obtain ⟨bind, hbind, hat⟩ := hbound
      exact ⟨bind, hbind, hat, (hblock bind hbind hat).trans hcount.1⟩
    · exact h.owned b i hne

/-- The counter of a rule is cleared right on a device if the rounds that clear a counter there are
those of the rule on this device, or find the counter zero. -/
theorem clear (h : sw.Counting live counters matched) (hp : sw.Placed live) {key : RuleBindingKey}
    {block d : ℕ} {rounds : List CounterRound}
    (hblock : AclState.resetBlock key.interface = some block)
    (hfind : ∀ r ∈ rounds, r.dev = d → sw.pclFindRuleIx key = some r.rule_ix)
    (hown : ∀ r ∈ rounds, r.d = d → r.dev = d ∨ counters block r.rule_ix = 0)
    (hdev : ∀ r ∈ rounds, r.dev = d → r.d = d ∨ ∀ l ∈ live, l.key = key → ¬l.Logs)
    (hcounters : ∀ b ix, counters' b ix =
      if b = block ∧ ∃ r ∈ rounds, r.d = d ∧ r.rule_ix = ix then 0 else counters b ix)
    (hm : ∀ k, matched' k = if k = key ∧ ∃ r ∈ rounds, r.dev = d then 0 else matched k) :
    sw.Counting live counters' matched' where
  reads := by
    intro l hl hlogs ix hix b hb
    rw [hcounters, hm]
    by_cases hcleared : l.key = key ∧ ∃ r ∈ rounds, r.dev = d
    · obtain ⟨hkey, r, hr, hrd⟩ := hcleared
      have hd : r.d = d := (hdev r hr hrd).resolve_right fun hno => hno l hl hkey hlogs
      have hb' : b = block := Option.some_inj.mp (by rw [← hblock, ← hkey, hb])
      have hix' : r.rule_ix = ix :=
        Option.some_inj.mp ((hfind r hr hrd).symm.trans (hkey ▸ hix))
      rw [if_pos ⟨hb', r, hr, hd, hix'⟩, if_pos ⟨hkey, r, hr, hrd⟩]
    · rw [if_neg hcleared]
      split_ifs with hclear
      · -- the counter is not that of the rule whose counter is cleared, and so it was zero
        obtain ⟨rfl, r, hr, hd, rfl⟩ := hclear
        obtain hrd | hzero := hown r hr hd
        · exact absurd ⟨hp.key_inj hix (hfind r hr hrd), r, hr, hrd⟩ hcleared
        · rw [← h.reads l hl hlogs r.rule_ix hix b hb, hzero]
      · exact h.reads l hl hlogs ix hix b hb
  owned := by
    intro b ix hne
    rw [hcounters] at hne
    split_ifs at hne
    · exact absurd rfl hne
    · exact h.owned b ix hne

end AclDev.Counting

/-- The entry of a rule that logs names a counter. -/
theorem LiveRule.Genuine.isSome_matchCounterIndex {r : LiveRule} {entry : PclEntry} (h : r.Genuine)
    (hlogs : r.Logs) (hw : r.written = some entry) : entry.act.matchCounterIndex.isSome := by
  obtain ⟨pcl_id, rule_ix, cmp_ix, hentry⟩ := h entry hw
  obtain ⟨act, hact, hentry⟩ := Option.bind_eq_some_iff.mp hentry
  obtain ⟨type, -, rfl⟩ := Option.map_eq_some_iff.mp hentry
  obtain ⟨act', -, htrap⟩ := Option.bind_eq_some_iff.mp hact
  rw [hlogs] at htrap
  obtain rfl := Option.some_inj.mp htrap
  rfl

end Presteramgr
