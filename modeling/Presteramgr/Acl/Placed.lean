import Presteramgr.Acl.Book
import Presteramgr.Lib.Sweep

/-!
# Rules of a device, call by call (`pcl.c`)

Setting a rule and resetting an interface keep the rules of a device in their places.

## Main results

* `PclDev.ruleSet_placed`, `PclDev.ruleSet_installed`: a rule that is set;
* `PclDev.resetRules_placed`, `PclDev.resetRules_installed`: rules that are removed;
* `PclDev.ruleSet_fake`, `PclDev.resetRules_fake`: fake mode leaves the hardware as it is.
-/

namespace Presteramgr

namespace PclDev

variable {fake : Bool} {s s' : PclDev} {live : List LiveRule}

theorem Installed.congr (hi : s.Installed live) (hbook : s'.sw.index_book = s.sw.index_book)
    (htcam : s'.hw.tcam = s.hw.tcam) : s'.Installed live := by
  unfold Installed
  rw [hbook, htcam]
  exact hi

/-! ### Setting a rule -/

/-- What the calls for port comparators leave as it is. -/
structure SameRules (fake : Bool) (s s' : PclDev) : Prop where
  index_book : s'.sw.index_book = s.sw.index_book
  bindings : s'.sw.bindings = s.sw.bindings
  tcam : s'.hw.tcam = s.hw.tcam
  fake_hw : fake = true → s'.hw = s.hw

theorem pclTcpUdpPortCmpSet_tcam (hw : PclDevHw) (port_cmp : PortCmp) :
    (hw.pclTcpUdpPortCmpSet port_cmp).tcam = hw.tcam := by
  unfold PclDevHw.pclTcpUdpPortCmpSet
  split <;> rfl

theorem pclAddPortCmpIx_same {key : PortCmpKey} {rule_ix cmp_ix ix : ℕ}
    (h : s.pclAddPortCmpIx fake key rule_ix cmp_ix = some (ix, s')) : SameRules fake s s' := by
  unfold pclAddPortCmpIx at h
  split_ifs at h
  · obtain ⟨-, rfl⟩ := Prod.mk.inj (Option.some_inj.mp h)
    exact ⟨rfl, rfl, rfl, fun _ => rfl⟩
  · cases hidxs : s.sw.port_cmp_idxs with
    | nil =>
      rw [hidxs] at h
      exact absurd h (Option.some_ne_none _).symm
    | cons i idxs =>
      rw [hidxs] at h
      obtain ⟨-, rfl⟩ := Prod.mk.inj (Option.some_inj.mp h)
      refine ⟨rfl, rfl, ?_, fun hfake => if_pos hfake⟩
      unfold newPortCmp
      cases fake
      · exact pclTcpUdpPortCmpSet_tcam _ _
      · rfl

variable (fake s) in
theorem addPortCmps_same (rule_ix : ℕ) (keys : List PortCmpKey) :
    SameRules fake s (s.addPortCmps fake rule_ix keys).2 := by
  induction keys generalizing s with
  | nil => exact ⟨rfl, rfl, rfl, fun _ => rfl⟩
  | cons key keys ih =>
    unfold addPortCmps
    cases hadd : s.pclAddPortCmpIx fake key rule_ix 0 with
    | none => exact ⟨rfl, rfl, rfl, fun _ => rfl⟩
    | some r =>
      have h₁ := pclAddPortCmpIx_same hadd
      have h₂ := ih r.2
      exact ⟨h₂.index_book.trans h₁.index_book, h₂.bindings.trans h₁.bindings,
        h₂.tcam.trans h₁.tcam, fun hfake => (h₂.fake_hw hfake).trans (h₁.fake_hw hfake)⟩

/-- The rules of a device after a rule was set. -/
def logRule (live : List LiveRule) (a : RuleArgs) (p : RuleParams) (o : Outcome) : List LiveRule :=
  if o.bound then live ++ [⟨a, p, o.written⟩] else live

/-- How setting a rule ends once it has got the index `rule_ix` and the comparators were asked for:
there are not enough of them, the call is in fake mode, the rule is wrong, or it is installed. -/
inductive Ending (fake : Bool) (a : RuleArgs) (p : RuleParams) (pcl_id rule_ix : ℕ) :
    Option (List ℕ) × PclDev → Outcome → PclDev → Prop
  | short (s : PclDev) : Ending fake a p pcl_id rule_ix (none, s) ⟨.ST_BAD_VALUE, true, none⟩ s
  | tried (cmp_ix : List ℕ) (s : PclDev) : fake = true →
      Ending fake a p pcl_id rule_ix (some cmp_ix, s) ⟨.ST_OK, true, none⟩ s
  | wrong (cmp_ix : List ℕ) (s : PclDev) : fake = false →
      ruleEntry a p pcl_id rule_ix cmp_ix = none →
      Ending fake a p pcl_id rule_ix (some cmp_ix, s) ⟨.ST_BAD_VALUE, true, none⟩ s
  | installed (cmp_ix : List ℕ) (s : PclDev) (entry : PclEntry) : fake = false →
      ruleEntry a p pcl_id rule_ix cmp_ix = some entry →
      Ending fake a p pcl_id rule_ix (some cmp_ix, s) ⟨.ST_OK, true, some entry⟩
        (s.setTcam false rule_ix (some entry))

namespace Ending

variable {a : RuleArgs} {p : RuleParams} {pcl_id rule_ix : ℕ} {o : Outcome}
  {r : Option (List ℕ) × PclDev}

theorem bound (h : Ending fake a p pcl_id rule_ix r o s') : o.bound = true := by
  cases h <;> rfl

theorem sw (h : Ending fake a p pcl_id rule_ix r o s') : s'.sw = r.2.sw := by
  cases h <;> rfl

theorem comparators (h : Ending fake a p pcl_id rule_ix r o s') :
    s'.hw.comparators = r.2.hw.comparators := by
  cases h <;> rfl

theorem hw_fake (h : Ending true a p pcl_id rule_ix r o s') : s'.hw = r.2.hw := by
  cases h with
  | short => rfl
  | tried => rfl
  | wrong => rfl
  | installed _ _ _ hfake _ => exact absurd hfake.symm Bool.false_ne_true

theorem written (h : Ending fake a p pcl_id rule_ix r o s') {entry : PclEntry}
    (hw : o.written = some entry) : ∃ cmp_ix, ruleEntry a p pcl_id rule_ix cmp_ix = some entry := by
  cases h with
  | short => exact absurd hw.symm (Option.some_ne_none _)
  | tried => exact absurd hw.symm (Option.some_ne_none _)
  | wrong => exact absurd hw.symm (Option.some_ne_none _)
  | installed cmp_ix _ _ _ hentry => exact ⟨cmp_ix, hw ▸ hentry⟩

end Ending

/-- What setting a rule can do. -/
theorem ruleSet_cases {a : RuleArgs} {p : RuleParams} {pcl_id : ℕ} {o : Outcome}
    (h : s.ruleSet fake a p pcl_id = (o, s')) :
    (s.pclAddRuleIx fake a.bindKey = none ∧ o = ⟨.ST_BAD_VALUE, false, none⟩ ∧ s' = s) ∨
    ∃ rule_ix s₁, s.pclAddRuleIx fake a.bindKey = some (rule_ix, s₁) ∧
      Ending fake a p pcl_id rule_ix (s₁.addPortCmps fake rule_ix (p.cmps a.dest)) o s' := by
  unfold ruleSet at h
  cases hadd : s.pclAddRuleIx fake a.bindKey with
  | none =>
    rw [hadd] at h
    obtain ⟨rfl, rfl⟩ := Prod.mk.inj h
    exact Or.inl ⟨rfl, rfl, rfl⟩
  | some r =>
    obtain ⟨rule_ix, s₁⟩ := r
    rw [hadd] at h
    dsimp only at h
    refine Or.inr ⟨rule_ix, s₁, rfl, ?_⟩
    generalize s₁.addPortCmps fake rule_ix (p.cmps a.dest) = r at h ⊢
    obtain ⟨_ | cmp_ix, s₂⟩ := r
    · obtain ⟨rfl, rfl⟩ := Prod.mk.inj h
      exact .short s₂
    · dsimp only at h
      cases fake with
      | true =>
        obtain ⟨rfl, rfl⟩ := Prod.mk.inj h
        exact .tried cmp_ix s₂ rfl
      | false =>
        rw [if_neg Bool.false_ne_true] at h
        cases hentry : ruleEntry a p pcl_id rule_ix cmp_ix with
        | none =>
          rw [hentry] at h
          obtain ⟨rfl, rfl⟩ := Prod.mk.inj h
          exact .wrong cmp_ix s₂ rfl hentry
        | some entry =>
          rw [hentry] at h
          obtain ⟨rfl, rfl⟩ := Prod.mk.inj h
          exact .installed cmp_ix s₂ entry rfl hentry

/-- When a rule is set, the rules have their places. -/
theorem ruleSet_placed {a : RuleArgs} {p : RuleParams} {pcl_id : ℕ} {o : Outcome}
    (hp : s.sw.Placed live) (h : s.ruleSet fake a p pcl_id = (o, s')) :
    s'.sw.Placed (logRule live a p o) := by
  obtain ⟨-, rfl, rfl⟩ | ⟨rule_ix, s₁, hadd, hend⟩ := ruleSet_cases h
  · exact hp
  · have hadded : Added fake s (LiveRule.key ⟨a, p, o.written⟩) rule_ix s₁ := pclAddRuleIx_spec hadd
    have hsame := addPortCmps_same fake s₁ rule_ix (p.cmps a.dest)
    have hp' := (hadded.placed hp).congr hsame.index_book hsame.bindings
    unfold logRule
    rw [if_pos hend.bound, hend.sw]
    exact hp'

/-- When a rule is set, the entries are those of the rules. -/
theorem ruleSet_installed {a : RuleArgs} {p : RuleParams} {pcl_id : ℕ} {o : Outcome}
    (hp : s.sw.Placed live) (hi : s.Installed live) (h : s.ruleSet false a p pcl_id = (o, s')) :
    s'.Installed (logRule live a p o) := by
  obtain ⟨-, rfl, rfl⟩ | ⟨rule_ix, s₁, hadd, hend⟩ := ruleSet_cases h
  · exact hi
  · have hadded : Added false s (LiveRule.key ⟨a, p, none⟩) rule_ix s₁ := pclAddRuleIx_spec hadd
    have hsame := addPortCmps_same false s₁ rule_ix (p.cmps a.dest)
    have hi' := (hadded.installed hp hi rfl rfl).congr hsame.index_book hsame.tcam
    unfold logRule
    rw [if_pos hend.bound]
    generalize s₁.addPortCmps false rule_ix (p.cmps a.dest) = r at hend hsame hi'
    cases hend with
    | short => exact hi'
    | tried => exact hi'
    | wrong => exact hi'
    | installed _ _ entry => exact hadded.installed_written hp hi' hsame.index_book (some entry)

/-- In fake mode setting a rule leaves the hardware as it is. -/
theorem ruleSet_fake {a : RuleArgs} {p : RuleParams} {pcl_id : ℕ} {o : Outcome}
    (h : s.ruleSet true a p pcl_id = (o, s')) : s'.hw = s.hw := by
  obtain ⟨-, -, rfl⟩ | ⟨rule_ix, s₁, hadd, hend⟩ := ruleSet_cases h
  · rfl
  · rw [hend.hw_fake, (addPortCmps_same true s₁ rule_ix (p.cmps a.dest)).fake_hw rfl,
      (pclAddRuleIx_spec hadd).hw]
    rfl

/-! ### Removing rules -/

section Reset

variable {interface : PclInterface} {dest : PclDest} {action_type : PclActionType}

variable (fake interface dest action_type) in
/-- What a round of the loop over bindings can do: nothing, or a rule that is to go is removed. -/
theorem resetRound_cases (hp : s.sw.Placed live) (k : RuleBindingKey) :
    ((∀ r ∈ live, r.key = k → resets interface dest action_type k = false) ∧
      resetRound fake interface dest action_type s k = s) ∨
    ∃ A B r bind, placing live = A ++ r :: B ∧ r.key = k ∧ bind.key = k ∧
      bind.rule_ix = s.sw.index_book.start + A.length ∧
      resets interface dest action_type k = true ∧
      resetRound fake interface dest action_type s k = s.removeRule fake bind := by
  unfold resetRound
  cases hfind : Keyed.find RuleBinding.key s.sw.bindings k with
  | none =>
    refine Or.inl ⟨fun r hr hk => ?_, rfl⟩
    have hsome := hp.find_isSome_iff.mpr ⟨r, hr, hk⟩
    rw [hfind] at hsome
    exact absurd hsome Bool.false_ne_true
  | some bind =>
    have hkey : bind.key = k := Keyed.key_of_find hfind
    dsimp only
    rw [hkey]
    cases hres : resets interface dest action_type k with
    | false => exact Or.inl ⟨fun _ _ _ => rfl, rfl⟩
    | true =>
      obtain ⟨A, B, r, hAB, hr, hix⟩ := hp.exists_of_find hfind
      exact Or.inr ⟨A, B, r, bind, hAB, hr, hkey, hix, rfl, rfl⟩

/-- The rules of a device after the rules of an interface were reset. -/
def afterReset (interface : PclInterface) (dest : PclDest) (action_type : PclActionType)
    (live : List LiveRule) : List LiveRule :=
  live.filter fun r => !resets interface dest action_type r.key

/-- What removing a rule preserves, resetting an interface preserves. -/
theorem resetRules_induction (P : PclDev → List LiveRule → Prop)
    (hplaced : ∀ s live, P s live → s.sw.Placed live)
    (hstep : ∀ s live A B r bind, P s live → placing live = A ++ r :: B → bind.key = r.key →
      bind.rule_ix = s.sw.index_book.start + A.length →
      resets interface dest action_type r.key = true →
      P (s.removeRule fake bind) (without live r.key))
    (h : P s live) :
    P (s.resetRules fake interface dest action_type)
      (afterReset interface dest action_type live) := by
  -- the loop goes over the keys that were there in the beginning
  have hloop (ks : List RuleBindingKey) (s : PclDev) (live : List LiveRule) (h : P s live) :
      P (ks.foldl (resetRound fake interface dest action_type) s)
        (live.filter fun r =>
          !(decide (r.key ∈ ks) && resets interface dest action_type r.key)) := by
    induction ks generalizing s live with
    | nil =>
      rw [List.filter_eq_self.mpr fun r _ => by simp]
      exact h
    | cons k ks ih =>
      rw [List.foldl_cons]
      obtain ⟨hno, hround⟩ | ⟨A, B, r, bind, hAB, rfl, hkey, hix, hres, hround⟩ :=
        resetRound_cases fake interface dest action_type (hplaced s live h) k
      · rw [hround]
        refine (congrArg (P _) (List.filter_congr fun r hr => ?_)).mp (ih s live h)
        by_cases hk : r.key = k
        · rw [hk, hno r hr hk, Bool.and_false, Bool.and_false]
        · simp only [List.mem_cons, hk, false_or]
      · rw [hround]
        refine (congrArg (P _) ?_).mp (ih _ _ (hstep s live A B r bind h hAB hkey hix hres))
        rw [without, List.filter_filter]
        refine List.filter_congr fun r' _ => ?_
        by_cases hk : r'.key = r.key
        · simp [hk, hres]
        · simp [hk]
  have hall := hloop (s.sw.bindings.map RuleBinding.key) s live h
  rw [(hplaced s live h).keys] at hall
  unfold resetRules afterReset
  rw [(hplaced s live h).keys]
  refine (congrArg (P _) (List.filter_congr fun r hr => ?_)).mp hall
  rw [decide_eq_true (List.mem_map_of_mem hr), Bool.true_and]

/-- When an interface is reset, the other rules have their places. -/
theorem resetRules_placed (hp : s.sw.Placed live) :
    (s.resetRules fake interface dest action_type).sw.Placed
      (afterReset interface dest action_type live) := by
  refine resetRules_induction (fun s live => s.sw.Placed live) (fun _ _ h => h) ?_ hp
  intro s live A B r bind hp hAB hkey hix _
  exact (removeRule_spec fake hp hAB bind hkey hix).1.placed hAB hix hp

/-- When an interface is reset, the entries are those of the rules that stay. -/
theorem resetRules_installed (hp : s.sw.Placed live) (hi : s.Installed live) :
    (s.resetRules false interface dest action_type).Installed
      (afterReset interface dest action_type live) := by
  refine (resetRules_induction (fun s live => s.sw.Placed live ∧ s.Installed live)
    (fun _ _ h => h.1) ?_ ⟨hp, hi⟩).2
  intro s live A B r bind h hAB hkey hix _
  have hrem := (removeRule_spec false h.1 hAB bind hkey hix).1
  exact ⟨hrem.placed hAB hix h.1, hrem.installed hAB hix h.1 h.2 rfl⟩

/-- In fake mode resetting an interface leaves the hardware as it is. -/
theorem resetRules_fake (s : PclDev) :
    (s.resetRules true interface dest action_type).hw = s.hw := by
  unfold resetRules
  refine Sweep.foldl_keeps PclDev.hw (fun s k _ => ?_) s
  unfold resetRound
  split
  · split_ifs
    · exact ixBookReturn_fake _ _
    · rfl
  · rfl

end Reset

end PclDev

end Presteramgr
