import Mathlib.Data.List.Forall2
import Presteramgr.Acl.Comparators

/-!
# Tables for fake mode (`pcl.c`)

The copy of the tables on which requests are tried has the lists of users of comparators in another
order than the tables themselves. What a device does with a call does not depend on that order, nor
on the mode, but for the checks of `set_pcl_action` and of the direction, which are not made in fake
mode.

## Main definitions

* `AclDev.Alike`: the tables of a device are the same up to the order of users;
* `RuleArgs.Known`: what the checks that are not made in fake mode ask for;
* `PclDev.Takes`: a rule gets an index and its comparators;
* `PclDev.clearedIxs`: the counters that `pcl_reset_rules` clears.

## Main results

* `AclDev.Alike.ruleSet`, `AclDev.Alike.resetRules`: a call on alike tables gives alike tables;
* `PclDev.ruleSet_takes`: when a rule is set in fake mode, it got an index and its comparators;
* `PclDev.clearedIxs_le`: the counters are those of indices up to that of a rule that goes.
-/

namespace Presteramgr

/-! ### Alike tables -/

/-- The same comparator with the same users. -/
structure PortCmp.Alike (p q : PortCmp) : Prop where
  key : p.key = q.key
  cmp_ix : p.cmp_ix = q.cmp_ix
  rule_idxs : p.rule_idxs.Perm q.rule_idxs

/-- The same tables up to the order of the users of comparators. -/
structure AclDev.Alike (f r : AclDev) : Prop where
  index_book : f.index_book = r.index_book
  bindings : f.bindings = r.bindings
  port_cmp_idxs : f.port_cmp_idxs = r.port_cmp_idxs
  port_cmps : List.Forall₂ PortCmp.Alike f.port_cmps r.port_cmps

/-- The copy that a dry run works on is alike. -/
theorem AclDev.copy_alike (dev : AclDev) : dev.copy.Alike dev where
  index_book := rfl
  bindings := rfl
  port_cmp_idxs := rfl
  port_cmps := by
    unfold copy
    dsimp only
    rw [List.forall₂_map_left_iff, List.forall₂_same]
    exact fun c _ => ⟨rfl, rfl, List.reverse_perm _⟩

namespace PortCmp

variable {f r : List PortCmp} {k : PortCmpKey}

/-- Alike lists of comparators have the same keys. -/
theorem Alike.find_isSome (h : List.Forall₂ Alike f r) :
    (Keyed.find PortCmp.key f k).isSome = (Keyed.find PortCmp.key r k).isSome := by
  induction h with
  | nil => rfl
  | cons hpq _ ih =>
    rw [Keyed.find_cons, Keyed.find_cons, hpq.key]
    split_ifs
    · rfl
    · exact ih

/-- One more user of a comparator makes no difference. -/
theorem Alike.modify (h : List.Forall₂ Alike f r) (rule_ix : ℕ) :
    List.Forall₂ Alike
      (Keyed.modify PortCmp.key f k fun c => { c with rule_idxs := rule_ix :: c.rule_idxs })
      (Keyed.modify PortCmp.key r k fun c => { c with rule_idxs := rule_ix :: c.rule_idxs }) := by
  unfold Keyed.modify
  rw [List.forall₂_map_left_iff, List.forall₂_map_right_iff]
  refine h.imp fun p q hpq => ?_
  rw [hpq.key]
  split_ifs
  · exact ⟨hpq.key, hpq.cmp_ix, hpq.rule_idxs.cons _⟩
  · exact hpq

/-- A comparator is released on both sides or on none. -/
theorem Alike.release {p q : PortCmp} (h : p.Alike q) (rule_ix : ℕ) :
    Option.Rel Alike (PclDev.releasePortCmp rule_ix p) (PclDev.releasePortCmp rule_ix q) := by
  have herase := h.rule_idxs.erase rule_ix
  have hnil : p.rule_idxs.erase rule_ix = [] ↔ q.rule_idxs.erase rule_ix = [] :=
    ⟨fun hp => (hp ▸ herase).nil_eq.symm, fun hq => (hq ▸ herase).eq_nil⟩
  rw [PclDev.releasePortCmp_eq, PclDev.releasePortCmp_eq]
  by_cases hq : rule_ix ∈ q.rule_idxs ∧ q.rule_idxs.erase rule_ix = []
  · rw [if_pos hq, if_pos ⟨h.rule_idxs.mem_iff.mpr hq.1, hnil.mpr hq.2⟩]
    exact .none
  · rw [if_neg hq, if_neg fun hp => hq ⟨h.rule_idxs.mem_iff.mp hp.1, hnil.mp hp.2⟩]
    exact .some ⟨h.key, h.cmp_ix, herase⟩

/-- The release of a rule frees the same comparators. -/
theorem Alike.releases (h : List.Forall₂ Alike f r) (rule_ix : ℕ) :
    List.Forall₂ Alike (f.filterMap (PclDev.releasePortCmp rule_ix))
        (r.filterMap (PclDev.releasePortCmp rule_ix)) ∧
      (f.filter fun c => (PclDev.releasePortCmp rule_ix c).isNone).map PortCmp.cmp_ix =
        (r.filter fun c => (PclDev.releasePortCmp rule_ix c).isNone).map PortCmp.cmp_ix := by
  induction h with
  | nil => exact ⟨.nil, rfl⟩
  | @cons p q f r hpq _ ih =>
    have hrel := hpq.release rule_ix
    rw [List.filterMap_cons, List.filterMap_cons, List.filter_cons, List.filter_cons]
    revert hrel
    generalize PclDev.releasePortCmp rule_ix p = x
    generalize PclDev.releasePortCmp rule_ix q = y
    intro hrel
    cases hrel with
    | none => exact ⟨ih.1, congrArg₂ List.cons hpq.cmp_ix ih.2⟩
    | some h => exact ⟨.cons h ih.1, ih.2⟩

end PortCmp

/-- The action, the mark, the trap action and the direction are ones that there are. -/
def RuleArgs.Known (a : RuleArgs) (p : RuleParams) : Prop :=
  (setPclAction 0 a.dest a.rule_action p.trapAction).isSome ∧ (p.type a.dest).isSome

instance (a : RuleArgs) (p : RuleParams) : Decidable (a.Known p) :=
  inferInstanceAs (Decidable (_ = true ∧ _ = true))

namespace PclDev

/-- A rule gets an index and its comparators. -/
def Takes (s : PclDev) (a : RuleArgs) (p : RuleParams) : Prop :=
  s.Accepts a.bindKey ∧ (s.missing (p.cmps a.dest)).length ≤ s.sw.port_cmp_idxs.length

instance (s : PclDev) (a : RuleArgs) (p : RuleParams) : Decidable (s.Takes a p) :=
  inferInstanceAs (Decidable (_ ∧ _ ≤ _))

/-- An entry is made for every rule whose parameters are known. -/
theorem ruleEntry_isSome {a : RuleArgs} {p : RuleParams} (h : a.Known p) (pcl_id rule_ix : ℕ)
    (cmp_ix : List ℕ) : (ruleEntry a p pcl_id rule_ix cmp_ix).isSome = true := by
  obtain ⟨hact, htype⟩ := h
  unfold setPclAction at hact
  unfold ruleEntry setPclAction
  cases hrule : setRuleAction a.dest a.rule_action with
  | none =>
    rw [hrule] at hact
    exact hact
  | some act =>
    rw [hrule, Option.bind_some] at hact
    rw [Option.bind_some]
    -- the counter of the rule is the only thing that depends on its index
    have htrap : (setTrapAction rule_ix act p.trapAction).isSome = true := by
      cases htrap : p.trapAction <;> rw [htrap] at hact <;> first | rfl | exact hact
    obtain ⟨act', hact'⟩ := Option.isSome_iff_exists.mp htrap
    rw [hact', Option.bind_some, Option.isSome_map]
    exact htype

section Alike

variable (fake fake' : Bool) {s t : PclDev}

/-- A shift of the rules does the same to alike devices, whatever is written. -/
theorem shift_alike (h : s.sw.Alike t.sw) (f : ℕ → ℕ)
    (g g' : (ℕ → Option PclEntry) → ℕ → Option PclEntry) :
    (s.shift fake f g).sw.Alike (t.shift fake' f g').sw :=
  ⟨h.index_book, congrArg (List.map _) h.bindings, h.port_cmp_idxs, h.port_cmps⟩

/-- A new index book for both makes no difference. -/
theorem setIndexBook_alike (h : s.sw.Alike t.sw) (index_book : IxBook) :
    (s.setIndexBook index_book).sw.Alike (t.setIndexBook index_book).sw :=
  ⟨rfl, h.bindings, h.port_cmp_idxs, h.port_cmps⟩

/-- The index book gives the same index in a dry run. -/
theorem ixBookTake_alike (h : s.sw.Alike t.sw) (action_type : PclActionType) :
    Option.Rel (fun x y => x.1 = y.1 ∧ x.2.sw.Alike y.2.sw) (s.ixBookTake fake action_type)
      (t.ixBookTake fake' action_type) := by
  rw [ixBookTake_eq, ixBookTake_eq]
  unfold ixBookActionTake
  rw [h.index_book]
  split_ifs
  · exact .none
  · refine .some ⟨rfl, ?_⟩
    rw [foldr_moveRule, foldr_moveRule]
    exact setIndexBook_alike (shift_alike _ _ h _ _ _) _
  · exact .none

/-- A rule gets the same index in a dry run. -/
theorem pclAddRuleIx_alike (h : s.sw.Alike t.sw) (k : RuleBindingKey) :
    Option.Rel (fun x y => x.1 = y.1 ∧ x.2.sw.Alike y.2.sw) (s.pclAddRuleIx fake k)
      (t.pclAddRuleIx fake' k) := by
  have htake := ixBookTake_alike fake fake' h k.acttype
  unfold pclAddRuleIx
  rw [h.bindings]
  split_ifs
  · exact .none
  · revert htake
    generalize s.ixBookTake fake k.acttype = x
    generalize t.ixBookTake fake' k.acttype = y
    intro htake
    cases htake with
    | none => exact .none
    | @some x y hxy =>
      obtain ⟨hix, halike⟩ := hxy
      refine .some ⟨hix, halike.index_book, ?_, halike.port_cmp_idxs, halike.port_cmps⟩
      unfold setBindings
      dsimp only
      rw [halike.bindings, hix]

/-- A comparator gets the same index in a dry run. -/
theorem pclAddPortCmpIx_alike (h : s.sw.Alike t.sw) (k : PortCmpKey) (rule_ix : ℕ) :
    Option.Rel (fun x y => x.1 = y.1 ∧ x.2.sw.Alike y.2.sw) (s.pclAddPortCmpIx fake k rule_ix 0)
      (t.pclAddPortCmpIx fake' k rule_ix 0) := by
  unfold pclAddPortCmpIx
  rw [PortCmp.Alike.find_isSome h.port_cmps, h.port_cmp_idxs]
  split_ifs
  · exact .some ⟨rfl, h.index_book, h.bindings, h.port_cmp_idxs,
      PortCmp.Alike.modify h.port_cmps rule_ix⟩
  · cases hidxs : t.sw.port_cmp_idxs with
    | nil => exact .none
    | cons ix idxs =>
      refine .some ⟨rfl, h.index_book, h.bindings, rfl, ?_⟩
      exact List.rel_append h.port_cmps (.cons ⟨rfl, rfl, List.Perm.refl _⟩ .nil)

/-- The comparators of a rule get the same indexes in a dry run. -/
theorem addPortCmps_alike (h : s.sw.Alike t.sw) (rule_ix : ℕ) (keys : List PortCmpKey) :
    (s.addPortCmps fake rule_ix keys).1 = (t.addPortCmps fake' rule_ix keys).1 ∧
      (s.addPortCmps fake rule_ix keys).2.sw.Alike (t.addPortCmps fake' rule_ix keys).2.sw := by
  induction keys generalizing s t with
  | nil => exact ⟨rfl, h⟩
  | cons k keys ih =>
    have hadd := pclAddPortCmpIx_alike fake fake' h k rule_ix
    unfold addPortCmps
    revert hadd
    generalize s.pclAddPortCmpIx fake k rule_ix 0 = x
    generalize t.pclAddPortCmpIx fake' k rule_ix 0 = y
    intro hadd
    cases hadd with
    | none => exact ⟨rfl, h⟩
    | @some x y hxy =>
      obtain ⟨hix, halike⟩ := hxy
      obtain ⟨hixs, hrest⟩ := ih halike
      refine ⟨?_, hrest⟩
      dsimp only
      rw [hixs, hix]

/-- A rule is set on alike tables, in fake mode on one side. -/
theorem ruleSet_alike {a : RuleArgs} {p : RuleParams} (pcl_id pcl_id' : ℕ) (h : s.sw.Alike t.sw)
    (hknown : (s.ruleSet true a p pcl_id).1.status = .ST_OK → a.Known p) :
    (s.ruleSet true a p pcl_id).1.status = (t.ruleSet false a p pcl_id').1.status ∧
      (s.ruleSet true a p pcl_id).2.sw.Alike (t.ruleSet false a p pcl_id').2.sw := by
  have hadd := pclAddRuleIx_alike true false h a.bindKey
  unfold ruleSet at hknown ⊢
  revert hadd hknown
  generalize s.pclAddRuleIx true a.bindKey = x
  generalize t.pclAddRuleIx false a.bindKey = y
  intro hknown hadd
  cases hadd with
  | none => exact ⟨rfl, h⟩
  | @some x y hxy =>
    obtain ⟨rule_ix, s₁⟩ := x
    obtain ⟨rule_ix', t₁⟩ := y
    obtain ⟨hix, halike⟩ := hxy
    obtain rfl : rule_ix = rule_ix' := hix
    obtain ⟨hixs, hcmps⟩ := addPortCmps_alike true false halike rule_ix
      (p.cmps a.dest)
    dsimp only at hknown ⊢
    revert hixs hcmps hknown
    generalize s₁.addPortCmps true rule_ix (p.cmps a.dest) = x
    generalize t₁.addPortCmps false rule_ix (p.cmps a.dest) = y
    intro hknown hixs hcmps
    obtain ⟨ixs, s₂⟩ := x
    obtain ⟨ixs', t₂⟩ := y
    obtain rfl : ixs = ixs' := hixs
    cases ixs with
    | none => exact ⟨rfl, hcmps⟩
    | some ixs =>
      -- both rounds come to the entry, which only the other side makes
      have hentry := ruleEntry_isSome (hknown rfl) pcl_id' rule_ix ixs
      obtain ⟨entry, hentry⟩ := Option.isSome_iff_exists.mp hentry
      dsimp only
      rw [if_pos rfl, if_neg Bool.false_ne_true, hentry]
      exact ⟨rfl, hcmps⟩

end Alike

/-! ### Room -/

section Room

variable {fake : Bool} {s s' : PclDev}

/-- One call takes a free comparator where there is none for the key. -/
theorem pclAddPortCmpIx_room {k : PortCmpKey} {rule_ix ix : ℕ}
    (h : s.pclAddPortCmpIx fake k rule_ix 0 = some (ix, s')) :
    s.sw.port_cmp_idxs.length = s'.sw.port_cmp_idxs.length + (s.missing [k]).length ∧
      ∀ k' ≠ k, s'.sw.cmpOf k' = s.sw.cmpOf k' := by
  have hmiss : s.missing [k] =
      if (Keyed.find PortCmp.key s.sw.port_cmps k).isSome then [] else [k] := by
    unfold missing AclDev.cmpOf
    rw [List.filter_cons, List.filter_nil, Option.isNone_map]
    cases Keyed.find PortCmp.key s.sw.port_cmps k <;> rfl
  rw [hmiss]
  unfold pclAddPortCmpIx at h
  split_ifs at h ⊢
  · obtain ⟨-, rfl⟩ := Prod.mk.inj (Option.some_inj.mp h)
    exact ⟨rfl, fun k' _ => cmpOf_join s k k' rule_ix⟩
  · cases hidxs : s.sw.port_cmp_idxs with
    | nil =>
      rw [hidxs] at h
      exact absurd h (Option.some_ne_none _).symm
    | cons ix idxs =>
      rw [hidxs] at h
      obtain ⟨-, rfl⟩ := Prod.mk.inj (Option.some_inj.mp h)
      refine ⟨rfl, fun k' hk' => (cmpOf_new s k k' rule_ix ix idxs).trans ?_⟩
      rw [if_neg hk'.symm, Option.or_none]

/-- All the calls for a rule return when there are enough free comparators. -/
theorem addPortCmps_room {keys : List PortCmpKey} {rule_ix : ℕ} {ixs : List ℕ} (hkeys : keys.Nodup)
    (h : s.addPortCmps fake rule_ix keys = (some ixs, s')) :
    (s.missing keys).length ≤ s.sw.port_cmp_idxs.length := by
  induction keys generalizing s ixs with
  | nil => exact Nat.zero_le _
  | cons k keys ih =>
    obtain ⟨hk, hkeys⟩ := List.nodup_cons.mp hkeys
    unfold addPortCmps at h
    cases hadd : s.pclAddPortCmpIx fake k rule_ix 0 with
    | none =>
      rw [hadd] at h
      exact absurd (Prod.mk.inj h).1.symm (Option.some_ne_none _)
    | some r =>
      obtain ⟨ix, s₁⟩ := r
      rw [hadd] at h
      obtain ⟨h₁, h₂⟩ := Prod.mk.inj h
      obtain ⟨ixs₁, hixs₁, -⟩ := Option.map_eq_some_iff.mp h₁
      have hrest := ih hkeys (Prod.ext hixs₁ h₂)
      obtain ⟨hlen, hother⟩ := pclAddPortCmpIx_room hadd
      have hmiss : s₁.missing keys = s.missing keys := by
        refine List.filter_congr fun k' hk' => ?_
        rw [hother k' fun h => hk (h ▸ hk')]
      have hcons : (s.missing (k :: keys)).length =
          (s.missing [k]).length + (s.missing keys).length := by
        rw [← List.length_append]
        exact congrArg List.length
          (List.filter_append (p := fun k => (s.sw.cmpOf k).isNone) [k] keys)
      rw [hmiss] at hrest
      omega

/-- A rule that is set got an index and its comparators. -/
theorem ruleSet_takes {a : RuleArgs} {p : RuleParams} {pcl_id : ℕ}
    (h : (s.ruleSet fake a p pcl_id).1.status = .ST_OK) : s.Takes a p := by
  have hset : s.ruleSet fake a p pcl_id =
      ((s.ruleSet fake a p pcl_id).1, (s.ruleSet fake a p pcl_id).2) := rfl
  obtain ⟨-, ho, -⟩ | ⟨rule_ix, s₁, hadd, hend⟩ := ruleSet_cases hset
  · rw [ho] at h
    exact absurd h Status.noConfusion
  · have hadded := pclAddRuleIx_spec hadd
    refine ⟨⟨hadded.find, hadded.zone_lt, hadded.not_full⟩, ?_⟩
    have hmiss : s₁.missing (p.cmps a.dest) = s.missing (p.cmps a.dest) := by
      unfold missing AclDev.cmpOf
      rw [hadded.port_cmps]
    rw [← hmiss, ← hadded.port_cmp_idxs]
    cases hcmps : s₁.addPortCmps fake rule_ix (p.cmps a.dest) with
    | mk ixs s₂ =>
      cases ixs with
      | some ixs => exact addPortCmps_room (cmps_nodup p a.dest) hcmps
      | none =>
        -- without a comparator the call fails
        rw [hcmps] at hend
        generalize (s.ruleSet fake a p pcl_id).1 = o at h hend
        cases hend with
        | short => exact absurd h Status.noConfusion

end Room

/-! ### Removing rules -/

section Reset

variable (fake fake' : Bool) {s t : PclDev}

/-- Giving back an index of one kind of action does the same in a dry run. -/
theorem ixBookActionReturn_alike (h : s.sw.Alike t.sw) (index first last : ℕ) (book : IxBook) :
    (s.ixBookActionReturn fake index first last book).sw.Alike
      (t.ixBookActionReturn fake' index first last book).sw := by
  unfold ixBookActionReturn
  split_ifs
  · exact h
  · rw [foldl_moveRule, foldl_moveRule, h.index_book]
    exact setIndexBook_alike (shift_alike _ _ h _ _ _) _

/-- Giving back an index does the same in a dry run. -/
theorem ixBookReturn_alike (h : s.sw.Alike t.sw) (index : ℕ) :
    (s.ixBookReturn fake index).sw.Alike (t.ixBookReturn fake' index).sw := by
  unfold ixBookReturn ixBookActionAclReturn ixBookActionQosReturn ixBookActionPbrReturn
  rw [h.index_book]
  split_ifs
  · exact ixBookActionReturn_alike _ _ h _ _ _ _
  · exact ixBookActionReturn_alike _ _ h _ _ _ _
  · exact ixBookActionReturn_alike _ _ h _ _ _ _
  · exact h

/-- The hardware table is no part of the book. -/
theorem setTcam_sw (ix : ℕ) (entry : Option PclEntry) : (s.setTcam fake ix entry).sw = s.sw := by
  unfold setTcam
  split_ifs <;> rfl

/-- The comparators of a rule are released alike in a dry run. -/
theorem releasePortCmps_alike (h : s.sw.Alike t.sw) (rule_ix : ℕ) :
    (s.releasePortCmps rule_ix).sw.Alike (t.releasePortCmps rule_ix).sw := by
  obtain ⟨hkept, hfreed⟩ := PortCmp.Alike.releases h.port_cmps rule_ix
  refine ⟨h.index_book, h.bindings, ?_, hkept⟩
  unfold releasePortCmps
  dsimp only
  rw [hfreed, h.port_cmp_idxs]

/-- A rule is removed alike in a dry run. -/
theorem removeRule_alike (h : s.sw.Alike t.sw) (bind : RuleBinding) :
    (s.removeRule fake bind).sw.Alike (t.removeRule fake' bind).sw := by
  have htcam : ((s.releasePortCmps bind.rule_ix).setTcam fake bind.rule_ix none).sw.Alike
      ((t.releasePortCmps bind.rule_ix).setTcam fake' bind.rule_ix none).sw := by
    rw [setTcam_sw, setTcam_sw]
    exact releasePortCmps_alike h bind.rule_ix
  have hret := ixBookReturn_alike fake fake' htcam bind.rule_ix
  exact ⟨hret.index_book, congrArg (fun b => Keyed.del RuleBinding.key b bind.key) hret.bindings,
    hret.port_cmp_idxs, hret.port_cmps⟩

variable {interface : PclInterface} {dest : PclDest} {action_type : PclActionType}

/-- One round of a reset does the same in a dry run. -/
theorem resetRound_alike (h : s.sw.Alike t.sw) (k : RuleBindingKey) :
    (resetRound fake interface dest action_type s k).sw.Alike
      (resetRound fake' interface dest action_type t k).sw := by
  unfold resetRound
  rw [h.bindings]
  cases Keyed.find RuleBinding.key t.sw.bindings k with
  | none => exact h
  | some bind =>
    dsimp only
    split_ifs
    · exact removeRule_alike _ _ h bind
    · exact h

/-- An interface is reset on alike tables. -/
theorem resetRules_alike (h : s.sw.Alike t.sw) :
    (s.resetRules fake interface dest action_type).sw.Alike
      (t.resetRules fake' interface dest action_type).sw := by
  unfold resetRules
  rw [h.bindings]
  exact List.foldl_rel (r := fun s t : PclDev => s.sw.Alike t.sw) h fun k _ _ _ hst =>
    resetRound_alike _ _ hst k

/-! ### Counters -/

variable (interface dest action_type) in
/-- The indices whose counters `pcl_reset_rules` clears on a device, in the order of the rounds. -/
def clearedIxs : List RuleBindingKey → PclDev → List ℕ
  | [], _ => []
  | key :: keys, s =>
    (match Keyed.find RuleBinding.key s.sw.bindings key with
      | some bind => if resets interface dest action_type bind.key then [bind.rule_ix] else []
      | none => []) ++ clearedIxs keys (resetRound fake interface dest action_type s key)

variable {fake}

/-- When an index is given back, no rule moves to a higher one. -/
theorem ixBookActionReturn_le {index first last : ℕ} {book : IxBook} {bind : RuleBinding}
    (h : bind ∈ (s.ixBookActionReturn fake index first last book).sw.bindings) :
    ∃ bind' ∈ s.sw.bindings, bind'.key = bind.key ∧ bind.rule_ix ≤ bind'.rule_ix := by
  unfold ixBookActionReturn at h
  split_ifs at h
  · exact ⟨bind, h, rfl, le_rfl⟩
  · rw [foldl_moveRule] at h
    obtain ⟨bind', hmem, rfl⟩ := List.mem_map.mp h
    refine ⟨bind', hmem, rfl, ?_⟩
    dsimp only
    unfold Zones.down
    split_ifs <;> omega

/-- Rules only move down when one is removed. -/
theorem resetRound_le {k : RuleBindingKey} {bind : RuleBinding}
    (h : bind ∈ (resetRound fake interface dest action_type s k).sw.bindings) :
    ∃ bind' ∈ s.sw.bindings, bind'.key = bind.key ∧ bind.rule_ix ≤ bind'.rule_ix := by
  unfold resetRound at h
  cases hfind : Keyed.find RuleBinding.key s.sw.bindings k with
  | none =>
    rw [hfind] at h
    exact ⟨bind, h, rfl, le_rfl⟩
  | some bind₀ =>
    rw [hfind] at h
    dsimp only at h
    split_ifs at h
    · have hmem : bind ∈ (((s.releasePortCmps bind₀.rule_ix).setTcam fake bind₀.rule_ix
          none).ixBookReturn fake bind₀.rule_ix).sw.bindings := Keyed.mem_of_mem_del h
      have hbindings : ((s.releasePortCmps bind₀.rule_ix).setTcam fake bind₀.rule_ix
          none).sw.bindings = s.sw.bindings := by
        rw [setTcam_sw]
        rfl
      rw [← hbindings]
      unfold ixBookReturn at hmem
      split_ifs at hmem
      · exact ixBookActionReturn_le hmem
      · exact ixBookActionReturn_le hmem
      · exact ixBookActionReturn_le hmem
      · exact ⟨bind, hmem, rfl, le_rfl⟩
    · exact ⟨bind, h, rfl, le_rfl⟩

/-- The counters are those of indices up to that of a rule that goes. -/
theorem clearedIxs_le {keys : List RuleBindingKey} {ix : ℕ}
    (h : ix ∈ clearedIxs fake interface dest action_type keys s) :
    ∃ bind ∈ s.sw.bindings, resets interface dest action_type bind.key = true ∧
      ix ≤ bind.rule_ix := by
  induction keys generalizing s with
  | nil => exact absurd h List.not_mem_nil
  | cons k keys ih =>
    rcases List.mem_append.mp h with h | h
    · cases hfind : Keyed.find RuleBinding.key s.sw.bindings k with
      | none =>
        rw [hfind] at h
        exact absurd h List.not_mem_nil
      | some bind =>
        rw [hfind] at h
        dsimp only at h
        split_ifs at h with hres
        · exact ⟨bind, Keyed.mem_of_find hfind, hres, (List.mem_singleton.mp h).le⟩
        · exact absurd h List.not_mem_nil
    · obtain ⟨bind, hmem, hres, hle⟩ := ih h
      obtain ⟨bind', hmem', hkey, hle'⟩ := resetRound_le hmem
      exact ⟨bind', hmem', hkey.symm ▸ hres, hle.trans hle'⟩

end Reset

end PclDev

end Presteramgr
