import Presteramgr.Lib.Guarded
import Presteramgr.Policer.Steps

/-!
# Who owns a QoS profile

Profiles are free or in use, and each one in use is that of one policer, by which the policer
remarks on every device. A creation that fails after it has got an index does not give it back, with
two devices a policer takes two profiles, and the deletion of a policer that has none deletes the
one that is still noted at its index.

## Main definitions

* `Policers.request`: a creation or a deletion;
* `Policers.Owned`: every profile in use has its policer, and every policer that remarks its
  profile;
* `Policers.Proper`: what a creation or a deletion may do;
* `Policers.Sound`: under which conditions it does so.

## Main results

* `Policers.proper_iff_sound`.
-/

namespace Presteramgr

open Function (update update_self update_of_ne)

/-- What the manager asks for. -/
inductive PolicerOp
  | create (p : PolicerParams)
  | delete (ix : ℕ) (dest : PolicerDest)

/-- What a request did: the status, the value written to `*ix`, and the state. -/
structure PolicerOutcome where
  status : PolicerStatus
  ix : Option ℕ
  state : Policers

/-- The devices of a unit. -/
structure PolicerUnit where
  NDEVS : ℕ
  NDEVS_pos : 0 < NDEVS

namespace Policers

variable (NDEVS : ℕ) (cpss : Cpss) (s : Policers)

/-- A creation or a deletion. -/
def request : PolicerOp → PolicerOutcome
  | .create p =>
    let r := policerCreate NDEVS cpss s p
    ⟨r.1, r.2.1, r.2.2⟩
  | .delete ix dest =>
    let r := policerDelete NDEVS cpss s ix dest
    ⟨r.1, none, r.2⟩

/-- A request as a step, with what the calls of the hardware library return. -/
def step (op : Cpss × PolicerOp) : Option Policers := some (s.request NDEVS op.1 op.2).state

/-! ### What is to hold -/

/-- `is_policer_exist`, by the position in the array. -/
def Live (dest : PolicerDest) (i : ℕ) : Prop := i < ixsSz dest ∧ s.ixs dest i = true

instance (dest : PolicerDest) (i : ℕ) : Decidable (s.Live dest i) :=
  inferInstanceAs (Decidable (_ ∧ _))

/-- The policer remarks by the profile on the device. -/
def OwnsOn (d : ℕ) (dest : PolicerDest) (i id : ℕ) : Prop :=
  s.Live dest i ∧ s.remarksBy d dest (i + ixsStartPos) = some id

/-- The policer remarks by the profile on some device. -/
def Owns (dest : PolicerDest) (i id : ℕ) : Prop := ∃ d < NDEVS, s.OwnsOn d dest i id

/-- The profiles in use. -/
def profiles : List ℕ := s.qpdb.map QpEntry.id

/-- The profiles are free or in use, a policer that remarks has one profile on all devices, which is
in use and that of no other policer, and each profile in use is that of a policer. -/
structure Owned : Prop where
  perm : (s.res ++ s.profiles).Perm (List.range' QSP_FIRST_REGULAR_IDX QSP_MAX)
  same : ∀ dest i id, s.Owns NDEVS dest i id → ∀ d < NDEVS, s.OwnsOn d dest i id
  live : ∀ dest i id, s.Owns NDEVS dest i id → id ∈ s.profiles
  unique : ∀ dest i dest' i' id, s.Owns NDEVS dest i id → s.Owns NDEVS dest' i' id → dest = dest' ∧
    i = i'
  owner : ∀ id ∈ s.profiles, ∃ dest i, s.Owns NDEVS dest i id

/-- Policers other than one are as before. -/
def Others (dest : PolicerDest) (i : ℕ) (t : Policers) : Prop :=
  ∀ dest' i', ¬(dest' = dest ∧ i' = i) → (t.Live dest' i' ↔ s.Live dest' i') ∧
    ∀ id, t.Owns NDEVS dest' i' id ↔ s.Owns NDEVS dest' i' id

/-- There is one policer more, and its profile was free. -/
structure Created (dest : PolicerDest) (i : ℕ) (t : Policers) : Prop where
  new : ¬s.Live dest i
  live : t.Live dest i
  fresh : ∀ id, t.Owns NDEVS dest i id → id ∈ s.res
  others : s.Others NDEVS dest i t

/-- The indices, the profiles and the hardware are as before. -/
structure Untouched (t : Policers) : Prop where
  ixs : t.ixs = s.ixs
  res : t.res = s.res
  qpdb : t.qpdb = s.qpdb
  hw : t.hw = s.hw

/-- The policer is gone, and no profile but its own is no longer in use. -/
structure Released (dest : PolicerDest) (i : ℕ) (t : Policers) : Prop where
  gone : ¬t.Live dest i
  profiles : ∀ id, id ∈ t.profiles ↔ id ∈ s.profiles ∧ ¬s.Owns NDEVS dest i id
  others : s.Others NDEVS dest i t

/-- What a request is to do. -/
def Proper : PolicerOp → PolicerOutcome → Prop
  | .create p, o => o.state.Owned NDEVS ∧
      (o.status = .POLICER_OK → ∃ ix ∈ o.ix, s.Created NDEVS p.dest (arrIx ix) o.state) ∧
      (o.status ≠ .POLICER_OK → s.Untouched o.state)
  | .delete ix dest, o => o.state.Owned NDEVS ∧ s.Released NDEVS dest (arrIx ix) o.state

/-- There is no index for a creation, or its actions and entries are accepted, and for a policer
that remarks there is a free profile and one device; the index of an ingress policer that does not
remark has no profile in use noted when it is deleted. -/
def Sound : PolicerOp → Prop
  | .create p => (∀ i < ixsSz p.dest, s.ixs p.dest i = true) ∨
      (setAction p).isSome = true ∧ (∀ d < NDEVS, Accepted cpss d) ∧
        (p.exceed_action.remarks = true → NDEVS = 1 ∧ s.res ≠ [])
  | .delete ix dest => dest = .INGRESS → s.Live dest (arrIx ix) →
      (∀ d < NDEVS, s.remarksBy d dest (arrIx ix + ixsStartPos) = none) →
        s.ixs_qos (arrIx ix) ∉ s.profiles

instance : ∀ op, Decidable (s.Sound NDEVS cpss op)
  | .create _ => inferInstanceAs (Decidable (_ ∨ _ ∧ _ ∧ _))
  | .delete _ _ => inferInstanceAs (Decidable (_ → _ → _ → _ ∉ _))

/-- What is noted at the indices: the profile of each policer. Egress policers do not remark. -/
structure Noted : Prop extends Owned NDEVS s where
  noted : ∀ i id, s.Owns NDEVS .INGRESS i id → s.ixs_qos i = id
  egress : ∀ i id, ¬s.Owns NDEVS .EGRESS i id

/-! ### Indices and profiles -/

section

variable {NDEVS : ℕ} {cpss : Cpss} {s t : Policers} {p : PolicerParams} {dest dest' : PolicerDest}
  {ix i i' id d : ℕ}

theorem arrIx_add (hi : i < ixsSz dest) : arrIx (i + ixsStartPos) = i := by
  have hsz : ixsSz dest = 255 := by cases dest <;> rfl
  unfold arrIx ixsStartPos
  omega

theorem policerIxPull_eq_none :
    s.policerIxPull dest = none ↔ ∀ i < ixsSz dest, s.ixs dest i = true := by
  unfold policerIxPull
  rw [Option.map_eq_none_iff, List.find?_eq_none]
  simp

/-- The index that is pulled was free. -/
theorem policerIxPull_eq_some (h : s.policerIxPull dest = some (ix, t)) : ∃ i < ixsSz dest,
    s.ixs dest i = false ∧ ix = i + ixsStartPos ∧
      t = { s with ixs := update s.ixs dest (update (s.ixs dest) i true) } := by
  obtain ⟨i, hfind, heq⟩ := Option.map_eq_some_iff.mp h
  obtain ⟨rfl, rfl⟩ := Prod.mk.inj heq
  have hfree := List.find?_some hfind
  exact ⟨i, List.mem_range.mp (List.mem_of_find?_eq_some hfind), of_decide_eq_true hfree, rfl, rfl⟩

theorem ixs_update (s : Policers) (dest dest' : PolicerDest) (i i' : ℕ) (b : Bool) :
    update s.ixs dest (update (s.ixs dest) i b) dest' i' =
      if dest' = dest ∧ i' = i then b else s.ixs dest' i' := by
  by_cases hdest : dest' = dest
  · subst hdest
    by_cases hi : i' = i
    · subst hi
      simp
    · simp [hi]
  · simp [hdest]

namespace Owned

variable (h : s.Owned NDEVS)

include h

theorem nodup : (s.res ++ s.profiles).Nodup := h.perm.nodup_iff.mpr List.nodup_range'

theorem not_mem_res (hid : id ∈ s.profiles) : id ∉ s.res :=
  fun hres => (List.nodup_append.mp h.nodup).2.2 id hres id hid rfl

theorem ne_zero (hid : id ∈ s.profiles) : id ≠ 0 := by
  have hmem := h.perm.mem_iff.mp (List.mem_append_right s.res hid)
  rintro rfl
  exact absurd hmem (by decide)

/-- While a profile is in use, the stack is not full. -/
theorem length_res_ne (hid : id ∈ s.profiles) : s.res.length ≠ QSP_MAX := by
  have hlen := h.perm.length_eq
  rw [List.length_append, List.length_range'] at hlen
  have hpos := List.length_pos_of_mem hid
  omega

/-- Without policers, all profiles are free. -/
theorem all_free (hno : ∀ dest i, ¬s.Live dest i) :
    s.qpdb = [] ∧ s.res.Perm (List.range' QSP_FIRST_REGULAR_IDX QSP_MAX) := by
  have hnil : s.profiles = [] := List.eq_nil_iff_forall_not_mem.mpr fun id hid => by
    obtain ⟨dest, i, d, -, hlive, -⟩ := h.owner id hid
    exact hno dest i hlive
  have hperm := h.perm
  rw [hnil, List.append_nil] at hperm
  exact ⟨List.map_eq_nil_iff.mp hnil, hperm⟩

end Owned

/-- Requests that leave the profiles and their policers as they are. -/
theorem Noted.congr (h : s.Noted NDEVS) (hres : t.res = s.res) (hqpdb : t.qpdb = s.qpdb)
    (hqos : t.ixs_qos = s.ixs_qos)
    (howns : ∀ d < NDEVS, ∀ dest i id, t.OwnsOn d dest i id ↔ s.OwnsOn d dest i id) :
    t.Noted NDEVS := by
  have hiff (dest : PolicerDest) (i id : ℕ) : t.Owns NDEVS dest i id ↔ s.Owns NDEVS dest i id :=
    exists_congr fun d => and_congr_right fun hd => howns d hd dest i id
  have hprofiles : t.profiles = s.profiles := by
    unfold profiles
    rw [hqpdb]
  refine ⟨⟨?_, fun dest i id ho d hd => ?_, fun dest i id ho => ?_, fun dest i dest' i' id ho ho' => ?_,
    fun id hid => ?_⟩, fun i id ho => ?_, fun i id ho => ?_⟩
  · rw [hres, hprofiles]
    exact h.perm
  · exact (howns d hd dest i id).mpr (h.same dest i id ((hiff dest i id).mp ho) d hd)
  · rw [hprofiles]
    exact h.live dest i id ((hiff dest i id).mp ho)
  · exact h.unique dest i dest' i' id ((hiff dest i id).mp ho) ((hiff dest' i' id).mp ho')
  · obtain ⟨dest, i, ho⟩ := h.owner id (hprofiles ▸ hid)
    exact ⟨dest, i, (hiff dest i id).mpr ho⟩
  · rw [hqos]
    exact h.noted i id ((hiff _ i id).mp ho)
  · exact h.egress i id ((hiff _ i id).mp ho)

/-- A policer more, with a profile that was free. -/
theorem Noted.add (h : s.Noted NDEVS) (hpos : 0 < NDEVS) (hi : i < ixsSz .INGRESS)
    (hnew : ¬s.Live .INGRESS i) (htakes : Takes (i + ixsStartPos) id s t)
    (howns : ∀ d < NDEVS, ∀ dest' i' id', t.OwnsOn d dest' i' id' ↔
      s.OwnsOn d dest' i' id' ∨ dest' = .INGRESS ∧ i' = i ∧ id' = id) : t.Noted NDEVS := by
  have hiff (dest' : PolicerDest) (i' id' : ℕ) : t.Owns NDEVS dest' i' id' ↔
      s.Owns NDEVS dest' i' id' ∨ dest' = .INGRESS ∧ i' = i ∧ id' = id := by
    constructor
    · rintro ⟨d, hd, ho⟩
      exact ((howns d hd dest' i' id').mp ho).imp (fun ho => ⟨d, hd, ho⟩) fun heq => heq
    · rintro (⟨d, hd, ho⟩ | heq)
      · exact ⟨d, hd, (howns d hd dest' i' id').mpr (.inl ho)⟩
      · exact ⟨0, hpos, (howns 0 hpos dest' i' id').mpr (.inr heq)⟩
  have hprofiles : t.profiles = id :: s.profiles := by
    unfold profiles
    rw [htakes.qpdb]
    rfl
  have hres : id ∈ s.res := htakes.res ▸ List.mem_cons_self
  -- a profile that was free had no owner
  have hold (dest' : PolicerDest) (i' : ℕ) : ¬s.Owns NDEVS dest' i' id :=
    fun ho => h.not_mem_res (h.live dest' i' id ho) hres
  -- field by field: the new profile is that of the new policer
  refine ⟨⟨?_, fun dest' i' id' ho d hd => ?_, fun dest' i' id' ho => ?_,
    fun dest₁ i₁ dest₂ i₂ id' ho₁ ho₂ => ?_, fun id' hid' => ?_⟩, fun i' id' ho => ?_,
      fun i' id' ho => ?_⟩
  · rw [hprofiles]
    have hperm := h.perm
    rw [htakes.res] at hperm
    exact List.perm_middle.trans hperm
  · exact (howns d hd dest' i' id').mpr (((hiff dest' i' id').mp ho).imp_left fun ho =>
      h.same dest' i' id' ho d hd)
  · rw [hprofiles]
    rcases (hiff dest' i' id').mp ho with ho | ⟨-, -, rfl⟩
    · exact List.mem_cons_of_mem id (h.live dest' i' id' ho)
    · exact List.mem_cons_self
  · rcases (hiff dest₁ i₁ id').mp ho₁ with ho₁ | ⟨rfl, rfl, rfl⟩
    · rcases (hiff dest₂ i₂ id').mp ho₂ with ho₂ | ⟨rfl, rfl, rfl⟩
      · exact h.unique dest₁ i₁ dest₂ i₂ id' ho₁ ho₂
      · exact absurd ho₁ (hold dest₁ i₁)
    · rcases (hiff dest₂ i₂ id').mp ho₂ with ho₂ | ⟨rfl, rfl, -⟩
      · exact absurd ho₂ (hold dest₂ i₂)
      · exact ⟨rfl, rfl⟩
  · rw [hprofiles] at hid'
    rcases List.mem_cons.mp hid' with rfl | hid'
    · exact ⟨.INGRESS, i, (hiff _ i id').mpr (.inr ⟨rfl, rfl, rfl⟩)⟩
    · obtain ⟨dest', i', ho⟩ := h.owner id' hid'
      exact ⟨dest', i', (hiff dest' i' id').mpr (.inl ho)⟩
  · -- what is noted for the new policer is its profile
    rw [htakes.ixs_qos, arrIx_add hi]
    rcases (hiff .INGRESS i' id').mp ho with ho | ⟨-, rfl, rfl⟩
    · have hne : i' ≠ i := by
        rintro rfl
        obtain ⟨d, -, hlive, -⟩ := ho
        exact hnew hlive
      rw [update_of_ne hne]
      exact h.noted i' id' ho
    · exact update_self ..
  · -- egress policers have none
    rcases (hiff .EGRESS i' id').mp ho with ho | ⟨hdest, -⟩
    · exact h.egress i' id' ho
    · exact PolicerDest.noConfusion hdest

/-- A policer less. Its profile, where it has one, goes back on the stack. -/
theorem Noted.remove (h : s.Noted NDEVS) (hqos : t.ixs_qos = s.ixs_qos)
    (howns : ∀ d < NDEVS, ∀ dest' i' id', t.OwnsOn d dest' i' id' ↔
      s.OwnsOn d dest' i' id' ∧ ¬(dest' = dest ∧ i' = i))
    (hperm : (t.res ++ t.profiles).Perm (s.res ++ s.profiles))
    (hprofiles : ∀ id, id ∈ t.profiles ↔ id ∈ s.profiles ∧ ¬s.Owns NDEVS dest i id) :
    t.Noted NDEVS := by
  have hiff (dest' : PolicerDest) (i' id' : ℕ) : t.Owns NDEVS dest' i' id' ↔
      s.Owns NDEVS dest' i' id' ∧ ¬(dest' = dest ∧ i' = i) := by
    constructor
    · rintro ⟨d, hd, ho⟩
      obtain ⟨ho, hne⟩ := (howns d hd dest' i' id').mp ho
      exact ⟨⟨d, hd, ho⟩, hne⟩
    · rintro ⟨⟨d, hd, ho⟩, hne⟩
      exact ⟨d, hd, (howns d hd dest' i' id').mpr ⟨ho, hne⟩⟩
  refine ⟨⟨hperm.trans h.perm, fun dest' i' id' ho d hd => ?_, fun dest' i' id' ho => ?_,
    fun dest₁ i₁ dest₂ i₂ id' ho₁ ho₂ => ?_, fun id' hid' => ?_⟩, fun i' id' ho => ?_,
      fun i' id' ho => ?_⟩
  · obtain ⟨ho, hne⟩ := (hiff dest' i' id').mp ho
    exact (howns d hd dest' i' id').mpr ⟨h.same dest' i' id' ho d hd, hne⟩
  · obtain ⟨ho, hne⟩ := (hiff dest' i' id').mp ho
    refine (hprofiles id').mpr ⟨h.live dest' i' id' ho, fun ho' => ?_⟩
    exact hne (h.unique dest' i' dest i id' ho ho')
  · exact h.unique dest₁ i₁ dest₂ i₂ id' ((hiff dest₁ i₁ id').mp ho₁).1
      ((hiff dest₂ i₂ id').mp ho₂).1
  · obtain ⟨hid', hno⟩ := (hprofiles id').mp hid'
    obtain ⟨dest', i', ho⟩ := h.owner id' hid'
    refine ⟨dest', i', (hiff dest' i' id').mpr ⟨ho, ?_⟩⟩
    rintro ⟨rfl, rfl⟩
    exact hno ho
  · rw [hqos]
    exact h.noted i' id' ((hiff .INGRESS i' id').mp ho).1
  · exact h.egress i' id' ((hiff .EGRESS i' id').mp ho).1

/-! ### Creation -/

/-- Policers at other indices are as before when what is kept is. -/
theorem others_of_ownsOn (hixs : ∀ dest' i', ¬(dest' = dest ∧ i' = i) →
    t.ixs dest' i' = s.ixs dest' i')
    (hby : ∀ d < NDEVS, ∀ dest' i', ¬(dest' = dest ∧ i' = i) →
      t.remarksBy d dest' (i' + ixsStartPos) = s.remarksBy d dest' (i' + ixsStartPos)) :
    s.Others NDEVS dest i t ∧ ∀ d < NDEVS, ∀ dest' i' id, ¬(dest' = dest ∧ i' = i) →
      (t.OwnsOn d dest' i' id ↔ s.OwnsOn d dest' i' id) := by
  have hlive (dest' : PolicerDest) (i' : ℕ) (hne : ¬(dest' = dest ∧ i' = i)) :
      t.Live dest' i' ↔ s.Live dest' i' := by
    unfold Live
    rw [hixs dest' i' hne]
  have hon (d : ℕ) (hd : d < NDEVS) (dest' : PolicerDest) (i' id : ℕ)
      (hne : ¬(dest' = dest ∧ i' = i)) :
      t.OwnsOn d dest' i' id ↔ s.OwnsOn d dest' i' id := by
    unfold OwnsOn
    rw [hlive dest' i' hne, hby d hd dest' i' hne]
  exact ⟨fun dest' i' hne => ⟨hlive dest' i' hne, fun id =>
    exists_congr fun d => and_congr_right fun hd => hon d hd dest' i' id hne⟩, hon⟩

/-- What the loop of a creation leaves, after an index has been pulled. -/
theorem run_others {s₁ : Policers} (hi : i < ixsSz p.dest) (hfree : s.ixs p.dest i = false)
    (hs₁ : s₁ = { s with ixs := update s.ixs p.dest (update (s.ixs p.dest) i true) })
    (ht : t = (Calls.run .POLICER_OK (createOn NDEVS cpss p (i + ixsStartPos)) (List.range NDEVS) s₁).2) :
    ¬s.Live p.dest i ∧ t.Live p.dest i ∧ s.Others NDEVS p.dest i t ∧
      ∀ d < NDEVS, ∀ dest' i' id, ¬(dest' = p.dest ∧ i' = i) →
        (t.OwnsOn d dest' i' id ↔ s.OwnsOn d dest' i' id) := by
  obtain ⟨hixs, hby⟩ := @run_keeps NDEVS cpss p (i + ixsStartPos) (List.range NDEVS) s₁
  rw [← ht] at hixs hby
  have hat (dest' : PolicerDest) (i' : ℕ) : t.ixs dest' i' =
      if dest' = p.dest ∧ i' = i then true else s.ixs dest' i' := by
    rw [hixs, hs₁]
    exact ixs_update s p.dest dest' i i' true
  refine ⟨fun h => ?_, ⟨hi, (hat p.dest i).trans (if_pos ⟨rfl, rfl⟩)⟩, ?_⟩
  · exact absurd (hfree.symm.trans h.2) Bool.false_ne_true
  · apply others_of_ownsOn
    · exact fun dest' i' hne => (hat dest' i').trans (if_neg hne)
    · intro d _ dest' i' hne
      rw [hby d dest' (i' + ixsStartPos) fun h => hne ⟨h.2.1, Nat.add_right_cancel h.2.2⟩, hs₁]
      rfl

/-- A creation that is sound. -/
theorem Noted.create (h : s.Noted NDEVS) (hpos : 0 < NDEVS) (hok : s.Sound NDEVS cpss (.create p)) :
    (s.request NDEVS cpss (.create p)).state.Noted NDEVS ∧
      s.Proper NDEVS (.create p) (s.request NDEVS cpss (.create p)) := by
  unfold Proper request policerCreate
  dsimp only
  cases hpull : s.policerIxPull p.dest with
  | none => exact ⟨h, h.toOwned, fun h => PolicerStatus.noConfusion h, fun _ =>
    ⟨rfl, rfl, rfl, rfl⟩⟩
  | some r =>
    obtain ⟨ix, s₁⟩ := r
    obtain ⟨i, hi, hfree, rfl, hs₁⟩ := policerIxPull_eq_some hpull
    -- the condition leaves out the case that no policer is free
    obtain ⟨hact, hacc, hremarks⟩ := hok.resolve_left fun hall =>
      absurd (hfree.symm.trans (hall i hi)) Bool.false_ne_true
    dsimp only
    obtain ⟨hnew, hlive, hothers, hon⟩ := @run_others NDEVS cpss s _ p i s₁ hi hfree hs₁ rfl
    cases hp : p.exceed_action.remarks with
    -- without remarking no profile is taken
    | false =>
      obtain ⟨hst, hsame, hnone⟩ :=
        @run_plain NDEVS cpss s₁ p (i + ixsStartPos) (List.range NDEVS) hp
        fun d hd => ⟨hact, hacc d (List.mem_range.mp hd)⟩
      have hnoted : Policers.Noted NDEVS
          (Calls.run .POLICER_OK (createOn NDEVS cpss p (i + ixsStartPos))
          (List.range NDEVS) s₁).2 := by
        refine h.congr ?_ ?_ ?_ fun d hd dest' i' id => ?_
        · rw [hsame.res, hs₁]
        · rw [hsame.qpdb, hs₁]
        · rw [hsame.ixs_qos, hs₁]
        · by_cases hat : dest' = p.dest ∧ i' = i
          · obtain ⟨rfl, rfl⟩ := hat
            refine iff_of_false (fun ho => ?_) fun ho => hnew ho.1
            exact absurd ((hnone d (List.mem_range.mpr hd)).symm.trans ho.2)
              (Option.some_ne_none id).symm
          · exact hon d hd dest' i' id hat
      refine ⟨hnoted, hnoted.toOwned, fun _ => ⟨_, rfl, ?_⟩, fun hno => absurd hst hno⟩
      rw [arrIx_add hi]
      refine ⟨hnew, hlive, fun id ho => ?_, hothers⟩
      obtain ⟨d, hd, ho⟩ := ho
      exact absurd ((hnone d (List.mem_range.mpr hd)).symm.trans ho.2) (Option.some_ne_none id).symm
    | true =>
      -- a remarking policer takes a profile, for which the unit has one device only
      obtain ⟨hone, hres⟩ := hremarks hp
      subst hone
      have hres₁ : s₁.res = s.res := by rw [hs₁]
      obtain ⟨hiff, hkeeps, hmarked⟩ := @createOn_spec 1 cpss s₁ p (i + ixsStartPos) 0
      have hst := hiff.mpr ⟨hact, hacc 0 Nat.one_pos, fun _ => hres₁ ▸ hres⟩
      have hrun : Calls.run .POLICER_OK (createOn 1 cpss p (i + ixsStartPos)) (List.range 1) s₁ =
          (.POLICER_OK, (createOn 1 cpss p (i + ixsStartPos) 0 s₁).2) := by
        rw [show List.range 1 = [0] from rfl, run_cons, if_pos hst]
        rfl
      rw [hrun] at hlive hothers hon ⊢
      rcases hmarked hst with ⟨hp', -⟩ | ⟨-, id, htakes, hsome⟩
      · exact absurd (hp'.symm.trans hp) Bool.false_ne_true
      obtain ⟨cmds, hcmds⟩ := Option.isSome_iff_exists.mp hact
      have hdest := ingress_of_setAction hcmds hp
      rw [hdest] at hi hnew hlive hothers hon hsome ⊢
      have htakes' : Takes (i + ixsStartPos) id s (createOn 1 cpss p (i + ixsStartPos) 0 s₁).2 := by
        obtain ⟨h₁, h₂, h₃⟩ := htakes
        refine ⟨hres₁ ▸ h₁, h₂.trans ?_, h₃.trans ?_⟩
        · rw [hs₁]
        · rw [hs₁]
      -- the profiles owned afterwards are those before and the new one
      have hown (d : ℕ) (hd : d < 1) (dest' : PolicerDest) (i' id' : ℕ) :
          Policers.OwnsOn (createOn 1 cpss p (i + ixsStartPos) 0 s₁).2 d dest' i' id' ↔
            s.OwnsOn d dest' i' id' ∨ dest' = .INGRESS ∧ i' = i ∧ id' = id := by
        obtain rfl := Nat.lt_one_iff.mp hd
        by_cases hat : dest' = .INGRESS ∧ i' = i
        · obtain ⟨rfl, rfl⟩ := hat
          constructor
          · intro ho
            exact .inr ⟨rfl, rfl, Option.some_inj.mp (ho.2.symm.trans hsome)⟩
          · rintro (ho | ⟨-, -, rfl⟩)
            · exact absurd ho.1 hnew
            · exact ⟨hlive, hsome⟩
        · rw [hon 0 hd dest' i' id' hat]
          exact (or_iff_left fun heq => hat ⟨heq.1, heq.2.1⟩).symm
      have hnoted := h.add hpos hi hnew htakes' hown
      refine ⟨hnoted, hnoted.toOwned, fun _ => ⟨_, rfl, ?_⟩, fun hno => absurd rfl hno⟩
      rw [arrIx_add hi]
      refine ⟨hnew, hlive, fun id' ho => ?_, hothers⟩
      obtain ⟨d, hd, ho⟩ := ho
      rcases (hown d hd _ i id').mp ho with ho | ⟨-, -, rfl⟩
      · exact absurd ho.1 hnew
      · exact htakes'.res ▸ List.mem_cons_self

/-- A creation that is not sound. -/
theorem sound_of_proper_create (h : s.Noted NDEVS) (hpos : 0 < NDEVS)
    (hproper : s.Proper NDEVS (.create p) (s.request NDEVS cpss (.create p))) :
    s.Sound NDEVS cpss (.create p) := by
  unfold Proper request policerCreate at hproper
  dsimp only at hproper
  cases hpull : s.policerIxPull p.dest with
  | none => exact .inl (policerIxPull_eq_none.mp hpull)
  | some r =>
    obtain ⟨ix, s₁⟩ := r
    obtain ⟨i, hi, hfree, rfl, hs₁⟩ := policerIxPull_eq_some hpull
    rw [hpull] at hproper
    obtain ⟨howned, -, hfailed⟩ := hproper
    dsimp only at howned hfailed
    obtain ⟨hnew, hlive, -, -⟩ := @run_others NDEVS cpss s _ p i s₁ hi hfree hs₁ rfl
    by_cases hst : (Calls.run .POLICER_OK (createOn NDEVS cpss p (i + ixsStartPos))
        (List.range NDEVS) s₁).1 = .POLICER_OK
    · have hall := run_ok hst
      obtain ⟨hact, -, hres⟩ := hall 0 (List.mem_range.mpr hpos)
      refine .inr ⟨hact, fun d hd => (hall d (List.mem_range.mpr hd)).2.1, fun hp => ⟨?_, ?_⟩⟩
      · -- on a second device the policer has another profile
        by_contra hone
        obtain ⟨n, rfl⟩ := Nat.exists_eq_add_of_le (show 2 ≤ NDEVS by omega)
        rw [Nat.add_comm 2 n, List.range_succ_eq_map] at hst howned hlive
        have hmem : 1 ∈ (List.range (n + 1)).map Nat.succ :=
          List.mem_map.mpr ⟨0, List.mem_range.mpr (Nat.succ_pos n), rfl⟩
        have hnot : 0 ∉ (List.range (n + 1)).map Nat.succ := by simp
        have hnodup : s₁.res.Nodup := by
          rw [hs₁]
          exact (List.nodup_append.mp h.nodup).1
        obtain ⟨id, hby, hne⟩ := run_remarks_ne hp hmem hnot hnodup hst
        have ho := howned.same p.dest i id ⟨0, Nat.succ_pos _, hlive, hby⟩ 1 (by omega)
        exact hne ho.2
      · have hres₁ := hres hp
        rw [hs₁] at hres₁
        exact hres₁
    · -- the index is not given back
      have hixs := (hfailed hst).ixs
      rw [Live, hixs] at hlive
      exact absurd hlive hnew

/-! ### Deletion -/

/-- The index of a policer that exists is given back. -/
theorem policerIxPush_live (ix : ℕ) (hlive : s.Live dest (arrIx ix)) : s.policerIxPush ix dest =
    (.POLICER_OK, { s with ixs := update s.ixs dest (update (s.ixs dest) (arrIx ix) false) }) := by
  obtain ⟨hlt, hused⟩ := hlive
  unfold policerIxPush
  rw [if_neg (by omega), if_neg (by rw [hused]; decide)]

/-- Where there is no policer, there is no index to give back. -/
theorem policerIxPush_not_live (ix : ℕ) (hno : ¬s.Live dest (arrIx ix)) : ∃ st ≠ .POLICER_OK,
    s.policerIxPush ix dest = (st, s) := by
  unfold policerIxPush
  by_cases hlt : ixsSz dest - 1 < arrIx ix
  · exact ⟨.POLICER_NOT_IN_RANGE, PolicerStatus.noConfusion, if_pos hlt⟩
  · have hpos : 0 < ixsSz dest := by cases dest <;> decide
    have hfree : s.ixs dest (arrIx ix) = false := by
      by_contra hused
      exact hno ⟨by omega, Bool.eq_true_of_not_eq_false hused⟩
    rw [if_neg hlt, if_pos hfree]
    exact ⟨.POLICER_NOT_IN_USE, PolicerStatus.noConfusion, rfl⟩

theorem policerDelete_not_live (ix : ℕ) (hno : ¬s.Live dest (arrIx ix)) : ∃ st,
    policerDelete NDEVS cpss s ix dest = (st, s) := by
  obtain ⟨st, hst, hpush⟩ := policerIxPush_not_live ix hno
  refine ⟨st, ?_⟩
  unfold policerDelete
  rw [hpush]
  cases st
  case POLICER_OK => exact absurd rfl hst
  all_goals dsimp only

/-- A profile in use is deleted. -/
theorem delQosProfile_mem (ix : ℕ) (hnz : s.ixs_qos (arrIx ix) ≠ 0)
    (hmem : s.ixs_qos (arrIx ix) ∈ s.profiles)
    (hlen : s.res.length ≠ QSP_MAX) :
    delQosProfile NDEVS cpss s ix = (.POLICER_OK, { s with
      res := s.ixs_qos (arrIx ix) :: s.res,
      qpdb := Keyed.del QpEntry.id s.qpdb (s.ixs_qos (arrIx ix)) }) := by
  obtain ⟨qpe, hqpe, hid⟩ := List.mem_map.mp hmem
  obtain ⟨qpe', hfind⟩ := Option.isSome_iff_exists.mp (Keyed.find_isSome_iff.mpr ⟨qpe, hqpe, hid⟩)
  unfold delQosProfile qosProfileManage
  simp only [if_neg hnz, hfind, if_neg hlen, Keyed.key_of_find hfind]

/-- Where no profile in use is noted at the index, none is deleted. -/
theorem delQosProfile_not_mem (ix : ℕ) (hmem : s.ixs_qos (arrIx ix) ∉ s.profiles) : ∃ st,
    delQosProfile NDEVS cpss s ix = (st, s) := by
  unfold delQosProfile
  by_cases hnz : s.ixs_qos (arrIx ix) = 0
  · rw [if_pos hnz]
    exact ⟨_, rfl⟩
  · have hfind : Keyed.find QpEntry.id s.qpdb (s.ixs_qos (arrIx ix)) = none :=
      Keyed.find_eq_none_iff.mpr fun qpe hqpe heq => hmem (List.mem_map.mpr ⟨qpe, hqpe, heq⟩)
    unfold qosProfileManage
    simp only [if_neg hnz, hfind]
    exact ⟨_, rfl⟩

/-- A deletion keeps what it does not name. -/
theorem Noted.delete_of (h : s.Noted NDEVS)
    (hixs : t.ixs = update s.ixs dest (update (s.ixs dest) i false)) (hqos : t.ixs_qos = s.ixs_qos)
    (hhw : t.hw = s.hw) (hperm : (t.res ++ t.profiles).Perm (s.res ++ s.profiles))
    (hprofiles : ∀ id, id ∈ t.profiles ↔ id ∈ s.profiles ∧ ¬s.Owns NDEVS dest i id) :
    t.Noted NDEVS ∧ s.Released NDEVS dest i t := by
  have hat (dest' : PolicerDest) (i' : ℕ) : t.ixs dest' i' =
      if dest' = dest ∧ i' = i then false else s.ixs dest' i' := by
    rw [hixs]
    exact ixs_update s dest dest' i i' false
  have hgone : ¬t.Live dest i := fun hlive =>
    absurd (((hat dest i).trans (if_pos ⟨rfl, rfl⟩)).symm.trans hlive.2) Bool.false_ne_true
  obtain ⟨hothers, hon⟩ : s.Others NDEVS dest i t ∧ _ := others_of_ownsOn
    (fun dest' i' hne => (hat dest' i').trans (if_neg hne)) fun d _ dest' i' _ => by
      unfold remarksBy
      rw [hhw]
  refine ⟨h.remove hqos (fun d hd dest' i' id' => ?_) hperm hprofiles, hgone, hprofiles, hothers⟩
  by_cases hne : dest' = dest ∧ i' = i
  · obtain ⟨rfl, rfl⟩ := hne
    exact iff_of_false (fun ho => hgone ho.1) fun ho => ho.2 ⟨rfl, rfl⟩
  · rw [hon d hd dest' i' id' hne]
    exact (and_iff_left hne).symm

/-- The profiles are as before when that of a policer goes back on the stack. -/
theorem Noted.delete_own (h : s.Noted NDEVS) (ho : s.Owns NDEVS dest i id) :
    (id :: s.res ++ s.profiles.erase id).Perm (s.res ++ s.profiles) ∧
      ∀ id', id' ∈ s.profiles.erase id ↔ id' ∈ s.profiles ∧ ¬s.Owns NDEVS dest i id' := by
  have hmem := h.live dest i id ho
  refine ⟨?_, fun id' => ?_⟩
  · rw [List.cons_append]
    exact List.perm_middle.symm.trans ((List.perm_cons_erase hmem).symm.append_left s.res)
  · rw [(List.nodup_append.mp h.nodup).2.1.mem_erase_iff, and_comm]
    refine and_congr_right fun hid' => not_congr ⟨?_, fun ho' => ?_⟩
    · rintro rfl
      exact ho
    · obtain ⟨d, hd, ho⟩ := ho
      exact Option.some_inj.mp ((h.same dest i id' ho' d hd).2.symm.trans ho.2)

/-- A deletion is proper exactly where it is sound. -/
theorem Noted.delete (h : s.Noted NDEVS) (ix : ℕ) (dest : PolicerDest) :
    (s.Sound NDEVS cpss (.delete ix dest) →
      (s.request NDEVS cpss (.delete ix dest)).state.Noted NDEVS ∧
      s.Proper NDEVS (.delete ix dest) (s.request NDEVS cpss (.delete ix dest))) ∧
    (s.Proper NDEVS (.delete ix dest) (s.request NDEVS cpss (.delete ix dest)) →
      s.Sound NDEVS cpss (.delete ix dest)) := by
  unfold Proper request Sound
  dsimp only
  by_cases hlive : s.Live dest (arrIx ix)
  swap
  · -- nothing is found at the index
    obtain ⟨st, hdel⟩ := @policerDelete_not_live NDEVS cpss s dest ix hlive
    rw [hdel]
    have hno (id : ℕ) : ¬s.Owns NDEVS dest (arrIx ix) id := fun ⟨d, _, ho⟩ => hlive ho.1
    refine ⟨fun _ => ⟨h, h.toOwned, hlive, fun id => ?_, fun _ _ _ => ⟨Iff.rfl, fun _ => Iff.rfl⟩⟩,
      fun _ _ hlive' => absurd hlive' hlive⟩
    exact (and_iff_left (hno id)).symm
  unfold policerDelete
  rw [policerIxPush_live ix hlive]
  set s₁ : Policers :=
    { s with ixs := update s.ixs dest (update (s.ixs dest) (arrIx ix) false) } with hs₁
  have hsame (hno : ∀ id, ¬s.Owns NDEVS dest (arrIx ix) id) :
      s₁.Noted NDEVS ∧ s.Released NDEVS dest (arrIx ix) s₁ :=
    h.delete_of rfl rfl rfl (List.Perm.refl _) fun id => (and_iff_left (hno id)).symm
  cases dest with
  -- egress policers have no profile
  | EGRESS =>
    obtain ⟨hnoted, hreleased⟩ := hsame fun id => h.egress (arrIx ix) id
    exact ⟨fun _ => ⟨hnoted, hnoted.toOwned, hreleased⟩,
      fun _ hdest => PolicerDest.noConfusion hdest⟩
  | INGRESS =>
    dsimp only
    rw [if_pos rfl]
    by_cases hown : ∃ id, s.Owns NDEVS .INGRESS (arrIx ix) id
    · -- its profile is the one that is noted
      obtain ⟨id, ho⟩ := hown
      obtain rfl := h.noted (arrIx ix) id ho
      have hmem := h.live _ _ _ ho
      rw [@delQosProfile_mem NDEVS cpss s₁ ix (h.ne_zero hmem) hmem (h.length_res_ne hmem)]
      obtain ⟨hperm, hprofiles⟩ := h.delete_own ho
      have herase : (Keyed.del QpEntry.id s.qpdb (s.ixs_qos (arrIx ix))).map QpEntry.id =
          s.profiles.erase (s.ixs_qos (arrIx ix)) := Keyed.map_del
      rw [← herase] at hperm hprofiles
      obtain ⟨hnoted, hreleased⟩ : Policers.Noted NDEVS { s₁ with
          res := s₁.ixs_qos (arrIx ix) :: s₁.res,
          qpdb := Keyed.del QpEntry.id s₁.qpdb (s₁.ixs_qos (arrIx ix)) } ∧ _ :=
        h.delete_of rfl rfl rfl hperm hprofiles
      refine ⟨fun _ => ⟨hnoted, hnoted.toOwned, hreleased⟩, fun _ _ _ hnone => ?_⟩
      obtain ⟨d, hd, hlive, hsome⟩ := ho
      exact absurd ((hnone d hd).symm.trans hsome) (Option.some_ne_none _).symm
    · have hno (id : ℕ) : ¬s.Owns NDEVS .INGRESS (arrIx ix) id := fun ho => hown ⟨id, ho⟩
      by_cases hmem : s.ixs_qos (arrIx ix) ∈ s.profiles
      · -- the profile that is noted is that of another policer
        have hnone (d : ℕ) (hd : d < NDEVS) :
            s.remarksBy d .INGRESS (arrIx ix + ixsStartPos) = none :=
          Option.eq_none_iff_forall_ne_some.mpr fun id hsome => hno id ⟨d, hd, hlive, hsome⟩
        refine ⟨fun hsound => absurd hmem (hsound rfl hlive hnone), fun hproper => ?_⟩
        rw [@delQosProfile_mem NDEVS cpss s₁ ix (h.ne_zero hmem) hmem
          (h.length_res_ne hmem)] at hproper
        have hstill := (hproper.2.profiles (s.ixs_qos (arrIx ix))).mpr ⟨hmem, hno _⟩
        have herase : s.ixs_qos (arrIx ix) ∈ s.profiles.erase (s.ixs_qos (arrIx ix)) := by
          unfold profiles at hstill ⊢
          rw [← Keyed.map_del]
          exact hstill
        exact absurd herase (List.Nodup.not_mem_erase (List.nodup_append.mp h.nodup).2.1)
      · -- no profile is noted either: nothing is given back
        obtain ⟨st, hdel⟩ := @delQosProfile_not_mem NDEVS cpss s₁ ix hmem
        obtain ⟨hnoted, hreleased⟩ := hsame hno
        rw [hdel]
        exact ⟨fun _ => ⟨hnoted, hnoted.toOwned, hreleased⟩, fun _ _ _ _ => hmem⟩

/-! ### Runs -/

theorem init_noted (hw : PolicerHw) : (init hw).Noted NDEVS := by
  have hno (dest : PolicerDest) (i id : ℕ) : ¬(init hw).Owns NDEVS dest i id := by
    rintro ⟨d, -, ⟨-, hused⟩, -⟩
    exact Bool.false_ne_true hused
  refine ⟨⟨?_, fun dest i id ho => absurd ho (hno dest i id), fun dest i id ho => absurd ho (hno dest i id),
    fun dest i _ _ id ho => absurd ho (hno dest i id), fun id hid => absurd hid List.not_mem_nil⟩,
    fun i id ho => absurd ho (hno _ i id), fun i id => hno _ i id⟩
  unfold profiles init
  rw [List.map_nil, List.append_nil]

/-- A request is proper exactly where it is sound. -/
theorem Noted.proper_iff (h : s.Noted NDEVS) (hpos : 0 < NDEVS) (op : PolicerOp) :
    s.Proper NDEVS op (s.request NDEVS cpss op) ↔ s.Sound NDEVS cpss op := by
  cases op with
  | create p => exact ⟨sound_of_proper_create h hpos, fun hok => (h.create hpos hok).2⟩
  | delete ix dest => exact ⟨(h.delete ix dest).2, fun hok => ((h.delete ix dest).1 hok).2⟩

theorem Noted.request (h : s.Noted NDEVS) (hpos : 0 < NDEVS) {op : PolicerOp}
    (hok : s.Sound NDEVS cpss op) : (s.request NDEVS cpss op).state.Noted NDEVS := by
  cases op with
  | create p => exact (h.create hpos hok).1
  | delete ix dest => exact ((h.delete ix dest).1 hok).1

end

/-- In every run of sound requests the profiles have their policers, all are free when there is no
policer, and the next request is proper if and only if it is sound. -/
theorem proper_iff_sound (u : PolicerUnit) (hw : PolicerHw) (s : Policers)
    (hr : Guarded.Reach (fun s => s.step u.NDEVS) (fun s op => s.Sound u.NDEVS op.1 op.2)
      (init hw) s) :
    s.Owned u.NDEVS ∧
    ((∀ dest i, ¬s.Live dest i) →
      s.qpdb = [] ∧ s.res.Perm (List.range' QSP_FIRST_REGULAR_IDX QSP_MAX)) ∧
    ∀ cpss op, s.Proper u.NDEVS op (s.request u.NDEVS cpss op) ↔ s.Sound u.NDEVS cpss op := by
  have hinv := hr.invariant (fun s => s.Noted u.NDEVS) (init_noted hw) ?_
  · exact ⟨hinv.toOwned, hinv.toOwned.all_free, fun cpss op => hinv.proper_iff u.NDEVS_pos op⟩
  · intro s op t h hok hs
    obtain rfl := Option.some_inj.mp hs
    exact h.request u.NDEVS_pos hok

/-- A unit with one device. -/
def oneDevice : PolicerUnit := ⟨1, Nat.one_pos⟩

/-- A policer at ingress that does the action with what exceeds the rate. -/
def ingressPolicer (exceed : PolicerAction) : PolicerParams where
  dest := .INGRESS
  cir := 64
  cbs := 0
  ebs := 0
  pir := 0
  pbs := 0
  exceed_action := exceed
  exceed_value := 10
  violate_action := .UNDEF

/-- Hardware without entries. -/
def noEntries : PolicerHw := ⟨fun _ _ _ => none, fun _ _ _ => none, fun _ _ => none, fun _ => false⟩

/-- A request with no failure of the hardware library. -/
def calls (op : PolicerOp) : Cpss × PolicerOp := (fun _ => true, op)

/-- Three policers, of which the first is deleted. -/
def threePolicers : List (Cpss × PolicerOp) :=
  [calls (.create (ingressPolicer .SET_DSCP)), calls (.create (ingressPolicer .DROP)),
    calls (.create (ingressPolicer .SET_COS)), calls (.delete 2 .INGRESS)]

theorem proper_iff_sound_three : ∃ s : Policers, s.Owned 1 ∧ s.res.head? = some 8 ∧
    s.remarksBy 0 .INGRESS 4 = some 9 ∧
    s.Proper 1 (.delete 3 .INGRESS) (s.request 1 (fun _ => true) (.delete 3 .INGRESS)) := by
  have hlast : (Guarded.run (fun s : Policers => s.step oneDevice.NDEVS)
      (fun s op => s.Sound oneDevice.NDEVS op.1 op.2) (init noEntries) threePolicers).map (fun s =>
        (s.res.head?, s.remarksBy 0 .INGRESS 4,
          decide (s.Sound 1 (fun _ => true) (.delete 3 .INGRESS)))) =
              some (some 8, some 9, true) := by
    decide +kernel
  obtain ⟨s, hs, hshown⟩ := Option.map_eq_some_iff.mp hlast
  obtain ⟨hres, hshown⟩ := Prod.mk.inj hshown
  obtain ⟨hby, hsound⟩ := Prod.mk.inj hshown
  obtain ⟨howned, -, hiff⟩ := proper_iff_sound oneDevice noEntries s (Guarded.Reach.init.of_run hs)
  exact ⟨s, howned, hres, hby,
    (hiff (fun _ => true) (.delete 3 .INGRESS)).mpr (of_decide_eq_true hsound)⟩

/-- The index of a policer with a profile is used again for one without, which is deleted after the
profile has got another owner. -/
theorem not_owned : ¬∀ (u : PolicerUnit) (hw : PolicerHw) (s : Policers),
    Guarded.Reach (fun s => s.step u.NDEVS) (fun _ _ => True) (init hw) s → s.Owned u.NDEVS := by
  intro h
  have hlast : (Guarded.run (fun s : Policers => s.step oneDevice.NDEVS) (fun _ _ => True)
      (init noEntries) [calls (.create (ingressPolicer .SET_DSCP)), calls (.delete 2 .INGRESS),
        calls (.create (ingressPolicer .DROP)), calls (.create (ingressPolicer .SET_DSCP)),
        calls (.delete 2 .INGRESS)]).map (fun s =>
          (s.profiles, decide (s.Live .INGRESS 1), s.remarksBy 0 .INGRESS 3)) =
      some ([], true, some 8) := by
    decide +kernel
  obtain ⟨s, hs, hshown⟩ := Option.map_eq_some_iff.mp hlast
  obtain ⟨hprofiles, hshown⟩ := Prod.mk.inj hshown
  obtain ⟨hlive, hby⟩ := Prod.mk.inj hshown
  have howned := h oneDevice noEntries s (Guarded.Reach.init.of_run hs)
  have hmem := howned.live .INGRESS 1 8 ⟨0, Nat.one_pos, of_decide_eq_true hlive, hby⟩
  rw [hprofiles] at hmem
  exact List.not_mem_nil hmem

end Policers

end Presteramgr
