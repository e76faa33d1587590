import Presteramgr.Policer.Model

/-!
# What a creation does on the devices

A creation sets up its policer on one device after the other, and stops at the first failure. No
other entry is written, and no index taken. On each device a policer that remarks takes a profile of
its own.

## Main definitions

* `Policers.Accepted`: on which devices the calls succeed;
* `Policers.remarksBy`: the profile by which the policer at an index remarks on a device.

## Main results

* `Policers.createOn_ok`: the state where the body of the loop succeeds;
* `Policers.run_plain`, `Policers.run_remarks`: that of the loop.
-/

namespace Presteramgr

open Function (update update_self update_of_ne)

/-- One entry of a hardware table is written. -/
theorem PolicerHw.write_apply {α : Type} (table : ℕ → PolicerDest → ℕ → Option α) (e : α)
    (d d' : ℕ) (dest dest' : PolicerDest) (ix ix' : ℕ) :
    write d dest ix table e d' dest' ix' =
      if d' = d ∧ dest' = dest ∧ ix' = ix then some e else table d' dest' ix' := by
  unfold write
  by_cases hd : d' = d
  · subst hd
    by_cases hdest : dest' = dest
    · subst hdest
      by_cases hix : ix' = ix
      · subst hix
        simp
      · simp [hix]
    · simp [hdest]
  · simp [hd]

namespace Policers

/-- The hardware takes the entries of a policer on the device. -/
def Accepted (cpss : Cpss) (d : ℕ) : Prop :=
  cpss (.meteringEntrySet d) = true ∧ cpss (.billingEntrySet d) = true ∧
    cpss (.billingEntryGet d) = true

instance (cpss : Cpss) (d : ℕ) : Decidable (Accepted cpss d) :=
  inferInstanceAs (Decidable (_ ∧ _ ∧ _))

/-- The profile by which the policer at an index remarks on a device. -/
def remarksBy (s : Policers) (d : ℕ) (dest : PolicerDest) (ix : ℕ) : Option ℕ :=
  (s.hw.metering d dest ix).bind MeteringEntry.remarks

/-- No policer but that at an index has changed on the device, and no index is taken. -/
structure Keeps (dest : PolicerDest) (ix d : ℕ) (s t : Policers) : Prop where
  ixs : t.ixs = s.ixs
  remarksBy : ∀ d' dest' ix', ¬(d' = d ∧ dest' = dest ∧ ix' = ix) →
    t.remarksBy d' dest' ix' = s.remarksBy d' dest' ix'

/-- Neither profiles nor the table are touched. -/
structure SameProfiles (s t : Policers) : Prop where
  res : t.res = s.res
  qpdb : t.qpdb = s.qpdb
  ixs_qos : t.ixs_qos = s.ixs_qos

/-- The profile on top of the stack is taken for the policer at an index. -/
structure Takes (ix id : ℕ) (s t : Policers) : Prop where
  res : s.res = id :: t.res
  qpdb : t.qpdb = ⟨id, 1⟩ :: s.qpdb
  ixs_qos : t.ixs_qos = update s.ixs_qos (arrIx ix) id

variable {NDEVS : ℕ} {cpss : Cpss} {s t u : Policers} {p : PolicerParams} {ix d d' id : ℕ}
  {dest : PolicerDest} {qos : MeteringQos} {cmds : NonConformCmd × NonConformCmd}

/-- Nothing has changed. -/
theorem Keeps.refl (s : Policers) : Keeps dest ix d s s := ⟨rfl, fun _ _ _ _ => rfl⟩

/-- Two changes at the same policer are one. -/
theorem Keeps.trans (h : Keeps dest ix d s t) (h' : Keeps dest ix d t u) : Keeps dest ix d s u :=
  ⟨h'.ixs.trans h.ixs, fun d' dest' ix' hno => (h'.remarksBy d' dest' ix' hno).trans
    (h.remarksBy d' dest' ix' hno)⟩

/-- Two changes that keep the profiles are one. -/
theorem SameProfiles.trans (h : SameProfiles s t) (h' : SameProfiles t u) : SameProfiles s u :=
  ⟨h'.res.trans h.res, h'.qpdb.trans h.qpdb, h'.ixs_qos.trans h.ixs_qos⟩

/-- A profile that was taken is taken after a change that keeps the profiles. -/
theorem Takes.trans_same (h : Takes ix id s t) (h' : SameProfiles t u) : Takes ix id s u :=
  ⟨h.res.trans (congrArg _ h'.res.symm), h'.qpdb.trans h.qpdb, h'.ixs_qos.trans h.ixs_qos⟩

/-! ### Profiles -/

/-- Writing a profile changes no metering entry. -/
theorem writeProfile_metering (id : ℕ) (prof : CosProfile) (s : Policers) :
    (writeProfile NDEVS cpss s id prof).hw.metering = s.hw.metering := by
  unfold writeProfile
  dsimp only
  generalize List.range NDEVS = l
  generalize s.hw = hw
  induction l generalizing hw with
  | nil => rfl
  | cons d l ih =>
    rw [List.foldl_cons, ih]
    split_ifs <;> rfl

/-- Where no profile is free the call fails. -/
theorem addQosProfile_nil (hres : s.res = []) :
    addQosProfile NDEVS cpss s p ix = (.POLICER_QOS_ERR, 0, s) := by
  unfold addQosProfile qosProfileManage
  simp [hres]

/-- Where a profile is free the call takes the first one. -/
theorem addQosProfile_cons {res : List ℕ} (hres : s.res = id :: res) : ∃ t,
    addQosProfile NDEVS cpss s p ix = (.POLICER_OK, id, t) ∧ Takes ix id s t ∧ t.ixs = s.ixs ∧
      t.hw.metering = s.hw.metering := by
  unfold addQosProfile qosProfileManage
  simp only [hres, Option.getD_some]
  exact ⟨_, rfl, ⟨hres, rfl, rfl⟩, rfl, writeProfile_metering ..⟩

/-- A policer at egress that would remark is refused. -/
theorem ingress_of_setAction (h : setAction p = some cmds) (hp : p.exceed_action.remarks = true) :
    p.dest = .INGRESS := by
  unfold setAction at h
  cases hdest : p.dest with
  | INGRESS => rfl
  | EGRESS =>
    cases hact : p.exceed_action <;> simp [hact, PolicerAction.remarks] at hp <;> simp [hact, hdest] at h

/-- A policer that does not remark needs no profile. -/
theorem setQos_plain (hp : p.exceed_action.remarks = false) :
    setQos NDEVS cpss s p ix = (.POLICER_OK, ⟨false, false, 0, .L2⟩, s) := by
  unfold setQos
  rw [hp]
  rfl

/-- A policer that remarks fails where no profile is free. -/
theorem setQos_nil (hp : p.exceed_action.remarks = true) (hres : s.res = []) :
    setQos NDEVS cpss s p ix = (.POLICER_CREATE_ERR, ⟨false, false, 0, .L2⟩, s) := by
  unfold setQos
  rw [if_pos hp, addQosProfile_nil hres]

/-- A policer that remarks takes the first free profile. -/
theorem setQos_cons {res : List ℕ} (hp : p.exceed_action.remarks = true) (hdest : p.dest = .INGRESS)
    (hres : s.res = id :: res) : ∃ qos t, setQos NDEVS cpss s p ix = (.POLICER_OK, qos, t) ∧
      (qos.modifyDscp = true ∨ qos.modifyUp = true) ∧ qos.qosProfile = id ∧ Takes ix id s t ∧
      t.ixs = s.ixs ∧ t.hw.metering = s.hw.metering := by
  obtain ⟨t, hadd, hspec⟩ := @addQosProfile_cons NDEVS cpss s p ix id res hres
  refine ⟨if p.exceed_action = .SET_DSCP then ⟨true, false, id, .L3⟩ else ⟨false, true, id, .L2⟩, t,
    ?_, ?_, ?_, hspec⟩
  · unfold setQos
    rw [if_pos hp, hadd]
    dsimp only
    rw [if_neg fun h => by rw [hdest] at h; exact PolicerDest.noConfusion h.1]
  · split_ifs
    · exact .inl rfl
    · exact .inr rfl
  · split_ifs <;> rfl

/-! ### One device -/

/-- The metering entry says by which profile is remarked. -/
theorem setMetering_remarksBy (e : MeteringEntry) (d' : ℕ) (dest' : PolicerDest) (ix' : ℕ) :
    Policers.remarksBy { s with hw := s.hw.setMetering d dest ix e } d' dest' ix' =
      if d' = d ∧ dest' = dest ∧ ix' = ix then e.remarks else s.remarksBy d' dest' ix' := by
  unfold remarksBy PolicerHw.setMetering
  dsimp only
  rw [PolicerHw.write_apply]
  split_ifs <;> rfl

/-- The billing entry is written, whatever else fails. -/
theorem addBillingEntry_spec (s : Policers) (p : PolicerParams) (ix d : ℕ) :
    ((addBillingEntry cpss s p ix d).1 = .POLICER_OK ↔
      cpss (.billingEntrySet d) = true ∧ cpss (.billingEntryGet d) = true) ∧
    Keeps p.dest ix d s (addBillingEntry cpss s p ix d).2 ∧
    SameProfiles s (addBillingEntry cpss s p ix d).2 ∧
    (addBillingEntry cpss s p ix d).2.hw.metering = s.hw.metering := by
  unfold addBillingEntry
  by_cases hset : cpss (.billingEntrySet d) = true
  · by_cases hget : cpss (.billingEntryGet d) = true
    · simp only [hset, hget, if_true]
      exact ⟨by simp, ⟨rfl, fun _ _ _ _ => rfl⟩, ⟨rfl, rfl, rfl⟩, rfl⟩
    · simp only [hset, hget, if_true]
      exact ⟨by simp, ⟨rfl, fun _ _ _ _ => rfl⟩, ⟨rfl, rfl, rfl⟩, rfl⟩
  · simp only [hset]
    exact ⟨by simp, .refl s, ⟨rfl, rfl, rfl⟩, rfl⟩

/-- What the loop has done for a policer on one device: nothing about profiles, or one was taken. -/
def Marked (p : PolicerParams) (ix d : ℕ) (s t : Policers) : Prop :=
  p.exceed_action.remarks = false ∧ SameProfiles s t ∧ t.remarksBy d p.dest ix = none ∨
    p.exceed_action.remarks = true ∧ ∃ id, Takes ix id s t ∧ t.remarksBy d p.dest ix = some id

/-- A policer that was marked is so after a change that keeps the profiles. -/
theorem Marked.trans_same (h : Marked p ix d s t) (h' : SameProfiles t u)
    (hmetering : u.hw.metering = t.hw.metering) : Marked p ix d s u := by
  have hby : u.remarksBy d p.dest ix = t.remarksBy d p.dest ix := by
    unfold remarksBy
    rw [hmetering]
  unfold Marked
  rw [hby]
  rcases h with ⟨hp, hsame, hnone⟩ | ⟨hp, id, htakes, hsome⟩
  · exact .inl ⟨hp, hsame.trans h', hnone⟩
  · exact .inr ⟨hp, id, htakes.trans_same h', hsome⟩

/-- A metering entry is set exactly where the actions are accepted, a profile is left for a policer
that remarks, and the call succeeds. -/
theorem addMeteringEntry_spec (s : Policers) (p : PolicerParams) (ix d : ℕ) :
    ((addMeteringEntry NDEVS cpss s p ix d).1 = .POLICER_OK ↔ (setAction p).isSome = true ∧
      cpss (.meteringEntrySet d) = true ∧ (p.exceed_action.remarks = true → s.res ≠ [])) ∧
    Keeps p.dest ix d s (addMeteringEntry NDEVS cpss s p ix d).2 ∧
    ((addMeteringEntry NDEVS cpss s p ix d).1 = .POLICER_OK →
      Marked p ix d s (addMeteringEntry NDEVS cpss s p ix d).2) := by
  -- the entry is the last that is written
  have hset (t : Policers) (hixs : t.ixs = s.ixs) (hmetering : t.hw.metering = s.hw.metering)
      (e : MeteringEntry) :
          Keeps p.dest ix d s { t with hw := t.hw.setMetering d p.dest ix e } := by
    refine ⟨hixs, fun d' dest' ix' hno => ?_⟩
    rw [setMetering_remarksBy, if_neg hno, remarksBy, hmetering]
    rfl
  unfold addMeteringEntry
  cases hact : setAction p with
  | none => exact ⟨by simp, .refl s, by simp⟩
  | some cmds =>
    obtain ⟨yellow, red⟩ := cmds
    cases hp : p.exceed_action.remarks with
    | false =>
      rw [setQos_plain hp]
      by_cases hcall : cpss (.meteringEntrySet d) = true
      · simp only [hcall, if_true]
        refine ⟨by simp, hset s rfl rfl _, fun _ => .inl ⟨hp, ⟨rfl, rfl, rfl⟩, ?_⟩⟩
        rw [setMetering_remarksBy, if_pos ⟨rfl, rfl, rfl⟩]
        rfl
      · simp only [hcall, Bool.false_eq_true, if_false]
        exact ⟨by simp, .refl s, by simp⟩
    | true =>
      cases hres : s.res with
      | nil =>
        rw [setQos_nil hp hres]
        exact ⟨by simp, .refl s, by simp⟩
      | cons id res =>
        obtain ⟨qos, t, hqos, hmodify, hid, htakes, hixs, hmetering⟩ :=
          @setQos_cons NDEVS cpss s p ix id res hp (ingress_of_setAction hact hp) hres
        rw [hqos]
        by_cases hcall : cpss (.meteringEntrySet d) = true
        · simp only [hcall, if_true]
          refine ⟨by simp, hset t hixs hmetering _, fun _ => .inr ⟨hp, id, ?_, ?_⟩⟩
          · exact htakes.trans_same ⟨rfl, rfl, rfl⟩
          · rw [setMetering_remarksBy, if_pos ⟨rfl, rfl, rfl⟩, MeteringEntry.remarks,
              if_pos hmodify, hid]
        · simp only [hcall, Bool.false_eq_true, if_false]
          refine ⟨by simp, ⟨hixs, fun d' dest' ix' _ => ?_⟩, by simp⟩
          rw [remarksBy, hmetering]
          rfl

/-- Failures of both parts of the body are `POLICER_CREATE_ERR`. -/
theorem createOn_eq (s : Policers) (p : PolicerParams) (ix d : ℕ) :
    createOn NDEVS cpss p ix d s =
      if (addMeteringEntry NDEVS cpss s p ix d).1 = .POLICER_OK then
        (if (addBillingEntry cpss (addMeteringEntry NDEVS cpss s p ix d).2 p ix d).1 = .POLICER_OK
          then .POLICER_OK else .POLICER_CREATE_ERR,
          (addBillingEntry cpss (addMeteringEntry NDEVS cpss s p ix d).2 p ix d).2)
      else (.POLICER_CREATE_ERR, (addMeteringEntry NDEVS cpss s p ix d).2) := by
  unfold createOn
  obtain ⟨st, t⟩ := addMeteringEntry NDEVS cpss s p ix d
  cases st
  case POLICER_OK =>
    dsimp only
    obtain ⟨st, u⟩ := addBillingEntry cpss t p ix d
    cases st <;> rfl
  all_goals rfl

/-- The body of the loop succeeds exactly where the actions are accepted, a profile is left for a
policer that remarks, and the calls succeed. -/
theorem createOn_spec (s : Policers) (p : PolicerParams) (ix d : ℕ) :
    ((createOn NDEVS cpss p ix d s).1 = .POLICER_OK ↔ (setAction p).isSome = true ∧
      Accepted cpss d ∧
      (p.exceed_action.remarks = true → s.res ≠ [])) ∧
    Keeps p.dest ix d s (createOn NDEVS cpss p ix d s).2 ∧
    ((createOn NDEVS cpss p ix d s).1 = .POLICER_OK →
      Marked p ix d s (createOn NDEVS cpss p ix d s).2) := by
  obtain ⟨hmok, hmkeeps, hmmarked⟩ := @addMeteringEntry_spec NDEVS cpss s p ix d
  rw [createOn_eq]
  by_cases hm : (addMeteringEntry NDEVS cpss s p ix d).1 = .POLICER_OK
  · obtain ⟨hact, hcall, hres⟩ := hmok.mp hm
    obtain ⟨hbok, hbkeeps, hbsame, hbmetering⟩ :=
      @addBillingEntry_spec cpss (addMeteringEntry NDEVS cpss s p ix d).2 p ix d
    rw [if_pos hm]
    refine ⟨?_, hmkeeps.trans hbkeeps, fun _ => (hmmarked hm).trans_same hbsame hbmetering⟩
    constructor
    · intro h
      by_cases hb : (addBillingEntry cpss
        (addMeteringEntry NDEVS cpss s p ix d).2 p ix d).1 = .POLICER_OK
      · exact ⟨hact, ⟨hcall, hbok.mp hb⟩, hres⟩
      · exact absurd h (by rw [if_neg hb]; exact PolicerStatus.noConfusion)
    · rintro ⟨-, ⟨-, hbill⟩, -⟩
      exact if_pos (hbok.mpr hbill)
  · rw [if_neg hm]
    refine ⟨iff_of_false PolicerStatus.noConfusion ?_, hmkeeps, PolicerStatus.noConfusion⟩
    rintro ⟨hact, ⟨hcall, -⟩, hres⟩
    exact hm (hmok.mpr ⟨hact, hcall, hres⟩)

/-! ### All devices -/

/-- The devices are served one after the other, up to the first that fails. -/
theorem run_cons (d : ℕ) (ds : List ℕ) (s : Policers) :
    Calls.run .POLICER_OK (createOn NDEVS cpss p ix) (d :: ds) s =
      if (createOn NDEVS cpss p ix d s).1 = .POLICER_OK then
        Calls.run .POLICER_OK (createOn NDEVS cpss p ix) ds (createOn NDEVS cpss p ix d s).2
      else createOn NDEVS cpss p ix d s := rfl

/-- The loop keeps what is at other indices, and on other devices. -/
theorem run_keeps (ds : List ℕ) (s : Policers) :
    (Calls.run .POLICER_OK (createOn NDEVS cpss p ix) ds s).2.ixs = s.ixs ∧
    ∀ d' dest' ix', ¬(d' ∈ ds ∧ dest' = p.dest ∧ ix' = ix) →
      (Calls.run .POLICER_OK (createOn NDEVS cpss p ix) ds s).2.remarksBy d' dest' ix' =
        s.remarksBy d' dest' ix' := by
  induction ds generalizing s with
  | nil => exact ⟨rfl, fun _ _ _ _ => rfl⟩
  | cons d ds ih =>
    obtain ⟨-, hkeeps, -⟩ := @createOn_spec NDEVS cpss s p ix d
    have hfirst (d' : ℕ) (dest' : PolicerDest) (ix' : ℕ)
        (hno : ¬(d' ∈ d :: ds ∧ dest' = p.dest ∧ ix' = ix)) :
        (createOn NDEVS cpss p ix d s).2.remarksBy d' dest' ix' = s.remarksBy d' dest' ix' := by
      apply hkeeps.remarksBy
      rintro ⟨rfl, hat⟩
      exact hno ⟨List.mem_cons_self, hat⟩
    rw [run_cons]
    split_ifs
    · obtain ⟨hixs, hby⟩ := ih (createOn NDEVS cpss p ix d s).2
      refine ⟨hixs.trans hkeeps.ixs, fun d' dest' ix' hno => ?_⟩
      rw [hby d' dest' ix' fun h => hno ⟨List.mem_cons_of_mem d h.1, h.2⟩]
      exact hfirst d' dest' ix' hno
    · exact ⟨hkeeps.ixs, hfirst⟩

/-- Where the loop succeeds, the actions are accepted, and all calls succeed. -/
theorem run_ok {ds : List ℕ}
    (h : (Calls.run .POLICER_OK (createOn NDEVS cpss p ix) ds s).1 = .POLICER_OK) :
    ∀ d ∈ ds, (setAction p).isSome = true ∧ Accepted cpss d ∧
      (p.exceed_action.remarks = true → s.res ≠ []) := by
  induction ds generalizing s with
  | nil => exact fun d hd => absurd hd List.not_mem_nil
  | cons d ds ih =>
    obtain ⟨hok, -, hmarked⟩ := @createOn_spec NDEVS cpss s p ix d
    rw [run_cons] at h
    by_cases hd : (createOn NDEVS cpss p ix d s).1 = .POLICER_OK
    · rw [if_pos hd] at h
      obtain ⟨hact, hacc, hres⟩ := hok.mp hd
      intro d' hd'
      rcases List.mem_cons.mp hd' with rfl | hd'
      · exact ⟨hact, hacc, hres⟩
      · exact ⟨hact, (ih h d' hd').2.1, hres⟩
    · rw [if_neg hd] at h
      exact absurd h hd

/-- The loop for a policer that does not remark. -/
theorem run_plain {ds : List ℕ} (hp : p.exceed_action.remarks = false)
    (hok : ∀ d ∈ ds, (setAction p).isSome = true ∧ Accepted cpss d) :
    (Calls.run .POLICER_OK (createOn NDEVS cpss p ix) ds s).1 = .POLICER_OK ∧
    SameProfiles s (Calls.run .POLICER_OK (createOn NDEVS cpss p ix) ds s).2 ∧
    ∀ d ∈ ds, (Calls.run .POLICER_OK
        (createOn NDEVS cpss p ix) ds s).2.remarksBy d p.dest ix = none := by
  induction ds generalizing s with
  | nil => exact ⟨rfl, ⟨rfl, rfl, rfl⟩, fun d hd => absurd hd List.not_mem_nil⟩
  | cons d ds ih =>
    obtain ⟨hiff, -, hmarked⟩ := @createOn_spec NDEVS cpss s p ix d
    obtain ⟨hact, hacc⟩ := hok d List.mem_cons_self
    have hd := hiff.mpr ⟨hact, hacc, fun h => absurd (hp.symm.trans h) Bool.false_ne_true⟩
    rw [run_cons, if_pos hd]
    obtain ⟨hst, hsame, hnone⟩ := @ih (createOn NDEVS cpss p ix d s).2
      fun d' hd' => hok d' (List.mem_cons_of_mem d hd')
    rcases hmarked hd with ⟨-, hsame', hnone'⟩ | ⟨hp', -⟩
    · refine ⟨hst, hsame'.trans hsame, fun d' hd' => ?_⟩
      by_cases hmem : d' ∈ ds
      · exact hnone d' hmem
      · obtain rfl := (List.mem_cons.mp hd').resolve_right hmem
        rw [(run_keeps ds _).2 d' p.dest ix fun h => hmem h.1]
        exact hnone'
    · exact absurd (hp.symm.trans hp') Bool.false_ne_true

/-- On each device a policer that remarks has a profile of the stack. -/
theorem run_remarks {ds : List ℕ} (hp : p.exceed_action.remarks = true)
    (h : (Calls.run .POLICER_OK (createOn NDEVS cpss p ix) ds s).1 = .POLICER_OK) :
    ∀ d ∈ ds, ∃ id ∈ s.res,
      (Calls.run .POLICER_OK
          (createOn NDEVS cpss p ix) ds s).2.remarksBy d p.dest ix = some id := by
  induction ds generalizing s with
  | nil => exact fun d hd => absurd hd List.not_mem_nil
  | cons d ds ih =>
    obtain ⟨-, -, hmarked⟩ := @createOn_spec NDEVS cpss s p ix d
    rw [run_cons] at h ⊢
    by_cases hd : (createOn NDEVS cpss p ix d s).1 = .POLICER_OK
    · rw [if_pos hd] at h ⊢
      rcases hmarked hd with ⟨hp', -⟩ | ⟨-, id, htakes, hsome⟩
      · exact absurd (hp'.symm.trans hp) Bool.false_ne_true
      intro d' hd'
      by_cases hmem : d' ∈ ds
      · obtain ⟨id', hid', hsome'⟩ := ih h d' hmem
        exact ⟨id', htakes.res ▸ List.mem_cons_of_mem id hid', hsome'⟩
      · obtain rfl := (List.mem_cons.mp hd').resolve_right hmem
        refine ⟨id, htakes.res ▸ List.mem_cons_self, ?_⟩
        rw [(run_keeps ds _).2 d' p.dest ix fun h => hmem h.1]
        exact hsome
    · rw [if_neg hd] at h
      exact absurd h hd

/-- With two devices the profiles of a policer are two. -/
theorem run_remarks_ne {ds : List ℕ} (hp : p.exceed_action.remarks = true)
    (hd' : d' ∈ ds) (hnotin : d ∉ ds) (hnodup : s.res.Nodup)
    (h : (Calls.run .POLICER_OK (createOn NDEVS cpss p ix) (d :: ds) s).1 = .POLICER_OK) :
    ∃ id, (Calls.run .POLICER_OK (createOn NDEVS cpss p ix)
      (d :: ds) s).2.remarksBy d p.dest ix = some id ∧
      (Calls.run .POLICER_OK (createOn NDEVS cpss p ix)
          (d :: ds) s).2.remarksBy d' p.dest ix ≠ some id := by
  obtain ⟨-, -, hmarked⟩ := @createOn_spec NDEVS cpss s p ix d
  rw [run_cons] at h ⊢
  by_cases hd : (createOn NDEVS cpss p ix d s).1 = .POLICER_OK
  · rw [if_pos hd] at h ⊢
    rcases hmarked hd with ⟨hp', -⟩ | ⟨-, id, htakes, hsome⟩
    · exact absurd (hp'.symm.trans hp) Bool.false_ne_true
    refine ⟨id, ?_, fun heq => ?_⟩
    · rw [(run_keeps ds _).2 d p.dest ix fun h => hnotin h.1]
      exact hsome
    · obtain ⟨id', hid', hsome'⟩ := run_remarks hp h d' hd'
      obtain rfl := Option.some_inj.mp (heq.symm.trans hsome')
      rw [htakes.res] at hnodup
      exact (List.nodup_cons.mp hnodup).1 hid'
  · rw [if_neg hd] at h
    exact absurd h hd

end Policers

end Presteramgr
