import Presteramgr.Port.Isolation

/-!
# Runs of the port isolation

What a call does to the bitmaps: the bitmap of its port and that of each port it writes for get the
bit of the other (`Updated`). From it, the isolation of all pairs of ports after any calls.

## Main results

* `Iso.isolated`: in guarded runs the hardware blocks what is to be blocked;
* `Iso.not_isolated`: without the guard a stack port is cut off.
-/

namespace Presteramgr

open Function (update update_self update_of_ne)
open Sweep

namespace Iso

variable {c : IsoConf} {s s' : Iso} {t : ℕ}

/-! ### The loops -/

/-- The changed port. -/
@[simp] theorem port_self (i : ℕ) (f : IsoPort → IsoPort) :
    (s.port i f).ports i = f (s.ports i) := by
  simp only [port, update_self]

/-- Another port is as it was. -/
theorem port_of_ne {i j : ℕ} (hne : j ≠ i) (f : IsoPort → IsoPort) :
    (s.port i f).ports j = s.ports j := by
  simp only [port, update_of_ne hne]

@[simp] theorem port_hw (i : ℕ) (f : IsoPort → IsoPort) : (s.port i f).hw = s.hw := rfl

/-- The port itself gets the bit of the other one. -/
theorem link_self {o : ℕ} (hne : o ≠ t) (allow : Bool) : (s.link c t o allow).ports t =
    { s.ports t with
      iso_bmp := update (s.ports t).iso_bmp (c.lport o) allow, iso_bmp_changed := true } := by
  unfold link
  rw [port_of_ne hne.symm, port_self]

/-- The other port gets the bit of the port. -/
theorem link_other {o : ℕ} (hne : o ≠ t) (allow : Bool) : (s.link c t o allow).ports o =
    { s.ports o with
      iso_bmp := update (s.ports o).iso_bmp (c.lport t) allow, iso_bmp_changed := true } := by
  unfold link
  rw [port_self, port_of_ne hne]

/-- A third port is as it was. -/
theorem link_of_ne {o i : ℕ} (ht : i ≠ t) (ho : i ≠ o) (allow : Bool) :
    (s.link c t o allow).ports i = s.ports i := by
  unfold link
  rw [port_of_ne ho, port_of_ne ht]

/-- A round that writes for the port `i` what `w i` says. -/
def linkRound (c : IsoConf) (t : ℕ) (w : ℕ → Option Bool) (s : Iso) (i : ℕ) : Iso :=
  match w i with
  | some allow => s.link c t i allow
  | none => s

/-- The states have the same settings of all ports. -/
def SameSettings (s s' : Iso) : Prop :=
  ∀ i, (s'.ports i).c_protected = (s.ports i).c_protected ∧
    (s'.ports i).c_prot_comm = (s.ports i).c_prot_comm

/-- A round of the loop changes no settings. -/
theorem linkRound_settings {w : ℕ → Option Bool} (hw : w t = none) {s₀ : Iso}
    (h : SameSettings s₀ s) (i : ℕ) : SameSettings s₀ (s.linkRound c t w i) := by
  intro j
  unfold linkRound
  cases hi : w i with
  | none => exact h j
  | some allow =>
    have hne : i ≠ t := by
      rintro rfl
      rw [hw] at hi
      exact absurd hi.symm (Option.some_ne_none _)
    by_cases hjt : j = t
    · subst hjt
      simp only [link_self hne]
      exact h j
    · by_cases hji : j = i
      · subst hji
        simp only [link_other hne]
        exact h j
      · simp only [link_of_ne hjt hji]
        exact h j

/-- What a sweep of `linkRound` leaves. -/
structure Linked (c : IsoConf) (t : ℕ) (w : ℕ → Option Bool) (s s' : Iso) : Prop where
  settings : SameSettings s s'
  hw : s'.hw = s.hw
  /-- The port is marked unless it is left as it was. -/
  marked : (s'.ports t).iso_bmp_changed = true ∨ s'.ports t = s.ports t
  /-- The last write to a bit of the port counts. -/
  row : ∀ b v, ((s.ports t).iso_bmp b = v ∨ ∃ i < c.NPORTS, (w i).isSome ∧ c.lport i = b) →
    (∀ i < c.NPORTS, ∀ v', w i = some v' → c.lport i = b → v' = v ∨
      ∃ j < c.NPORTS, i < j ∧ w j = some v ∧ c.lport j = b) → (s'.ports t).iso_bmp b = v
  other : ∀ o < c.NPORTS, o ≠ t → ∀ allow, w o = some allow → s'.ports o =
    { s.ports o with
      iso_bmp := update (s.ports o).iso_bmp (c.lport t) allow, iso_bmp_changed := true }
  other_none : ∀ o < c.NPORTS, o ≠ t → w o = none → s'.ports o = s.ports o

/-- The loop links the port with all the ports it asks for. -/
theorem linked_sweep {w : ℕ → Option Bool} (hw : w t = none) :
    Linked c t w s (sweep (linkRound c t w) c.NPORTS s) := by
  have hne : ∀ {i allow}, w i = some allow → i ≠ t := by
    rintro i allow hi rfl
    rw [hw] at hi
    exact absurd hi.symm (Option.some_ne_none _)
  -- a port is changed in its own round only
  have hother : ∀ o, o ≠ t → (sweep (linkRound c t w) c.NPORTS s).ports o =
      if o < c.NPORTS then
        (match w o with
        | some allow => { s.ports o with
            iso_bmp := update (s.ports o).iso_bmp (c.lport t) allow, iso_bmp_changed := true }
        | none => s.ports o)
      else s.ports o := by
    intro o ho
    refine sweep_at Iso.ports (fun i p => match w i with
      | some allow =>
        { p with iso_bmp := update p.iso_bmp (c.lport t) allow, iso_bmp_changed := true }
      | none => p) o fun s j _ => ?_
    unfold linkRound
    by_cases hoj : o = j
    · subst hoj
      cases hi : w o with
      | none => simp
      | some allow => simp [link_other ho]
    · rw [if_neg hoj]
      cases hi : w j with
      | none => rfl
      | some allow => exact link_of_ne ho hoj allow
  -- field by field: the settings, the hardware, the marks, the bits of `t` and the other ports
  refine ⟨?_, ?_, ?_, fun b v hstart hlast => ?_, fun o hlt ho allow hallow => ?_,
    fun o hlt ho hnone => ?_⟩
  · exact sweep_invariant (SameSettings s) (fun i => ⟨rfl, rfl⟩) fun s' i _ h =>
      linkRound_settings hw h i
  · refine sweep_invariant (fun s' : Iso => s'.hw = s.hw) rfl fun s' i _ h => ?_
    unfold linkRound
    cases w i with
    | none => exact h
    | some allow => exact h
  · refine sweep_invariant
      (fun s' : Iso => (s'.ports t).iso_bmp_changed = true ∨ s'.ports t = s.ports t) (Or.inr rfl)
      fun s' i _ h => ?_
    unfold linkRound
    cases hi : w i with
    | none => exact h
    | some allow =>
      simp only [link_self (hne hi)]
      exact Or.inl trivial
  · -- the last round that writes a bit of `t` decides it
    refine sweep_update (fun s : Iso => (s.ports t).iso_bmp)
      (fun i => (w i).map fun allow => (c.lport i, allow)) (fun s' i _ => ?_) ?_ ?_
    · unfold linkRound
      cases hi : w i with
      | none => rfl
      | some allow => simp only [link_self (hne hi), Option.map_some]
    · refine hstart.imp_right ?_
      rintro ⟨i, hlt, hsome, hb⟩
      obtain ⟨allow, hallow⟩ := Option.isSome_iff_exists.mp hsome
      exact ⟨i, hlt, allow, by rw [hallow, Option.map_some, hb]⟩
    · intro i hlt v' hv'
      obtain ⟨allow, hallow, heq⟩ := Option.map_eq_some_iff.mp hv'
      obtain ⟨hb, rfl⟩ := Prod.mk.inj heq
      refine (hlast i hlt allow hallow hb).imp_right ?_
      rintro ⟨j, hj, hij, hjv, hjb⟩
      exact ⟨j, hj, hij, by rw [hjv, Option.map_some, hjb]⟩
  · rw [hother o ho, if_pos hlt, hallow]
  · rw [hother o ho, if_pos hlt, hnone]

/-- What a call writes for the pairs of `t` with the ports that `W` names, `s'` having the settings
after the call. -/
def pairBits (s' : Iso) (t : ℕ) (W : ℕ → Prop) [DecidablePred W] (i : ℕ) : Option Bool :=
  if W i then some (decide ¬s'.blocked t i) else none

/-- The pairs that a change of the protection writes for. -/
def ProtPairs (t i : ℕ) : Prop := i ≠ t

/-- The pairs that a change of the community writes for. -/
def CommPairs (s : Iso) (t comm i : ℕ) : Prop :=
  i ≠ t ∧ ((s.ports t).c_protected = true ∧ (s.ports i).c_protected = true) ∧
    (s.ports i).c_prot_comm ≠ 0 ∧
      ((s.ports i).c_prot_comm = (s.ports t).c_prot_comm ∨ (s.ports i).c_prot_comm = comm)

instance : DecidablePred (ProtPairs t) := fun _ => inferInstanceAs (Decidable (_ ≠ _))

instance (comm : ℕ) : DecidablePred (CommPairs s t comm) := fun _ =>
  inferInstanceAs (Decidable (_ ∧ (_ ∧ _) ∧ _ ∧ (_ ∨ _)))

/-- The settings with another protection. -/
def withProt (s : Iso) (t : ℕ) (prot : Bool) : Iso :=
  s.port t fun p => { p with c_protected := prot }

/-- The settings with another community. -/
def withComm (s : Iso) (t comm : ℕ) : Iso := s.port t fun p => { p with c_prot_comm := comm }

/-- The loop of `port_set_protected` is the general one. -/
theorem setProt_sweep (prot : Bool) : sweep (setProtRound c t prot) c.NPORTS s =
    sweep (linkRound c t (pairBits (s.withProt t prot) t (ProtPairs t))) c.NPORTS s := by
  have hnone : pairBits (s.withProt t prot) t (ProtPairs t) t = none := if_neg fun h => h rfl
  refine sweep_congr (SameSettings s) (fun i => ⟨rfl, rfl⟩)
    (fun s' i _ h => linkRound_settings hnone h i) fun s' i _ h => ?_
  unfold setProtRound linkRound
  by_cases hi : i = t
  · subst hi
    rw [if_pos rfl, hnone]
  · have hbit : pairBits (s.withProt t prot) t (ProtPairs t) i =
        some (decide ¬(s.withProt t prot).blocked t i) := if_pos hi
    rw [if_neg hi, hbit, (h i).1, (h i).2, (h t).2]
    simp only [blocked, withProt, port_self, port_of_ne hi]
    -- the branches of the source are the cases of `blocked`
    by_cases hp : prot = true
    · by_cases ho : (s.ports i).c_protected = true
      · by_cases hcomm : (s.ports t).c_prot_comm ≠ 0 ∧
            (s.ports i).c_prot_comm = (s.ports t).c_prot_comm
        · rw [if_pos hp, if_pos ho, if_pos hcomm]
          refine congrArg (link c s' t i) (decide_eq_true ?_).symm
          exact fun h => h.2 ⟨hcomm.1, hcomm.2.symm⟩
        · rw [if_pos hp, if_pos ho, if_neg hcomm]
          refine congrArg (link c s' t i) (decide_eq_false ?_).symm
          exact fun h => h ⟨⟨hp, ho⟩, fun h => hcomm ⟨h.1, h.2.symm⟩⟩
      · simp [hp, ho]
    · simp [hp]

/-- The loop of `port_set_comm` is the general one. -/
theorem setComm_sweep {comm : ℕ} (hne : (s.ports t).c_prot_comm ≠ comm)
    (hprot : (s.ports t).c_protected = true) : sweep (setCommRound c t comm) c.NPORTS s =
      sweep (linkRound c t (pairBits (s.withComm t comm) t (CommPairs s t comm))) c.NPORTS s := by
  have hnone : pairBits (s.withComm t comm) t (CommPairs s t comm) t = none :=
    if_neg fun h => h.1 rfl
  refine sweep_congr (SameSettings s) (fun i => ⟨rfl, rfl⟩)
    (fun s' i _ h => linkRound_settings hnone h i) fun s' i _ h => ?_
  unfold setCommRound linkRound
  rw [(h i).1, (h i).2, (h t).2]
  by_cases hi : i = t
  · subst hi
    rw [if_pos rfl, hnone, ite_self]
  · by_cases ho : (s.ports i).c_protected = true
    · rw [if_neg (not_not.mpr ho), if_neg hi]
      have hbits : ∀ b, CommPairs s t comm i →
          (b = true ↔ comm ≠ 0 ∧ comm = (s.ports i).c_prot_comm) →
          pairBits (s.withComm t comm) t (CommPairs s t comm) i = some b := by
        intro b hW hb
        refine (if_pos hW).trans (congrArg some ?_)
        rw [Bool.eq_iff_iff, hb, decide_eq_true_eq]
        simp only [blocked, withComm, port_self, port_of_ne hi, hprot, ho]
        tauto
      by_cases hold : (s.ports t).c_prot_comm ≠ 0 ∧
        (s.ports t).c_prot_comm = (s.ports i).c_prot_comm
      · -- the community left: the new one is another, nothing is set again
        have hnew : ¬(comm ≠ 0 ∧ comm = (s.ports i).c_prot_comm) := fun h =>
          hne (hold.2.trans h.2.symm)
        rw [hbits false ⟨hi, ⟨hprot, ho⟩, hold.2 ▸ hold.1, Or.inl hold.2.symm⟩
          ⟨fun h => absurd h Bool.false_ne_true, fun h => absurd h hnew⟩]
        simp only [if_pos hold]
        rw [link_other hi]
        exact if_neg (by rw [(h i).2]; exact hnew)
      · simp only [if_neg hold]
        rw [(h i).2]
        by_cases hnew : comm ≠ 0 ∧ comm = (s.ports i).c_prot_comm
        · rw [if_pos hnew, hbits true ⟨hi, ⟨hprot, ho⟩, hnew.2 ▸ hnew.1, Or.inr hnew.2.symm⟩
            ⟨fun _ => hnew, fun _ => rfl⟩]
        · have hW : ¬CommPairs s t comm i := by
            rintro ⟨-, -, h0, heq | heq⟩
            · exact hold ⟨heq ▸ h0, heq.symm⟩
            · exact hnew ⟨heq ▸ h0, heq.symm⟩
          rw [if_neg hnew, pairBits, if_neg hW]
    · rw [if_pos ho, pairBits, if_neg fun h => ho h.2.1.2]

/-! ### The writes -/

/-- A port with its entries of the isolation table. -/
def entry (s : Iso) (i : ℕ) : IsoPort × (IsoTraffic → Option (ℕ → Bool)) :=
  (s.ports i, fun traffic => s.hw traffic i)

/-- A port whose bitmap is written if it is marked. -/
def writeEntry (e : IsoPort × (IsoTraffic → Option (ℕ → Bool))) :
    IsoPort × (IsoTraffic → Option (ℕ → Bool)) :=
  if e.1.iso_bmp_changed then ({ e.1 with iso_bmp_changed := false }, fun _ => some e.1.iso_bmp)
  else e

/-- `port_set_iso_bmp` writes the entry of one port. -/
theorem entry_portSetIsoBmp (i j : ℕ) :
    (s.portSetIsoBmp j).entry i = if i = j then writeEntry (s.entry i) else s.entry i := by
  unfold portSetIsoBmp writeEntry
  by_cases hij : i = j
  · subst hij
    rw [if_pos rfl]
    by_cases hch : (s.ports i).iso_bmp_changed
    · simp [hch, entry, port]
    · simp [hch, entry]
  · rw [if_neg hij]
    by_cases hch : (s.ports j).iso_bmp_changed
    · simp [hch, entry, port, update_of_ne hij]
    · simp [hch]

/-- `port_update_iso` writes the entries of all ports. -/
theorem entry_portUpdateIso (i : ℕ) :
    (s.portUpdateIso c).entry i = if i < c.NPORTS then writeEntry (s.entry i) else s.entry i :=
  sweep_at entry (fun _ => writeEntry) i fun _ j _ => entry_portSetIsoBmp i j

/-- A written port is not marked as changed. -/
theorem writeEntry_port (e : IsoPort × (IsoTraffic → Option (ℕ → Bool))) :
    (writeEntry e).1 = { e.1 with iso_bmp_changed := false } := by
  unfold writeEntry
  by_cases hch : e.1.iso_bmp_changed
  · rw [if_pos hch]
  · rw [if_neg hch, ← Bool.eq_false_iff.mpr hch]

/-- After the update no port is marked as changed. -/
theorem portUpdateIso_ports {i : ℕ} (hi : i < c.NPORTS) :
    (s.portUpdateIso c).ports i = { s.ports i with iso_bmp_changed := false } := by
  have h := congrArg Prod.fst (entry_portUpdateIso (c := c) (s := s) i)
  rw [if_pos hi, writeEntry_port] at h
  exact h

/-- The update changes no settings. -/
theorem portUpdateIso_settings : SameSettings s (s.portUpdateIso c) := by
  intro i
  by_cases hi : i < c.NPORTS
  · rw [portUpdateIso_ports hi]
    exact ⟨rfl, rfl⟩
  · have h := congrArg Prod.fst (entry_portUpdateIso (c := c) (s := s) i)
    rw [if_neg hi] at h
    have hports : (s.portUpdateIso c).ports i = s.ports i := h
    rw [hports]
    exact ⟨rfl, rfl⟩

/-- The hardware has the bitmaps of the marked ports after the update. -/
theorem portUpdateIso_hw {i : ℕ} (hi : i < c.NPORTS) (traffic : IsoTraffic) :
    (s.portUpdateIso c).hw traffic i =
      if (s.ports i).iso_bmp_changed then some (s.ports i).iso_bmp else s.hw traffic i := by
  have h := congrFun (congrArg Prod.snd (entry_portUpdateIso (c := c) (s := s) i)) traffic
  rw [if_pos hi] at h
  refine h.trans ?_
  unfold writeEntry entry
  split_ifs
  · rfl
  · rfl

/-- The settings alone decide which ports are blocked. -/
theorem blocked_congr (h : SameSettings s s') (t o : ℕ) : s'.blocked t o ↔ s.blocked t o := by
  unfold blocked
  rw [(h t).1, (h t).2, (h o).1, (h o).2]

/-- A change of one port is a change of its entry. -/
theorem entry_port (i j : ℕ) (f : IsoPort → IsoPort) :
    (s.port j f).entry i = if i = j then (f (s.ports i), (s.entry i).2) else s.entry i := by
  by_cases hij : i = j
  · subst hij
    simp [entry]
  · simp [entry, port_of_ne hij, hij]

/-- The state after the start: each port of the front panel has the ports of its device. -/
theorem entry_portStart {i : ℕ} (hi : i < c.NPORTS) : (portStart c).entry i =
    if c.isStackPort i then (⟨false, 0, fun _ => false, false⟩, fun _ => none)
    else (⟨false, 0, c.allPortsBmp (c.ldev i), false⟩, fun _ =>
      some (c.allPortsBmp (c.ldev i))) := by
  have h := sweep_at (n := c.NPORTS) (s := init) entry
    (fun i e => if c.isStackPort i then e
      else writeEntry ({ e.1 with
        iso_bmp := c.allPortsBmp (c.ldev i), iso_bmp_changed := true }, e.2)) i
    (f := portStartRound c) fun s j _ => by
      unfold portStartRound
      by_cases hj : c.isStackPort j
      · rw [if_pos hj]
        by_cases hij : i = j
        · subst hij
          rw [if_pos rfl, if_pos hj]
        · rw [if_neg hij]
      · rw [if_neg hj]
        simp only
        rw [entry_portSetIsoBmp, entry_port]
        by_cases hij : i = j
        · subst hij
          rw [if_pos rfl, if_pos rfl, if_pos rfl, if_neg hj]
          rfl
        · rw [if_neg hij, if_neg hij, if_neg hij]
  rw [portStart, h, if_pos hi]
  split_ifs
  · rfl
  · rfl

/-! ### A call -/

/-- What a call on the port `t` that writes for the pairs `W` leaves, `s₀` having the new
settings. -/
structure Updated (c : IsoConf) (t : ℕ) (W : ℕ → Prop) (s s₀ s' : Iso) : Prop where
  settings : SameSettings s₀ s'
  row : ∀ b v, ((s.ports t).iso_bmp b = v ∨ ∃ i < c.NPORTS, W i ∧ c.lport i = b) →
    (∀ i < c.NPORTS, W i → c.lport i = b → decide (¬s₀.blocked t i) = v ∨
      ∃ j < c.NPORTS, i < j ∧ W j ∧ c.lport j = b ∧ decide (¬s₀.blocked t j) = v) →
    (s'.ports t).iso_bmp b = v
  other : ∀ o < c.NPORTS, o ≠ t → W o → (s'.ports o).iso_bmp =
    update (s.ports o).iso_bmp (c.lport t) (decide ¬s₀.blocked t o)
  other_none : ∀ o < c.NPORTS, o ≠ t → ¬W o → (s'.ports o).iso_bmp = (s.ports o).iso_bmp
  clean : ∀ i < c.NPORTS, (s'.ports i).iso_bmp_changed = false
  written : ∀ i < c.NPORTS, ∀ traffic, s'.hw traffic i = some (s'.ports i).iso_bmp ∨
    s'.hw traffic i = s.hw traffic i ∧ (s'.ports i).iso_bmp = (s.ports i).iso_bmp
  unwritten : ∀ o < c.NPORTS, o ≠ t → ¬W o → ∀ traffic, s'.hw traffic o = s.hw traffic o

/-- The loop, the new setting `f` and the writes. -/
theorem Linked.updated {W : ℕ → Prop} [DecidablePred W] {f : IsoPort → IsoPort} {s₁ : Iso}
    (hl : Linked c t (pairBits (s.port t f) t W) s s₁) (ht : t < c.NPORTS)
    (hclean : ∀ i < c.NPORTS, (s.ports i).iso_bmp_changed = false)
    (hf : ∀ p, (f p).iso_bmp = p.iso_bmp ∧ (f p).iso_bmp_changed = p.iso_bmp_changed)
    (hset : ∀ p q : IsoPort, p.c_protected = q.c_protected → p.c_prot_comm = q.c_prot_comm →
      (f p).c_protected = (f q).c_protected ∧ (f p).c_prot_comm = (f q).c_prot_comm) :
    Updated c t W s (s.port t f) ((s₁.port t f).portUpdateIso c) := by
  have hpair : ∀ {i}, W i → pairBits (s.port t f) t W i =
      some (decide ¬(s.port t f).blocked t i) := fun {i} hi => if_pos hi
  have hpair_none : ∀ {i}, ¬W i → pairBits (s.port t f) t W i = none := fun {i} hi => if_neg hi
  have hrow : (((s₁.port t f).portUpdateIso c).ports t).iso_bmp = (s₁.ports t).iso_bmp := by
    rw [portUpdateIso_ports ht, port_self]
    exact (hf _).1
  have hother : ∀ o < c.NPORTS, o ≠ t →
      (((s₁.port t f).portUpdateIso c).ports o).iso_bmp = (s₁.ports o).iso_bmp := fun o ho hne => by
    rw [portUpdateIso_ports ho, port_of_ne hne]
  -- field by field; the bits come from the loop, the writes from the update
  refine ⟨fun i => ?_, fun b v hstart hlast => ?_, fun o ho hne hW => ?_, fun o ho hne hW => ?_,
    fun i hi => ?_, fun i hi traffic => ?_, fun o ho hne hW traffic => ?_⟩
  · rw [(portUpdateIso_settings i).1, (portUpdateIso_settings i).2]
    by_cases hi : i = t
    · subst hi
      simp only [port_self]
      exact hset _ _ (hl.settings i).1 (hl.settings i).2
    · simp only [port_of_ne hi]
      exact hl.settings i
  · rw [hrow]
    refine hl.row b v (hstart.imp_right ?_) fun i hi v' hv' hb => ?_
    · rintro ⟨i, hi, hW, hb⟩
      exact ⟨i, hi, by rw [hpair hW, Option.isSome_some], hb⟩
    · by_cases hW : W i
      · rw [hpair hW, Option.some_inj] at hv'
        obtain h | ⟨j, hj, hij, hWj, hbj, hvj⟩ := hlast i hi hW hb
        · exact Or.inl (hv'.symm.trans h)
        · exact Or.inr ⟨j, hj, hij, by rw [hpair hWj, hvj], hbj⟩
      · rw [hpair_none hW] at hv'
        exact absurd hv'.symm (Option.some_ne_none _)
  · rw [hother o ho hne, hl.other o ho hne _ (hpair hW)]
  · rw [hother o ho hne, hl.other_none o ho hne (hpair_none hW)]
  · rw [portUpdateIso_ports hi]
  · -- a marked bitmap is written now, any other was written before
    rw [portUpdateIso_hw hi]
    by_cases hch : ((s₁.port t f).ports i).iso_bmp_changed
    · left
      rw [if_pos hch, portUpdateIso_ports hi]
    · -- not marked: the bitmap is the one of before
      right
      rw [if_neg hch, port_hw, hl.hw]
      refine ⟨rfl, ?_⟩
      by_cases hit : i = t
      · subst hit
        rw [port_self, (hf _).2] at hch
        rw [hrow]
        obtain h | h := hl.marked
        · exact absurd h hch
        · rw [h]
      · rw [hother i hi hit]
        rw [port_of_ne hit] at hch
        by_cases hW : W i
        · rw [hl.other i hi hit _ (hpair hW)] at hch
          exact absurd rfl hch
        · rw [hl.other_none i hi hit (hpair_none hW)]
  · have hports := hl.other_none o ho hne (hpair_none hW)
    rw [portUpdateIso_hw ho, port_of_ne hne, hports, hclean o ho, if_neg Bool.false_ne_true,
      port_hw, hl.hw]

/-! ### Isolation -/

/-- What the bitmaps and the hardware are at all times. -/
structure Inv (c : IsoConf) (s : Iso) : Prop where
  stack_unprotected : ∀ i < c.NPORTS, c.isStackPort i → (s.ports i).c_protected = false
  clean : ∀ i < c.NPORTS, (s.ports i).iso_bmp_changed = false
  front_written : ∀ t, c.Front t → ∀ traffic, s.hw traffic t = some (s.ports t).iso_bmp
  stack_written : ∀ o < c.NPORTS, c.isStackPort o → ∀ traffic, s.hw traffic o = none ∨
    s.hw traffic o = some (s.ports o).iso_bmp ∧
      ∀ p, c.Front p → c.ldev p = c.ldev o → (s.ports o).iso_bmp (c.lport p) = true
  bit : ∀ t, c.Front t → ∀ o < c.NPORTS, o ≠ t → c.ldev o = c.ldev t →
    (s.ports t).iso_bmp (c.lport o) = decide (¬s.blocked t o)
  ic : ∀ t, c.Front t → ∀ p ∈ c.ic_ports (c.ldev t), (s.ports t).iso_bmp p = true
  cpu : ∀ t, c.Front t → (s.ports t).iso_bmp CPSS_CPU_PORT_NUM_CNS = false

/-- The bit that the call writes in the bitmap of `t` for the port `o` of another device is also the
bit of a port `o'` of the own device: it has the same value, or that for `o'` is written later. -/
def OwnOk (c : IsoConf) (s₀ : Iso) (t : ℕ) (W : ℕ → Prop) (o : ℕ) : Prop :=
  (∀ o' < c.NPORTS, o' ≠ t → c.ldev o' = c.ldev t → c.lport o' = c.lport o →
    (s₀.blocked t o ↔ s₀.blocked t o') ∨ o < o' ∧ W o') ∧
  (c.lport o ∈ c.ic_ports (c.ldev t) → ¬s₀.blocked t o)

/-- The bit that the call writes for `t` in the bitmap of the port `o` of another device has the
value that it has for the port of that device. -/
def OtherOk (c : IsoConf) (s₀ : Iso) (t o : ℕ) : Prop :=
  (∀ t' < c.NPORTS, t' ≠ o → c.ldev t' = c.ldev o → c.lport t' = c.lport t →
    (s₀.blocked o t ↔ s₀.blocked o t')) ∧
  (c.lport t ∈ c.ic_ports (c.ldev o) → ¬s₀.blocked o t)

/-- No bit that the call writes for a pair of ports on two devices is wrong for a port of the device
of the bitmap. -/
def CrossOk (c : IsoConf) (s₀ : Iso) (t : ℕ) (W : ℕ → Prop) : Prop :=
  ∀ o < c.NPORTS, c.ldev o ≠ c.ldev t → W o →
    OwnOk c s₀ t W o ∧ (¬c.isStackPort o → OtherOk c s₀ t o)

/-- The bitmap of the port `o` with the bit of `t` has all ports of the front panel. -/
def Covers (c : IsoConf) (s : Iso) (t o : ℕ) : Prop :=
  ∀ p < c.NPORTS, ¬c.isStackPort p → c.ldev p = c.ldev o →
    (s.ports o).iso_bmp (c.lport p) = true ∨ c.lport p = c.lport t

/-- The bitmaps that the call writes for stack ports have all ports of the front panel. -/
def StackOk (c : IsoConf) (s : Iso) (t : ℕ) : Prop :=
  ∀ o < c.NPORTS, c.isStackPort o → Covers c s t o

/-- What a call has to find. -/
def Ok (c : IsoConf) (s : Iso) : IsoOp → Prop
  | .setProtected pid protect => portValid c pid → ¬c.isStackPort (pid - 1) →
      (s.ports (pid - 1)).c_protected ≠ decide (protect ≠ 0) →
        StackOk c s (pid - 1) ∧
          CrossOk c (s.withProt (pid - 1) (decide (protect ≠ 0))) (pid - 1) (ProtPairs (pid - 1))
  | .setComm pid comm => portValid c pid → ¬c.isStackPort (pid - 1) →
      (s.ports (pid - 1)).c_prot_comm ≠ comm % 256 → (s.ports (pid - 1)).c_protected = true →
        CrossOk c (s.withComm (pid - 1) (comm % 256)) (pid - 1)
          (CommPairs s (pid - 1) (comm % 256))

section

variable {W : ℕ → Prop} {s₀ : Iso}

/-- The bits of the port itself. -/
theorem Updated.own_bit (hu : Updated c t W s s₀ s') (hi : Inv c s) (ht : c.Front t)
    (hnot : ∀ i < c.NPORTS, i ≠ t → ¬W i → (s₀.blocked t i ↔ s.blocked t i))
    (hcross : CrossOk c s₀ t W) {o : ℕ} (ho : o < c.NPORTS) (hne : o ≠ t)
    (hdev : c.ldev o = c.ldev t) : (s'.ports t).iso_bmp (c.lport o) = decide (¬s₀.blocked t o) := by
  refine hu.row _ _ ?_ fun i hlt hW hb => ?_
  · by_cases hW : W o
    · exact Or.inr ⟨o, ho, hW, rfl⟩
    · left
      rw [hi.bit t ht o ho hne hdev, Bool.eq_iff_iff, decide_eq_true_eq, decide_eq_true_eq,
        hnot o ho hne hW]
  · by_cases hd : c.ldev i = c.ldev t
    · obtain rfl := c.inj i hlt o ho (hd.trans hdev.symm) hb
      exact Or.inl rfl
    · obtain h | ⟨hlt', hW'⟩ := (hcross i hlt hd hW).1.1 o ho hne hdev hb.symm
      · left
        rw [Bool.eq_iff_iff, decide_eq_true_eq, decide_eq_true_eq, h]
      · exact Or.inr ⟨o, ho, hlt', hW', rfl, rfl⟩

/-- The bits of another port of the front panel. -/
theorem Updated.other_bit (hu : Updated c t W s s₀ s') (hi : Inv c s) (ht : c.Front t)
    (hs₀ : ∀ i, i ≠ t → s₀.ports i = s.ports i)
    (hnot : ∀ i < c.NPORTS, i ≠ t → ¬W i → (s₀.blocked t i ↔ s.blocked t i))
    (hcross : CrossOk c s₀ t W) {o : ℕ} (ho : c.Front o) (hne : o ≠ t) {p : ℕ} (hp : p < c.NPORTS)
    (hpo : p ≠ o) (hdev : c.ldev p = c.ldev o) :
    (s'.ports o).iso_bmp (c.lport p) = decide (¬s₀.blocked o p) := by
  have hsame : p ≠ t → (s₀.blocked o p ↔ s.blocked o p) := fun hpt => by
    unfold blocked
    rw [hs₀ o hne, hs₀ p hpt]
  have hbit := hi.bit o ho p hp hpo hdev
  by_cases hW : W o
  · rw [hu.other o ho.1 hne hW]
    by_cases hlp : c.lport p = c.lport t
    · rw [hlp, update_self, Bool.eq_iff_iff, decide_eq_true_eq, decide_eq_true_eq, blocked_comm]
      by_cases hd : c.ldev o = c.ldev t
      · obtain rfl := c.inj p hp t ht.1 (hdev.trans hd) hlp
        rfl
      · rw [((hcross o ho.1 hd hW).2 ho.2).1 p hp hpo hdev hlp]
    · rw [update_of_ne hlp, hbit, Bool.eq_iff_iff, decide_eq_true_eq, decide_eq_true_eq,
        hsame fun h => hlp (congrArg _ h)]
  · rw [hu.other_none o ho.1 hne hW, hbit, Bool.eq_iff_iff, decide_eq_true_eq, decide_eq_true_eq]
    by_cases hpt : p = t
    · subst hpt
      rw [blocked_comm, ← hnot o ho.1 hne hW, blocked_comm]
    · rw [hsame hpt]

/-- A bit that no port of the own device has keeps its value if no write changes it. -/
theorem Updated.kept_bit (hu : Updated c t W s s₀ s') (hWt : ∀ i, W i → i ≠ t) {i b : ℕ} {v : Bool}
    (hlt : i < c.NPORTS) (hv : (s.ports i).iso_bmp b = v)
    (hown : i = t → ∀ o < c.NPORTS, W o → c.lport o = b → decide (¬s₀.blocked t o) = v)
    (hother : i ≠ t → W i → c.lport t = b → decide (¬s₀.blocked t i) = v) :
    (s'.ports i).iso_bmp b = v := by
  by_cases hit : i = t
  · subst hit
    exact hu.row b v (Or.inl hv) fun o ho hW hb => Or.inl (hown rfl o ho hW hb)
  · by_cases hW : W i
    · rw [hu.other i hlt hit hW]
      by_cases hb : b = c.lport t
      · rw [hb, update_self]
        exact hother hit hW hb.symm
      · rw [update_of_ne hb, hv]
    · rw [hu.other_none i hlt hit hW, hv]

/-- A call keeps the invariant. -/
theorem Updated.inv (hu : Updated c t W s s₀ s') (hi : Inv c s) (ht : c.Front t)
    (hWt : ∀ i, W i → i ≠ t) (hs₀ : ∀ i, i ≠ t → s₀.ports i = s.ports i)
    (hnot : ∀ i < c.NPORTS, i ≠ t → ¬W i → (s₀.blocked t i ↔ s.blocked t i))
    (hcross : CrossOk c s₀ t W) (hstack : ∀ o < c.NPORTS, c.isStackPort o → W o → StackOk c s t) :
    Inv c s' := by
  have hne_stack : ∀ {o}, c.isStackPort o → o ≠ t := by
    rintro o ho rfl
    exact ht.2 ho
  have hunprot : ∀ i < c.NPORTS, c.isStackPort i → (s₀.ports i).c_protected = false :=
    fun i hlt hst => by
      rw [hs₀ i (hne_stack hst)]
      exact hi.stack_unprotected i hlt hst
  have hfree : ∀ o < c.NPORTS, c.isStackPort o → ∀ t', ¬s₀.blocked t' o := fun o ho hst t' h =>
    Bool.false_ne_true ((hunprot o ho hst).symm.trans h.1.2)
  -- field by field of the invariant
  refine ⟨fun i hlt hst => ?_, hu.clean, fun i hfront traffic => ?_, fun o ho hst traffic => ?_,
    fun i hfront o ho hne hdev => ?_, fun i hfront p hp => ?_, fun i hfront => ?_⟩
  · rw [(hu.settings i).1]
    exact hunprot i hlt hst
  · obtain h | ⟨hhw, hiso⟩ := hu.written i hfront.1 traffic
    · exact h
    · rw [hhw, hiso]
      exact hi.front_written i hfront traffic
  · -- the bitmap of a stack port: left alone, or the bit of `t` is set
    have hne := hne_stack hst
    by_cases hW : W o
    · have hfull : ∀ p, c.Front p → c.ldev p = c.ldev o →
          (s'.ports o).iso_bmp (c.lport p) = true := fun p hp hdev => by
        rw [hu.other o ho hne hW]
        by_cases hlp : c.lport p = c.lport t
        · rw [hlp, update_self]
          exact decide_eq_true (hfree o ho hst t)
        · rw [update_of_ne hlp]
          exact (hstack o ho hst hW o ho hst p hp.1 hp.2 hdev).resolve_right hlp
      obtain h | ⟨hhw, hiso⟩ := hu.written o ho traffic
      · exact Or.inr ⟨h, hfull⟩
      · rw [hhw, hiso]
        exact hi.stack_written o ho hst traffic
    · rw [hu.unwritten o ho hne hW, hu.other_none o ho hne hW]
      exact hi.stack_written o ho hst traffic
  · -- the bit for a port is that of `t`, of a port linked with `t`, or untouched
    have hb : decide (¬s'.blocked i o) = decide (¬s₀.blocked i o) := by
      rw [Bool.eq_iff_iff, decide_eq_true_eq, decide_eq_true_eq, blocked_congr hu.settings]
    rw [hb]
    by_cases hit : i = t
    · subst hit
      exact hu.own_bit hi ht hnot hcross ho hne hdev
    · exact hu.other_bit hi ht hs₀ hnot hcross hfront hit ho hne hdev
  · -- ports between the devices stay reachable
    refine hu.kept_bit hWt hfront.1 (hi.ic i hfront p hp) ?_ ?_
    · rintro rfl o ho hW rfl
      have hd : c.ldev o ≠ c.ldev i := fun hd => c.not_ic o ho (hd ▸ hp)
      exact decide_eq_true ((hcross o ho hd hW).1.2 hp)
    · rintro hit hW rfl
      have hd : c.ldev i ≠ c.ldev t := fun hd => c.not_ic t ht.1 (hd ▸ hp)
      refine decide_eq_true fun h => ((hcross i hfront.1 hd hW).2 hfront.2).2 hp ?_
      exact blocked_comm.mp h
  · -- so does the port of the CPU
    refine hu.kept_bit hWt hfront.1 (hi.cpu i hfront) ?_ ?_
    · rintro - o ho - hb
      exact absurd hb (c.not_cpu o ho)
    · rintro - - hb
      exact absurd hb (c.not_cpu t ht.1)

end

/-- **Step.** `port_set_protected` keeps bitmaps and hardware right. -/
theorem setProtected_inv (hi : Inv c s) {pid protect : ℕ}
    (hok : Ok c s (.setProtected pid protect)) :
    Inv c (s.portSetProtected c pid protect).2 := by
  unfold portSetProtected
  by_cases hv : portValid c pid
  · by_cases hst : c.isStackPort (pid - 1)
    · rw [if_neg (not_not.mpr hv), if_pos hst]
      exact hi
    · have ht : c.Front (pid - 1) := ⟨Nat.lt_of_lt_of_le (Nat.sub_lt hv.1 Nat.one_pos) hv.2, hst⟩
      rw [if_neg (not_not.mpr hv), if_neg hst]
      unfold setProt
      by_cases hsame : (s.ports (pid - 1)).c_protected = decide (protect ≠ 0)
      · rw [if_pos hsame]
        exact hi
      · rw [if_neg hsame]
        obtain ⟨hstack, hcross⟩ := hok hv hst hsame
        have hl : Linked c (pid - 1) (pairBits (s.withProt (pid - 1) (decide (protect ≠ 0)))
            (pid - 1) (ProtPairs (pid - 1))) s
            (sweep (setProtRound c (pid - 1) (decide (protect ≠ 0))) c.NPORTS s) := by
          rw [setProt_sweep]
          exact linked_sweep (if_neg fun h => h rfl)
        have hu := hl.updated ht.1 hi.clean (fun p => ⟨rfl, rfl⟩) fun p q _ h => ⟨rfl, h⟩
        exact hu.inv hi ht (fun i hW => hW) (fun i hne => port_of_ne hne _)
          (fun i _ hne hW => absurd hne hW) hcross fun o _ _ _ => hstack
  · rw [if_pos hv]
    exact hi

/-- A change of the community of an unprotected port: no bit is written. -/
theorem updated_withComm (hi : Inv c s) (comm : ℕ) :
    Updated c t (fun _ => False) s (s.withComm t comm) (s.withComm t comm) := by
  have hiso : ∀ i, ((s.withComm t comm).ports i).iso_bmp = (s.ports i).iso_bmp ∧
      ((s.withComm t comm).ports i).iso_bmp_changed = (s.ports i).iso_bmp_changed := fun i => by
    unfold withComm
    by_cases hit : i = t
    · subst hit
      rw [port_self]
      exact ⟨rfl, rfl⟩
    · rw [port_of_ne hit]
      exact ⟨rfl, rfl⟩
  refine ⟨fun i => ⟨rfl, rfl⟩, fun b v hstart _ => ?_, fun o _ _ => False.elim,
    fun o _ _ _ => (hiso o).1,
    fun i hlt => ?_, fun i _ traffic => Or.inr ⟨rfl, (hiso i).1⟩, fun o _ _ _ traffic => rfl⟩
  · obtain h | ⟨i, -, hF, -⟩ := hstart
    · rw [(hiso t).1, h]
    · exact hF.elim
  · rw [(hiso i).2]
    exact hi.clean i hlt

/-- The pairs that a change of the community does not write for are blocked as before. -/
theorem blocked_withComm {comm : ℕ} (hprot : (s.ports t).c_protected = true) {i : ℕ} (hne : i ≠ t)
    (hW : ¬CommPairs s t comm i) : (s.withComm t comm).blocked t i ↔ s.blocked t i := by
  unfold blocked withComm
  rw [port_self, port_of_ne hne]
  refine and_congr_right fun hp => not_congr ?_
  constructor
  · rintro ⟨h0, heq⟩
    exact absurd ⟨hne, ⟨hprot, hp.2⟩, heq ▸ h0, Or.inr heq.symm⟩ hW
  · rintro ⟨h0, heq⟩
    exact absurd ⟨hne, ⟨hprot, hp.2⟩, heq ▸ h0, Or.inl heq.symm⟩ hW

/-- **Step.** `port_set_comm` keeps bitmaps and hardware right. -/
theorem setComm_inv (hi : Inv c s) {pid comm : ℕ} (hok : Ok c s (.setComm pid comm)) :
    Inv c (s.portSetComm c pid comm).2 := by
  unfold portSetComm
  by_cases hv : portValid c pid
  · by_cases hst : c.isStackPort (pid - 1)
    · rw [if_neg (not_not.mpr hv), if_pos hst]
      exact hi
    · have ht : c.Front (pid - 1) := ⟨Nat.lt_of_lt_of_le (Nat.sub_lt hv.1 Nat.one_pos) hv.2, hst⟩
      rw [if_neg (not_not.mpr hv), if_neg hst]
      unfold setComm
      by_cases hsame : (s.ports (pid - 1)).c_prot_comm = comm % 256
      · rw [if_pos hsame]
        exact hi
      · rw [if_neg hsame]
        simp only [port_self]
        by_cases hprot : (s.ports (pid - 1)).c_protected = true
        · have hl : Linked c (pid - 1) (pairBits (s.withComm (pid - 1) (comm % 256))
              (pid - 1) (CommPairs s (pid - 1) (comm % 256))) s
              (sweep (setCommRound c (pid - 1) (comm % 256)) c.NPORTS s) := by
            rw [setComm_sweep hsame hprot]
            exact linked_sweep (if_neg fun h => h.1 rfl)
          have hu := hl.updated ht.1 hi.clean (fun p => ⟨rfl, rfl⟩) fun p q h _ => ⟨h, rfl⟩
          rw [if_pos hprot, (hl.settings (pid - 1)).1, hprot, if_pos rfl]
          refine hu.inv hi ht (fun i hW => hW.1) (fun i hne => port_of_ne hne _)
            (fun i _ hne hW => blocked_withComm hprot hne hW) (hok hv hst hsame hprot)
            fun o ho hso hW => ?_
          exact absurd ((hi.stack_unprotected o ho hso).symm.trans hW.2.1.2) Bool.false_ne_true
        · rw [if_neg hprot, if_neg hprot]
          refine (updated_withComm hi _).inv hi ht (fun _ => False.elim)
            (fun i hne => port_of_ne hne _) (fun i _ hne _ => ?_) (fun _ _ _ => False.elim)
            fun _ _ _ => False.elim
          unfold blocked withComm
          rw [port_self]
          exact ⟨fun h => absurd h.1.1 hprot, fun h => absurd h.1.1 hprot⟩
  · rw [if_pos hv]
    exact hi

/-- The bitmaps are right after the start. -/
theorem inv_portStart : Inv c (portStart c) := by
  have hstack : ∀ i < c.NPORTS, c.isStackPort i → (portStart c).entry i =
      (⟨false, 0, fun _ => false, false⟩, fun _ => none) := fun i hlt hst => by
    rw [entry_portStart hlt, if_pos hst]
  have hfront : ∀ i, c.Front i →
      (portStart c).entry i = (⟨false, 0, c.allPortsBmp (c.ldev i), false⟩,
      fun _ => some (c.allPortsBmp (c.ldev i))) := fun i hi => by
    rw [entry_portStart hi.1, if_neg hi.2]
  have hports : ∀ {i e}, (portStart c).entry i = e → (portStart c).ports i = e.1 := fun h =>
    congrArg Prod.fst h
  have hhw : ∀ {i e}, (portStart c).entry i = e →
      ∀ traffic, (portStart c).hw traffic i = e.2 traffic :=
    fun h traffic => congrFun (congrArg Prod.snd h) traffic
  have hnone : ∀ i < c.NPORTS, ((portStart c).ports i).c_protected = false ∧
      ((portStart c).ports i).iso_bmp_changed = false := fun i hlt => by
    by_cases hst : c.isStackPort i
    · rw [hports (hstack i hlt hst)]
      exact ⟨rfl, rfl⟩
    · rw [hports (hfront i ⟨hlt, hst⟩)]
      exact ⟨rfl, rfl⟩
  refine ⟨fun i hlt _ => (hnone i hlt).1, fun i hlt => (hnone i hlt).2, fun t ht traffic => ?_,
    fun o ho hst traffic => ?_, fun t ht o ho hne hdev => ?_, fun t ht p hp => ?_, fun t ht => ?_⟩
  · rw [hhw (hfront t ht), hports (hfront t ht)]
  · left
    rw [hhw (hstack o ho hst)]
  · rw [hports (hfront t ht), ← hdev]
    refine (c.allPortsBmp_lport ho).trans (decide_eq_true ?_).symm
    exact fun h => Bool.false_ne_true ((hnone t ht.1).1.symm.trans h.1.1)
  · rw [hports (hfront t ht)]
    exact c.allPortsBmp_ic hp
  · rw [hports (hfront t ht)]
    exact c.allPortsBmp_cpu ht.1

/-- The hardware keeps apart what is to be kept apart, and nothing else. -/
structure Isolated (c : IsoConf) (s : Iso) : Prop where
  cleared_iff : ∀ t, c.Front t → ∀ o, c.Front o → o ≠ t → c.ldev o = c.ldev t → ∀ traffic,
    ∃ bmp, s.hw traffic t = some bmp ∧ (bmp (c.lport o) = false ↔
      ((s.ports t).c_protected = true ∧ (s.ports o).c_protected = true) ∧
        ¬((s.ports t).c_prot_comm ≠ 0 ∧ (s.ports t).c_prot_comm = (s.ports o).c_prot_comm))
  symmetric : ∀ t, c.Front t → ∀ o, c.Front o → o ≠ t → c.ldev o = c.ldev t → ∀ traffic,
    (s.hw traffic t).map (· (c.lport o)) = (s.hw traffic o).map (· (c.lport t))
  /-- The bits of stack ports, of ports between the devices and of the CPU. -/
  unchanged : ∀ t, c.Front t → ∀ p,
    (p = CPSS_CPU_PORT_NUM_CNS ∨ p ∈ c.ic_ports (c.ldev t) ∨
      ∃ o < c.NPORTS, c.isStackPort o ∧ c.ldev o = c.ldev t ∧ c.lport o = p) →
    ∀ traffic, (s.hw traffic t).map (· p) = ((portStart c).hw traffic t).map (· p)
  stack : ∀ o < c.NPORTS, c.isStackPort o → ∀ traffic, ∀ bmp, s.hw traffic o = some bmp →
    ∀ p, c.Front p → c.ldev p = c.ldev o → bmp (c.lport p) = true

/-- Where the invariant holds the hardware isolates as configured. -/
theorem Inv.isolated (hi : Inv c s) : Isolated c s := by
  have hbit : ∀ t, c.Front t → ∀ o, c.Front o → o ≠ t → c.ldev o = c.ldev t →
      (s.ports t).iso_bmp (c.lport o) = decide (¬s.blocked t o) := fun t ht o ho hne hdev =>
    hi.bit t ht o ho.1 hne hdev
  refine ⟨fun t ht o ho hne hdev traffic => ⟨_, hi.front_written t ht traffic, ?_⟩,
    fun t ht o ho hne hdev traffic => ?_, fun t ht p hp traffic => ?_,
    fun o ho hst traffic bmp hbmp p hp hdev => ?_⟩
  · rw [hbit t ht o ho hne hdev, ← Bool.not_eq_true, decide_eq_true_eq]
    exact not_not
  · rw [hi.front_written t ht, hi.front_written o ho, Option.map_some, Option.map_some,
      hbit t ht o ho hne hdev, hbit o ho t ht hne.symm hdev.symm, Option.some_inj,
      Bool.eq_iff_iff, decide_eq_true_eq, decide_eq_true_eq, blocked_comm]
  · have hstart := inv_portStart (c := c)
    rw [hi.front_written t ht, hstart.front_written t ht, Option.map_some, Option.map_some,
      Option.some_inj]
    obtain rfl | hp | ⟨o, ho, hst, hdev, rfl⟩ := hp
    · rw [hi.cpu t ht, hstart.cpu t ht]
    · rw [hi.ic t ht p hp, hstart.ic t ht p hp]
    · -- a stack port is never protected
      have hne : o ≠ t := fun h => ht.2 (h ▸ hst)
      have hfree : ∀ {s : Iso}, Inv c s → decide (¬s.blocked t o) = true := fun hi =>
        decide_eq_true fun h =>
          Bool.false_ne_true ((hi.stack_unprotected o ho hst).symm.trans h.1.2)
      rw [hi.bit t ht o ho hne hdev, hstart.bit t ht o ho hne hdev, hfree hi, hfree hstart]
  · obtain h | ⟨h, hfull⟩ := hi.stack_written o ho hst traffic
    · rw [h] at hbmp
      exact absurd hbmp.symm (Option.some_ne_none _)
    · rw [h, Option.some_inj] at hbmp
      rw [← hbmp]
      exact hfull p hp hdev

/-- After any calls that the guard admits the hardware blocks exactly the pairs that are to be
blocked, leaves the other bits as they were, and cuts no stack port off. -/
theorem isolated_matrix (c : IsoConf) (hr : Guarded.Reach (step c) (Ok c) (portStart c) s) :
    Isolated c s := by
  refine (hr.invariant (Inv c) inv_portStart fun s op s' hi hok hs => ?_).isolated
  cases op with
  | setProtected pid protect =>
    rw [← Option.some_inj.mp hs]
    exact setProtected_inv hi hok
  | setComm pid comm =>
    rw [← Option.some_inj.mp hs]
    exact setComm_inv hi hok

/-! ### Runs -/

section

variable (s₀ : Iso) (W : ℕ → Prop) [DecidablePred W] (o : ℕ)

set_option synthInstance.maxSize 256 in
instance : Decidable (OwnOk c s₀ t W o) :=
  inferInstanceAs (Decidable ((∀ o' < c.NPORTS, _ → _ → _ → (_ ↔ _) ∨ _ ∧ _) ∧ (_ → ¬_)))

instance : Decidable (OtherOk c s₀ t o) :=
  inferInstanceAs (Decidable ((∀ t' < c.NPORTS, _ → _ → _ → (_ ↔ _)) ∧ (_ → ¬_)))

instance : Decidable (CrossOk c s₀ t W) :=
  inferInstanceAs (Decidable (∀ o < c.NPORTS, _ → _ → _ ∧ (¬_ → _)))

instance : Decidable (Covers c s t o) :=
  inferInstanceAs (Decidable (∀ p < c.NPORTS, _ → _ → _ ∨ _))

instance : Decidable (StackOk c s t) :=
  inferInstanceAs (Decidable (∀ o < c.NPORTS, _ → Covers c s t o))

end

instance (op : IsoOp) : Decidable (Ok c s op) :=
  match op with
  | .setProtected .. => inferInstanceAs (Decidable (_ → _ → _ → _ ∧ _))
  | .setComm .. => inferInstanceAs (Decidable (_ → _ → _ → _ → _))

/-- The variant `ARLAN_3424GE`. -/
def arlan3424GE (stack_id : ℕ) : IsoConf where
  NPORTS := 28
  ldev _ := 0
  lport i := if i < 24 then i else if i < 26 then i + 2 else i - 2
  stack_role i := if i = 26 then .PSR_PRIMARY else if i = 27 then .PSR_SECONDARY else .PSR_NONE
  ic_ports _ := []
  stack_id := stack_id
  inj i hi j hj _ h := by split_ifs at h <;> omega
  not_ic _ _ := List.not_mem_nil
  not_cpu i hi := by
    unfold CPSS_CPU_PORT_NUM_CNS
    split_ifs <;> omega
  ic_not_cpu _ _ := List.not_mem_nil

/-- Three protected ports of a unit without a stack, two of them in a community. -/
theorem isolated_matrix_three : ∃ s, Guarded.Reach (step (arlan3424GE 0)) (Ok (arlan3424GE 0))
    (portStart (arlan3424GE 0)) s ∧ Isolated (arlan3424GE 0) s ∧
      (s.ports 0).iso_bmp 1 = true ∧ (s.ports 0).iso_bmp 2 = false := by
  have hlast : (Guarded.run (step (arlan3424GE 0)) (Ok (arlan3424GE 0)) (portStart (arlan3424GE 0))
      [.setProtected 1 1, .setProtected 2 1, .setProtected 3 1, .setComm 1 5, .setComm 2 5]).map
        (fun s => ((s.ports 0).iso_bmp 1, (s.ports 0).iso_bmp 2)) = some (true, false) := by
    decide +kernel
  obtain ⟨s, hs, hlast⟩ := Option.map_eq_some_iff.mp hlast
  have hreach := Guarded.Reach.init.of_run hs
  exact ⟨s, hreach, isolated_matrix _ hreach, congrArg Prod.fst hlast, congrArg Prod.snd hlast⟩

/-- The protection of one port writes a bitmap for the stack ports that has this port only. -/
theorem not_isolated_matrix : ¬∀ (c : IsoConf) (s : Iso),
    Guarded.Reach (step c) (fun _ _ => True) (portStart c) s → Isolated c s := by
  intro h
  have hlast : (Guarded.run (step (arlan3424GE 1)) (fun _ _ => True) (portStart (arlan3424GE 1))
      [.setProtected 1 1]).map (fun s => (s.hw .L2 26).map (· 1)) = some (some false) := by
    decide +kernel
  obtain ⟨s, hs, hlast⟩ := Option.map_eq_some_iff.mp hlast
  obtain ⟨bmp, hbmp, hbit⟩ := Option.map_eq_some_iff.mp hlast
  have hstack := (h _ s (Guarded.Reach.init.of_run hs)).stack 26
      (by decide) (by decide) .L2 bmp hbmp
    1 (by decide) rfl
  exact Bool.false_ne_true (hbit.symm.trans hstack)

end Iso

end Presteramgr
