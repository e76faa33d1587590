import Presteramgr.Lib.Tally
import Presteramgr.Mac.Buckets

/-!
# Port security accounting

Each port counts the valid entries of MAC addresses that point to it. The counter is adjusted by
`psec_addr_check` when an entry is written, and by `psec_addr_del` when one is freed.

`psec_addr_check` returns a status that it has not assigned when an entry that points to no port
of the unit takes the slot of one that does. Unless that status happens to be `PAS_OK`, the
insertion is refused, after the old port's counter was decremented.

## Main definitions

* `PsecRun`: insertions, removals and flushes together with the configuration of port security;
* `PsecRun.Counted`: the counters are right;
* `PsecRun.Ok`: no status is returned unassigned.

## Main results

* `PsecRun.accounted`: then the counters are right and limits are kept;
* `PsecRun.not_accounted`: a trunk entry in the slot of a port's address makes a counter wrong.
-/

namespace Presteramgr

open Function (update update_self update_of_ne)

/-- The operations on the table and on port security. -/
inductive PsecOp
  | fdb (op : FdbOp)
  | setMaxAddrs (pid : ℕ) (max : ℤ)
  | setMode (pid : ℕ) (mode : PsecMode)
  | enable (pid : ℕ) (enable : Bool) (act : PsecAction) (trapInterval : ℕ)

namespace PsecRun

variable (c : FdbConf)

/-- A step of a run. -/
def step (f : Fdb) : PsecOp → Option Fdb
  | .fdb op => some (op.exec c f).1
  | .setMaxAddrs pid max => some { f with psec := (psecSetMaxAddrs c f.psec pid max).1 }
  | .setMode pid mode => some { f with psec := (psecSetMode c f.psec pid mode).1 }
  | .enable pid en act trap => some { f with psec := (psecEnable c f.psec pid en act trap).1 }

/-- The empty table, and ports that have not counted any address. -/
def init (psec : ℕ → Psec) : Fdb where
  slot := fun _ => .zero
  psec := fun p => { psec p with naddrs := 0 }

/-- The counter of each port is the number of valid entries of MAC addresses that point to it. -/
def Counted (f : Fdb) : Prop :=
  Tally.Exact (f.pointsTo c) fun p => (f.psec p).naddrs

/-- An entry that points to no port does not take the slot of one that does, unless the status that
is returned unassigned lets it pass. -/
def Ok (f : Fdb) : PsecOp → Prop
  | .fdb (.insert _ mo e _ _) => (∃ s, Fdb.Unassigned c f mo e s) → mo.st = .PAS_OK
  | _ => True

variable {c} {f f' : Fdb} {psec : ℕ → Psec} {op np : Option ℕ} {p : ℕ}

/-- The counters after an address is taken off a port. -/
theorem psecDel_naddrs (hop : ∀ q, op = some q → 0 < (psec q).naddrs) (p : ℕ) :
    ((psecDel psec op p).naddrs + if op = some p then 1 else 0) = (psec p).naddrs := by
  cases op with
  | none => simp [psecDel]
  | some q =>
    by_cases hq : q = p
    · subst hq
      have hpos := hop q rfl
      have hnot : ¬(psec q).naddrs - 1 < 0 := by omega
      simp [psecDel, Psec.addrDel, hnot]
    · simp [psecDel, update_of_ne (Ne.symm hq), hq]

/-- A port that a valid entry points to has counted it. -/
theorem Counted.pos (h : Counted c f) {s : FdbSlot} (hs : f.pointsTo c s = some p) :
    0 < (f.psec p).naddrs :=
  Tally.Exact.pos (n := fun p => (f.psec p).naddrs) h hs

/-- The same entries and counters. -/
theorem Counted.congr (h : Counted c f) (hme : ∀ s, (f'.slot s).me = (f.slot s).me)
    (hv : ∀ s, (f'.slot s).valid = (f.slot s).valid)
    (hn : ∀ p, (f'.psec p).naddrs = (f.psec p).naddrs) : Counted c f' := by
  have hpoints : Fdb.pointsTo c f' = Fdb.pointsTo c f := by
    funext s
    unfold Fdb.pointsTo
    rw [hme, hv]
  intro p
  rw [hpoints]
  exact (hn p).trans (h p)

/-- A slot with a valid entry is freed. -/
theorem Counted.freed (h : Counted c f) {s : FdbSlot} (hv : (f.slot s).valid = true)
    (hf : Fdb.Freed c f s f') : Counted c f' := by
  have hpoints : f'.pointsTo c = update (f.pointsTo c) s none := by
    funext t
    by_cases ht : t = s
    · subst ht
      rw [update_self, Fdb.pointsTo, hf.valid]
      rfl
    · rw [update_of_ne ht, Fdb.pointsTo, hf.other t ht]
      rfl
  have hs : f.pointsTo c s = (f.slot s).me.port c := if_pos hv
  have hpos : ∀ q, (f.slot s).me.port c = some q → 0 < (f.psec q).naddrs := fun q hq =>
    h.pos (hs.trans hq)
  unfold Counted
  rw [hpoints]
  refine Tally.Exact.update h s none fun p => ?_
  rw [hf.psec, psecAddrDel, hs, psecDel_naddrs hpos]
  simp

/-- When an entry passes the check, the counter of the port that the slot pointed to goes down and
that of the entry's port up, which stays within its limit. -/
theorem Counted.passed (h : Counted c f) {st : PsecAddrStatus} {s : FdbSlot} {e : MacEntry}
    (hpass : (psecAddrCheck c st f.psec (f.slot s) e false).2 = .PAS_OK) (p : ℕ) :
    (((psecAddrCheck c st f.psec (f.slot s) e false).1 p).naddrs +
      (if f.pointsTo c s = some p then 1 else 0) =
        (f.psec p).naddrs + if e.port c = some p then 1 else 0) ∧
    (e.port c = some p → f.pointsTo c s ≠ some p → (f.psec p).enabled = true →
      (f.psec p).naddrs < (f.psec p).maxAddrs) := by
  have hpos : ∀ q, f.pointsTo c s = some q → 0 < (f.psec q).naddrs := fun q hq => h.pos hq
  rcases psecAddrCheck_cases c st f.psec (f.slot s) e with
    ⟨heq, hc⟩ | ⟨q, -, -, -, hc⟩ | ⟨q, hq, hne, hlimit, hc⟩ | ⟨hnone, -, hc⟩
  · rw [hc, heq]
    exact ⟨rfl, fun hp hne => absurd hp hne⟩
  · exact nomatch hpass.symm.trans (congrArg Prod.snd hc)
  · -- the new port counts one more before the old one counts one less
    have hadd : ∀ q', (update f.psec q (f.psec q).addrAdd q').naddrs =
        (f.psec q').naddrs + if some q = some q' then 1 else 0 := by
      intro q'
      by_cases hqq : q' = q
      · subst hqq
        simp [Psec.addrAdd]
      · simp [update_of_ne hqq, Ne.symm hqq]
    have hpos' : ∀ q', f.pointsTo c s = some q' →
        0 < (update f.psec q (f.psec q).addrAdd q').naddrs := by
      intro q' hq'
      have := hpos q' hq'
      rw [hadd]
      split <;> omega
    rw [hc, hq]
    refine ⟨(psecDel_naddrs hpos' p).trans (hadd p), fun hp _ => ?_⟩
    obtain rfl := Option.some_inj.mp hp
    exact hlimit
  · rw [hc, hnone]
    refine ⟨(psecDel_naddrs hpos p).trans ?_, nofun⟩
    simp

/-- A slot that is written: the check has adjusted the counters. -/
theorem Counted.written (h : Counted c f) {m : Fdbman} {mo : Moment} {e : MacEntry} {secure : Bool}
    {b : FdbBucket} {i : Fin 4} {r : Fdb × Status} (hw : Fdb.Written c m f mo e secure b i r) :
    Counted c r.1 := by
  obtain ⟨slot, hkept, hslot⟩ := hw.slot
  have hpoints : r.1.pointsTo c = update (f.pointsTo c) (b, i) (e.port c) := by
    funext t
    unfold Fdb.pointsTo
    rw [hslot]
    by_cases ht : t = (b, i)
    · subst ht
      rw [update_self, update_self]
      rfl
    · rw [update_of_ne ht, update_of_ne ht, hkept.valid, hkept.me]
  unfold Counted
  rw [hpoints]
  refine Tally.Exact.update h (b, i) (e.port c) fun p => ?_
  rw [hw.psec]
  exact (h.passed hw.passed p).1

/-- An insertion keeps the counters right. -/
theorem Counted.insert (h : Counted c f) {m : Fdbman} {mo : Moment} {e : MacEntry}
    {secure fake : Bool} (hok : Ok c f (.fdb (.insert m mo e secure fake))) :
    Counted c (f.insert c m mo e secure fake).1 := by
  rcases Fdb.insert_cases c m f mo e secure fake with hr | ⟨-, b, i, hw⟩
  · rcases hr.psec with heq | ⟨s, -, hst, hU, -⟩
    · refine h.congr hr.kept.me hr.kept.valid fun p => ?_
      rw [heq]
    · exact absurd (hok ⟨s, hU⟩) hst
  · exact h.written hw

/-- A removal keeps the counters right. -/
theorem Counted.remove (h : Counted c f) (m : Fdbman) (k : MacKey) (sid : ℕ) :
    Counted c (f.remove c m k sid).1 := by
  rcases Fdb.remove_cases c m f k sid with
    ⟨heq, -, -⟩ | ⟨b, i, -, ht, ⟨-, heq⟩ | ⟨-, -, hfree⟩⟩
  · rwa [heq]
  · rw [heq]
    exact h.congr (fun _ => Fdb.setAging_me _) (fun _ => Fdb.setAging_valid _) fun _ => rfl
  · exact h.freed ht.1 hfree

/-- Freeing the slots that match keeps the counters right. -/
theorem Counted.flushSlots (h : Counted c f) {hit : FdbEntry → Bool}
    (hvalid : ∀ s, hit s = true → s.valid = true) (ss : List FdbSlot) :
    Counted c (Fdb.flushSlots c hit ss f) := by
  induction ss generalizing f with
  | nil => exact h
  | cons s ss ih =>
    rw [Fdb.flushSlots]
    split
    · rename_i hs
      exact ih (h.freed (hvalid _ hs) Fdb.freed_free)
    · exact ih h

/-- The counters are never negative, so `psec_after_flush` has nothing to do. -/
theorem Counted.psecAfterFlush (h : Counted c f) : Counted c (f.psecAfterFlush c) := by
  refine h.congr (fun _ => rfl) (fun _ => rfl) fun p => ?_
  have hnonneg : 0 ≤ (f.psec p).naddrs := Tally.Exact.nonneg h p
  have hnot : ¬(1 ≤ p ∧ p ≤ c.nports ∧ (f.psec p).naddrs < 0) := by omega
  show (if 1 ≤ p ∧ p ≤ c.nports ∧ (f.psec p).naddrs < 0 then _ else f.psec p : Psec).naddrs = _
  rw [if_neg hnot]

/-- A flush keeps the counters right. -/
theorem Counted.flushBy (h : Counted c f) (vid : Option ℕ) (dst : DstInterface → Bool)
    (ds : Bool) : Counted c (f.flushBy c vid dst ds) :=
  (h.flushSlots (fun _ hs => Fdb.valid_of_flushHit hs) Fdb.slots).psecAfterFlush

/-- Every operation on the table keeps the counters right. -/
theorem Counted.exec (h : Counted c f) {op : FdbOp} (hok : Ok c f (.fdb op)) :
    Counted c (op.exec c f).1 := by
  cases op with
  | insert m mo e secure fake => exact h.insert hok
  | remove m k sid => exact h.remove m k sid
  | flush arg =>
    simp only [FdbOp.exec, Fdb.flush_eq]
    split
    · exact h
    · exact h.flushBy _ _ _
  | flushVif arg =>
    simp only [FdbOp.exec, Fdb.flushVif_eq]
    split
    · exact h
    · exact h.flushBy _ _ _

/-- A new configuration of a port keeps its counter. -/
theorem update_naddrs (psec : ℕ → Psec) (q : ℕ) (x : Psec) (hx : x.naddrs = (psec q).naddrs)
    (p : ℕ) : (update psec q x p).naddrs = (psec p).naddrs := by
  by_cases hp : p = q
  · subst hp
    rw [update_self, hx]
  · rw [update_of_ne hp]

theorem psecSetMaxAddrs_naddrs (psec : ℕ → Psec) (pid : ℕ) (max : ℤ) (p : ℕ) :
    ((psecSetMaxAddrs c psec pid max).1 p).naddrs = (psec p).naddrs := by
  unfold psecSetMaxAddrs
  split
  · rfl
  · split
    · rfl
    · split
      · rfl
      · refine update_naddrs psec _ _ ?_ p
        rfl

theorem psecSetMode_naddrs (psec : ℕ → Psec) (pid : ℕ) (mode : PsecMode) (p : ℕ) :
    ((psecSetMode c psec pid mode).1 p).naddrs = (psec p).naddrs := by
  unfold psecSetMode
  split
  · rfl
  · split
    · rfl
    · refine update_naddrs psec _ _ ?_ p
      rfl

theorem psecEnable_naddrs (psec : ℕ → Psec) (pid : ℕ) (en : Bool) (act : PsecAction) (trap : ℕ)
    (p : ℕ) : ((psecEnable c psec pid en act trap).1 p).naddrs = (psec p).naddrs := by
  unfold psecEnable
  split
  · rfl
  · dsimp only
    generalize (if trap = 0 then 30 else trap) = interval
    split
    · rfl
    · refine update_naddrs psec _ _ ?_ p
      rfl

/-- Every step keeps the counters right. -/
theorem Counted.step (h : Counted c f) {op : PsecOp} (hok : Ok c f op)
    (hs : PsecRun.step c f op = some f') : Counted c f' := by
  cases op with
  | fdb op =>
    obtain rfl := Option.some_inj.mp hs
    exact h.exec hok
  | setMaxAddrs pid max =>
    obtain rfl := Option.some_inj.mp hs
    exact h.congr (fun _ => rfl) (fun _ => rfl) (psecSetMaxAddrs_naddrs _ pid max)
  | setMode pid mode =>
    obtain rfl := Option.some_inj.mp hs
    exact h.congr (fun _ => rfl) (fun _ => rfl) (psecSetMode_naddrs _ pid mode)
  | enable pid en act trap =>
    obtain rfl := Option.some_inj.mp hs
    exact h.congr (fun _ => rfl) (fun _ => rfl) (psecEnable_naddrs _ pid en act trap)

/-- At the start no slot is valid and nothing is counted. -/
theorem counted_init (psec : ℕ → Psec) : Counted c (init psec) := by
  intro p
  have hpoints : (init psec).pointsTo c = fun _ => none := rfl
  rw [hpoints, Tally.tally_none]
  rfl

/-- An insertion does not raise the counter of a port over its limit. -/
theorem Counted.limit (h : Counted c f) {m : Fdbman} {mo : Moment} {e : MacEntry}
    {secure fake : Bool} (hok : Ok c f (.fdb (.insert m mo e secure fake))) (p : ℕ)
    (hen : (f.psec p).enabled = true) :
    ((f.insert c m mo e secure fake).1.psec p).naddrs ≤ (f.psec p).maxAddrs ∨
      ((f.insert c m mo e secure fake).1.psec p).naddrs ≤ (f.psec p).naddrs := by
  rcases Fdb.insert_cases c m f mo e secure fake with hr | ⟨-, b, i, hw⟩
  · rcases hr.psec with heq | ⟨s, -, hst, hU, -⟩
    · rw [heq]
      exact .inr le_rfl
    · exact absurd (hok ⟨s, hU⟩) hst
  · obtain ⟨hcount, hlimit⟩ := h.passed hw.passed p
    rw [hw.psec]
    by_cases hp : e.port c = some p ∧ f.pointsTo c (b, i) ≠ some p
    · have hlt := hlimit hp.1 hp.2 hen
      rw [if_pos hp.1, if_neg hp.2] at hcount
      exact .inl (by omega)
    · refine .inr ?_
      by_cases hold : f.pointsTo c (b, i) = some p
      · rw [if_pos hold] at hcount
        split at hcount <;> omega
      · have hnew : e.port c ≠ some p := fun hport => hp ⟨hport, hold⟩
        rw [if_neg hold, if_neg hnew] at hcount
        omega

/-- An entry that does not change which port its slot points to is not refused for port security,
and neither is one that points to no port. -/
theorem not_badState {m : Fdbman} {mo : Moment} {e : MacEntry} {secure fake : Bool}
    (hok : Ok c f (.fdb (.insert m mo e secure fake)))
    (hno : e.port c = none ∨ ∃ s, f.chosen c mo e = some s ∧ f.pointsTo c s = e.port c) :
    (f.insert c m mo e secure fake).2 ≠ .ST_BAD_STATE := by
  intro hbad
  rcases Fdb.insert_cases c m f mo e secure fake with hr | ⟨-, b, i, hw⟩
  · obtain ⟨s, hs, hmove, hst⟩ := hr.badState hbad
    rcases hno with hnone | ⟨s', hs', hsame⟩
    · obtain ⟨hne, hU⟩ := hst hnone
      exact hne (hok ⟨s, hU⟩)
    · obtain rfl := Option.some_inj.mp (hs.symm.trans hs')
      exact hmove hsame
  · exact nomatch hw.status.symm.trans hbad

/-- While no status is returned unassigned, every counter is the number of valid entries that point
to the port, an insertion keeps to the limit of each port on which port security is enabled, and
an entry that adds no address to a port is not refused for port security. -/
theorem accounted (c : FdbConf) (psec : ℕ → Psec) (f : Fdb)
    (hr : Guarded.Reach (step c) (Ok c) (init psec) f) :
    Counted c f ∧ ∀ m mo e secure fake, Ok c f (.fdb (.insert m mo e secure fake)) →
      (∀ p, (f.psec p).enabled = true →
        ((f.insert c m mo e secure fake).1.psec p).naddrs ≤ (f.psec p).maxAddrs ∨
          ((f.insert c m mo e secure fake).1.psec p).naddrs ≤ (f.psec p).naddrs) ∧
      (e.port c = none ∨ (∃ s, f.chosen c mo e = some s ∧ f.pointsTo c s = e.port c) →
        (f.insert c m mo e secure fake).2 ≠ .ST_BAD_STATE) := by
  have h : Counted c f :=
    hr.invariant (Counted c) (counted_init psec) fun _ _ _ h hok hs => h.step hok hs
  exact ⟨h, fun m mo e secure fake hok => ⟨h.limit hok, not_badState hok⟩⟩

/-! ### A trunk entry in place of a port's address -/

/-- The address of `FdbRun.trunkEntry` on port 1 of unit 1. -/
def portEntry : MacEntry where
  key := .macAddr 10 1
  isStatic := false
  userDefined := .FEP_DYN
  dst := { type := .PORT, devNum := 1, portNum := 0 }

/-- The address is learned on port 1. -/
def onPort : Fdb :=
  ((init FdbRun.psecOff).insert FdbRun.conf₁ FdbRun.master₁ ⟨200, .PAS_OK⟩ portEntry false false).1

/-- Port 1 has counted the address that it learned. -/
theorem accounted_onPort : Counted FdbRun.conf₁ onPort ∧ (onPort.psec 1).naddrs = 1 := by
  have h₀ : Guarded.Reach (step FdbRun.conf₁) (Ok FdbRun.conf₁) (init FdbRun.psecOff)
    (init FdbRun.psecOff) := .init
  have h₁ := h₀.snoc (.fdb (.insert FdbRun.master₁ ⟨200, .PAS_OK⟩ portEntry false false))
    (fun _ => rfl) rfl
  exact ⟨(accounted FdbRun.conf₁ FdbRun.psecOff onPort h₁).1, by decide⟩

/-- The address moves to a trunk ten seconds later, and the status left unassigned is not `PAS_OK`:
the insertion is refused, the entry still points to port 1, and port 1 counts nothing. -/
theorem not_accounted : ∃ f, Guarded.Reach (step FdbRun.conf₁) (fun _ _ => True)
    (init FdbRun.psecOff) f ∧ ¬Counted FdbRun.conf₁ f := by
  have h₀ : Guarded.Reach (step FdbRun.conf₁) (fun _ _ => True) (init FdbRun.psecOff)
    (init FdbRun.psecOff) := .init
  have h₁ := h₀.snoc (.fdb (.insert FdbRun.master₁ ⟨200, .PAS_OK⟩ portEntry false false))
    trivial rfl
  have h₂ := h₁.snoc
    (.fdb (.insert FdbRun.master₁ ⟨10200, .PAS_LIMIT⟩ FdbRun.trunkEntry false false)) trivial rfl
  refine ⟨_, h₂, fun h => ?_⟩
  have hpos := h.pos (s := (0, 0)) (p := 1) (by decide)
  revert hpos
  decide

end PsecRun

end Presteramgr
