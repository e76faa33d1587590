import Presteramgr.Mac.Table

/-!
# The keys of the forwarding database

In a run of insertions, removals and flushes the slots of a bucket have different keys, also where
they are not valid any more. So a lookup finds what was inserted last under a key, unless it was
removed, flushed or evicted since.

## Main definitions

* `FdbRun`: the table, and for each key the entry inserted last and not gone since;
* `FdbRun.Faithful`: lookups and removals agree with that.

## Main results

* `FdbRun.faithful`: this holds in every reachable state;
* `FdbRun.not_removed`: on the master a removal may leave a trunk entry, until all units have
  reported it aged.
-/

namespace Presteramgr

open Function (update update_self update_of_ne)

/-- The operations on the table. Each is called in some state of the FDB manager. -/
inductive FdbOp
  | insert (m : Fdbman) (mo : Moment) (e : MacEntry) (secure fake : Bool)
  | remove (m : Fdbman) (k : MacKey) (sid : ℕ)
  | flush (arg : FdbFlushArg)
  | flushVif (arg : FdbFlushArgVif)

/-- What an operation does to the table, and the status it returns. -/
def FdbOp.exec (c : FdbConf) (f : Fdb) : FdbOp → Fdb × Status
  | .insert m mo e secure fake => f.insert c m mo e secure fake
  | .remove m k sid => f.remove c m k sid
  | .flush arg => f.flush c arg
  | .flushVif arg => f.flushVif c arg

/-- The table, and the entries that are in it by the history: for each key the last one inserted,
if it was not removed, flushed or evicted since. -/
structure FdbRun where
  fdb : Fdb
  live : MacKey → Option MacEntry

namespace FdbRun

variable (c : FdbConf)

/-- A slot that held a valid entry of the key now has another key. -/
def evicted (f f' : Fdb) (k : MacKey) : Bool :=
  match c.hash k with
  | none => false
  | some b => bucketSlots.any fun i =>
      (f.slot (b, i)).valid && meKeyEq k (f.slot (b, i)).me.key &&
        !meKeyEq k (f'.slot (b, i)).me.key

/-- A flush of the given interfaces concerns the entry. -/
def flushed (vid : Option ℕ) (dst : DstInterface → Bool) (ds : Bool) (e : MacEntry) : Bool :=
  vid.all (c.macVlanId e.key == ·) && dst e.dst && (ds || !e.isStatic)

/-- The history after an operation that left the table `f'` and returned `st`. -/
def liveAfter (s : FdbRun) (f' : Fdb) (st : Status) : FdbOp → MacKey → Option MacEntry
  | .insert _ _ e _ fake => fun k =>
    if st = .ST_OK ∧ fake = false then
      if k = e.key then some e
      else if evicted c s.fdb f' k then none
      else s.live k
    else s.live k
  | .remove _ k _ => if st = .ST_OK then update s.live k none else s.live
  | .flush arg => fun k => (s.live k).filter fun e =>
      !(Fdb.flushDst c arg).any fun dst => flushed c arg.vid dst arg.ds e
  | .flushVif arg => fun k => (s.live k).filter fun e =>
      !(Fdb.flushVifDst c arg).any fun dst => flushed c arg.vid dst arg.ds e

/-- A step of a run. -/
def step (s : FdbRun) (op : FdbOp) : Option FdbRun :=
  let (f', st) := op.exec c s.fdb
  some ⟨f', liveAfter c s f' st op⟩

/-- The empty table, with any counters. -/
def init (psec : ℕ → Psec) : FdbRun where
  fdb := ⟨fun _ => .zero, psec⟩
  live := fun _ => none

/-- Keys that are inserted have a VLAN. -/
def Allowed (_ : FdbRun) : FdbOp → Prop
  | .insert _ _ e _ _ => e.key.vlanId ≠ 0
  | _ => True

/-- The slots of a bucket have different keys, but for those never used. A lookup of a key gives
the entry that the history says, or none, and a removal frees that entry and no other, or does
nothing. Only a trunk entry on the master stays, until every unit has reported it aged. -/
structure Faithful (s : FdbRun) : Prop where
  unique : ∀ b i j, i ≠ j → (s.fdb.slot (b, i)).me.key = (s.fdb.slot (b, j)).me.key →
    (s.fdb.slot (b, i)).me.key.vlanId = 0
  query : ∀ k e, (∃ x, s.fdb.query c k = .ok x ∧ x.me = e) ↔ s.live k = some e
  remove_none : ∀ m k sid, s.live k = none →
    (s.fdb.remove c m k sid).1 = s.fdb ∧ (s.fdb.remove c m k sid).2 ≠ .ST_OK
  remove_some : ∀ m k sid e, s.live k = some e → ∃ t, s.fdb.Holds t k ∧ (s.fdb.slot t).me = e ∧
    (¬Fdb.Outstanding c m (s.fdb.slot t) sid →
      (s.fdb.remove c m k sid).2 = .ST_OK ∧ Fdb.Freed c s.fdb t (s.fdb.remove c m k sid).1) ∧
    (Fdb.Outstanding c m (s.fdb.slot t) sid → s.fdb.remove c m k sid =
      (s.fdb.setAging t ((s.fdb.slot t).pcAgingStatus.erase sid), .ST_NOT_READY))

/-- The keys of the table: each lies in the bucket of its hash, in one slot only, and only keys
with a VLAN are valid. -/
structure Keys (f : Fdb) : Prop where
  home : ∀ b i, (f.slot (b, i)).me.key.vlanId ≠ 0 → c.hash (f.slot (b, i)).me.key = some b
  unique : ∀ b i j, (f.slot (b, i)).me.key = (f.slot (b, j)).me.key →
    (f.slot (b, i)).me.key.vlanId ≠ 0 → i = j
  vlan : ∀ s, (f.slot s).valid = true → (f.slot s).me.key.vlanId ≠ 0

/-- The invariant of a run: the keys are right, and the history is what the table holds. -/
structure Inv (s : FdbRun) : Prop where
  keys : Keys c s.fdb
  live : ∀ k e, s.live k = some e ↔ ∃ t, s.fdb.Holds t k ∧ (s.fdb.slot t).me = e

variable {c} {f f' : Fdb} {s : FdbRun} {t t' : FdbSlot} {k : MacKey}

namespace Keys

/-- A slot that holds a key lies in the bucket of the key. -/
theorem hash_of_holds (h : Keys c f) (ht : f.Holds t k) : c.hash k = some t.1 := by
  obtain ⟨hv, rfl⟩ := ht
  exact h.home t.1 t.2 (h.vlan t hv)

/-- Two slots do not hold one key. -/
theorem eq_of_holds (h : Keys c f) (ht : f.Holds t k) (ht' : f.Holds t' k) : t = t' := by
  have hb : t.1 = t'.1 := Option.some_inj.mp ((h.hash_of_holds ht).symm.trans (h.hash_of_holds ht'))
  obtain ⟨b, i⟩ := t
  obtain ⟨b', j⟩ := t'
  obtain rfl : b = b' := hb
  have hij := h.unique b i j (ht.2.trans ht'.2.symm) (h.vlan _ ht.1)
  rw [hij]

/-- Freed slots and new flap counters do not concern the keys. -/
theorem of_me (h : Keys c f) (hme : ∀ t, (f'.slot t).me = (f.slot t).me)
    (hv : ∀ t, (f'.slot t).valid = true → (f.slot t).valid = true) : Keys c f' := by
  refine ⟨fun b i => ?_, fun b i j => ?_, fun t ht => ?_⟩
  · rw [hme]
    exact h.home b i
  · rw [hme, hme]
    exact h.unique b i j
  · rw [hme]
    exact h.vlan t (hv t ht)

/-- A lookup finds the slot that holds the key. -/
theorem find_of_holds (h : Keys c f) {b : FdbBucket} {i : Fin 4} (ht : f.Holds (b, i) k) :
    f.find b k = some i := by
  cases hf : f.find b k with
  | none => exact absurd ht (Fdb.not_holds_of_find_none hf i)
  | some j =>
    have hij := congrArg Prod.snd (h.eq_of_holds (Fdb.holds_of_find hf) ht)
    exact congrArg some hij

/-- An entry written over its key, or into a bucket that has not got the key. -/
theorem written (h : Keys c f) {m : Fdbman} {mo : Moment} {e : MacEntry} {secure : Bool}
    {b : FdbBucket} {i : Fin 4} {r : Fdb × Status} (hvlan : e.key.vlanId ≠ 0)
    (hw : Fdb.Written c m f mo e secure b i r) :
    Keys c r.1 ∧ (∀ t ≠ (b, i), (r.1.slot t).me = (f.slot t).me ∧
      (r.1.slot t).valid = (f.slot t).valid) ∧
      (r.1.slot (b, i)).me = e ∧ (r.1.slot (b, i)).valid = true := by
  obtain ⟨slot, hkept, hslot⟩ := hw.slot
  have hself : (r.1.slot (b, i)).me = e ∧ (r.1.slot (b, i)).valid = true := by
    rw [hslot, update_self]
    exact ⟨rfl, rfl⟩
  have hother : ∀ t ≠ (b, i), (r.1.slot t).me = (f.slot t).me ∧
      (r.1.slot t).valid = (f.slot t).valid := by
    intro t ht
    rw [hslot, update_of_ne ht]
    exact ⟨hkept.me t, hkept.valid t⟩
  -- no other slot of the bucket holds the key: the slot written held it, or none did
  have hne : ∀ j ≠ i, (r.1.slot (b, j)).me.key ≠ e.key := by
    intro j hj heq
    rw [(hother (b, j) fun h => hj (congrArg Prod.snd h)).1] at heq
    rcases hw.place with hplace | hplace
    · refine hj (h.unique b j i (heq.trans hplace.symm) ?_)
      rwa [heq]
    · exact hplace j heq
  refine ⟨⟨fun b' j => ?_, fun b' j j' heq hv => ?_, fun t hv => ?_⟩, hother, hself⟩
  · by_cases hji : (b', j) = (b, i)
    · obtain ⟨rfl, rfl⟩ := Prod.mk.inj hji
      rw [hself.1]
      exact fun _ => hw.hash
    · rw [(hother _ hji).1]
      exact h.home b' j
  · -- two slots of one bucket with the same key are one
    by_cases hb : b' = b
    · subst hb
      by_cases hj : j = i
      · subst hj
        by_contra hjj
        rw [hself.1] at heq
        exact hne j' (Ne.symm hjj) heq.symm
      · by_cases hj' : j' = i
        · subst hj'
          rw [hself.1] at heq
          exact absurd heq (hne j hj)
        · have h1 := (hother (b', j) fun h => hj (congrArg Prod.snd h)).1
          have h2 := (hother (b', j') fun h => hj' (congrArg Prod.snd h)).1
          rw [h1, h2] at heq
          rw [h1] at hv
          exact h.unique b' j j' heq hv
    · have h1 := (hother (b', j) fun h => hb (congrArg Prod.fst h)).1
      have h2 := (hother (b', j') fun h => hb (congrArg Prod.fst h)).1
      rw [h1, h2] at heq
      rw [h1] at hv
      exact h.unique b' j j' heq hv
  · by_cases ht : t = (b, i)
    · subst ht
      rw [hself.1]
      exact hvlan
    · obtain ⟨hme, hval⟩ := hother t ht
      rw [hme]
      exact h.vlan t (hval ▸ hv)

end Keys

/-- An evicted key is one whose slot has another key now. -/
theorem evicted_iff (h : Keys c f) :
    evicted c f f' k = true ↔ ∃ t, f.Holds t k ∧ (f'.slot t).me.key ≠ k := by
  constructor
  · intro hev
    unfold evicted at hev
    split at hev
    · exact absurd hev (by decide)
    · rename_i b _
      obtain ⟨i, -, hi⟩ := List.any_eq_true.mp hev
      simp only [Bool.and_eq_true, Bool.not_eq_true', ← Bool.not_eq_true, meKeyEq_iff] at hi
      exact ⟨(b, i), ⟨hi.1.1, hi.1.2.symm⟩, fun heq => hi.2 heq.symm⟩
  · rintro ⟨⟨b, i⟩, ht, hne⟩
    have hb := h.hash_of_holds ht
    simp only [evicted, hb]
    refine List.any_eq_true.mpr ⟨i, mem_bucketSlots i, ?_⟩
    simp only [Bool.and_eq_true, Bool.not_eq_true', ← Bool.not_eq_true, meKeyEq_iff]
    exact ⟨⟨ht.1, ht.2.symm⟩, fun heq => hne heq.symm⟩

/-- What holds a key when slots are only freed: a slot that held it and is still valid. -/
theorem holds_iff_of_me (hme : ∀ t, (f'.slot t).me = (f.slot t).me)
    (hv : ∀ t, (f'.slot t).valid = true → (f.slot t).valid = true) :
    f'.Holds t k ↔ f.Holds t k ∧ (f'.slot t).valid = true := by
  unfold Fdb.Holds
  rw [hme]
  exact ⟨fun h => ⟨⟨hv t h.1, h.2⟩, h.1⟩, fun h => ⟨h.2, h.1.2⟩⟩

/-- The table keeps its entries, and so does the history. -/
theorem Inv.of_kept (h : Inv c s) (hme : ∀ t, (f'.slot t).me = (s.fdb.slot t).me)
    (hv : ∀ t, (f'.slot t).valid = (s.fdb.slot t).valid) : Inv c ⟨f', s.live⟩ := by
  refine ⟨h.keys.of_me hme fun t ht => (hv t).symm.trans ht, fun k e => ?_⟩
  rw [h.live]
  refine exists_congr fun t => ?_
  unfold Fdb.Holds
  show _ ↔ ((f'.slot t).valid = true ∧ (f'.slot t).me.key = k) ∧ (f'.slot t).me = e
  rw [hme, hv]

/-- An insertion keeps the invariant. -/
theorem Inv.insert (h : Inv c s) {m : Fdbman} {mo : Moment} {e : MacEntry} {secure fake : Bool}
    (hvlan : e.key.vlanId ≠ 0) :
    Inv c ⟨(s.fdb.insert c m mo e secure fake).1,
      liveAfter c s (s.fdb.insert c m mo e secure fake).1 (s.fdb.insert c m mo e secure fake).2
        (.insert m mo e secure fake)⟩ := by
  rcases Fdb.insert_cases c m s.fdb mo e secure fake with hr | ⟨hfake, b, i, hw⟩
  · have hlive : liveAfter c s (s.fdb.insert c m mo e secure fake).1
        (s.fdb.insert c m mo e secure fake).2 (.insert m mo e secure fake) = s.live := by
      funext k
      refine if_neg fun hok => ?_
      rw [hr.status hok.1] at hok
      exact absurd hok.2 (by decide)
    rw [hlive]
    exact h.of_kept hr.kept.me hr.kept.valid
  · subst hfake
    obtain ⟨hkeys, hother, hself⟩ := h.keys.written hvlan hw
    refine ⟨hkeys, fun k e' => ?_⟩
    simp only [liveAfter, hw.status, and_self, if_true]
    by_cases hk : k = e.key
    · subst hk
      rw [if_pos rfl]
      have hhold : (s.fdb.insert c m mo e secure false).1.Holds (b, i) e.key :=
        ⟨hself.2, congrArg MacEntry.key hself.1⟩
      constructor
      · rintro heq
        obtain rfl := Option.some_inj.mp heq
        exact ⟨(b, i), hhold, hself.1⟩
      · rintro ⟨t, ht, rfl⟩
        rw [hkeys.eq_of_holds ht hhold, hself.1]
    · rw [if_neg hk]
      -- the slot written holds the new key, so another key is held in another slot
      have hne : ∀ t, (s.fdb.insert c m mo e secure false).1.Holds t k → t ≠ (b, i) := by
        rintro t ht rfl
        exact hk (ht.2.symm.trans (congrArg MacEntry.key hself.1))
      by_cases hev : evicted c s.fdb (s.fdb.insert c m mo e secure false).1 k = true
      · rw [if_pos hev]
        obtain ⟨t, ht, hgone⟩ := (evicted_iff h.keys).mp hev
        refine ⟨nofun, ?_⟩
        rintro ⟨t', ht', -⟩
        obtain ⟨hme, hv⟩ := hother t' (hne t' ht')
        have hold : s.fdb.Holds t' k := ⟨hv.symm.trans ht'.1, hme ▸ ht'.2⟩
        obtain rfl := h.keys.eq_of_holds ht hold
        exact absurd ht'.2 hgone
      · rw [if_neg hev, h.live]
        refine exists_congr fun t => ?_
        constructor
        · rintro ⟨ht, rfl⟩
          have hstay : ((s.fdb.insert c m mo e secure false).1.slot t).me.key = k := by
            by_contra hgone
            exact hev ((evicted_iff h.keys).mpr ⟨t, ht, hgone⟩)
          have htne : t ≠ (b, i) := by
            rintro rfl
            exact hk (hstay.symm.trans (congrArg MacEntry.key hself.1))
          obtain ⟨hme, hv⟩ := hother t htne
          exact ⟨⟨hv.trans ht.1, hstay⟩, hme⟩
        · rintro ⟨ht, rfl⟩
          obtain ⟨hme, hv⟩ := hother t (hne t ht)
          exact ⟨⟨hv.symm.trans ht.1, hme ▸ ht.2⟩, hme.symm⟩

/-- A removal keeps the invariant. -/
theorem Inv.remove (h : Inv c s) {m : Fdbman} {k : MacKey} {sid : ℕ} :
    Inv c ⟨(s.fdb.remove c m k sid).1,
      liveAfter c s (s.fdb.remove c m k sid).1 (s.fdb.remove c m k sid).2 (.remove m k sid)⟩ := by
  rcases Fdb.remove_cases c m s.fdb k sid with
    ⟨heq, hst, -⟩ | ⟨b, i, -, ht, ⟨-, heq⟩ | ⟨-, hst, hfree⟩⟩
  · simp only [liveAfter, if_neg hst, heq]
    exact h
  · rw [heq]
    exact h.of_kept (fun _ => Fdb.setAging_me _) fun _ => Fdb.setAging_valid _
  · have hme : ∀ t, ((s.fdb.remove c m k sid).1.slot t).me = (s.fdb.slot t).me := by
      intro t
      by_cases hti : t = (b, i)
      · rw [hti, hfree.me]
      · rw [hfree.other t hti]
    have hv : ∀ t, ((s.fdb.remove c m k sid).1.slot t).valid = true →
        (s.fdb.slot t).valid = true := by
      intro t hv
      by_cases hti : t = (b, i)
      · rw [hti, hfree.valid] at hv
        exact absurd hv (by decide)
      · rwa [hfree.other t hti] at hv
    refine ⟨h.keys.of_me hme hv, fun k' e => ?_⟩
    simp only [liveAfter, hst, if_true]
    by_cases hk : k' = k
    · subst hk
      rw [update_self]
      refine ⟨nofun, ?_⟩
      rintro ⟨t, ht', -⟩
      obtain ⟨hold, hval⟩ := (holds_iff_of_me hme hv).mp ht'
      rw [h.keys.eq_of_holds hold ht, hfree.valid] at hval
      exact absurd hval (by decide)
    · rw [update_of_ne hk, h.live]
      refine exists_congr fun t => ?_
      rw [holds_iff_of_me hme hv, hme]
      refine and_congr_left fun _ => (and_iff_left_of_imp fun ht' => ?_).symm
      have hti : t ≠ (b, i) := by
        rintro rfl
        exact hk (ht'.2.symm.trans ht.2)
      rw [hfree.other t hti]
      exact ht'.1

/-- What a flush hits in the table is what it concerns among the valid entries. -/
theorem flushHit_eq (vid : Option ℕ) (dst : DstInterface → Bool) (ds : Bool) (x : FdbEntry) :
    Fdb.flushHit c vid dst ds x = (x.valid && flushed c vid dst ds x.me) := by
  simp only [Fdb.flushHit, flushed, Bool.and_assoc]

/-- A flush keeps the invariant. -/
theorem Inv.flushBy (h : Inv c s) (vid : Option ℕ) (dst : DstInterface → Bool) (ds : Bool) :
    Inv c ⟨s.fdb.flushBy c vid dst ds,
      fun k => (s.live k).filter fun e => !flushed c vid dst ds e⟩ := by
  have hslot := Fdb.flushBy_slot (c := c) (f := s.fdb) vid dst ds
  generalize s.fdb.flushBy c vid dst ds = f' at hslot ⊢
  have hme : ∀ t, (f'.slot t).me = (s.fdb.slot t).me := by
    intro t
    rw [hslot]
    split <;> rfl
  have hv : ∀ t, (f'.slot t).valid = true ↔
      (s.fdb.slot t).valid = true ∧ (!flushed c vid dst ds (s.fdb.slot t).me) = true := by
    intro t
    rw [hslot, flushHit_eq]
    cases hval : (s.fdb.slot t).valid <;> cases flushed c vid dst ds (s.fdb.slot t).me <;>
      simp [FdbEntry.freed, hval]
  refine ⟨h.keys.of_me hme fun t ht => ((hv t).mp ht).1, fun k e => ?_⟩
  refine Option.filter_eq_some_iff.trans ?_
  rw [h.live]
  constructor
  · rintro ⟨⟨t, ht, rfl⟩, hfl⟩
    exact ⟨t, ⟨(hv t).mpr ⟨ht.1, hfl⟩, (congrArg MacEntry.key (hme t)).trans ht.2⟩, hme t⟩
  · rintro ⟨t, ⟨hval, hkey⟩, rfl⟩
    obtain ⟨hval, hfl⟩ := (hv t).mp hval
    rw [hme] at hkey ⊢
    exact ⟨⟨t, ⟨hval, hkey⟩, rfl⟩, hfl⟩

/-- A flush that may refuse keeps the invariant. -/
theorem Inv.flushOpt (h : Inv c s) (vid : Option ℕ) (ds : Bool)
    (dst : Option (DstInterface → Bool)) :
    Inv c ⟨(match dst with
        | none => (s.fdb, Status.ST_BAD_VALUE)
        | some dst => (s.fdb.flushBy c vid dst ds, Status.ST_OK)).1,
      fun k => (s.live k).filter fun e => !dst.any fun dst => flushed c vid dst ds e⟩ := by
  cases dst with
  | none =>
    have hlive : (fun k => (s.live k).filter fun _ => true) = s.live := by
      funext k
      cases s.live k <;> rfl
    show Inv c ⟨s.fdb, fun k => (s.live k).filter fun _ => true⟩
    rw [hlive]
    exact h
  | some dst => exact h.flushBy vid dst ds

/-- Every step keeps the invariant. -/
theorem Inv.step (h : Inv c s) {op : FdbOp} (hok : Allowed s op) {s' : FdbRun}
    (hs : FdbRun.step c s op = some s') : Inv c s' := by
  obtain rfl := Option.some_inj.mp hs
  cases op with
  | insert m mo e secure fake => exact h.insert hok
  | remove m k sid => exact h.remove
  | flush arg =>
    simp only [Fdb.flush_eq]
    exact h.flushOpt arg.vid arg.ds (Fdb.flushDst c arg)
  | flushVif arg =>
    simp only [Fdb.flushVif_eq]
    exact h.flushOpt arg.vid arg.ds (Fdb.flushVifDst c arg)

theorem inv_init (psec : ℕ → Psec) : Inv c (init psec) := by
  refine ⟨⟨fun b i h => absurd rfl h, fun b i j _ h => absurd rfl h, nofun⟩, fun k e => ?_⟩
  refine ⟨nofun, ?_⟩
  rintro ⟨t, ⟨hv, -⟩, -⟩
  exact absurd hv (by simp [init, FdbEntry.zero])

/-- The invariant says that lookups and removals agree with the history. -/
theorem Inv.agrees (h : Inv c s) : Faithful c s := by
  refine ⟨fun b i j hij heq => ?_, fun k e => ?_, fun m k sid hnone => ?_,
    fun m k sid e hsome => ?_⟩
  · by_contra hv
    exact hij (h.keys.unique b i j heq hv)
  · rw [h.live]
    constructor
    · rintro ⟨x, hx, rfl⟩
      unfold Fdb.query at hx
      split at hx
      · exact absurd hx (by simp)
      · rename_i b hb
        split at hx
        · exact absurd hx (by simp)
        · rename_i i hi
          obtain rfl := Except.ok.inj hx
          exact ⟨(b, i), Fdb.holds_of_find hi, rfl⟩
    · rintro ⟨⟨b, i⟩, ht, rfl⟩
      refine ⟨s.fdb.slot (b, i), ?_, rfl⟩
      simp only [Fdb.query, h.keys.hash_of_holds ht, h.keys.find_of_holds ht]
  · rcases Fdb.remove_cases c m s.fdb k sid with ⟨heq, hst, -⟩ | ⟨b, i, -, ht, -⟩
    · exact ⟨heq, hst⟩
    · have hlive := (h.live k _).mpr ⟨(b, i), ht, rfl⟩
      rw [hnone] at hlive
      exact absurd hlive (by simp)
  · obtain ⟨t, ht, rfl⟩ := (h.live k e).mp hsome
    refine ⟨t, ht, rfl, ?_⟩
    rcases Fdb.remove_cases c m s.fdb k sid with ⟨-, -, hno⟩ | ⟨b, i, -, ht', hcases⟩
    · exact absurd ht (hno t.1 (h.keys.hash_of_holds ht) t.2)
    · obtain rfl := h.keys.eq_of_holds ht ht'
      rcases hcases with ⟨hout, heq⟩ | ⟨hout, hst, hfree⟩
      · exact ⟨fun hno => absurd hout hno, fun _ => heq⟩
      · exact ⟨fun _ => ⟨hst, hfree⟩, fun hyes => absurd hyes hout⟩

/-- In every run over keys with a VLAN, the slots of a bucket have different keys, and lookups and
removals agree with the history. -/
theorem faithful (c : FdbConf) (psec : ℕ → Psec) (s : FdbRun)
    (hr : Guarded.Reach (step c) Allowed (init psec) s) : Faithful c s :=
  (hr.invariant (Inv c) (inv_init psec) fun _ _ _ h hok hs => h.step hok hs).agrees

/-! ### A trunk entry on the master -/

/-- Unit 1, whose keys all hash to bucket 0. -/
def conf₁ : FdbConf where
  stackId := 1
  nports := 2
  maxPorts := 64
  devPorts _ hport := hport + 1
  portHw p := (1, p - 1)
  hash _ := some 0
  macVlanId := MacKey.vlanId
  vlanValid _ := true
  vif _ := none
  psecMinAddrs := 1
  psecMaxAddrs := 4096

/-- Unit 1 as the master of units 1 and 2. -/
def master₁ : Fdbman where
  state := .FST_MASTER
  master := 1
  newmaster := 1
  serial := 1
  newserial := 1
  devsbmp := {1, 2}

/-- An address learned on trunk 1. -/
def trunkEntry : MacEntry where
  key := .macAddr 10 1
  isStatic := false
  userDefined := .FEP_DYN
  dst := { type := .TRUNK, trunkId := 1 }

/-- Port security is off everywhere. -/
def psecOff : ℕ → Psec := fun _ => ⟨false, .PSECA_FORWARD, 30, .PSECM_MAX_ADDRS, 1, 0⟩

/-- The insertion of the address, as the only operation. -/
def learned : FdbRun :=
  ((init psecOff).step conf₁ (.insert master₁ ⟨200, .PAS_OK⟩ trunkEntry false false)).getD
    (init psecOff)

theorem reach_learned : Guarded.Reach (step conf₁) Allowed (init psecOff) learned := by
  have hvlan : trunkEntry.key.vlanId ≠ 0 := by decide
  have h₀ : Guarded.Reach (step conf₁) Allowed (init psecOff) (init psecOff) := .init
  exact h₀.snoc (.insert master₁ ⟨200, .PAS_OK⟩ trunkEntry false false) hvlan rfl

/-- A lookup finds the address that was learned. -/
theorem faithful_learned :
    Faithful conf₁ learned ∧ learned.live (.macAddr 10 1) = some trunkEntry :=
  ⟨faithful conf₁ psecOff learned reach_learned, by decide⟩

/-- The address was learned and not removed, and yet a removal does not succeed: unit 1 reports it
aged, and unit 2 has not done so. -/
theorem not_removed : Guarded.Reach (step conf₁) Allowed (init psecOff) learned ∧
    learned.live (.macAddr 10 1) = some trunkEntry ∧
    (learned.fdb.remove conf₁ master₁ (.macAddr 10 1) 1).2 = .ST_NOT_READY :=
  ⟨reach_learned, by decide, by decide⟩

end FdbRun

end Presteramgr
