import Presteramgr.Mac.Fdb

/-!
# What the operations on the forwarding database do

One lemma for each operation of the table says all that it can do; the results about keys, counters
and aging are derived from these.

## Main results

* `Fdb.insert_cases`: an insertion keeps all entries, or writes one slot of the bucket;
* `Fdb.remove_cases`: a removal keeps all entries, ticks off a unit, or frees one slot;
* `Fdb.flushBy_slot`: a flush frees the entries that match.
-/

namespace Presteramgr

open Function (update update_self update_of_ne)

/-- The entries are the same, only flap counters may differ. -/
def KeptBut (slot slot' : FdbSlot → FdbEntry) : Prop :=
  ∀ s, slot' s = { slot s with addrFlaps := (slot' s).addrFlaps }

namespace KeptBut

variable {slot slot' : FdbSlot → FdbEntry}

/-- Nothing has changed. -/
theorem refl (slot : FdbSlot → FdbEntry) : KeptBut slot slot := fun _ => rfl

/-- Two changes of flap counters are one. -/
theorem trans {slot'' : FdbSlot → FdbEntry} (h : KeptBut slot slot') (h' : KeptBut slot' slot'') :
    KeptBut slot slot'' := by
  intro s
  rw [h' s, h s]

/-- The entries are valid as they were. -/
theorem valid (h : KeptBut slot slot') (s : FdbSlot) : (slot' s).valid = (slot s).valid := by
  rw [h s]

/-- The addresses are as they were. -/
theorem me (h : KeptBut slot slot') (s : FdbSlot) : (slot' s).me = (slot s).me := by
  rw [h s]

/-- The aging status is as it was. -/
theorem pcAgingStatus (h : KeptBut slot slot') (s : FdbSlot) :
    (slot' s).pcAgingStatus = (slot s).pcAgingStatus := by
  rw [h s]

end KeptBut

/-- Meeting an entry with the key inserted changes its flap counter only. -/
theorem FdbEntry.meet_fst (s : FdbEntry) (e : MacEntry) (ts : ℕ) :
    (s.meet e ts).1 = { s with addrFlaps := (s.meet e ts).1.addrFlaps } := by
  unfold meet
  dsimp only
  split_ifs <;> rfl

/-- A status with which an entry is refused. -/
theorem FdbEntry.meet_snd_ne (s : FdbEntry) (e : MacEntry) (ts : ℕ) {st : Status}
    (h : (s.meet e ts).2 = some st) : st ≠ .ST_OK ∧ st ≠ .ST_BAD_STATE := by
  unfold meet at h
  dsimp only at h
  split_ifs at h <;> obtain rfl := Option.some_inj.mp h <;> decide

section Scan

variable {slot slot' : FdbSlot → FdbEntry} {e : MacEntry} {ts : ℕ} {b : FdbBucket}
  {is : List (Fin 4)} {best : Option (Fin 4)} {pri : FdbEntryPrio} {r : ScanEnd}

/-- The scan changes flap counters only. -/
theorem insertScan_kept (h : insertScan slot e ts b is best pri = (slot', r)) :
    KeptBut slot slot' := by
  have hset : ∀ i, KeptBut slot (update slot (b, i) ((slot (b, i)).meet e ts).1) := by
    intro i s
    by_cases hs : s = (b, i)
    · subst hs
      rw [update_self]
      exact FdbEntry.meet_fst _ _ _
    · rw [update_of_ne hs]
  induction is generalizing best pri with
  | nil =>
    obtain ⟨rfl, -⟩ := Prod.mk.inj h
    exact KeptBut.refl _
  | cons i is ih =>
    rw [insertScan] at h
    split_ifs at h
    · split at h
      all_goals
        rename_i hm
        obtain ⟨rfl, -⟩ := Prod.mk.inj h
        have hi := hset i
        rwa [hm] at hi
    · obtain ⟨rfl, -⟩ := Prod.mk.inj h
      exact KeptBut.refl _
    all_goals exact ih h

/-- The scan returns early only to refuse the entry, and not for port security. -/
theorem insertScan_ret {st : Status} (h : insertScan slot e ts b is best pri = (slot', .ret st)) :
    st ≠ .ST_OK ∧ st ≠ .ST_BAD_STATE := by
  induction is generalizing best pri with
  | nil => simp [insertScan] at h
  | cons i is ih =>
    rw [insertScan] at h
    split_ifs at h
    · split at h
      · rename_i hm
        obtain ⟨-, hst⟩ := Prod.mk.inj h
        obtain rfl := ScanEnd.ret.inj hst
        exact FdbEntry.meet_snd_ne _ _ _ (congrArg Prod.snd hm)
      · simp at h
    · simp at h
    all_goals exact ih h

/-- The slot chosen holds the key, or none of the slots scanned does. -/
theorem insertScan_best {i : Fin 4} {me : Bool}
    (h : insertScan slot e ts b is best pri = (slot', .best (some i) me)) :
    (slot (b, i)).me.key = e.key ∨ ∀ j ∈ is, (slot (b, j)).me.key ≠ e.key := by
  induction is generalizing best pri with
  | nil => exact .inr fun _ hj => absurd hj List.not_mem_nil
  | cons j is ih =>
    rw [insertScan] at h
    by_cases hkey : meKeyEq e.key (slot (b, j)).me.key = true
    · -- the first slot with the key is the one chosen
      rw [if_pos hkey] at h
      have hij : j = i := by
        split_ifs at h
        · split at h
          · simp at h
          · exact Option.some_inj.mp (ScanEnd.best.inj (Prod.mk.inj h).2).1
        · exact Option.some_inj.mp (ScanEnd.best.inj (Prod.mk.inj h).2).1
      subst hij
      exact .inl ((meKeyEq_iff _ _).mp hkey).symm
    · rw [if_neg hkey] at h
      have hne : (slot (b, j)).me.key ≠ e.key := fun heq => hkey ((meKeyEq_iff _ _).mpr heq.symm)
      have hrest : (slot (b, i)).me.key = e.key ∨ ∀ j ∈ is, (slot (b, j)).me.key ≠ e.key := by
        split_ifs at h <;> exact ih h
      refine hrest.imp_right fun hall k hk => ?_
      rcases List.mem_cons.mp hk with rfl | hk
      · exact hne
      · exact hall k hk

/-- The entry exists already only if the slot chosen holds the same port. -/
theorem insertScan_exists {i : Fin 4}
    (h : insertScan slot e ts b is best pri = (slot', .best (some i) true)) :
    (slot (b, i)).valid = true ∧ (slot (b, i)).me.key = e.key ∧
      e.dst.samePort (slot (b, i)).me.dst = true := by
  induction is generalizing best pri with
  | nil => simp [insertScan] at h
  | cons j is ih =>
    rw [insertScan] at h
    by_cases hkey : meKeyEq e.key (slot (b, j)).me.key = true
    · rw [if_pos hkey] at h
      split_ifs at h with hv
      · split at h
        · simp at h
        · obtain ⟨-, hbest⟩ := Prod.mk.inj h
          obtain ⟨hij, hsame⟩ := ScanEnd.best.inj hbest
          obtain rfl := Option.some_inj.mp hij
          exact ⟨hv, ((meKeyEq_iff _ _).mp hkey).symm, hsame⟩
      · simp at h
    · rw [if_neg hkey] at h
      split_ifs at h <;> exact ih h

end Scan

/-- A bucket has four slots. -/
theorem mem_bucketSlots (i : Fin 4) : i ∈ bucketSlots := by
  revert i
  decide

/-! ## Port security of an insertion -/

section Psec

variable {c : FdbConf} {st : PsecAddrStatus} {psec : ℕ → Psec} {o : FdbEntry} {n : MacEntry}

/-- The port of an entry of the same key and the same port interface is the same. -/
theorem MacEntry.port_eq_of_samePort {o n : MacEntry} (hkey : o.key = n.key)
    (hdst : n.dst.samePort o.dst = true) : n.port c = o.port c := by
  simp only [DstInterface.samePort, Bool.and_eq_true, decide_eq_true_eq, beq_iff_eq] at hdst
  obtain ⟨⟨⟨hn, ho⟩, hdev⟩, hport⟩ := hdst
  simp [MacEntry.port, hkey, hn, ho, hdev, hport]

/-- All that the check of a real insertion can do: nothing to count, refuse at the limit, count the
address, or, for an entry without a port, release the old one and return an arbitrary status. -/
theorem psecAddrCheck_cases (c : FdbConf) (st : PsecAddrStatus) (psec : ℕ → Psec) (o : FdbEntry)
    (n : MacEntry) :
    let op := if o.valid then o.me.port c else none
    (n.port c = op ∧ psecAddrCheck c st psec o n false = (psec, .PAS_OK)) ∨
    (∃ p, n.port c = some p ∧ (psec p).enabled ∧ (psec p).maxAddrs ≤ (psec p).naddrs ∧
      psecAddrCheck c st psec o n false = (psec, .PAS_LIMIT)) ∨
    (∃ p, n.port c = some p ∧ n.port c ≠ op ∧
      ((psec p).enabled → (psec p).naddrs < (psec p).maxAddrs) ∧
      psecAddrCheck c st psec o n false =
        (psecDel (update psec p (psec p).addrAdd) op, .PAS_OK)) ∨
    (n.port c = none ∧ n.port c ≠ op ∧
      psecAddrCheck c st psec o n false = (psecDel psec op, st)) := by
  intro op
  by_cases hsame : n.port c = op
  · exact .inl ⟨hsame, if_pos hsame⟩
  have hcheck : psecAddrCheck c st psec o n false = _ := if_neg hsame
  cases hp : n.port c with
  | none =>
    rw [hp] at hcheck hsame
    exact .inr (.inr (.inr ⟨rfl, hsame, hcheck⟩))
  | some p =>
    rw [hp] at hcheck hsame
    by_cases hlimit : (psec p).enabled ∧ (psec p).maxAddrs ≤ (psec p).naddrs
    · exact .inr (.inl ⟨p, rfl, hlimit.1, hlimit.2, hcheck.trans (if_pos hlimit)⟩)
    · refine .inr (.inr (.inl ⟨p, rfl, hsame, fun hen => ?_, hcheck.trans (if_neg hlimit)⟩))
      by_contra hle
      exact hlimit ⟨hen, by omega⟩

/-- The check of a fake insertion counts nothing. -/
theorem psecAddrCheck_fake : (psecAddrCheck c st psec o n true).1 = psec := by
  simp only [psecAddrCheck]
  by_cases hsame : n.port c = if o.valid then o.me.port c else none
  · rw [if_pos hsame]
  · rw [if_neg hsame]
    cases n.port c with
    | none => rfl
    | some p =>
      show (if _ then _ else if _ then _ else _ : (ℕ → Psec) × PsecAddrStatus).1 = psec
      split
      · rfl
      · rfl

/-- An entry without a port is refused only with the status that was never assigned. -/
theorem psecAddrCheck_noPort (hn : n.port c = none) (fake : Bool)
    (h : (psecAddrCheck c st psec o n fake).2 ≠ .PAS_OK) :
    st ≠ .PAS_OK ∧ o.valid = true ∧ (o.me.port c).isSome := by
  simp only [psecAddrCheck, hn] at h
  by_cases hop : none = if o.valid then o.me.port c else none
  · rw [if_pos hop] at h
    exact absurd rfl h
  · rw [if_neg hop] at h
    cases hv : o.valid with
    | false => exact absurd (by rw [hv]; rfl) hop
    | true =>
      rw [hv, if_pos rfl] at hop
      exact ⟨h, rfl, Option.isSome_iff_ne_none.mpr fun heq => hop heq.symm⟩

/-- An entry that is refused would have changed what the slot points to. -/
theorem psecAddrCheck_moves {fake : Bool} (h : (psecAddrCheck c st psec o n fake).2 ≠ .PAS_OK) :
    (if o.valid then o.me.port c else none) ≠ n.port c := by
  intro heq
  rw [psecAddrCheck, if_pos heq.symm] at h
  exact h rfl

/-- The check reads of the old entry whether it is valid, and where it points. -/
theorem psecAddrCheck_congr {o' : FdbEntry} (hv : o'.valid = o.valid) (hme : o'.me = o.me)
    (fake : Bool) : psecAddrCheck c st psec o' n fake = psecAddrCheck c st psec o n fake := by
  unfold psecAddrCheck
  rw [hv, hme]

end Psec

namespace Fdb

variable {c : FdbConf} {m : Fdbman} {f : Fdb} {mo : Moment} {e : MacEntry}

/-! ## Insertion -/

/-- The port that a slot points to, with a valid entry of a MAC address. -/
def pointsTo (c : FdbConf) (f : Fdb) (s : FdbSlot) : Option ℕ :=
  if (f.slot s).valid then (f.slot s).me.port c else none

/-- An entry without a port for a slot that a port's address holds: `psec_addr_check` returns a
status that it has not assigned. -/
def Unassigned (c : FdbConf) (f : Fdb) (mo : Moment) (e : MacEntry) (s : FdbSlot) : Prop :=
  f.chosen c mo e = some s ∧ e.port c = none ∧ (f.slot s).valid = true ∧
    ((f.slot s).me.port c).isSome

/-- An insertion that keeps all entries. The counters change only when the status that
`psec_addr_check` returns was never assigned. -/
structure Refused (c : FdbConf) (f : Fdb) (mo : Moment) (e : MacEntry) (fake : Bool)
    (r : Fdb × Status) : Prop where
  kept : KeptBut f.slot r.1.slot
  status : r.2 = .ST_OK → fake = true
  psec : r.1.psec = f.psec ∨ ∃ s, fake = false ∧ mo.st ≠ .PAS_OK ∧ Unassigned c f mo e s ∧
    r.1.psec = psecDel f.psec ((f.slot s).me.port c)
  badState : r.2 = .ST_BAD_STATE → ∃ s, f.chosen c mo e = some s ∧ f.pointsTo c s ≠ e.port c ∧
    (e.port c = none → mo.st ≠ .PAS_OK ∧ Unassigned c f mo e s)

/-- An insertion that writes slot `i` of bucket `b`. -/
structure Written (c : FdbConf) (m : Fdbman) (f : Fdb) (mo : Moment) (e : MacEntry) (secure : Bool)
    (b : FdbBucket) (i : Fin 4) (r : Fdb × Status) : Prop where
  status : r.2 = .ST_OK
  hash : c.hash e.key = some b
  /-- The slot holds the key already, or no slot of the bucket does. -/
  place : (f.slot (b, i)).me.key = e.key ∨ ∀ j, (f.slot (b, j)).me.key ≠ e.key
  slot : ∃ slot, KeptBut f.slot slot ∧
    r.1.slot = update slot (b, i) (write m mo e secure (slot (b, i)))
  psec : r.1.psec = (psecAddrCheck c mo.st f.psec (f.slot (b, i)) e false).1
  /-- The check let the entry pass. -/
  passed : (psecAddrCheck c mo.st f.psec (f.slot (b, i)) e false).2 = .PAS_OK

/-- The end of a real insertion: an entry that exists already is counted already, so the check is
that of a new one. -/
theorem enter_eq (f : Fdb) (mo : Moment) {e : MacEntry} (secure : Bool) {meExists : Bool}
    {s : FdbSlot}
    (hexists : meExists = true → (f.slot s).valid = true ∧ e.port c = (f.slot s).me.port c) :
    f.enter c m mo e secure false meExists s =
      if (psecAddrCheck c mo.st f.psec (f.slot s) e false).2 ≠ .PAS_OK then
        ({ f with psec := (psecAddrCheck c mo.st f.psec (f.slot s) e false).1 }, .ST_BAD_STATE)
      else (⟨update f.slot s (write m mo e secure (f.slot s)),
        (psecAddrCheck c mo.st f.psec (f.slot s) e false).1⟩, .ST_OK) := by
  have hcheck : psecAddrCheck c mo.st f.psec (f.slot s) e (false || meExists) =
      psecAddrCheck c mo.st f.psec (f.slot s) e false := by
    cases hme : meExists with
    | false => rfl
    | true =>
      obtain ⟨hv, hport⟩ := hexists hme
      simp [psecAddrCheck, hv, hport]
  unfold enter
  rw [hcheck]
  rfl

/-- The end of a fake insertion changes nothing. -/
theorem enter_fake (f : Fdb) (mo : Moment) (e : MacEntry) (secure meExists : Bool) (s : FdbSlot) :
    f.enter c m mo e secure true meExists s =
      (f, if (psecAddrCheck c mo.st f.psec (f.slot s) e true).2 ≠ .PAS_OK then .ST_BAD_STATE
        else .ST_OK) := by
  unfold enter
  simp only [Bool.true_or, psecAddrCheck_fake, if_true]
  split_ifs <;> rfl

/-- All that an insertion can do before port security is asked: it finds no place for the entry, or
chooses a slot that has the key, unless none of the bucket has. -/
theorem insert_chosen (c : FdbConf) (m : Fdbman) (f : Fdb) (mo : Moment) (e : MacEntry)
    (secure fake : Bool) :
    (f.chosen c mo e = none ∧ KeptBut f.slot (f.insert c m mo e secure fake).1.slot ∧
      (f.insert c m mo e secure fake).1.psec = f.psec ∧
      (f.insert c m mo e secure fake).2 ≠ .ST_OK ∧
      (f.insert c m mo e secure fake).2 ≠ .ST_BAD_STATE) ∨
    ∃ b i slot meExists, f.chosen c mo e = some (b, i) ∧ c.hash e.key = some b ∧
      KeptBut f.slot slot ∧
      ((f.slot (b, i)).me.key = e.key ∨ ∀ j, (f.slot (b, j)).me.key ≠ e.key) ∧
      (meExists = true → (slot (b, i)).valid = true ∧ e.port c = (slot (b, i)).me.port c) ∧
      f.insert c m mo e secure fake =
        Fdb.enter c m ⟨slot, f.psec⟩ mo e secure fake meExists (b, i) := by
  unfold insert
  cases hhash : c.hash e.key with
  | none => exact .inl ⟨by rw [chosen, hhash]; rfl, KeptBut.refl _, rfl, nofun, nofun⟩
  | some b =>
    rcases hscan : insertScan f.slot e mo.ts b bucketSlots none e.userDefined with ⟨slot, r⟩
    have hkept := insertScan_kept hscan
    simp only [insertAt, hscan, chosen, hhash, Option.bind_some]
    match r with
    | .ret st =>
      obtain ⟨hok, hbad⟩ := insertScan_ret hscan
      exact .inl ⟨rfl, hkept, rfl, hok, hbad⟩
    | .best none _ => exact .inl ⟨rfl, hkept, rfl, nofun, nofun⟩
    | .best (some i) meExists =>
      refine .inr ⟨b, i, slot, meExists, rfl, rfl, hkept, ?_, ?_, rfl⟩
      · refine (insertScan_best hscan).imp_right fun hall j => ?_
        exact hall j (mem_bucketSlots j)
      · rintro rfl
        obtain ⟨hv, hkey, hdst⟩ := insertScan_exists hscan
        rw [hkept.valid, hkept.me]
        exact ⟨hv, MacEntry.port_eq_of_samePort hkey hdst⟩

/-- An insertion whose entry port security lets pass, into the slot chosen. -/
theorem written_of_chosen (secure : Bool) {b : FdbBucket} {i : Fin 4}
    (hchosen : f.chosen c mo e = some (b, i))
    (hpass : (psecAddrCheck c mo.st f.psec (f.slot (b, i)) e false).2 = .PAS_OK) :
    Written c m f mo e secure b i (f.insert c m mo e secure false) := by
  rcases insert_chosen c m f mo e secure false with
    ⟨hnone, -⟩ | ⟨b', i', slot, meExists, hsome, hhash, hkept, hplace, hexists, heq⟩
  · exact nomatch hnone.symm.trans hchosen
  obtain ⟨rfl, rfl⟩ := Prod.mk.inj (Option.some_inj.mp (hsome.symm.trans hchosen))
  have hcongr : psecAddrCheck c mo.st f.psec (slot (b', i')) e false =
      psecAddrCheck c mo.st f.psec (f.slot (b', i')) e false :=
    psecAddrCheck_congr (hkept.valid (b', i')) (hkept.me (b', i')) false
  rw [enter_eq ⟨slot, f.psec⟩ mo secure hexists] at heq
  dsimp only at heq
  rw [hcongr, if_neg (not_not.mpr hpass)] at heq
  rw [heq]
  exact ⟨rfl, hhash, hplace, ⟨slot, hkept, rfl⟩, rfl, hpass⟩

/-- An insertion whose entry port security refuses. -/
theorem insert_of_chosen (secure : Bool) {s : FdbSlot} (hchosen : f.chosen c mo e = some s)
    (hstop : (psecAddrCheck c mo.st f.psec (f.slot s) e false).2 ≠ .PAS_OK) :
    KeptBut f.slot (f.insert c m mo e secure false).1.slot ∧
      (f.insert c m mo e secure false).1.psec =
        (psecAddrCheck c mo.st f.psec (f.slot s) e false).1 ∧
      (f.insert c m mo e secure false).2 = .ST_BAD_STATE := by
  rcases insert_chosen c m f mo e secure false with
    ⟨hnone, -⟩ | ⟨b, i, slot, meExists, hsome, -, hkept, -, hexists, heq⟩
  · exact nomatch hnone.symm.trans hchosen
  obtain rfl := Option.some_inj.mp (hsome.symm.trans hchosen)
  have hcongr : psecAddrCheck c mo.st f.psec (slot (b, i)) e false =
      psecAddrCheck c mo.st f.psec (f.slot (b, i)) e false :=
    psecAddrCheck_congr (hkept.valid (b, i)) (hkept.me (b, i)) false
  rw [enter_eq ⟨slot, f.psec⟩ mo secure hexists] at heq
  dsimp only at heq
  rw [hcongr, if_pos hstop] at heq
  rw [heq]
  exact ⟨hkept, rfl, rfl⟩

/-- What is refused would have moved an address, and without a port only the status that was never
assigned can refuse it. -/
theorem stopped_of_chosen {s : FdbSlot} {fake : Bool} (hchosen : f.chosen c mo e = some s)
    (hstop : (psecAddrCheck c mo.st f.psec (f.slot s) e fake).2 ≠ .PAS_OK) :
    f.pointsTo c s ≠ e.port c ∧
      (e.port c = none → mo.st ≠ .PAS_OK ∧ Unassigned c f mo e s) := by
  refine ⟨psecAddrCheck_moves hstop, fun hnone => ?_⟩
  obtain ⟨hne, hv, hsome⟩ := psecAddrCheck_noPort hnone _ hstop
  exact ⟨hne, hchosen, hnone, hv, hsome⟩

/-- All that an insertion can do. -/
theorem insert_cases (c : FdbConf) (m : Fdbman) (f : Fdb) (mo : Moment) (e : MacEntry)
    (secure fake : Bool) :
    Refused c f mo e fake (f.insert c m mo e secure fake) ∨
    (fake = false ∧ ∃ b i, Written c m f mo e secure b i (f.insert c m mo e secure fake)) := by
  rcases insert_chosen c m f mo e secure fake with
    ⟨-, hkept, hpsec, hok, hbad⟩ | ⟨b, i, slot, meExists, hchosen, -, hkept, -, -, heq⟩
  · exact .inl ⟨hkept, fun h => absurd h hok, .inl hpsec, fun h => absurd h hbad⟩
  cases fake with
  | true =>
    rw [enter_fake] at heq
    rw [heq]
    refine .inl ⟨hkept, fun _ => rfl, .inl rfl, fun hst => ⟨(b, i), hchosen, ?_⟩⟩
    refine @stopped_of_chosen _ _ _ _ _ true hchosen fun hpass => ?_
    rw [← psecAddrCheck_congr (hkept.valid (b, i)) (hkept.me (b, i))] at hpass
    exact nomatch (if_neg (not_not.mpr hpass)).symm.trans hst
  | false =>
    by_cases hpass : (psecAddrCheck c mo.st f.psec (f.slot (b, i)) e false).2 = .PAS_OK
    · exact .inr ⟨rfl, b, i, written_of_chosen secure hchosen hpass⟩
    · obtain ⟨hkept, hpsec, hst⟩ := insert_of_chosen (m := m) secure hchosen hpass
      have hstopped := stopped_of_chosen hchosen hpass
      refine .inl ⟨hkept, fun h => absurd (hst.symm.trans h) nofun, ?_,
        fun _ => ⟨(b, i), hchosen, hstopped⟩⟩
      rcases psecAddrCheck_cases c mo.st f.psec (f.slot (b, i)) e with
        ⟨-, heq⟩ | ⟨p, -, -, -, heq⟩ | ⟨p, -, -, -, heq⟩ | ⟨hnone, -, heq⟩
      · exact absurd (congrArg Prod.snd heq) hpass
      · exact .inl (hpsec.trans (congrArg Prod.fst heq))
      · exact absurd (congrArg Prod.snd heq) hpass
      · -- the old address is released all the same
        obtain ⟨hne, hU⟩ := hstopped.2 hnone
        refine .inr ⟨(b, i), rfl, hne, hU, hpsec.trans ((congrArg Prod.fst heq).trans ?_)⟩
        rw [if_pos hU.2.2.1]

/-! ## Lookup and removal -/

variable {b : FdbBucket} {k : MacKey} {i : Fin 4} {s t : FdbSlot} {sid : ℕ}

/-- A slot holds a valid entry of the key. -/
def Holds (f : Fdb) (s : FdbSlot) (k : MacKey) : Prop :=
  (f.slot s).valid = true ∧ (f.slot s).me.key = k

/-- An address that is found is held by the slot. -/
theorem holds_of_find (h : f.find b k = some i) : f.Holds (b, i) k := by
  have hi := List.find?_some h
  rw [Bool.and_eq_true, meKeyEq_iff] at hi
  exact ⟨hi.1, hi.2.symm⟩

/-- An address that is not found is held by no slot of the bucket. -/
theorem not_holds_of_find_none (h : f.find b k = none) (i : Fin 4) : ¬f.Holds (b, i) k := by
  rintro ⟨hv, hk⟩
  have hi := List.find?_eq_none.mp h i (mem_bucketSlots i)
  rw [Bool.and_eq_true, meKeyEq_iff] at hi
  exact hi ⟨hv, hk.symm⟩

@[simp] theorem setAging_me (bmp : Finset ℕ) : ((f.setAging s bmp).slot t).me = (f.slot t).me := by
  by_cases hts : t = s
  · subst hts
    simp [setAging]
  · simp [setAging, hts]

@[simp] theorem setAging_valid (bmp : Finset ℕ) :
    ((f.setAging s bmp).slot t).valid = (f.slot t).valid := by
  by_cases hts : t = s
  · subst hts
    simp [setAging]
  · simp [setAging, hts]

/-- The ages are set in one slot. -/
theorem setAging_pcAgingStatus (bmp : Finset ℕ) : ((f.setAging s bmp).slot t).pcAgingStatus =
    if t = s then bmp else (f.slot t).pcAgingStatus := by
  by_cases hts : t = s
  · subst hts
    simp [setAging]
  · simp [setAging, hts]

/-- Slot `s` is freed: its key and all other slots stay, and its port counts one address less. -/
structure Freed (c : FdbConf) (f : Fdb) (s : FdbSlot) (f' : Fdb) : Prop where
  other : ∀ t ≠ s, f'.slot t = f.slot t
  valid : (f'.slot s).valid = false
  me : (f'.slot s).me = (f.slot s).me
  psec : f'.psec = psecAddrDel c f.psec (f.slot s).me

/-- A freed slot is free, and the others are as they were. -/
theorem freed_free : Freed c f s (f.free c s) where
  other _ ht := update_of_ne ht _ _
  valid := by simp [free, FdbEntry.freed]
  me := by simp [free, FdbEntry.freed]
  psec := rfl

/-- A trunk entry on the master, reported aged by one unit while others have not reported it. -/
def Outstanding (c : FdbConf) (m : Fdbman) (s : FdbEntry) (sid : ℕ) : Prop :=
  m.master = c.stackId ∧ s.me.dst.type = .TRUNK ∧ sid ≠ 16 ∧ s.pcAgingStatus.erase sid ≠ ∅

/-- All that a removal can do. -/
theorem remove_cases (c : FdbConf) (m : Fdbman) (f : Fdb) (k : MacKey) (sid : ℕ) :
    ((f.remove c m k sid).1 = f ∧ (f.remove c m k sid).2 ≠ .ST_OK ∧
      ∀ b, c.hash k = some b → ∀ i, ¬f.Holds (b, i) k) ∨
    (∃ b i, c.hash k = some b ∧ f.Holds (b, i) k ∧
      ((Outstanding c m (f.slot (b, i)) sid ∧ f.remove c m k sid =
        (f.setAging (b, i) ((f.slot (b, i)).pcAgingStatus.erase sid), .ST_NOT_READY)) ∨
      (¬Outstanding c m (f.slot (b, i)) sid ∧ (f.remove c m k sid).2 = .ST_OK ∧
        Freed c f (b, i) (f.remove c m k sid).1))) := by
  unfold remove
  cases hhash : c.hash k with
  | none => exact .inl ⟨rfl, nofun, nofun⟩
  | some b =>
    cases hfind : f.find b k with
    | none =>
      simp only [hfind]
      refine .inl ⟨trivial, nofun, fun b' hb' i => ?_⟩
      obtain rfl := Option.some_inj.mp hb'
      exact not_holds_of_find_none hfind i
    | some i =>
      simp only [hfind]
      refine .inr ⟨b, i, rfl, holds_of_find hfind, ?_⟩
      by_cases htrunk : m.master = c.stackId ∧ (f.slot (b, i)).me.dst.type = .TRUNK ∧ sid ≠ 16
      · rw [if_pos htrunk]
        by_cases hleft : (f.slot (b, i)).pcAgingStatus.erase sid ≠ ∅
        · rw [if_pos hleft]
          exact .inl ⟨⟨htrunk.1, htrunk.2.1, htrunk.2.2, hleft⟩, rfl⟩
        · rw [if_neg hleft]
          have hfree := freed_free (c := c) (s := (b, i))
            (f := f.setAging (b, i) ((f.slot (b, i)).pcAgingStatus.erase sid))
          refine .inr ⟨fun h => hleft h.2.2.2, rfl, fun t ht => ?_, hfree.valid, ?_, ?_⟩
          · rw [hfree.other t ht]
            exact update_of_ne ht _ _
          · rw [hfree.me]
            simp [setAging]
          · rw [hfree.psec]
            simp [setAging]
      · rw [if_neg htrunk]
        exact .inr ⟨fun h => htrunk ⟨h.1, h.2.1, h.2.2.1⟩, rfl, freed_free⟩

/-! ## Flushes -/

/-- A flush does not touch the slots that are not among those given. -/
theorem flushSlots_of_notMem (hit : FdbEntry → Bool) {ss : List FdbSlot} (f : Fdb) (hs : s ∉ ss) :
    (flushSlots c hit ss f).slot s = f.slot s := by
  induction ss generalizing f with
  | nil => rfl
  | cons t ss ih =>
    obtain ⟨hst, hss⟩ := List.ne_and_not_mem_of_not_mem_cons hs
    rw [flushSlots, ih _ hss]
    split
    · exact update_of_ne hst _ _
    · rfl

/-- A flush frees the valid entries that match, among the slots given. -/
theorem flushSlots_of_mem (hit : FdbEntry → Bool) (hvalid : ∀ s, hit s = true → s.valid = true)
    {ss : List FdbSlot} (f : Fdb) (hs : s ∈ ss) :
    (flushSlots c hit ss f).slot s =
      if hit (f.slot s) = true then (f.slot s).freed else f.slot s := by
  induction ss generalizing f with
  | nil => exact absurd hs List.not_mem_nil
  | cons t ss ih =>
    rw [flushSlots]
    by_cases hst : s = t
    · subst hst
      have hnot : hit (f.slot s).freed ≠ true := fun h => by
        simpa [FdbEntry.freed] using hvalid _ h
      by_cases hss : s ∈ ss
      · -- freed once, the entry matches no more
        rw [ih _ hss]
        by_cases hhit : hit (f.slot s) = true
        · simp [hhit, free, hnot]
        · simp [hhit]
      · rw [flushSlots_of_notMem hit _ hss]
        split
        · exact update_self _ _ _
        · rfl
    · have hslot : (if hit (f.slot t) then f.free c t else f).slot s = f.slot s := by
        split
        · exact update_of_ne hst _ _
        · rfl
      rw [ih _ ((List.mem_cons.mp hs).resolve_left hst), hslot]

/-- The loop goes over all slots. -/
theorem mem_slots (s : FdbSlot) : s ∈ slots :=
  List.mem_product.mpr ⟨List.mem_finRange _, List.mem_finRange _⟩

/-- Only valid entries are flushed. -/
theorem valid_of_flushHit {vid : Option ℕ} {dst : DstInterface → Bool} {ds : Bool} {s : FdbEntry}
    (h : flushHit c vid dst ds s = true) : s.valid = true := by
  simp only [flushHit, Bool.and_eq_true] at h
  exact h.1.1.1

@[simp] theorem psecAfterFlush_slot (f : Fdb) : (f.psecAfterFlush c).slot = f.slot := rfl

/-- A flush frees the entries that it hits. -/
theorem flushBy_slot (vid : Option ℕ) (dst : DstInterface → Bool) (ds : Bool) (s : FdbSlot) :
    (f.flushBy c vid dst ds).slot s =
      if flushHit c vid dst ds (f.slot s) = true then (f.slot s).freed else f.slot s := by
  rw [flushBy, psecAfterFlush_slot,
    flushSlots_of_mem (flushHit c vid dst ds) (fun _ h => valid_of_flushHit h) f (mem_slots s)]

/-- The interfaces that `fdb_flush` flushes, unless it refuses. -/
def flushDst (c : FdbConf) (arg : FdbFlushArg) : Option (DstInterface → Bool) :=
  if ¬arg.vid.all c.vlanValid then none
  else
    match arg.port with
    | none => some fun _ => true
    | some pid => (portPtr c pid).map fun p d =>
        d.devNum == (c.portHw p).1 && d.portNum == (c.portHw p).2

/-- The interfaces that `fdb_flush_vif` flushes, unless it refuses. -/
def flushVifDst (c : FdbConf) (arg : FdbFlushArgVif) : Option (DstInterface → Bool) :=
  if ¬arg.vid.all c.vlanValid then none
  else
    match arg.vifid with
    | none => some fun _ => true
    | some id => (c.vif id).map fun iface d =>
        if iface.type = .PORT then
          d.type = .PORT && d.devNum == iface.devNum && d.portNum == iface.portNum
        else d.type = .TRUNK && d.trunkId == iface.trunkId

/-- `fdb_flush` refuses, or flushes by the VLAN and the port. -/
theorem flush_eq (arg : FdbFlushArg) :
    f.flush c arg = match flushDst c arg with
      | none => (f, .ST_BAD_VALUE)
      | some dst => (f.flushBy c arg.vid dst arg.ds, .ST_OK) := by
  unfold flush flushDst
  split
  · rfl
  · cases arg.port with
    | none => rfl
    | some pid => cases hp : portPtr c pid <;> simp [hp]

/-- `fdb_flush_vif` refuses, or flushes by the VLAN and the interface. -/
theorem flushVif_eq (arg : FdbFlushArgVif) :
    f.flushVif c arg = match flushVifDst c arg with
      | none => (f, .ST_BAD_VALUE)
      | some dst => (f.flushBy c arg.vid dst arg.ds, .ST_OK) := by
  unfold flushVif flushVifDst
  split
  · rfl
  · cases arg.vifid with
    | none => rfl
    | some id => cases hv : c.vif id <;> simp [hv]

end Fdb

end Presteramgr
