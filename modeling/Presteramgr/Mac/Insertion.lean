import Presteramgr.Mac.Buckets

/-!
# Which slot an insertion takes (`mac.c`)

`fdb_insert` looks for the key in the four slots of a bucket, valid or not, and remembers on the way
the first free slot or the entry of least priority. What it has chosen may still be refused by the
flap counter or by port security; a fake insertion goes the same way and writes nothing.

## Main definitions

* `HwFdb`: the table with what the hardware has, and `HwFdb.insert`;
* `FlapBlocks`: an address that moves too often;
* `Fdb.Orderly`: the invariant of the table;
* `HwFdb.PutIn`: an entry is put into a slot, unless port security refuses it;
* `HwFdb.InsertPolicy`: which slot, and what stays.

## Main results

* `HwFdb.insert_toFdb`: on the table `HwFdb.insert` is `Fdb.insert`;
* `HwFdb.insertion_policy`: the policy holds in every reachable state.
-/

namespace Presteramgr

open Function (update update_self update_of_ne)

/-! ## The hardware -/

/-- The devices, and `phys_dev`. -/
structure FdbDevs where
  devs : List ℕ
  physDev : ℕ → ℕ

/-- The table, and the entries last written to the devices. -/
structure HwFdb extends Fdb where
  hw : ℕ → FdbSlot → Option MacEntry

namespace HwFdb

variable (c : FdbConf) (h : FdbDevs) (m : Fdbman) (x : HwFdb)

/-- The entry that is written to a device. -/
def hwEntry (own : Bool) (e : MacEntry) (d : ℕ) : MacEntry :=
  if own then { e with dst := { e.dst with devNum := h.physDev d } } else e

/-- The end of `fdb_insert`, once slot `s` is chosen for the entry. -/
def enter (mo : Moment) (e : MacEntry) (own secure fake meExists : Bool) (s : FdbSlot) :
    HwFdb × Status :=
  let (psec, st) := psecAddrCheck c mo.st x.psec (x.slot s) e (fake || meExists)
  if st ≠ .PAS_OK then ({ x with psec := psec }, .ST_BAD_STATE)
  else if fake then ({ x with psec := psec }, .ST_OK)
  else
    ({ slot := update x.slot s (Fdb.write m mo e secure (x.slot s))
       psec := psec
       hw := fun d t => if d ∈ h.devs ∧ t = s then some (hwEntry h own e d) else x.hw d t }, .ST_OK)

/-- `fdb_insert`. -/
def insert (mo : Moment) (e : MacEntry) (own secure fake : Bool) : HwFdb × Status :=
  match c.hash e.key with
  | none => (x, .ST_HEX)
  | some b =>
    let (slot, r) := insertScan x.slot e mo.ts b bucketSlots none e.userDefined
    let x : HwFdb := { x with slot := slot }
    match r with
    | .ret st => (x, st)
    | .best none _ => (x, .ST_DOES_NOT_EXIST)
    | .best (some i) meExists => x.enter c h m mo e own secure fake meExists (b, i)

theorem enter_toFdb (mo : Moment) (e : MacEntry) (own secure fake meExists : Bool) (s : FdbSlot) :
    ((x.enter c h m mo e own secure fake meExists s).1.toFdb,
      (x.enter c h m mo e own secure fake meExists s).2) =
      x.toFdb.enter c m mo e secure fake meExists s := by
  unfold enter Fdb.enter
  dsimp only
  split_ifs <;> rfl

/-- On the table the insertion is that of `Fdb`. -/
theorem insert_toFdb (mo : Moment) (e : MacEntry) (own secure fake : Bool) :
    ((x.insert c h m mo e own secure fake).1.toFdb, (x.insert c h m mo e own secure fake).2) =
      x.toFdb.insert c m mo e secure fake := by
  unfold insert Fdb.insert
  cases c.hash e.key with
  | none => rfl
  | some b =>
    dsimp only [Fdb.insertAt]
    generalize insertScan x.slot e mo.ts b bucketSlots none e.userDefined = r
    match r with
    | (slot, .ret st) => rfl
    | (slot, .best none meExists) => rfl
    | (slot, .best (some i) meExists) =>
      exact enter_toFdb c h m { x with slot := slot } mo e own secure fake meExists (b, i)

end HwFdb

/-! ## The slot that is chosen -/

/-- The flap counter of an entry after it has met another one with its key. -/
def FdbEntry.flaps (s : FdbEntry) (e : MacEntry) (ts : ℕ) : UInt16 :=
  let n := if s.addrFlaps ≠ 0 ∧ s.tsAddrChange + FLAP_BLOCKING_TIMEOUT < ts then 0 else s.addrFlaps
  if e.userDefined = .FEP_DYN ∧ ts ≤ s.tsAddrChange + ANTIFLAPING_INTERVAL then n + 1 else n

/-- The address moves too often for an entry of low priority. -/
def FlapBlocks (s : FdbEntry) (e : MacEntry) (ts : ℕ) : Prop :=
  e.userDefined.rank ≤ FdbEntryPrio.FEP_DYN.rank ∧ MAX_FLAPS ≤ s.flaps e ts

/-- An entry lets another one with its key pass when it has no higher priority, and flap blocking
does not refuse. -/
theorem FdbEntry.meet_snd_eq_none (s : FdbEntry) (e : MacEntry) (ts : ℕ) :
    (s.meet e ts).2 = none ↔ s.me.userDefined.rank ≤ e.userDefined.rank ∧ ¬FlapBlocks s e ts := by
  unfold meet FlapBlocks flaps
  dsimp only
  split_ifs <;> simp_all

/-- How the scan ends at a slot with the key of the new entry. -/
def FdbEntry.hitEnd (s : FdbEntry) (e : MacEntry) (ts : ℕ) (i : Fin 4) : ScanEnd :=
  if s.valid then
    match (s.meet e ts).2 with
    | some st => .ret st
    | none => .best (some i) (e.dst.samePort s.me.dst)
  else .best (some i) false

section Scan

variable {slot : FdbSlot → FdbEntry} {e : MacEntry} {ts : ℕ} {b : FdbBucket} {best : Option (Fin 4)}
  {pri : FdbEntryPrio} {i : Fin 4}

/-- The scan ends at the first slot with the key. -/
theorem insertScan_hit {pre post : List (Fin 4)} (hpre : ∀ j ∈ pre, (slot (b, j)).me.key ≠ e.key)
    (hi : (slot (b, i)).me.key = e.key) :
    (insertScan slot e ts b (pre ++ i :: post) best pri).2 = (slot (b, i)).hitEnd e ts i := by
  induction pre generalizing best pri with
  | nil =>
    have hkey : meKeyEq e.key (slot (b, i)).me.key = true := (meKeyEq_iff _ _).mpr hi.symm
    rw [List.nil_append, insertScan, if_pos hkey, FdbEntry.hitEnd]
    split_ifs
    · rcases (slot (b, i)).meet e ts with ⟨s', _ | st⟩ <;> rfl
    · rfl
  | cons j pre ih =>
    obtain ⟨hj, hpre⟩ := List.forall_mem_cons.mp hpre
    have hkey : ¬meKeyEq e.key (slot (b, j)).me.key = true :=
      fun h => hj ((meKeyEq_iff _ _).mp h).symm
    rw [List.cons_append, insertScan, if_neg hkey]
    split_ifs <;> exact ih hpre

/-- What a scan without the key chooses among the slots `is`: a free one, or else the first of least
priority, if this is lower than the priority `pri` to beat. -/
def Chosen (slot : FdbSlot → FdbEntry) (b : FdbBucket) (is : List (Fin 4)) (best : Option (Fin 4))
    (pri : FdbEntryPrio) (r : Option (Fin 4)) : Prop :=
  (∃ i ∈ is, r = some i ∧ (slot (b, i)).valid = false) ∨
  (∀ j ∈ is, (slot (b, j)).valid = true) ∧
    ((∀ j ∈ is, pri.rank ≤ (slot (b, j)).me.userDefined.rank) ∧ r = best ∨
      ∃ i ∈ is, r = some i ∧ (slot (b, i)).me.userDefined.rank < pri.rank ∧
        ∀ j ∈ is, (slot (b, i)).me.userDefined.rank ≤ (slot (b, j)).me.userDefined.rank)

/-- Once a free slot is found, the scan keeps it. -/
theorem insertScan_unused {is : List (Fin 4)} (hkey : ∀ j ∈ is, (slot (b, j)).me.key ≠ e.key) :
    (insertScan slot e ts b is best .FEP_UNUSED).2 = .best best false := by
  induction is with
  | nil => rfl
  | cons j is ih =>
    obtain ⟨hj, hkey⟩ := List.forall_mem_cons.mp hkey
    have hno : ¬meKeyEq e.key (slot (b, j)).me.key = true :=
      fun h => hj ((meKeyEq_iff _ _).mp h).symm
    rw [insertScan, if_neg hno, if_pos rfl]
    exact ih hkey

/-- Without the key, the scan ends with the choice. -/
theorem insertScan_miss {is : List (Fin 4)} (best : Option (Fin 4))
    (hkey : ∀ j ∈ is, (slot (b, j)).me.key ≠ e.key)
    (hused : ∀ j ∈ is, (slot (b, j)).valid = true → (slot (b, j)).me.userDefined ≠ .FEP_UNUSED)
    (hpri : pri ≠ .FEP_UNUSED) : ∃ r, (insertScan slot e ts b is best pri).2 = .best r false ∧
      Chosen slot b is best pri r := by
  induction is generalizing best pri with
  | nil => exact ⟨best, rfl, .inr ⟨fun j hj => absurd hj List.not_mem_nil, .inl ⟨fun j hj =>
      absurd hj List.not_mem_nil, rfl⟩⟩⟩
  | cons j is ih =>
    obtain ⟨hj, hkey'⟩ := List.forall_mem_cons.mp hkey
    obtain ⟨husedj, hused⟩ := List.forall_mem_cons.mp hused
    have hno : ¬meKeyEq e.key (slot (b, j)).me.key = true :=
      fun h => hj ((meKeyEq_iff _ _).mp h).symm
    rw [insertScan, if_neg hno, if_neg hpri]
    by_cases hv : (slot (b, j)).valid = true
    · rw [if_neg (not_not.mpr hv)]
      by_cases hlower : (slot (b, j)).me.userDefined.rank < pri.rank
      · -- the slot is the one to beat from here on
        rw [if_pos hlower]
        obtain ⟨r, hr, hchosen⟩ := ih (some j) hkey' hused (husedj hv)
        refine ⟨r, hr, ?_⟩
        rcases hchosen with ⟨i, hi, hri, hfree⟩ | ⟨hvalid, ⟨hall, hri⟩ | ⟨i, hi, hri, hlt, hleast⟩⟩
        · exact .inl ⟨i, List.mem_cons_of_mem j hi, hri, hfree⟩
        · exact .inr ⟨List.forall_mem_cons.mpr ⟨hv, hvalid⟩,
            .inr ⟨j, List.mem_cons_self, hri, hlower,
            List.forall_mem_cons.mpr ⟨le_refl _, hall⟩⟩⟩
        · exact .inr ⟨List.forall_mem_cons.mpr ⟨hv, hvalid⟩,
            .inr ⟨i, List.mem_cons_of_mem j hi, hri,
            hlt.trans hlower, List.forall_mem_cons.mpr ⟨hlt.le, hleast⟩⟩⟩
      · rw [if_neg hlower]
        obtain ⟨r, hr, hchosen⟩ := ih best hkey' hused hpri
        refine ⟨r, hr, ?_⟩
        rcases hchosen with ⟨i, hi, hri, hfree⟩ | ⟨hvalid, ⟨hall, hri⟩ | ⟨i, hi, hri, hlt, hleast⟩⟩
        · exact .inl ⟨i, List.mem_cons_of_mem j hi, hri, hfree⟩
        · exact .inr ⟨List.forall_mem_cons.mpr ⟨hv, hvalid⟩, .inl ⟨List.forall_mem_cons.mpr
            ⟨not_lt.mp hlower, hall⟩, hri⟩⟩
        · exact .inr ⟨List.forall_mem_cons.mpr ⟨hv, hvalid⟩,
            .inr ⟨i, List.mem_cons_of_mem j hi, hri,
            hlt, List.forall_mem_cons.mpr ⟨hlt.le.trans (not_lt.mp hlower), hleast⟩⟩⟩
    · rw [if_pos hv]
      exact ⟨some j, insertScan_unused hkey',
        .inl ⟨j, List.mem_cons_self, rfl, Bool.eq_false_iff.mpr hv⟩⟩

end Scan

/-! ## The choice -/

namespace Fdb

variable {c : FdbConf} {f : Fdb} {mo : Moment} {e : MacEntry} {b : FdbBucket} {i : Fin 4}

/-- The slots of a bucket before a slot, the slot, and those after it. -/
theorem bucketSlots_eq (i : Fin 4) :
    bucketSlots = bucketSlots.filter (· < i) ++ i :: bucketSlots.filter (i < ·) := by
  revert i
  decide

/-- A bucket without the key, or the first slot with it. -/
theorem key_or_first (f : Fdb) (b : FdbBucket) (k : MacKey) :
    (∀ j, (f.slot (b, j)).me.key ≠ k) ∨
      ∃ i, (f.slot (b, i)).me.key = k ∧ ∀ j < i, (f.slot (b, j)).me.key ≠ k := by
  by_cases hex : ∃ i, (f.slot (b, i)).me.key = k
  · obtain ⟨i, hi, hmin⟩ := wellFounded_lt.has_min {i | (f.slot (b, i)).me.key = k} hex
    exact .inr ⟨i, hi, fun j hj heq => hmin j heq hj⟩
  · exact .inl (not_exists.mp hex)

/-- At the first slot with its key, an entry is chosen or refused. -/
theorem chosen_hit (hhash : c.hash e.key = some b) (hi : (f.slot (b, i)).me.key = e.key)
    (hfirst : ∀ j < i, (f.slot (b, j)).me.key ≠ e.key) :
    f.chosen c mo e = if (f.slot (b, i)).valid = true ∧ ((f.slot (b, i)).meet e mo.ts).2 ≠ none then
      none else some (b, i) := by
  have hpre : ∀ j ∈ bucketSlots.filter (· < i), (f.slot (b, j)).me.key ≠ e.key := by
    intro j hj
    exact hfirst j (of_decide_eq_true (List.mem_filter.mp hj).2)
  rw [chosen, hhash, Option.bind_some, bucketSlots_eq i, insertScan_hit hpre hi, FdbEntry.hitEnd]
  by_cases hv : (f.slot (b, i)).valid = true
  · cases hmeet : ((f.slot (b, i)).meet e mo.ts).2 with
    | none => simp [hv]
    | some st => simp [hv]
  · simp [hv]

/-- The slot chosen is the first with the key, or no slot of the bucket has the key. -/
theorem chosen_first (hchosen : f.chosen c mo e = some (b, i)) :
    c.hash e.key = some b ∧ ((∀ j, (f.slot (b, j)).me.key ≠ e.key) ∨
      (f.slot (b, i)).me.key = e.key ∧ ∀ j < i, (f.slot (b, j)).me.key ≠ e.key) := by
  have hhash : c.hash e.key = some b := by
    obtain ⟨b', hb', hmatch⟩ := Option.bind_eq_some_iff.mp hchosen
    split at hmatch
    · exact hb'.trans (congrArg some (congrArg Prod.fst (Option.some_inj.mp hmatch)))
    · exact absurd hmatch (by simp)
  refine ⟨hhash, (key_or_first f b e.key).imp_right ?_⟩
  rintro ⟨i', hi', hfirst⟩
  rw [chosen_hit hhash hi' hfirst] at hchosen
  split_ifs at hchosen
  obtain rfl := congrArg Prod.snd (Option.some_inj.mp hchosen)
  exact ⟨hi', hfirst⟩

/-! ## The invariant -/

/-- The valid entry of a key is in the first slot of its bucket that has the key, and has a
priority. -/
structure Orderly (c : FdbConf) (f : Fdb) : Prop where
  home : ∀ b i, (f.slot (b, i)).valid = true → c.hash (f.slot (b, i)).me.key = some b
  first : ∀ b i j, i < j → (f.slot (b, i)).me.key = (f.slot (b, j)).me.key →
    (f.slot (b, j)).valid = false
  used : ∀ s, (f.slot s).valid = true → (f.slot s).me.userDefined ≠ .FEP_UNUSED

namespace Orderly

variable {f' : Fdb} {m : Fdbman} {secure : Bool} {r : Fdb × Status}

theorem of_me (h : Orderly c f) (hme : ∀ t, (f'.slot t).me = (f.slot t).me)
    (hv : ∀ t, (f'.slot t).valid = true → (f.slot t).valid = true) : Orderly c f' := by
  refine ⟨fun b i ht => ?_, fun b i j hij heq => ?_, fun t ht => ?_⟩
  · rw [hme]
    exact h.home b i (hv _ ht)
  · rw [hme, hme] at heq
    have hold := h.first b i j hij heq
    exact Bool.eq_false_iff.mpr fun hj => absurd (hv _ hj) (Bool.eq_false_iff.mp hold)
  · rw [hme]
    exact h.used t (hv t ht)

theorem written (h : Orderly c f) (he : e.userDefined ≠ .FEP_UNUSED)
    (hchosen : f.chosen c mo e = some (b, i)) (hw : Written c m f mo e secure b i r) :
    Orderly c r.1 := by
  obtain ⟨slot, hkept, hslot⟩ := hw.slot
  have hself : (r.1.slot (b, i)).me = e := by
    rw [hslot, update_self]
    rfl
  have hother : ∀ t ≠ (b, i), (r.1.slot t).me = (f.slot t).me ∧
      (r.1.slot t).valid = (f.slot t).valid := by
    intro t ht
    rw [hslot, update_of_ne ht]
    exact ⟨hkept.me t, hkept.valid t⟩
  refine ⟨fun b' j ht => ?_, fun b' j k hjk heq => ?_, fun t ht => ?_⟩
  · by_cases hj : (b', j) = (b, i)
    · obtain ⟨rfl, rfl⟩ := Prod.mk.inj hj
      rw [hself]
      exact hw.hash
    · rw [(hother _ hj).2] at ht
      rw [(hother _ hj).1]
      exact h.home b' j ht
  · by_cases hj : (b', j) = (b, i)
    · -- behind the slot written, no valid slot has the key
      obtain ⟨rfl, rfl⟩ := Prod.mk.inj hj
      have hk : (b', k) ≠ (b', j) := fun h => hjk.ne' (congrArg Prod.snd h)
      rw [hself, (hother _ hk).1] at heq
      rw [(hother _ hk).2]
      rcases (chosen_first hchosen).2 with hno | ⟨hkey, -⟩
      · exact absurd heq.symm (hno k)
      · exact h.first b' j k hjk (hkey.trans heq)
    · by_cases hk : (b', k) = (b, i)
      · -- before it, no slot has the key
        obtain ⟨rfl, rfl⟩ := Prod.mk.inj hk
        rw [hself, (hother _ hj).1] at heq
        rcases (chosen_first hchosen).2 with hno | ⟨-, hfirst⟩
        · exact absurd heq (hno j)
        · exact absurd heq (hfirst j hjk)
      · rw [(hother _ hj).1, (hother _ hk).1] at heq
        rw [(hother _ hk).2]
        exact h.first b' j k hjk heq
  · by_cases hti : t = (b, i)
    · rw [hti, hself]
      exact he
    · rw [(hother t hti).2] at ht
      rw [(hother t hti).1]
      exact h.used t ht

theorem insert (h : Orderly c f) (fake : Bool) (he : e.userDefined ≠ .FEP_UNUSED) :
    Orderly c (f.insert c m mo e secure fake).1 := by
  rcases insert_chosen c m f mo e secure fake with
    ⟨-, hkept, -⟩ | ⟨b, i, slot, meExists, hchosen, -, hkept, -, -, heq⟩
  · exact h.of_me hkept.me fun t ht => (hkept.valid t).symm.trans ht
  cases fake with
  | true =>
    rw [heq, enter_fake]
    exact h.of_me hkept.me fun t ht => (hkept.valid t).symm.trans ht
  | false =>
    by_cases hpass : (psecAddrCheck c mo.st f.psec (f.slot (b, i)) e false).2 = .PAS_OK
    · exact h.written he hchosen (written_of_chosen secure hchosen hpass)
    · obtain ⟨hkept, -⟩ := insert_of_chosen (m := m) secure hchosen hpass
      exact h.of_me hkept.me fun t ht => (hkept.valid t).symm.trans ht

theorem remove (h : Orderly c f) (k : MacKey) (sid : ℕ) : Orderly c (f.remove c m k sid).1 := by
  rcases remove_cases c m f k sid with ⟨heq, -⟩ | ⟨b, i, -, -, ⟨-, heq⟩ | ⟨-, -, hfree⟩⟩
  · rwa [heq]
  · rw [heq]
    exact h.of_me (fun _ => setAging_me _) fun _ ht => (setAging_valid _).symm.trans ht
  · refine h.of_me (fun t => ?_) fun t ht => ?_
    · by_cases hti : t = (b, i)
      · rw [hti, hfree.me]
      · rw [hfree.other t hti]
    · by_cases hti : t = (b, i)
      · rw [hti, hfree.valid] at ht
        exact absurd ht (by decide)
      · rwa [hfree.other t hti] at ht

theorem flushBy (h : Orderly c f) (vid : Option ℕ) (dst : DstInterface → Bool) (ds : Bool) :
    Orderly c (f.flushBy c vid dst ds) := by
  have hslot := flushBy_slot (c := c) (f := f) vid dst ds
  generalize f.flushBy c vid dst ds = f' at hslot ⊢
  refine h.of_me (fun t => ?_) fun t ht => ?_
  · rw [hslot]
    split <;> rfl
  · rw [hslot] at ht
    split at ht
    · exact absurd ht (by simp [FdbEntry.freed])
    · exact ht

end Orderly

end Fdb

/-! ## The policy -/

namespace FdbRun

/-- Every caller of `fdb_insert` gives the entry a priority. -/
def Ranked (_ : FdbRun) : FdbOp → Prop
  | .insert _ _ e _ _ => e.userDefined ≠ .FEP_UNUSED
  | _ => True

theorem orderly_step {c : FdbConf} {s s' : FdbRun} {op : FdbOp} (h : Fdb.Orderly c s.fdb)
    (hok : Ranked s op) (hs : step c s op = some s') : Fdb.Orderly c s'.fdb := by
  obtain rfl := Option.some_inj.mp hs
  cases op with
  | insert m mo e secure fake => exact h.insert fake hok
  | remove m k sid => exact h.remove k sid
  | flush arg =>
    show Fdb.Orderly c (s.fdb.flush c arg).1
    rw [Fdb.flush_eq]
    cases Fdb.flushDst c arg with
    | none => exact h
    | some dst => exact h.flushBy arg.vid dst arg.ds
  | flushVif arg =>
    show Fdb.Orderly c (s.fdb.flushVif c arg).1
    rw [Fdb.flushVif_eq]
    cases Fdb.flushVifDst c arg with
    | none => exact h
    | some dst => exact h.flushBy arg.vid dst arg.ds

theorem orderly (c : FdbConf) (psec : ℕ → Psec) (s : FdbRun)
    (hr : Guarded.Reach (step c) Ranked (init psec) s) : Fdb.Orderly c s.fdb := by
  refine hr.invariant (fun s => Fdb.Orderly c s.fdb) ⟨fun b i hs => ?_, fun _ _ _ _ _ => rfl,
    fun s hs => ?_⟩ fun _ _ _ h hok hs => orderly_step h hok hs
  · exact absurd hs (by simp [init, FdbEntry.zero])
  · exact absurd hs (by simp [init, FdbEntry.zero])

end FdbRun

namespace HwFdb

variable (c : FdbConf) (h : FdbDevs) (mo : Moment) (e : MacEntry) (own fake : Bool)

/-- Port security lets the entry into the slot. -/
def Passes (x : HwFdb) (s : FdbSlot) : Prop :=
  (psecAddrCheck c mo.st x.psec (x.slot s) e fake).2 = .PAS_OK

/-- No slot has changed its entry or its validity, and the devices have what they had. -/
structure Unchanged (x x' : HwFdb) : Prop where
  me : ∀ s, (x'.slot s).me = (x.slot s).me
  valid : ∀ s, (x'.slot s).valid = (x.slot s).valid
  hw : x'.hw = x.hw

/-- The entry is in slot `s` and on the devices, and nothing else has changed. -/
structure PutIn (x : HwFdb) (s : FdbSlot) (x' : HwFdb) : Prop where
  me : (x'.slot s).me = e
  valid : (x'.slot s).valid = true
  other : ∀ t ≠ s, (x'.slot t).me = (x.slot t).me ∧ (x'.slot t).valid = (x.slot t).valid
  hw : ∀ d ∈ h.devs, x'.hw d s = some (hwEntry h own e d)
  hw_other : ∀ d t, d ∉ h.devs ∨ t ≠ s → x'.hw d t = x.hw d t

/-- The entry goes to slot `s`, if port security lets it. -/
structure Goes (x : HwFdb) (s : FdbSlot) (r : HwFdb × Status) : Prop where
  status : r.2 = .ST_OK ↔ Passes c mo e fake x s
  putIn : fake = false → r.2 = .ST_OK → PutIn h e own x s r.1

/-- What an insertion does to a table. -/
structure InsertPolicy (x : HwFdb) (r : HwFdb × Status) : Prop where
  unchanged : r.2 ≠ .ST_OK ∨ fake = true → Unchanged x r.1
  /-- An entry of higher priority stays. -/
  no_higher : ∀ s, (x.slot s).valid = true →
    e.userDefined.rank < (x.slot s).me.userDefined.rank →
      (r.1.slot s).me = (x.slot s).me ∧ (r.1.slot s).valid = true
  /-- The key is there: its entry is replaced, unless it has a higher priority, or flap blocking or
  port security refuses. -/
  present : ∀ s, x.Holds s e.key →
    (r.2 = .ST_OK ↔ (x.slot s).me.userDefined.rank ≤ e.userDefined.rank ∧
      ¬FlapBlocks (x.slot s) e mo.ts ∧ Passes c mo e fake x s) ∧
    (fake = false → r.2 = .ST_OK → PutIn h e own x s r.1)
  /-- The key is not there, and a slot is free. -/
  free : ∀ b, c.hash e.key = some b → (∀ s, ¬x.Holds s e.key) →
    (∃ i, (x.slot (b, i)).valid = false) →
      ∃ i, (x.slot (b, i)).valid = false ∧ Goes c h mo e own fake x (b, i) r
  /-- The key is not there, and no slot is free, but one has an entry of lower priority. -/
  victim : ∀ b, c.hash e.key = some b → (∀ s, ¬x.Holds s e.key) →
    (∀ i, (x.slot (b, i)).valid = true) →
    (∃ i, (x.slot (b, i)).me.userDefined.rank < e.userDefined.rank) →
      ∃ i, (x.slot (b, i)).me.userDefined.rank < e.userDefined.rank ∧
        (∀ j, (x.slot (b, i)).me.userDefined.rank ≤ (x.slot (b, j)).me.userDefined.rank) ∧
        Goes c h mo e own fake x (b, i) r
  /-- No entry has a lower priority. -/
  full : ∀ b, c.hash e.key = some b → (∀ s, ¬x.Holds s e.key) →
    (∀ i, (x.slot (b, i)).valid = true) →
    (∀ i, e.userDefined.rank ≤ (x.slot (b, i)).me.userDefined.rank) → r.2 = .ST_DOES_NOT_EXIST
  /-- The hash of the key could not be computed. -/
  no_bucket : c.hash e.key = none → r.2 = .ST_HEX

section Policy

variable {c h mo e own fake} {m : Fdbman} {secure meExists : Bool} {x : HwFdb} {s : FdbSlot}

/-- Port security decides the same for a fake insertion. -/
theorem psecAddrCheck_snd (st : PsecAddrStatus) (psec : ℕ → Psec) (o : FdbEntry) (n : MacEntry)
    (fake fake' : Bool) :
    (psecAddrCheck c st psec o n fake).2 = (psecAddrCheck c st psec o n fake').2 := by
  unfold psecAddrCheck
  cases n.port c with
  | none =>
    dsimp only
    split_ifs <;> rfl
  | some p =>
    dsimp only
    split_ifs <;> rfl

/-- The end of an insertion into slot `s`, when flap counters have changed only. -/
theorem enter_spec {slot : FdbSlot → FdbEntry} (hkept : KeptBut x.slot slot) {r : HwFdb × Status}
    (hr : r = HwFdb.enter c h m { x with slot := slot } mo e own secure fake meExists s) :
    Goes c h mo e own fake x s r ∧ (r.2 ≠ .ST_OK ∨ fake = true → Unchanged x r.1) := by
  have hcheck : (psecAddrCheck c mo.st x.psec (slot s) e (fake || meExists)).2 = .PAS_OK ↔
      Passes c mo e fake x s := by
    rw [Passes, psecAddrCheck_congr (hkept.valid s) (hkept.me s), psecAddrCheck_snd _ _ _ _ _ fake]
  rw [HwFdb.enter] at hr
  dsimp only at hr
  by_cases hpass : Passes c mo e fake x s
  · rw [if_neg (not_not.mpr (hcheck.mpr hpass))] at hr
    -- a trial run stops after the checks
    cases fake with
    | true =>
      rw [if_pos rfl] at hr
      subst hr
      exact ⟨⟨iff_of_true rfl hpass, fun h => absurd h (by decide)⟩,
        fun _ => ⟨hkept.me, hkept.valid, rfl⟩⟩
    | false =>
      rw [if_neg (by decide)] at hr
      subst hr
      refine ⟨⟨iff_of_true rfl hpass, fun _ _ => ?_⟩,
        fun hno => (hno.elim (absurd rfl ·) fun h => absurd h (by decide))⟩
      refine ⟨?_, ?_, fun t ht => ?_, fun d hd => if_pos ⟨hd, rfl⟩, fun d t hno => if_neg ?_⟩
      · dsimp only
        rw [update_self]
        rfl
      · dsimp only
        rw [update_self]
        rfl
      · dsimp only
        rw [update_of_ne ht]
        exact ⟨hkept.me t, hkept.valid t⟩
      · rintro ⟨hd, ht⟩
        exact hno.elim (absurd hd) (absurd ht)
  · rw [if_pos (fun hok => hpass (hcheck.mp hok))] at hr
    subst hr
    exact ⟨⟨iff_of_false (fun h => by cases h) hpass, fun _ h => by cases h⟩,
      fun _ => ⟨hkept.me, hkept.valid, rfl⟩⟩

/-- An insertion finds no slot, or goes to the slot chosen. -/
theorem insert_spec {r : HwFdb × Status} (hr : r = x.insert c h m mo e own secure fake) :
    (r.2 ≠ .ST_OK ∨ fake = true → Unchanged x r.1) ∧
    (x.toFdb.chosen c mo e = none → r.2 ≠ .ST_OK) ∧
    ∀ s, x.toFdb.chosen c mo e = some s → Goes c h mo e own fake x s r := by
  rw [HwFdb.insert] at hr
  cases hhash : c.hash e.key with
  | none =>
    simp only [hhash] at hr
    subst hr
    have hchosen : x.toFdb.chosen c mo e = none := by rw [Fdb.chosen, hhash, Option.bind_none]
    rw [hchosen]
    exact ⟨fun _ => ⟨fun _ => rfl, fun _ => rfl, rfl⟩, fun _ h => (by cases h),
      fun s h => by cases h⟩
  -- the slot is looked for in the bucket of the key
  | some b =>
    rcases hscan : insertScan x.slot e mo.ts b bucketSlots none e.userDefined with ⟨slot, z⟩
    have hkept := insertScan_kept hscan
    have hchosen : x.toFdb.chosen c mo e = x.toFdb.chosen c mo e := rfl
    conv_rhs at hchosen => rw [Fdb.chosen, hhash, Option.bind_some, hscan]
    simp only [hhash, hscan] at hr
    rcases z with st | ⟨_ | i, meExists⟩
    · dsimp only at hr hchosen
      subst hr
      rw [hchosen]
      exact ⟨fun _ => ⟨hkept.me, hkept.valid, rfl⟩, fun _ => (insertScan_ret hscan).1,
        fun s h => by cases h⟩
    · dsimp only at hr hchosen
      subst hr
      rw [hchosen]
      exact ⟨fun _ => ⟨hkept.me, hkept.valid, rfl⟩, fun _ h => (by cases h), fun s h => by cases h⟩
    · dsimp only at hchosen
      obtain ⟨hgoes, hun⟩ := enter_spec hkept hr
      rw [hchosen]
      refine ⟨hun, fun h => absurd h (Option.some_ne_none _), fun s hs => ?_⟩
      obtain rfl := Option.some_inj.mp hs
      exact hgoes

/-- A scan that chooses no slot. -/
theorem insert_none {b : FdbBucket} (hhash : c.hash e.key = some b)
    (hscan : (insertScan x.slot e mo.ts b bucketSlots none e.userDefined).2 = .best none meExists)
    {r : HwFdb × Status} (hr : r = x.insert c h m mo e own secure fake) :
    r.2 = .ST_DOES_NOT_EXIST := by
  rw [HwFdb.insert] at hr
  simp only [hhash, hscan] at hr
  rw [hr]

/-- What a hit of a valid entry means for the insertion. -/
theorem insert_present (hord : Fdb.Orderly c x.toFdb) (hs : x.toFdb.Holds s e.key)
    {r : HwFdb × Status}
    (hr : r = x.insert c h m mo e own secure fake) :
    (r.2 = .ST_OK ↔ (x.slot s).me.userDefined.rank ≤ e.userDefined.rank ∧
      ¬FlapBlocks (x.slot s) e mo.ts ∧ Passes c mo e fake x s) ∧
    (fake = false → r.2 = .ST_OK → PutIn h e own x s r.1) := by
  obtain ⟨b, i⟩ := s
  obtain ⟨hv, hkey⟩ := hs
  have hhash : c.hash e.key = some b := hkey ▸ hord.home b i hv
  have hfirst : ∀ j < i, (x.slot (b, j)).me.key ≠ e.key := by
    intro j hj heq
    have hno := hord.first b j i hj (heq.trans hkey.symm)
    exact absurd (hv.symm.trans hno) (by decide)
  obtain ⟨-, hnone, hsome⟩ := insert_spec hr
  rw [Fdb.chosen_hit hhash hkey hfirst] at hnone hsome
  by_cases hmeet : ((x.slot (b, i)).meet e mo.ts).2 = none
  · rw [if_neg (fun h => h.2 hmeet)] at hsome
    have hgoes := hsome (b, i) rfl
    obtain ⟨hrank, hflap⟩ := (FdbEntry.meet_snd_eq_none _ _ _).mp hmeet
    refine ⟨hgoes.status.trans ?_, hgoes.putIn⟩
    exact ⟨fun hpass => ⟨hrank, hflap, hpass⟩, fun hall => hall.2.2⟩
  · rw [if_pos ⟨hv, hmeet⟩] at hnone
    refine ⟨iff_of_false (hnone rfl) fun hall => hmeet ?_, fun _ hok => absurd hok (hnone rfl)⟩
    exact (FdbEntry.meet_snd_eq_none _ _ _).mpr ⟨hall.1, hall.2.1⟩

/-- A bucket without a valid entry of the key: a free slot is chosen, or the first of those of least
priority, or none. -/
theorem insert_absent (hord : Fdb.Orderly c x.toFdb) (he : e.userDefined ≠ .FEP_UNUSED)
    {b : FdbBucket}
    (hhash : c.hash e.key = some b) (hno : ∀ s, ¬x.toFdb.Holds s e.key) {r : HwFdb × Status}
    (hr : r = x.insert c h m mo e own secure fake) :
    (∃ i, (x.slot (b, i)).valid = false ∧ Goes c h mo e own fake x (b, i) r) ∨
    (∀ i, (x.slot (b, i)).valid = true) ∧
      ((∀ i, e.userDefined.rank ≤ (x.slot (b, i)).me.userDefined.rank) ∧ r.2 = .ST_DOES_NOT_EXIST ∨
        ∃ i, (x.slot (b, i)).me.userDefined.rank < e.userDefined.rank ∧
          (∀ j, (x.slot (b, i)).me.userDefined.rank ≤ (x.slot (b, j)).me.userDefined.rank) ∧
          Goes c h mo e own fake x (b, i) r) := by
  have hspec := (insert_spec hr).2.2
  rcases Fdb.key_or_first x.toFdb b e.key with hmiss | ⟨i, hkey, hfirst⟩
  · obtain ⟨z, hscan, hchosen⟩ := @insertScan_miss x.slot e mo.ts b e.userDefined bucketSlots none
      (fun j _ => hmiss j) (fun j _ => hord.used (b, j)) he
    have hz : x.toFdb.chosen c mo e = z.map (b, ·) := by
      rw [Fdb.chosen, hhash, Option.bind_some, hscan]
      cases z <;> rfl
    rw [hz] at hspec
    rcases hchosen with ⟨i, -, rfl, hfree⟩ | ⟨hvalid, ⟨hall, rfl⟩ | ⟨i, -, rfl, hlt, hleast⟩⟩
    · exact .inl ⟨i, hfree, hspec (b, i) rfl⟩
    · exact .inr ⟨fun i => hvalid i (mem_bucketSlots i),
        .inl ⟨fun i => hall i (mem_bucketSlots i), insert_none hhash hscan hr⟩⟩
    · exact .inr ⟨fun i => hvalid i (mem_bucketSlots i),
        .inr ⟨i, hlt, fun j => hleast j (mem_bucketSlots j), hspec (b, i) rfl⟩⟩
  · -- the key is still in a slot that was freed
    have hv : (x.slot (b, i)).valid = false := by
      by_contra hv
      exact hno (b, i) ⟨Bool.not_eq_false _ ▸ hv, hkey⟩
    rw [Fdb.chosen_hit hhash hkey hfirst,
      if_neg fun h => absurd (h.1.symm.trans hv) (by decide)] at hspec
    exact .inl ⟨i, hv, hspec (b, i) rfl⟩

/-- An entry goes to another slot than that of an entry of higher priority. -/
theorem insert_elsewhere (hord : Fdb.Orderly c x.toFdb) (he : e.userDefined ≠ .FEP_UNUSED)
    {r : HwFdb × Status} (hr : r = x.insert c h m mo e own secure fake) (hok : r.2 = .ST_OK)
    (hfake : fake = false) (hv : (x.slot s).valid = true)
    (hlt : e.userDefined.rank < (x.slot s).me.userDefined.rank) :
    ∃ t ≠ s, PutIn h e own x t r.1 := by
  cases hhash : c.hash e.key with
  | none =>
    rw [HwFdb.insert] at hr
    simp only [hhash] at hr
    subst hr
    cases hok
  | some b =>
    -- the slot of the key, a free one, or one of no higher rank
    by_cases hex : ∃ t, x.toFdb.Holds t e.key
    · obtain ⟨t, ht⟩ := hex
      obtain ⟨hst, hput⟩ := insert_present hord ht hr
      refine ⟨t, ?_, hput hfake hok⟩
      rintro rfl
      exact absurd (hst.mp hok).1 (not_le.mpr hlt)
    · rcases insert_absent hord he hhash (not_exists.mp hex) hr with
        ⟨i, hi, hgoes⟩ | ⟨-, ⟨-, hst⟩ | ⟨i, hi, -, hgoes⟩⟩
      · refine ⟨(b, i), ?_, hgoes.putIn hfake hok⟩
        rintro rfl
        exact absurd (hv.symm.trans hi) (by decide)
      · rw [hok] at hst
        cases hst
      · refine ⟨(b, i), ?_, hgoes.putIn hfake hok⟩
        rintro rfl
        exact absurd hi (not_lt.mpr hlt.le)

end Policy

/-- In every reachable table an insertion follows the policy, whatever the devices have. -/
theorem insertion_policy (psec : ℕ → Psec) (s : FdbRun)
    (hs : Guarded.Reach (FdbRun.step c) FdbRun.Ranked (FdbRun.init psec) s)
    (hw : ℕ → FdbSlot → Option MacEntry) (m : Fdbman) (secure : Bool)
    (he : e.userDefined ≠ .FEP_UNUSED) :
    InsertPolicy c h mo e own fake { s.fdb with hw := hw }
      (HwFdb.insert c h m { s.fdb with hw := hw } mo e own secure fake) := by
  have hord := FdbRun.orderly c psec s hs
  set x : HwFdb := { s.fdb with hw := hw }
  obtain ⟨r, hr⟩ : ∃ r, r = HwFdb.insert c h m x mo e own secure fake := ⟨_, rfl⟩
  rw [← hr]
  have hun := (insert_spec hr).1
  -- slots of higher rank; then the key in the table, a free slot, a lower one, none, no bucket
  refine ⟨hun, fun s hv hlt => ?_, fun s hs => insert_present hord hs hr,
    fun b hhash hno hfree => ?_,
    fun b hhash hno hvalid hlow => ?_, fun b hhash hno hvalid hhigh => ?_, fun hhash => ?_⟩
  · by_cases hreal : r.2 ≠ .ST_OK ∨ fake = true
    · exact ⟨(hun hreal).me s, ((hun hreal).valid s).trans hv⟩
    · obtain ⟨hok, hfake⟩ := not_or.mp hreal
      obtain ⟨t, hts, hput⟩ := insert_elsewhere hord he hr (not_not.mp hok)
        (Bool.not_eq_true fake ▸ hfake) hv hlt
      obtain ⟨hme, hval⟩ := hput.other s hts.symm
      exact ⟨hme, hval.trans hv⟩
  · rcases insert_absent hord he hhash hno hr with hgoes | ⟨hvalid, -⟩
    · exact hgoes
    · obtain ⟨i, hi⟩ := hfree
      exact absurd ((hvalid i).symm.trans hi) (by decide)
  · rcases insert_absent hord he hhash hno hr with ⟨i, hi, -⟩ | ⟨-, ⟨hall, -⟩ | hgoes⟩
    · exact absurd ((hvalid i).symm.trans hi) (by decide)
    · obtain ⟨i, hi⟩ := hlow
      exact absurd hi (not_lt.mpr (hall i))
    · exact hgoes
  · rcases insert_absent hord he hhash hno hr with ⟨i, hi, -⟩ | ⟨-, ⟨-, hst⟩ | ⟨i, hi, -⟩⟩
    · exact absurd ((hvalid i).symm.trans hi) (by decide)
    · exact hst
    · exact absurd hi (not_lt.mpr (hhigh i))
  · rw [hr, HwFdb.insert]
    simp only [hhash]

/-- The address learned on trunk 1 is replaced by an own one, on both devices. -/
theorem insertion_policy_own :
    let e : MacEntry := { FdbRun.trunkEntry with userDefined := .FEP_OWN, isStatic := true }
    e.userDefined ≠ .FEP_UNUSED ∧
    InsertPolicy FdbRun.conf₁ ⟨[0, 1], id⟩ ⟨300, .PAS_OK⟩ e true false
      { FdbRun.learned.fdb with hw := fun _ _ => none }
      (HwFdb.insert FdbRun.conf₁ ⟨[0, 1], id⟩ FdbRun.master₁
        { FdbRun.learned.fdb with hw := fun _ _ => none } ⟨300, .PAS_OK⟩ e true false false) := by
  have hdyn : FdbRun.trunkEntry.userDefined ≠ .FEP_UNUSED := by decide
  have h₀ : Guarded.Reach (FdbRun.step FdbRun.conf₁) FdbRun.Ranked (FdbRun.init FdbRun.psecOff)
    (FdbRun.init FdbRun.psecOff) := .init
  have hlearned := h₀.snoc
      (.insert FdbRun.master₁ ⟨200, .PAS_OK⟩ FdbRun.trunkEntry false false) hdyn
    (rfl : _ = some FdbRun.learned)
  exact ⟨by decide, insertion_policy FdbRun.conf₁ ⟨[0, 1], id⟩ ⟨300, .PAS_OK⟩ _ true false
    FdbRun.psecOff FdbRun.learned hlearned _ FdbRun.master₁ false (by decide)⟩

end HwFdb

end Presteramgr
