import Presteramgr.Lib.Replica
import Presteramgr.Mac.Buckets

/-!
# What a table shows to the stack

The units of a stack shall have the same entries, but for each unit's own addresses: the same keys,
with the same destination and static flag. For each operation on a table this module says what it
does to that, as an action on each key by itself.

## Main definitions

* `MacEntry.shown`: destination and static flag of an entry that is no own address;
* `Fdb.Admits` and `Fdb.victim`: an entry is admitted, and the key that has to go for it;
* `Fdb.Shows`: the entries of a table, by key.

## Main results

* `Fdb.Shows.admitted`, `Fdb.Shows.refused`, `Fdb.Shows.remove`, `Fdb.Shows.flushBy`.
-/

namespace Presteramgr

open Function (update update_self update_of_ne)

/-- Where an entry leads, without the fields that its type does not use. -/
inductive Target
  | port (dev num : ℕ)
  | trunk (id : ℕ)
  | vidx (vidx : ℕ)
  | vid (vlanId : ℕ)
deriving DecidableEq, Repr

/-- Where an interface leads. -/
def DstInterface.target (d : DstInterface) : Target :=
  match d.type with
  | .PORT => .port d.devNum d.portNum
  | .TRUNK => .trunk d.trunkId
  | .VIDX => .vidx d.vidx
  | .VID => .vid d.vlanId

/-- Destination and static flag of an entry. -/
structure Shown where
  target : Target
  isStatic : Bool
deriving DecidableEq, Repr

/-- What an entry shows that is no own address of the unit. -/
def MacEntry.shows (e : MacEntry) : Shown := ⟨e.dst.target, e.isStatic⟩

/-- What an entry shows: nothing for an own address of the unit. -/
def MacEntry.shown (e : MacEntry) : Option Shown :=
  if e.userDefined = .FEP_OWN then none else some e.shows

/-- The slot chosen has the key, or no valid entry, or one of lower priority. -/
theorem insertScan_lower {slot slot' : FdbSlot → FdbEntry} {e : MacEntry} {ts : ℕ} {b : FdbBucket}
    {is : List (Fin 4)} {best : Option (Fin 4)} {pri : FdbEntryPrio} {i : Fin 4} {me : Bool}
    (h : insertScan slot e ts b is best pri = (slot', .best (some i) me))
    (hpri : pri.rank ≤ e.userDefined.rank)
    (hbest : ∀ j, best = some j → (slot (b, j)).valid = false ∨
      (slot (b, j)).me.userDefined.rank < e.userDefined.rank) :
    (slot (b, i)).me.key = e.key ∨ (slot (b, i)).valid = false ∨
      (slot (b, i)).me.userDefined.rank < e.userDefined.rank := by
  induction is generalizing best pri with
  | nil =>
    obtain ⟨hi, -⟩ := ScanEnd.best.inj (Prod.mk.inj h).2
    exact .inr (hbest i hi)
  | cons j is ih =>
    rw [insertScan] at h
    by_cases hkey : meKeyEq e.key (slot (b, j)).me.key = true
    · rw [if_pos hkey] at h
      have hij : j = i := by
        split_ifs at h
        · split at h
          · cases (Prod.mk.inj h).2
          · exact Option.some_inj.mp (ScanEnd.best.inj (Prod.mk.inj h).2).1
        · exact Option.some_inj.mp (ScanEnd.best.inj (Prod.mk.inj h).2).1
      subst hij
      exact .inl ((meKeyEq_iff _ _).mp hkey).symm
    · rw [if_neg hkey] at h
      split_ifs at h with hunused hvalid hlower
      · exact ih h hpri hbest
      · -- a lower entry is the best so far
        refine ih h (hlower.le.trans hpri) fun j' hj' => ?_
        obtain rfl := Option.some_inj.mp hj'
        exact .inr (lt_of_lt_of_le hlower hpri)
      · exact ih h hpri hbest
      · -- a free slot is the best of all
        refine ih h (Nat.zero_le _) fun j' hj' => ?_
        obtain rfl := Option.some_inj.mp hj'
        exact .inl (Bool.not_eq_true _ ▸ hvalid)

namespace Fdb

variable (c : FdbConf) (m : Fdbman) (f : Fdb) (mo : Moment) (e : MacEntry)

/-- The table has a place for the entry, and the port of the entry may count one more address. -/
def Admits : Prop :=
  ∃ s, f.chosen c mo e = some s ∧
    (psecAddrCheck c mo.st f.psec (f.slot s) e false).2 = .PAS_OK

instance : Decidable (f.Admits c mo e) :=
  match h : f.chosen c mo e with
  | none => isFalse fun ⟨s, hs, _⟩ => by rw [h] at hs; exact nomatch hs
  | some s =>
    if hp : (psecAddrCheck c mo.st f.psec (f.slot s) e false).2 = .PAS_OK then
      isTrue ⟨s, h, hp⟩
    else
      isFalse fun ⟨s', hs', hp'⟩ => by
        rw [h] at hs'
        obtain rfl := Option.some_inj.mp hs'
        exact hp hp'

/-- The key of another entry in the place that the table has for the entry. -/
def victim : Option MacKey :=
  (f.chosen c mo e).bind fun s =>
    if (f.slot s).valid ∧ (f.slot s).me.key ≠ e.key then some (f.slot s).me.key else none

/-- What the table shows at each key. All entries have at least the priority of dynamic ones. -/
def Shows (g : MacKey → Option Shown) : Prop :=
  ∃ live, FdbRun.Inv c ⟨f, live⟩ ∧
    (∀ k e, live k = some e → FdbEntryPrio.FEP_DYN.rank ≤ e.userDefined.rank) ∧
    g = fun k => (live k).bind MacEntry.shown

variable {c m f mo e} {secure : Bool} {s : FdbSlot} {g : MacKey → Option Shown}

/-! ## The place of an entry -/

/-- The slot chosen has the key, or no valid entry, or one of lower priority. -/
theorem chosen_lower (h : f.chosen c mo e = some s) :
    (f.slot s).me.key = e.key ∨ (f.slot s).valid = false ∨
      (f.slot s).me.userDefined.rank < e.userDefined.rank := by
  obtain ⟨b, -, hb⟩ := Option.bind_eq_some_iff.mp h
  rcases hscan : insertScan f.slot e mo.ts b bucketSlots none e.userDefined with ⟨slot, r⟩
  rw [hscan] at hb
  cases r with
  | ret st => exact nomatch hb
  | best bestIdx me =>
    cases bestIdx with
    | none => exact nomatch hb
    | some i =>
      obtain rfl := Option.some_inj.mp hb
      exact insertScan_lower hscan le_rfl nofun

/-- Dynamic entries have no victims. -/
theorem victim_eq_none (h : f.Shows c g) (hdyn : e.userDefined = .FEP_DYN) :
    f.victim c mo e = none := by
  obtain ⟨live, hinv, hrank, -⟩ := h
  refine Option.bind_eq_none_iff.mpr fun s hs => if_neg ?_
  rintro ⟨hv, hkey⟩
  rcases chosen_lower hs with hsame | hfree | hlower
  · exact hkey hsame
  · exact absurd (hv.symm.trans hfree) (by decide)
  · -- a valid entry is not lower than a dynamic one
    have hlive := (hinv.live _ _).mpr ⟨s, ⟨hv, rfl⟩, rfl⟩
    have hle : FdbEntryPrio.FEP_DYN.rank ≤ (f.slot s).me.userDefined.rank := hrank _ _ hlive
    rw [hdyn] at hlower
    omega

/-- The key that an insertion evicts is the victim's. -/
theorem evicted_iff_victim (hkeys : FdbRun.Keys c f) {b : FdbBucket} {i : Fin 4} {r : Fdb × Status}
    (hvlan : e.key.vlanId ≠ 0) (hchosen : f.chosen c mo e = some (b, i))
    (hw : Written c m f mo e secure b i r) {k : MacKey} (hk : k ≠ e.key) :
    FdbRun.evicted c f r.1 k = true ↔ f.victim c mo e = some k := by
  obtain ⟨-, hother, hself, -⟩ := hkeys.written hvlan hw
  have hvictim : f.victim c mo e = if (f.slot (b, i)).valid ∧ (f.slot (b, i)).me.key ≠ e.key
      then some (f.slot (b, i)).me.key else none := by
    rw [victim, hchosen, Option.bind_some]
  rw [FdbRun.evicted_iff hkeys, hvictim]
  constructor
  · rintro ⟨t, ht, hgone⟩
    have hti : t = (b, i) := by
      by_contra hne
      rw [(hother t hne).1] at hgone
      exact hgone ht.2
    subst hti
    rw [if_pos ⟨ht.1, fun heq => hk (ht.2.symm.trans heq)⟩, ht.2]
  · intro hsome
    split_ifs at hsome with hv
    obtain rfl := Option.some_inj.mp hsome
    refine ⟨(b, i), ⟨hv.1, rfl⟩, ?_⟩
    rw [hself]
    exact hv.2.symm

/-! ## What the operations do -/

namespace Shows

/-- What the table shows of a key is what a slot shows that holds it. -/
theorem eq_some_iff (h : f.Shows c g) (k : MacKey) (w : Shown) :
    g k = some w ↔ ∃ t, f.Holds t k ∧ (f.slot t).me.shown = some w := by
  obtain ⟨live, hinv, -, rfl⟩ := h
  refine Option.bind_eq_some_iff.trans ?_
  constructor
  · rintro ⟨e, he, hw⟩
    obtain ⟨t, ht, rfl⟩ := (hinv.live k e).mp he
    exact ⟨t, ht, hw⟩
  · rintro ⟨t, ht, hw⟩
    exact ⟨_, (hinv.live k _).mpr ⟨t, ht, rfl⟩, hw⟩

/-- New flap counters are not shown. -/
theorem of_kept {f' : Fdb} (h : f.Shows c g) (hkept : KeptBut f.slot f'.slot) : f'.Shows c g := by
  obtain ⟨live, hinv, hrank, rfl⟩ := h
  exact ⟨live, hinv.of_kept hkept.me hkept.valid, hrank, rfl⟩

/-- An entry that is admitted is written, and its victim is gone. -/
theorem admitted (h : f.Shows c g) (m : Fdbman) (secure : Bool) (hadm : f.Admits c mo e)
    (hvlan : e.key.vlanId ≠ 0)
    (hown : e.userDefined ≠ .FEP_OWN) (hlow : FdbEntryPrio.FEP_DYN.rank ≤ e.userDefined.rank) :
    (f.insert c m mo e secure false).2 = .ST_OK ∧
      (f.insert c m mo e secure false).1.Shows c
        fun k => Replica.write e.key e.shows (f.victim c mo e) k (g k) := by
  obtain ⟨live, hinv, hrank, rfl⟩ := h
  obtain ⟨⟨b, i⟩, hchosen, hpass⟩ := hadm
  have hw := written_of_chosen (m := m) secure hchosen hpass
  have hinv' : FdbRun.Inv c ⟨(f.insert c m mo e secure false).1,
    FdbRun.liveAfter c ⟨f, live⟩ (f.insert c m mo e secure false).1
      (f.insert c m mo e secure false).2 (.insert m mo e secure false)⟩ := hinv.insert hvlan
  refine ⟨hw.status, _, hinv', fun k e' hk => ?_, funext fun k => ?_⟩
  · simp only [FdbRun.liveAfter, hw.status, and_self, if_true] at hk
    split_ifs at hk
    · obtain rfl := Option.some_inj.mp hk
      exact hlow
    · exact hrank k e' hk
  · simp only [FdbRun.liveAfter, hw.status, and_self, if_true, Replica.write]
    by_cases hk : k = e.key
    · rw [if_pos hk, if_pos hk]
      exact (if_neg hown).symm
    · rw [if_neg hk, if_neg hk]
      by_cases hev : FdbRun.evicted c f (f.insert c m mo e secure false).1 k = true
      · rw [if_pos hev, if_pos ((evicted_iff_victim hinv.keys hvlan hchosen hw hk).mp hev)]
        rfl
      · rw [if_neg hev,
          if_neg fun hv => hev ((evicted_iff_victim hinv.keys hvlan hchosen hw hk).mpr hv)]

/-- An entry that is not admitted is refused, with `ST_BAD_STATE` if the table has a place for
it. -/
theorem refused (h : f.Shows c g) (m : Fdbman) (secure : Bool) (hadm : ¬f.Admits c mo e) :
    (f.insert c m mo e secure false).1.Shows c g ∧
      (f.insert c m mo e secure false).2 ≠ .ST_OK ∧
      ((f.insert c m mo e secure false).2 = .ST_BAD_STATE → (f.chosen c mo e).isSome) ∧
      ((f.chosen c mo e).isSome → (f.insert c m mo e secure false).2 = .ST_BAD_STATE) := by
  rcases insert_chosen c m f mo e secure false with
    ⟨hnone, hkept, -, hok, hbad⟩ | ⟨b, i, -, -, hchosen, -⟩
  · rw [hnone]
    exact ⟨h.of_kept hkept, hok, fun hst => absurd hst hbad, nofun⟩
  · obtain ⟨hkept, -, hst⟩ := insert_of_chosen (m := m) secure hchosen fun hpass =>
      hadm ⟨(b, i), hchosen, hpass⟩
    rw [hst, hchosen]
    exact ⟨h.of_kept hkept, nofun, fun _ => rfl, fun _ => rfl⟩

/-- A removal that succeeds erases the key. One that fails concerns a key that is not shown, or a
trunk entry of the master that other units have not reported. -/
theorem remove (h : f.Shows c g) (k : MacKey) (sid : ℕ) :
    ((f.remove c m k sid).2 = .ST_OK ∧
      (f.remove c m k sid).1.Shows c fun k' => Replica.erase k k' (g k')) ∨
    ((f.remove c m k sid).2 ≠ .ST_OK ∧ (f.remove c m k sid).1.Shows c g ∧
      (g k = none ∨ (m.master = c.stackId ∧ sid ≠ 16 ∧
        ∃ id st, g k = some ⟨.trunk id, st⟩))) := by
  obtain ⟨live, hinv, hrank, rfl⟩ := h
  have hinv' : FdbRun.Inv c ⟨(f.remove c m k sid).1, FdbRun.liveAfter c ⟨f, live⟩
    (f.remove c m k sid).1 (f.remove c m k sid).2 (.remove m k sid)⟩ := hinv.remove
  rcases remove_cases c m f k sid with
    ⟨heq, hst, hno⟩ | ⟨b, i, -, ht, ⟨hout, heq⟩ | ⟨-, hst, -⟩⟩
  · refine .inr ⟨hst, ⟨live, by rwa [heq], hrank, rfl⟩, .inl ?_⟩
    cases hk : live k with
    | none => exact congrArg (Option.bind · MacEntry.shown) hk
    | some e =>
      obtain ⟨t, ht, -⟩ := (hinv.live k e).mp hk
      exact absurd ht (hno t.1 (hinv.keys.hash_of_holds ht) t.2)
  · have hst : (f.remove c m k sid).2 ≠ .ST_OK := by
      rw [heq]
      nofun
    have hshows : (f.remove c m k sid).1.Shows c fun k => (live k).bind MacEntry.shown := by
      refine ⟨live, ?_, hrank, rfl⟩
      rw [heq]
      exact hinv.of_kept (fun _ => setAging_me _) fun _ => setAging_valid _
    refine .inr ⟨hst, hshows, ?_⟩
    have hlive : live k = some (f.slot (b, i)).me := (hinv.live k _).mpr ⟨(b, i), ht, rfl⟩
    dsimp only
    rw [hlive, Option.bind_some]
    unfold MacEntry.shown
    split_ifs
    · exact .inl rfl
    · refine .inr ⟨hout.1, hout.2.2.1, (f.slot (b, i)).me.dst.trunkId,
        (f.slot (b, i)).me.isStatic, ?_⟩
      rw [MacEntry.shows, DstInterface.target, hout.2.1]
  · simp only [FdbRun.liveAfter, hst, if_true] at hinv'
    refine .inl ⟨hst, _, hinv', fun k' e hk => ?_, funext fun k' => ?_⟩
    · by_cases hkk : k' = k
      · rw [hkk, update_self] at hk
        cases hk
      · rw [update_of_ne hkk] at hk
        exact hrank k' e hk
    · unfold Replica.erase
      by_cases hkk : k' = k
      · rw [if_pos hkk, hkk, update_self]
        rfl
      · rw [if_neg hkk, update_of_ne hkk]

/-- Without outstanding reports a removal erases the key, whatever it returns. -/
theorem remove_plain (h : f.Shows c g) (k : MacKey) {sid : ℕ}
    (hsid : sid = 16 ∨ m.master ≠ c.stackId) :
    (f.remove c m k sid).1.Shows c fun k' => Replica.erase k k' (g k') := by
  rcases h.remove (m := m) k sid with ⟨-, hshows⟩ | ⟨-, hshows, hcases⟩
  · exact hshows
  · rcases hcases with hnone | ⟨hmaster, hne, -⟩
    · have heq : (fun k' => Replica.erase k k' (g k')) = g := by
        funext k'
        unfold Replica.erase
        split_ifs with hk
        · rw [hk, hnone]
        · rfl
      rwa [heq]
    · exact absurd hmaster (hsid.resolve_left hne)

/-- A flush drops what it concerns, among the entries that are shown. -/
theorem flushBy (h : f.Shows c g) (vid : Option ℕ) (dst : DstInterface → Bool) (ds : Bool)
    {hit : MacKey → Shown → Bool}
    (hhit : ∀ t, (f.slot t).valid = true → (f.slot t).me.userDefined ≠ .FEP_OWN →
      FdbRun.flushed c vid dst ds (f.slot t).me =
        hit (f.slot t).me.key (f.slot t).me.shows) :
    (f.flushBy c vid dst ds).Shows c fun k => Replica.drop hit k (g k) := by
  obtain ⟨live, hinv, hrank, rfl⟩ := h
  refine ⟨_, hinv.flushBy vid dst ds, fun k e hk => hrank k e (Option.filter_eq_some_iff.mp hk).1,
    funext fun k => ?_⟩
  dsimp only
  cases hk : live k with
  | none => rfl
  | some e =>
    obtain ⟨t, ht, rfl⟩ := (hinv.live k e).mp hk
    have hkey : (f.slot t).me.key = k := ht.2
    unfold Replica.drop
    rw [Option.bind_some, Option.filter_some]
    by_cases hown : (f.slot t).me.userDefined = .FEP_OWN
    · -- an own address is not shown, whether it is flushed or not
      have hnone : (f.slot t).me.shown = none := if_pos hown
      rw [hnone]
      split <;> first | exact hnone.symm | rfl
    · have hsome : (f.slot t).me.shown = some (f.slot t).me.shows := if_neg hown
      rw [hsome, Option.filter_some, hhit t ht.1 hown, hkey]
      split
      · exact hsome.symm
      · rfl

/-- What the chosen slot shows when it holds no valid entry: the key is not in the table. -/
theorem eq_none_of_chosen (h : f.Shows c g) (hvlan : e.key.vlanId ≠ 0)
    (hchosen : f.chosen c mo e = some s) (hfree : (f.slot s).valid = false) : g e.key = none := by
  obtain ⟨live, hinv, -, rfl⟩ := h
  show (live e.key).bind MacEntry.shown = none
  cases hk : live e.key with
  | none => rfl
  | some e' =>
    obtain ⟨t, ht, -⟩ := (hinv.live _ e').mp hk
    rcases insert_chosen c (Fdbman.start 0) f mo e false false with
      ⟨hnone, -⟩ | ⟨b, i, -, -, hsome, hhash, -, hplace, -⟩
    · exact nomatch hnone.symm.trans hchosen
    obtain rfl := Option.some_inj.mp (hsome.symm.trans hchosen)
    have htb : t.1 = b :=
      Option.some_inj.mp ((hinv.keys.hash_of_holds ht).symm.trans hhash)
    obtain ⟨b', j⟩ := t
    obtain rfl : b' = b := htb
    rcases hplace with hsame | hall
    · -- the slot that holds the key would be the one chosen
      have hji : j = i := hinv.keys.unique b' j i (ht.2.trans hsame.symm) (by rwa [ht.2])
      subst hji
      exact absurd (hfree.symm.trans ht.1) (by decide)
    · exact absurd ht.2 (hall j)

end Shows

/-- Entries are inserted with a VLAN, and with the priority of a dynamic one at least. -/
def Entering (r : FdbRun) (op : FdbOp) : Prop :=
  FdbRun.Allowed r op ∧
    match op with
    | .insert _ _ e _ _ => FdbEntryPrio.FEP_DYN.rank ≤ e.userDefined.rank
    | _ => True

/-- A table that is reached shows something. -/
theorem shows_of_reach {psec : ℕ → Psec} {r : FdbRun}
    (hr : Guarded.Reach (FdbRun.step c) Entering (FdbRun.init psec) r) :
    r.fdb.Shows c fun k => (r.live k).bind MacEntry.shown := by
  have h : FdbRun.Inv c r ∧
      ∀ k e, r.live k = some e → FdbEntryPrio.FEP_DYN.rank ≤ e.userDefined.rank := by
    refine hr.invariant (fun r => FdbRun.Inv c r ∧
      ∀ k e, r.live k = some e → FdbEntryPrio.FEP_DYN.rank ≤ e.userDefined.rank)
      ⟨FdbRun.inv_init psec, fun _ _ => nofun⟩ ?_
    rintro r op r' ⟨hinv, hrank⟩ hok hs
    refine ⟨hinv.step hok.1 hs, fun k e hk => ?_⟩
    obtain rfl := Option.some_inj.mp hs
    cases op with
    | insert m mo e' secure fake =>
      simp only [FdbRun.liveAfter] at hk
      split_ifs at hk
      · obtain rfl := Option.some_inj.mp hk
        exact hok.2
      all_goals exact hrank k e hk
    | remove m k' sid =>
      simp only [FdbRun.liveAfter] at hk
      split_ifs at hk
      · by_cases hkk : k = k'
        · rw [hkk, update_self] at hk
          cases hk
        · rw [update_of_ne hkk] at hk
          exact hrank k e hk
      · exact hrank k e hk
    | flush arg => exact hrank k e (Option.filter_eq_some_iff.mp hk).1
    | flushVif arg => exact hrank k e (Option.filter_eq_some_iff.mp hk).1
  exact ⟨r.live, h.1, h.2, rfl⟩

/-- Two tables hold the same entries, but for own addresses. -/
def SameEntries (f f' : Fdb) : Prop :=
  ∀ k w, (∃ t, f.Holds t k ∧ (f.slot t).me.shown = some w) ↔
    ∃ t, f'.Holds t k ∧ (f'.slot t).me.shown = some w

/-- Tables hold the same entries when they show the same. -/
theorem sameEntries_iff {c' : FdbConf} {f' : Fdb} {g' : MacKey → Option Shown}
    (h : f.Shows c g) (h' : f'.Shows c' g') : SameEntries f f' ↔ g = g' := by
  constructor
  · intro hsame
    funext k
    ext w
    rw [h.eq_some_iff, h'.eq_some_iff]
    exact hsame k w
  · rintro rfl k w
    rw [← h.eq_some_iff, ← h'.eq_some_iff]

end Fdb

end Presteramgr
