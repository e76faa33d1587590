import Presteramgr.Mac.Buckets

/-!
# Aging of trunk addresses

An address learned on a trunk may be in use on any unit, so the master removes it when all units
have reported it aged. The units that still have to report are noted when the entry is written, as
the units of the stack at that time, and the master takes no notice of units that join or leave
later: it does not wait for the former, and waits for the latter for ever.

A report names the trunk in the byte in which it names the device of a port, and
`fdb_mac_foreign_del` refuses devices over 31, so reports for trunks over 31 are lost.

## Main definitions

* `AgingRun`: the FDB manager and the table of a unit, and who has reported which address;
* `AgingRun.Prompt`: an entry is there only while a unit has not reported it;
* `AgingRun.Ok`: the units that have to report do not change, and no report is refused.

## Main results

* `AgingRun.aged_out`: then a trunk entry is removed by the last report, and not before;
* `AgingRun.not_aged_out`: a unit that leaves without a report keeps the entry for ever.
-/

namespace Presteramgr

open Function (update update_self update_of_ne)

/-- What happens on the master. -/
inductive AgingOp
  /-- An entry is written, by any of the callers of `fdb_insert`. -/
  | learn (mo : Moment) (e : MacEntry) (secure : Bool)
  /-- `fdb_old_addr`: the unit's own hardware reports the address aged. -/
  | oldAddr (k : MacKey)
  /-- A record of unit `sid` that reports an address aged, in `fdbman_handle_msg_update`. -/
  | report (sid : ℕ) (fr : PtiFdbr)
  /-- A removal on request. -/
  | delete (k : MacKey)
  | flush (arg : FdbFlushArg)
  | flushVif (arg : FdbFlushArgVif)
  | setMaster (info : SetMasterInfo)
  | ready (sender serial : ℕ) (devsbmp : Finset ℕ)

/-- The state of a unit, and for each key the units that have reported it aged since an entry was
last written for it. -/
structure AgingRun where
  man : Fdbman
  fdb : Fdb
  reported : MacKey → Finset ℕ

namespace AgingRun

variable (c : FdbConf)

/-- A step of a run. -/
def step (s : AgingRun) : AgingOp → Option AgingRun
  | .learn mo e secure =>
    let r := s.fdb.insert c s.man mo e secure false
    some { s with
      fdb := r.1
      reported := if r.2 = .ST_OK then update s.reported e.key ∅ else s.reported }
  | .oldAddr k =>
    some { s with
      fdb := (s.fdb.remove c s.man k c.stackId).1
      reported := update s.reported k (insert c.stackId (s.reported k)) }
  | .report sid fr =>
    some { s with
      fdb := (fdbMacForeignDel c s.man s.fdb fr sid).1
      reported := update s.reported fr.key (insert sid (s.reported fr.key)) }
  | .delete k => some { s with fdb := (s.fdb.remove c s.man k 16).1 }
  | .flush arg => some { s with fdb := (s.fdb.flush c arg).1 }
  | .flushVif arg => some { s with fdb := (s.fdb.flushVif c arg).1 }
  | .setMaster info => some { s with man := (s.man.setMaster c.stackId info).1 }
  | .ready sender serial bmp => some { s with man := s.man.masterReady c.stackId sender serial bmp }

/-- The unit after its start, with any counters. -/
def init (psec : ℕ → Psec) : AgingRun where
  man := Fdbman.start c.stackId
  fdb := ⟨fun _ => .zero, psec⟩
  reported := fun _ => ∅

/-- Keys that are learned have a VLAN, and reports come from units, to the master. -/
def Allowed (s : AgingRun) : AgingOp → Prop
  | .learn _ e _ => e.key.vlanId ≠ 0
  | .oldAddr _ => s.man.master = c.stackId ∧ c.stackId ≠ 16
  | .report sid _ => s.man.master = c.stackId ∧ sid ≠ 16
  | _ => True

/-- A slot holds a trunk entry. -/
def OnTrunk (f : Fdb) (t : FdbSlot) : Prop :=
  (f.slot t).valid = true ∧ (f.slot t).me.dst.type = .TRUNK

/-- The key that a report names, and the unit that reports it. -/
def reports : AgingOp → Option (MacKey × ℕ)
  | .oldAddr k => some (k, c.stackId)
  | .report sid fr => some (fr.key, sid)
  | _ => none

/-- No trunk entry is kept that every unit of the stack has reported aged. -/
def Prompt (s : AgingRun) : Prop :=
  ∀ t, OnTrunk s.fdb t → ¬s.man.devsbmp ⊆ s.reported (s.fdb.slot t).me.key

/-- For every trunk entry, the same units still have to report it when the units of the stack are
`devs`. -/
def SameMissing (s : AgingRun) (devs : Finset ℕ) : Prop :=
  ∀ t, OnTrunk s.fdb t → devs \ s.reported (s.fdb.slot t).me.key =
    s.man.devsbmp \ s.reported (s.fdb.slot t).me.key

/-- Trunk entries are learned only while the unit knows a unit of the stack, their reports are not
refused by `fdb_mac_foreign_del`, and a unit that joins or leaves has reported all trunk entries
that are there. -/
def Ok (s : AgingRun) : AgingOp → Prop
  | .learn _ e _ => e.dst.type = .TRUNK → s.man.devsbmp ≠ ∅
  | .report _ fr => (∃ t, OnTrunk s.fdb t ∧ (s.fdb.slot t).me.key = fr.key) →
      fr.vid < 0xFFF ∧ fr.hwdev ≤ 0x1f
  | .setMaster info => info.serial < s.man.serial ∨ SameMissing s info.dbmp
  | .ready _ serial bmp => c.stackId ∉ bmp ∨ serial < s.man.serial ∨ SameMissing s bmp
  | _ => True

/-- What holds in every state: the units noted in a trunk entry are the ones of the stack that have
not reported it, and there are some. -/
structure Noted (m : Fdbman) (f : Fdb) (reported : MacKey → Finset ℕ) : Prop where
  keys : FdbRun.Keys c f
  missing : ∀ t, OnTrunk f t →
    (f.slot t).pcAgingStatus = m.devsbmp \ reported (f.slot t).me.key
  some_missing : ∀ t, OnTrunk f t → (f.slot t).pcAgingStatus ≠ ∅

variable {c} {m m' : Fdbman} {f f' : Fdb} {reported reported' : MacKey → Finset ℕ} {k : MacKey}
  {sid : ℕ}

theorem noted_init (psec : ℕ → Psec) :
    Noted c (init c psec).man (init c psec).fdb (init c psec).reported where
  keys := (FdbRun.inv_init psec).keys
  missing _ ht := nomatch ht.1
  some_missing _ ht := nomatch ht.1

/-- No entry is kept longer than a unit has to report it. -/
theorem Noted.prompt (h : Noted c m f reported) : Prompt ⟨m, f, reported⟩ := by
  intro t ht hsub
  refine h.some_missing t ht ?_
  rw [h.missing t ht]
  exact Finset.sdiff_eq_empty_iff_subset.mpr hsub

/-- Removals on request leave the other entries as they are. -/
theorem Noted.of_freed (h : Noted c m f reported) (hkeys : FdbRun.Keys c f')
    (hsame : ∀ t, (f'.slot t).valid = true → f'.slot t = f.slot t) : Noted c m f' reported := by
  refine ⟨hkeys, fun t ht => ?_, fun t ht => ?_⟩
  all_goals
    have heq := hsame t ht.1
    have hold : OnTrunk f t := ⟨heq ▸ ht.1, heq ▸ ht.2⟩
    rw [heq]
  · exact h.missing t hold
  · exact h.some_missing t hold

/-- The units of the stack change, but not those that have to report an entry. -/
theorem Noted.of_devs (h : Noted c m f reported)
    (hsame : SameMissing ⟨m, f, reported⟩ m'.devsbmp) : Noted c m' f reported :=
  ⟨h.keys, fun t ht => (h.missing t ht).trans (hsame t ht).symm, h.some_missing⟩

/-- A report for a key that no trunk entry has. -/
theorem Noted.of_reported (h : Noted c m f reported)
    (hsame : ∀ t, OnTrunk f t →
      reported' (f.slot t).me.key = reported (f.slot t).me.key) : Noted c m f reported' := by
  refine ⟨h.keys, fun t ht => ?_, h.some_missing⟩
  rw [hsame t ht]
  exact h.missing t ht

/-- An insertion that keeps the entries keeps what is noted in them. -/
theorem Noted.of_kept (h : Noted c m f reported) (hkept : KeptBut f.slot f'.slot) :
    Noted c m f' reported := by
  refine ⟨h.keys.of_me hkept.me fun t ht => (hkept.valid t).symm.trans ht, fun t ht => ?_,
    fun t ht => ?_⟩
  all_goals
    have hold : OnTrunk f t := by
      unfold OnTrunk at ht ⊢
      rwa [hkept.valid, hkept.me] at ht
    rw [hkept.pcAgingStatus]
  · rw [hkept.me]
    exact h.missing t hold
  · exact h.some_missing t hold

/-- An entry that is written notes all units of the stack, and nobody has reported it. -/
theorem Noted.written (h : Noted c m f reported) {mo : Moment} {e : MacEntry} {secure : Bool}
    {b : FdbBucket} {i : Fin 4} {r : Fdb × Status} (hvlan : e.key.vlanId ≠ 0)
    (hdevs : e.dst.type = .TRUNK → m.devsbmp ≠ ∅) (hw : Fdb.Written c m f mo e secure b i r) :
    Noted c m r.1 (update reported e.key ∅) := by
  obtain ⟨hkeys, hother, hself⟩ := h.keys.written hvlan hw
  obtain ⟨slot, hkept, hslot⟩ := hw.slot
  have hpc : ∀ t ≠ (b, i), (r.1.slot t).pcAgingStatus = (f.slot t).pcAgingStatus := by
    intro t ht
    rw [hslot, update_of_ne ht, hkept.pcAgingStatus]
  have hnew : (r.1.slot (b, i)).pcAgingStatus = m.devsbmp := by
    rw [hslot, update_self]
    rfl
  have hold : ∀ t ≠ (b, i), OnTrunk r.1 t → OnTrunk f t := by
    intro t hti ht
    obtain ⟨hme, hv⟩ := hother t hti
    unfold OnTrunk at ht ⊢
    rwa [hme, hv] at ht
  refine ⟨hkeys, fun t ht => ?_, fun t ht => ?_⟩
  · by_cases hti : t = (b, i)
    · subst hti
      rw [hnew, hself.1, update_self, Finset.sdiff_empty]
    · -- an entry in another slot has another key
      have hkey : (r.1.slot t).me.key ≠ e.key := fun hk =>
        hti (hkeys.eq_of_holds ⟨ht.1, hk⟩ ⟨hself.2, congrArg MacEntry.key hself.1⟩)
      rw [hpc t hti, update_of_ne hkey, (hother t hti).1]
      exact h.missing t (hold t hti ht)
  · by_cases hti : t = (b, i)
    · subst hti
      rw [hnew]
      refine hdevs ?_
      have htrunk := ht.2
      rwa [hself.1] at htrunk
    · rw [hpc t hti]
      exact h.some_missing t (hold t hti ht)

/-- The entry of the key, if it is still there, has one unit less to wait for. -/
theorem Noted.ticked (h : Noted c m f reported) (hkeys : FdbRun.Keys c f')
    (hold : ∀ t, OnTrunk f' t → OnTrunk f t ∧ (f'.slot t).me = (f.slot t).me)
    (hother : ∀ t, OnTrunk f' t → (f.slot t).me.key ≠ k →
      (f'.slot t).pcAgingStatus = (f.slot t).pcAgingStatus)
    (hself : ∀ t, OnTrunk f' t → (f.slot t).me.key = k →
      (f'.slot t).pcAgingStatus = (f.slot t).pcAgingStatus.erase sid ∧
        (f.slot t).pcAgingStatus.erase sid ≠ ∅) :
    Noted c m f' (update reported k (insert sid (reported k))) := by
  refine ⟨hkeys, fun t ht => ?_, fun t ht => ?_⟩
  · obtain ⟨hft, hme⟩ := hold t ht
    rw [hme]
    by_cases hk : (f.slot t).me.key = k
    · rw [(hself t ht hk).1, hk, update_self, h.missing t hft, hk]
      ext u
      simp only [Finset.mem_erase, Finset.mem_sdiff, Finset.mem_insert, not_or]
      tauto
    · rw [hother t ht hk, update_of_ne hk]
      exact h.missing t hft
  · by_cases hk : (f.slot t).me.key = k
    · rw [(hself t ht hk).1]
      exact (hself t ht hk).2
    · rw [hother t ht hk]
      exact h.some_missing t (hold t ht).1

/-- A report on the master ticks off the unit, and removes a trunk entry when every unit has
reported it. -/
theorem Noted.aged (h : Noted c m f reported) (hm : m.master = c.stackId) (hsid : sid ≠ 16)
    (k : MacKey) :
    Noted c m (f.remove c m k sid).1 (update reported k (insert sid (reported k))) ∧
    ∀ t, OnTrunk f t → (f.slot t).me.key = k →
      (((f.remove c m k sid).1.slot t).valid = false ↔
        m.devsbmp ⊆ insert sid (reported k)) := by
  rcases Fdb.remove_cases c m f k sid with ⟨heq, -, hno⟩ | ⟨b, i, -, hold, hcases⟩
  · -- no slot holds the key
    have hne : ∀ t, OnTrunk f t → (f.slot t).me.key ≠ k := fun t ht hk =>
      hno t.1 (h.keys.hash_of_holds ⟨ht.1, hk⟩) t.2 ⟨ht.1, hk⟩
    rw [heq]
    exact ⟨h.of_reported fun t ht => update_of_ne (hne t ht) _ _,
      fun t ht hk => absurd hk (hne t ht)⟩
  have hslot : ∀ t, OnTrunk f t → (f.slot t).me.key = k → t = (b, i) := fun t ht hk =>
    h.keys.eq_of_holds ⟨ht.1, hk⟩ hold
  have hempty : ∀ t, OnTrunk f t → (f.slot t).me.key = k →
      ((f.slot t).pcAgingStatus.erase sid = ∅ ↔ m.devsbmp ⊆ insert sid (reported k)) := by
    intro t ht hk
    rw [h.missing t ht, hk, ← Finset.sdiff_eq_empty_iff_subset]
    simp only [Finset.ext_iff, Finset.mem_erase, Finset.mem_sdiff, Finset.mem_insert, not_or,
      Finset.notMem_empty, iff_false]
    exact forall_congr' fun u => by tauto
  rcases hcases with ⟨hout, heq⟩ | ⟨hout, -, hfree⟩
  · -- other devices are still missing, so only the status of the slot changes
    rw [heq]
    have hv : OnTrunk (f.setAging (b, i) ((f.slot (b, i)).pcAgingStatus.erase sid)) =
        OnTrunk f := by
      funext t
      unfold OnTrunk
      rw [Fdb.setAging_valid, Fdb.setAging_me]
    refine ⟨h.ticked (h.keys.of_me (fun _ => Fdb.setAging_me _) fun t ht => ?_) (fun t ht => ?_)
      (fun t ht hk => ?_) (fun t ht hk => ?_), fun t ht hk => ?_⟩
    · rwa [Fdb.setAging_valid] at ht
    · rw [hv] at ht
      exact ⟨ht, Fdb.setAging_me _⟩
    · rw [Fdb.setAging_pcAgingStatus, if_neg]
      rintro rfl
      exact hk hold.2
    · rw [hv] at ht
      obtain rfl := hslot t ht hk
      rw [Fdb.setAging_pcAgingStatus, if_pos rfl]
      exact ⟨rfl, hout.2.2.2⟩
    · obtain rfl := hslot t ht hk
      rw [Fdb.setAging_valid, ← hempty _ ht hk]
      exact ⟨fun hv => absurd (hold.1.symm.trans hv) (by decide),
        fun he => absurd he hout.2.2.2⟩
  · -- the last missing device has reported, and the slot is freed
    have hf : ∀ t, OnTrunk (f.remove c m k sid).1 t → t ≠ (b, i) := by
      rintro t ht rfl
      exact absurd (hfree.valid.symm.trans ht.1) (by decide)
    have hme : ∀ t, ((f.remove c m k sid).1.slot t).me = (f.slot t).me := by
      intro t
      by_cases hti : t = (b, i)
      · rw [hti, hfree.me]
      · rw [hfree.other t hti]
    have hfold : ∀ t, OnTrunk (f.remove c m k sid).1 t → OnTrunk f t := by
      intro t ht
      unfold OnTrunk at ht ⊢
      rwa [hfree.other t (hf t ht)] at ht
    refine ⟨h.ticked (h.keys.of_me hme fun t ht => ?_) (fun t ht => ⟨hfold t ht, hme t⟩)
      (fun t ht _ => ?_) (fun t ht hk => absurd (hslot t (hfold t ht) hk) (hf t ht)),
      fun t ht hk => ?_⟩
    · by_cases hti : t = (b, i)
      · rw [hti]
        exact hold.1
      · rwa [hfree.other t hti] at ht
    · rw [hfree.other t (hf t ht)]
    · -- the slot is still valid only where the table would have kept the entry
      obtain rfl := hslot t ht hk
      rw [← hempty _ ht hk]
      refine ⟨fun _ => ?_, fun _ => hfree.valid⟩
      by_contra hne
      exact hout ⟨hm, ht.2, hsid, hne⟩

/-- A flush frees entries and leaves the others as they are. -/
theorem Noted.flushBy (h : Noted c m f reported) (vid : Option ℕ) (dst : DstInterface → Bool)
    (ds : Bool) : Noted c m (f.flushBy c vid dst ds) reported := by
  have hslot := Fdb.flushBy_slot (c := c) (f := f) vid dst ds
  generalize f.flushBy c vid dst ds = f' at hslot ⊢
  have hsame : ∀ t, (f'.slot t).valid = true → f'.slot t = f.slot t := by
    intro t ht
    rw [hslot] at ht ⊢
    split_ifs with hhit
    · rw [if_pos hhit] at ht
      exact nomatch ht
    · rfl
  refine h.of_freed (h.keys.of_me (fun t => ?_) fun t ht => (hsame t ht) ▸ ht) hsame
  rw [hslot]
  split <;> rfl

/-- A removal on request frees its entry, whoever has reported it. -/
theorem Noted.delete (h : Noted c m f reported) (k : MacKey) :
    Noted c m (f.remove c m k 16).1 reported := by
  rcases Fdb.remove_cases c m f k 16 with ⟨heq, -, -⟩ | ⟨b, i, -, -, ⟨hout, -⟩ | ⟨-, -, hfree⟩⟩
  · rwa [heq]
  · exact absurd rfl hout.2.2.1
  · have hsame : ∀ t, ((f.remove c m k 16).1.slot t).valid = true →
        (f.remove c m k 16).1.slot t = f.slot t := by
      intro t ht
      refine hfree.other t ?_
      rintro rfl
      exact absurd (hfree.valid.symm.trans ht) (by decide)
    refine h.of_freed (h.keys.of_me (fun t => ?_) fun t ht => (hsame t ht) ▸ ht) hsame
    by_cases hti : t = (b, i)
    · rw [hti, hfree.me]
    · rw [hfree.other t hti]

/-- A configuration, or an announcement, after which the same units have to report. -/
theorem Noted.manager (h : Noted c m f reported) (devs : Finset ℕ)
    (hm : m' = m ∨ (m'.devsbmp = devs ∧ SameMissing ⟨m, f, reported⟩ devs)) :
    Noted c m' f reported := by
  rcases hm with rfl | ⟨rfl, hsame⟩
  · exact h
  · exact h.of_devs hsame

variable {s s' : AgingRun} {op : AgingOp}

/-- Every step keeps the invariant, and a report removes a trunk entry when all have reported it. -/
theorem Noted.step (h : Noted c s.man s.fdb s.reported) (hok : Allowed c s op) (hgood : Ok c s op)
    (hs : AgingRun.step c s op = some s') :
    Noted c s'.man s'.fdb s'.reported ∧
      ∀ k sid t, reports c op = some (k, sid) → OnTrunk s.fdb t → (s.fdb.slot t).me.key = k →
        ((s'.fdb.slot t).valid = false ↔ s.man.devsbmp ⊆ s'.reported k) := by
  cases op with
  | learn mo e secure =>
    obtain rfl := Option.some_inj.mp hs
    refine ⟨?_, nofun⟩
    -- an address that is refused is not noted
    rcases Fdb.insert_cases c s.man s.fdb mo e secure false with hr | ⟨-, b, i, hw⟩
    · have hst : (s.fdb.insert c s.man mo e secure false).2 ≠ .ST_OK := fun hst =>
        nomatch hr.status hst
      show Noted c s.man _ (if _ then _ else _)
      rw [if_neg hst]
      exact h.of_kept hr.kept
    · show Noted c s.man _ (if _ then _ else _)
      rw [if_pos hw.status]
      exact h.written hok hgood hw
  | oldAddr k =>
    obtain rfl := Option.some_inj.mp hs
    obtain ⟨hnoted, hgone⟩ := h.aged hok.1 hok.2 k
    refine ⟨hnoted, fun k' sid t hrep ht hk => ?_⟩
    obtain ⟨rfl, rfl⟩ := Prod.mk.inj (Option.some_inj.mp hrep)
    show _ ↔ s.man.devsbmp ⊆ update s.reported k (insert c.stackId (s.reported k)) k
    rw [update_self]
    exact hgone t ht hk
  | report sid fr =>
    obtain rfl := Option.some_inj.mp hs
    -- a record about an entry of a trunk is obeyed, so its unit counts as one that reported
    by_cases hex : ∃ t, OnTrunk s.fdb t ∧ (s.fdb.slot t).me.key = fr.key
    · obtain ⟨hvid, hdev⟩ := hgood hex
      have hvlan : fr.vid ≠ 0 := by
        obtain ⟨t, ht, hk⟩ := hex
        have hne := h.keys.vlan t ht.1
        rwa [hk] at hne
      have hpass : fdbMacForeignDel c s.man s.fdb fr sid = s.fdb.remove c s.man fr.key sid :=
        if_neg (by omega)
      obtain ⟨hnoted, hgone⟩ := h.aged hok.1 hok.2 fr.key
      refine ⟨?_, fun k' sid' t hrep ht hk => ?_⟩
      · show Noted c s.man (fdbMacForeignDel c s.man s.fdb fr sid).1 _
        rw [hpass]
        exact hnoted
      · obtain ⟨rfl, rfl⟩ := Prod.mk.inj (Option.some_inj.mp hrep)
        show ((fdbMacForeignDel c s.man s.fdb fr sid).1.slot t).valid = false ↔
          s.man.devsbmp ⊆ update s.reported fr.key (insert sid (s.reported fr.key)) fr.key
        rw [update_self, hpass]
        exact hgone t ht hk
    · -- no trunk entry has the key, so it is of no account whether the record is refused
      have hne : ∀ t, OnTrunk s.fdb t → (s.fdb.slot t).me.key ≠ fr.key := fun t ht hk =>
        hex ⟨t, ht, hk⟩
      refine ⟨?_, fun k' sid' t hrep ht hk => ?_⟩
      · show Noted c s.man (fdbMacForeignDel c s.man s.fdb fr sid).1 _
        unfold fdbMacForeignDel
        split
        · exact h.of_reported fun t ht => update_of_ne (hne t ht) _ _
        · exact (h.aged hok.1 hok.2 fr.key).1
      · obtain ⟨rfl, rfl⟩ := Prod.mk.inj (Option.some_inj.mp hrep)
        exact absurd hk (hne t ht)
  | delete k =>
    obtain rfl := Option.some_inj.mp hs
    exact ⟨h.delete k, nofun⟩
  | flush arg =>
    obtain rfl := Option.some_inj.mp hs
    refine ⟨?_, nofun⟩
    show Noted c s.man (s.fdb.flush c arg).1 s.reported
    rw [Fdb.flush_eq]
    split
    · exact h
    · exact h.flushBy _ _ _
  | flushVif arg =>
    obtain rfl := Option.some_inj.mp hs
    refine ⟨?_, nofun⟩
    show Noted c s.man (s.fdb.flushVif c arg).1 s.reported
    rw [Fdb.flushVif_eq]
    split
    · exact h
    · exact h.flushBy _ _ _
  | setMaster info =>
    obtain rfl := Option.some_inj.mp hs
    refine ⟨h.manager info.dbmp ?_, nofun⟩
    rcases Fdbman.setMaster_cases c.stackId s.man info with
      ⟨heq, -⟩ | ⟨hle, -, ⟨-, heq⟩ | ⟨-, heq⟩⟩
    · exact .inl heq
    all_goals
      refine .inr ⟨congrArg Fdbman.devsbmp heq, hgood.resolve_left ?_⟩
      omega
  | ready sender serial bmp =>
    obtain rfl := Option.some_inj.mp hs
    refine ⟨h.manager bmp ?_, nofun⟩
    rcases Fdbman.masterReady_cases c.stackId s.man sender serial bmp with
      ⟨heq, -⟩ | ⟨hle, -, heq⟩ | ⟨hle, -, heq⟩
    · exact .inl heq
    all_goals
      by_cases hbmp : c.stackId ∈ bmp
      · refine .inr ⟨congrArg Fdbman.devsbmp heq, ?_⟩
        refine (hgood.resolve_left (not_not.mpr hbmp)).resolve_left ?_
        omega
      · exact .inl (by rw [Fdbman.masterReady, if_pos hbmp])

/-- While the units that have to report stay the same and reports are not refused, a trunk entry is
there only while some unit of the stack has not reported it, and a report removes it exactly if all
have. -/
theorem aged_out (c : FdbConf) (psec : ℕ → Psec) (s : AgingRun)
    (hr : Guarded.Reach (step c) (fun s op => Allowed c s op ∧ Ok c s op) (init c psec) s) :
    Prompt s ∧
      ∀ op s', Allowed c s op → Ok c s op → AgingRun.step c s op = some s' →
        ∀ k sid t, reports c op = some (k, sid) → OnTrunk s.fdb t → (s.fdb.slot t).me.key = k →
          ((s'.fdb.slot t).valid = false ↔ s.man.devsbmp ⊆ s'.reported k) := by
  have h : Noted c s.man s.fdb s.reported :=
    hr.invariant (fun s => Noted c s.man s.fdb s.reported) (noted_init psec)
      fun _ _ _ h hok hs => (h.step hok.1 hok.2 hs).1
  exact ⟨h.prompt, fun op s' hok hgood hs => (h.step hok hgood hs).2⟩

/-! ### A unit that leaves -/

/-- Units 1 and 2 make a stack. -/
def stack₁₂ : SetMasterInfo := ⟨1, 1, {1, 2}⟩

/-- Unit 1 knows the stack and has learned an address on a trunk. -/
def onTrunk₁₂ : AgingRun :=
  let s := init FdbRun.conf₁ FdbRun.psecOff
  let s := (step FdbRun.conf₁ s (.setMaster stack₁₂)).getD s
  (step FdbRun.conf₁ s (.learn ⟨200, .PAS_OK⟩ FdbRun.trunkEntry false)).getD s

theorem reach_onTrunk₁₂ {ok : AgingRun → AgingOp → Prop}
    (hset : ok (init FdbRun.conf₁ FdbRun.psecOff) (.setMaster stack₁₂))
    (hlearn : ∀ s, s.man.devsbmp = {1, 2} →
      ok s (.learn ⟨200, .PAS_OK⟩ FdbRun.trunkEntry false)) :
    Guarded.Reach (step FdbRun.conf₁) ok (init FdbRun.conf₁ FdbRun.psecOff) onTrunk₁₂ := by
  have h₀ : Guarded.Reach (step FdbRun.conf₁) ok (init FdbRun.conf₁ FdbRun.psecOff)
    (init FdbRun.conf₁ FdbRun.psecOff) := .init
  have h₁ := h₀.snoc (.setMaster stack₁₂) hset rfl
  exact h₁.snoc (.learn ⟨200, .PAS_OK⟩ FdbRun.trunkEntry false) (hlearn _ (by decide)) rfl

/-- The entry waits for both units. -/
theorem aged_out_onTrunk₁₂ : Prompt onTrunk₁₂ ∧ OnTrunk onTrunk₁₂.fdb (0, 0) := by
  refine ⟨(aged_out FdbRun.conf₁ FdbRun.psecOff onTrunk₁₂ (reach_onTrunk₁₂ ?_ ?_)).1,
    by decide, by decide⟩
  · -- no entry is there yet
    exact ⟨trivial, .inr fun t ht => nomatch ht.1⟩
  · intro s hs
    have hvlan : FdbRun.trunkEntry.key.vlanId ≠ 0 := by decide
    exact ⟨hvlan, fun _ he => absurd (hs.symm.trans he) (by decide)⟩

/-- Unit 2 has left, and unit 1 reports the address aged. -/
def left₁₂ : AgingRun :=
  let s := (step FdbRun.conf₁ onTrunk₁₂ (.setMaster ⟨1, 2, {1}⟩)).getD onTrunk₁₂
  (step FdbRun.conf₁ s (.oldAddr (.macAddr 10 1))).getD s

/-- Unit 2 leaves without a report: unit 1, which is alone now, has reported the address, and the
entry stays. -/
theorem not_aged_out :
    Guarded.Reach (step FdbRun.conf₁) (Allowed FdbRun.conf₁)
      (init FdbRun.conf₁ FdbRun.psecOff) left₁₂ ∧ ¬Prompt left₁₂ := by
  have hvlan : FdbRun.trunkEntry.key.vlanId ≠ 0 := by decide
  have h₂ := @reach_onTrunk₁₂ (Allowed FdbRun.conf₁) trivial fun _ _ => hvlan
  have h₃ := h₂.snoc (.setMaster ⟨1, 2, {1}⟩) trivial rfl
  refine ⟨h₃.snoc (.oldAddr (.macAddr 10 1)) ⟨by decide, by decide⟩ rfl, fun h => ?_⟩
  exact h (0, 0) ⟨by decide, by decide⟩ (by decide)

end AgingRun

end Presteramgr
