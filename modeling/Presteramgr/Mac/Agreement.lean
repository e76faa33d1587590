import Presteramgr.Mac.Fencing
import Presteramgr.Mac.Replication

/-!
# Agreement of the tables of master and member

What each unit does with its table is an action at each key, and the same on both units when the
condition on the step holds. So, once the packets under way are applied, the member's table is the
master's, but for the addresses that the member has refused and asks the master to delete.

## Main results

* `ReplRun.Inv.step`: every step keeps the invariant;
* `ReplRun.agree_when_quiet`: with nothing under way the tables hold the same entries;
* `ReplRun.not_agree_when_quiet`: a flush of a port leaves different entries.
-/

namespace Presteramgr

open Replica (Agree)

variable {c : FdbConf} {m : Fdbman} {f : Fdb} {g : MacKey → Option Shown} {mo : Moment}
  {sid : ℕ}

/-! ## Requests -/

/-- Nothing is dropped. -/
theorem flushAct_none (c : FdbConf) (vid : Option ℕ) (ds : Bool) (g : MacKey → Option Shown) :
    (fun k => flushAct c vid ds none k (g k)) = g := by
  funext k
  unfold flushAct Replica.drop
  cases g k <;> rfl

/-- The execution of a request on the table. -/
theorem Fdb.Shows.macop (h : f.Shows c g) {arg : MacOpArgVif} (hvid : arg.vid ≠ 0) :
    (fdbMacOpVif c m mo f arg).1.Shows c
      fun k => macopAct c arg (took c f mo arg) k (g k) := by
  unfold fdbMacOpVif macopAct
  split_ifs
  · exact h.remove_plain arg.key (.inl rfl)
  · unfold fdbMacAddVif took
    cases arg.iface c with
    | none => exact h
    | some dst =>
      dsimp only
      by_cases hadm : f.Admits c mo (arg.entry dst)
      · rw [if_pos hadm]
        refine (h.admitted m _ hadm hvid ?_ ?_).2
        all_goals
          unfold MacOpArgVif.entry
          dsimp only
          split_ifs <;> decide
      · rw [if_neg hadm]
        exact (h.refused m _ hadm).1

/-- A flush of all ports, or of a port that hits nothing. -/
theorem Fdb.Shows.flush (h : f.Shows c g) {arg : FdbFlushArg}
    (hidle : ReplRun.PortIdle c f arg) :
    (f.flush c arg).1.Shows c
      fun k => flushAct c arg.vid arg.ds (flushHits c arg) k (g k) := by
  rw [Fdb.flush_eq]
  by_cases hvid : ¬arg.vid.all c.vlanValid
  · rw [Fdb.flushDst, if_pos hvid, flushHits, if_pos hvid, flushAct_none]
    exact h
  cases hport : arg.port with
  | none =>
    have hdst : Fdb.flushDst c arg = some fun _ => true := by
      rw [Fdb.flushDst, if_neg hvid, hport]
    rw [hdst, flushHits, if_neg hvid, hport]
    exact h.flushBy arg.vid _ arg.ds fun _ _ _ => rfl
  | some pid =>
    rw [flushHits, if_neg hvid, hport]
    dsimp only
    rw [flushAct_none]
    cases hdst : Fdb.flushDst c arg with
    | none => exact h
    | some dst =>
      -- a port of the unit, of which there is no entry
      have hnone := (hidle.resolve_left (by rw [hport]; nofun)) dst hdst
      have hflush := @Fdb.Shows.flushBy _ _ _ h arg.vid dst arg.ds (fun _ _ => false) hnone
      have hsame : (fun k => Replica.drop (fun _ _ => false) k (g k)) = g := by
        funext k
        unfold Replica.drop
        cases g k <;> rfl
      rw [hsame] at hflush
      exact hflush

/-- What a flush of an interface concerns depends on where an entry leads. -/
theorem hits_target (iface d : DstInterface) :
    (if iface.type = .PORT then
        decide (d.type = .PORT) && d.devNum == iface.devNum && d.portNum == iface.portNum
      else decide (d.type = .TRUNK) && d.trunkId == iface.trunkId) = iface.hits d.target := by
  unfold DstInterface.hits DstInterface.target
  by_cases hport : iface.type = .PORT
  · rw [if_pos hport]
    cases hd : d.type <;> simp [hport]
  · rw [if_neg hport]
    cases hd : d.type <;> simp [hport]

/-- A flush of an interface. -/
theorem Fdb.Shows.flushVif (h : f.Shows c g) (arg : FdbFlushArgVif) :
    (f.flushVif c arg).1.Shows c
      fun k => flushAct c arg.vid arg.ds (flushVifHits c arg) k (g k) := by
  rw [Fdb.flushVif_eq, Fdb.flushVifDst, flushVifHits]
  split_ifs with hvid
  · cases arg.vifid with
    | none => exact h.flushBy arg.vid _ arg.ds fun _ _ _ => rfl
    | some id =>
      cases hiface : c.vif id with
      | none =>
        simp only [hiface, Option.map_none, flushAct_none]
        exact h
      | some iface =>
        simp only [hiface, Option.map_some]
        refine h.flushBy arg.vid _ arg.ds fun t _ _ => ?_
        simp only [FdbRun.flushed, Option.any_some, MacEntry.shows, hits_target]
  · rw [flushAct_none]
    exact h

/-! ## Records -/

/-- What holds of the records in packets of the master: they name a VLAN, and those that delete pass
the checks of `fdb_mac_foreign_del`. -/
def PtiFdbr.Sound (fr : PtiFdbr) : Prop :=
  fr.vid ≠ 0 ∧ fr.vid < 0xFFF ∧ (fr.operation = .PTI_FDB_OP_DEL → fr.hwdev ≤ 0x1f)

/-- What a record does that adds an address. -/
theorem PtiFdbr.act_add {fr : PtiFdbr} (hop : fr.operation = .PTI_FDB_OP_ADD) :
    fr.act = Replica.write fr.key fr.entry.shows none := by
  rw [act, hop]

/-- What a record does that deletes an address. -/
theorem PtiFdbr.act_del {fr : PtiFdbr} (hop : fr.operation = .PTI_FDB_OP_DEL) :
    fr.act = Replica.erase fr.key := by
  rw [act, hop]

/-- A record that passes the checks is a removal. -/
theorem fdbMacForeignDel_eq {fr : PtiFdbr} (hvid : fr.vid ≠ 0) (hmax : fr.vid < 0xFFF)
    (hdev : fr.hwdev ≤ 0x1f) : fdbMacForeignDel c m f fr sid = f.remove c m fr.key sid :=
  if_neg (by omega)

/-- An addition of another unit, of which the key is written if it succeeds. -/
theorem Fdb.Shows.foreignAdd (h : f.Shows c g) {fr : PtiFdbr} {r : Fdb × Status}
    (hr : fdbMacForeignAdd c m mo f fr = some r) :
    fr.Valid c ∧ ((r.2 = .ST_OK ∧ r.1.Shows c
        fun k => Replica.write fr.key fr.entry.shows none k (g k)) ∨
      (r.2 ≠ .ST_OK ∧ r.1.Shows c g)) := by
  unfold fdbMacForeignAdd at hr
  split_ifs at hr with hvalid
  obtain rfl := Option.some_inj.mp hr
  refine ⟨hvalid, ?_⟩
  have hvlan : fr.entry.key.vlanId ≠ 0 := Nat.pos_iff_ne_zero.mp hvalid.1
  by_cases hadm : f.Admits c mo fr.entry
  · obtain ⟨hst, hshows⟩ := h.admitted m false hadm hvlan nofun le_rfl
    rw [Fdb.victim_eq_none h rfl] at hshows
    exact .inl ⟨hst, hshows⟩
  · obtain ⟨hshows, hst, -⟩ := h.refused m false hadm
    exact .inr ⟨hst, hshows⟩

/-- The loop of the master over the records of a member: what took effect is what is sent. -/
theorem Fdb.Shows.records {fa : List PtiFdbr} {mos : ℕ → Moment} {r : Fdb × List PtiFdbr}
    (h : f.Shows c g) (hr : updateLoop c m sid fa mos f = some r) :
    (r.1.Shows c fun k => Replica.run (r.2.map PtiFdbr.act) k (g k)) ∧ ∀ fr ∈ r.2, fr.Sound := by
  induction fa generalizing f g mos r with
  | nil =>
    obtain rfl := Option.some_inj.mp hr
    exact ⟨h, fun _ hfr => absurd hfr List.not_mem_nil⟩
  | cons fr fa ih =>
    obtain ⟨r₁, hr₁, hr⟩ := Option.bind_eq_some_iff.mp hr
    obtain ⟨r₂, hr₂, rfl⟩ := Option.map_eq_some_iff.mp hr
    -- the first record takes effect or does nothing
    have hone : (r₁.2 = .ST_OK ∧ r₁.1.Shows c (fun k => fr.act k (g k)) ∧ fr.Sound) ∨
        (r₁.2 ≠ .ST_OK ∧ r₁.1.Shows c g) := by
      cases hop : fr.operation with
      | PTI_FDB_OP_ADD =>
        rw [hop] at hr₁
        obtain ⟨hvalid, ⟨hst, hshows⟩ | hrefused⟩ := h.foreignAdd hr₁
        · refine .inl ⟨hst, ?_, Nat.pos_iff_ne_zero.mp hvalid.1, hvalid.2.1, ?_⟩
          · rwa [PtiFdbr.act_add hop]
          · rw [hop]
            nofun
        · exact .inr hrefused
      | PTI_FDB_OP_DEL =>
        rw [hop] at hr₁
        obtain rfl := Option.some_inj.mp hr₁
        unfold fdbMacForeignDel
        split_ifs with hcheck
        · exact .inr ⟨nofun, h⟩
        · rcases h.remove (m := m) fr.key sid with ⟨hst, hshows⟩ | ⟨hst, hshows, -⟩
          · refine .inl ⟨hst, ?_, by omega, by omega, fun _ => by omega⟩
            rwa [PtiFdbr.act_del hop]
          · exact .inr ⟨hst, hshows⟩
    rcases hone with ⟨hst, hshows, hsound⟩ | ⟨hst, hshows⟩
    · rw [if_pos hst]
      obtain ⟨hrest, hall⟩ := ih hshows hr₂
      exact ⟨hrest, List.forall_mem_cons.mpr ⟨hsound, hall⟩⟩
    · rw [if_neg hst]
      exact ih hshows hr₂

/-! ## Reports of the hardware -/

@[simp] theorem macFormFdbr_key (a : MacUpdate) (op : PtiFdbOp) (fr : PtiFdbr) :
    (macFormFdbr a op fr).key = a.key := rfl

@[simp] theorem macFormFdbr_operation (a : MacUpdate) (op : PtiFdbOp) (fr : PtiFdbr) :
    (macFormFdbr a op fr).operation = op := rfl

@[simp] theorem macFormFdbr_vid (a : MacUpdate) (op : PtiFdbOp) (fr : PtiFdbr) :
    (macFormFdbr a op fr).vid = a.vid := rfl

/-- The record of a port or a trunk shows the same as the entry. -/
theorem macFormFdbr_shows {a : MacUpdate} (htype : a.dst.type = .PORT ∨ a.dst.type = .TRUNK)
    (op : PtiFdbOp) (fr : PtiFdbr) : (macFormFdbr a op fr).entry.shows = a.entry.shows := by
  rcases htype with htype | htype <;>
    simp [MacEntry.shows, PtiFdbr.entry, PtiFdbr.dst, PtiFdbr.trunkId, macFormFdbr, MacUpdate.entry,
      DstInterface.target, htype]

/-- A report that a unit which is no member learns is an insertion, or does nothing. -/
theorem fdbNewAddr_cases {env : LearnEnv} {a : MacUpdate} {r : Fdb × Status}
    (hr : fdbNewAddr c m env mo f a false = some r) :
    r = (f, .ST_BAD_STATE) ∨ r = f.insert c m mo a.entry false false := by
  unfold fdbNewAddr at hr
  split_ifs at hr
  · split at hr
    · exact nomatch hr
    · exact .inl (Option.some_inj.mp hr).symm
    · split at hr
      · exact .inl (Option.some_inj.mp hr).symm
      · split_ifs at hr
        · exact .inr (Option.some_inj.mp hr).symm
        · exact .inl (Option.some_inj.mp hr).symm
  · exact .inr (Option.some_inj.mp hr).symm

/-- What the master learns from a report. -/
theorem Fdb.Shows.newAddr {env : LearnEnv} {a : MacUpdate} {r : Fdb × Status} (h : f.Shows c g)
    (hpos : 0 < a.vid) (hr : fdbNewAddr c m env mo f a false = some r) :
    (r.2 = .ST_OK ∧ r.1.Shows c fun k => Replica.write a.key a.entry.shows none k (g k)) ∨
      (r.2 ≠ .ST_OK ∧ r.1.Shows c g) := by
  rcases fdbNewAddr_cases hr with rfl | rfl
  · exact .inr ⟨nofun, h⟩
  · have hvlan : a.entry.key.vlanId ≠ 0 := Nat.pos_iff_ne_zero.mp hpos
    by_cases hadm : f.Admits c mo a.entry
    · obtain ⟨hst, hshows⟩ := h.admitted m false hadm hvlan nofun le_rfl
      rw [Fdb.victim_eq_none h rfl] at hshows
      exact .inl ⟨hst, hshows⟩
    · obtain ⟨hshows, hst, -⟩ := h.refused m false hadm
      exact .inr ⟨hst, hshows⟩

/-- A report on the master gives a record that stands for what it does, or does nothing. -/
theorem Fdb.Shows.updOne {env : LearnEnv} {a : MacUpdate} {r : Fdb × Option PtiFdbOp}
    (h : f.Shows c g) (hm : m.state ≠ .FST_MEMBER) (ha : a.Sound)
    (hage : a.updType = .CPSS_AA_E → a.dst.type = .TRUNK → a.dst.trunkId ≤ 0x1f)
    (hr : fdbUpdOne c m env mo f a = some r) (buf : PtiFdbr) :
    (∃ op, r.2 = some op ∧ r.1.Shows c (fun k => (macFormFdbr a op buf).act k (g k)) ∧
      (macFormFdbr a op buf).Sound) ∨ (r.2 = none ∧ r.1.Shows c g) := by
  obtain ⟨hpos, hmax, htype⟩ := ha
  have hlearn : ∀ r₀, fdbNewAddr c m env mo f a false = some r₀ →
      r = (r₀.1, if r₀.2 = .ST_OK then some .PTI_FDB_OP_ADD else none) →
      (∃ op, r.2 = some op ∧ r.1.Shows c (fun k => (macFormFdbr a op buf).act k (g k)) ∧
        (macFormFdbr a op buf).Sound) ∨ (r.2 = none ∧ r.1.Shows c g) := by
    rintro r₀ hr₀ rfl
    rcases h.newAddr hpos hr₀ with ⟨hst, hshows⟩ | ⟨hst, hshows⟩
    · refine .inl ⟨.PTI_FDB_OP_ADD, if_pos hst, ?_, hpos.ne', hmax, nofun⟩
      rw [PtiFdbr.act_add rfl, macFormFdbr_shows (htype.imp_left And.left)]
      exact hshows
    · exact .inr ⟨if_neg hst, hshows⟩
  unfold fdbUpdOne at hr
  have hfake : decide (m.state = .FST_MEMBER) = false := decide_eq_false hm
  cases hupd : a.updType with
  | CPSS_NA_E | CPSS_SA_E =>
    simp only [hupd, hfake] at hr
    obtain ⟨r₀, hr₀, heq⟩ := Option.map_eq_some_iff.mp hr
    exact hlearn r₀ hr₀ heq.symm
  | CPSS_AA_E =>
    simp only [hupd, if_neg hm] at hr
    by_cases hmode : env.ageWithRemoval = true
    · rw [if_pos hmode] at hr
      obtain rfl := Option.some_inj.mp hr
      rcases h.remove (m := m) a.key c.stackId with ⟨hst, hshows⟩ | ⟨hst, hshows, -⟩
      · refine .inl ⟨.PTI_FDB_OP_DEL, if_pos hst, ?_, hpos.ne', hmax, fun _ => ?_⟩
        · rw [PtiFdbr.act_del rfl]
          exact hshows
        · -- the byte that `fdb_mac_foreign_del` takes for a device
          rcases htype with ⟨hport, hdev⟩ | htrunk
          · simpa [macFormFdbr, hport] using hdev
          · simpa [macFormFdbr, htrunk] using hage hupd htrunk
      · exact .inr ⟨if_neg hst, hshows⟩
    · rw [if_neg hmode] at hr
      obtain rfl := Option.some_inj.mp hr
      exact .inr ⟨rfl, h⟩
  | other =>
    simp only [hupd] at hr
    obtain rfl := Option.some_inj.mp hr
    exact .inr ⟨rfl, h⟩

/-- The loop of the master over the reports of its hardware. -/
theorem Fdb.Shows.reports {env : LearnEnv} {as : List MacUpdate} {mos : ℕ → Moment}
    {buf : ℕ → PtiFdbr} {r : Fdb × List PtiFdbr} (h : f.Shows c g) (hm : m.state ≠ .FST_MEMBER)
    (has : ∀ a ∈ as, a.Sound)
    (hage : ∀ a ∈ as, a.updType = .CPSS_AA_E → a.dst.type = .TRUNK → a.dst.trunkId ≤ 0x1f)
    (hr : updLoop c m env as mos buf f = some r) :
    (r.1.Shows c fun k => Replica.run (r.2.map PtiFdbr.act) k (g k)) ∧ ∀ fr ∈ r.2, fr.Sound := by
  induction as generalizing f g mos buf r with
  | nil =>
    obtain rfl := Option.some_inj.mp hr
    exact ⟨h, fun _ hfr => absurd hfr List.not_mem_nil⟩
  | cons a as ih =>
    obtain ⟨r₁, hr₁, hr⟩ := Option.bind_eq_some_iff.mp hr
    have has' := fun b hb => has b (List.mem_cons_of_mem a hb)
    have hage' := fun b hb => hage b (List.mem_cons_of_mem a hb)
    rcases h.updOne hm (has a List.mem_cons_self) (hage a List.mem_cons_self) hr₁ (buf 0) with
      ⟨op, hop, hshows, hsound⟩ | ⟨hop, hshows⟩
    · rw [hop] at hr
      obtain ⟨r₂, hr₂, rfl⟩ := Option.map_eq_some_iff.mp hr
      obtain ⟨hrest, hall⟩ := ih hshows has' hage' hr₂
      exact ⟨hrest, List.forall_mem_cons.mpr ⟨hsound, hall⟩⟩
    · rw [hop] at hr
      exact ih hshows has' hage' hr

/-! ## Records that come back -/

/-- What a member asks the master to delete: an address on a port. -/
def PtiFdbr.Refusal (fr : PtiFdbr) : Prop := fr.Sound ∧ fr.operation = .PTI_FDB_OP_DEL

/-- The keys that records name. -/
def recordKeys (fa : List PtiFdbr) : Set MacKey := {k | ∃ fr ∈ fa, fr.key = k}

/-- An entry that leads to a port. -/
def Shown.IsPort (w : Shown) : Prop := ∃ dev num, w.target = .port dev num

theorem recordKeys_cons (fr : PtiFdbr) (fa : List PtiFdbr) :
    recordKeys (fr :: fa) = insert fr.key (recordKeys fa) := by
  ext k
  simp [recordKeys, eq_comm]

variable {late : Set MacKey} {gM gU : MacKey → Option Shown}
  {acts : List (Replica.Act MacKey Shown)}

/-- An entry that port security refuses, in a free slot, leads to a port. -/
theorem isPort_of_limited {fr : PtiFdbr} {t : FdbSlot} (hfree : (f.slot t).valid = false)
    (hstop : (psecAddrCheck c mo.st f.psec (f.slot t) fr.entry false).2 ≠ .PAS_OK) :
    fr.type = .IFTYPE_PORT := by
  by_contra htype
  have htrunk : fr.dst.type ≠ .PORT := by
    unfold PtiFdbr.dst
    cases hft : fr.type with
    | IFTYPE_PORT => exact absurd hft htype
    | IFTYPE_TRUNK => nofun
  have hport : fr.entry.port c = none := if_neg fun h => htrunk h.2
  refine hstop (congrArg Prod.snd (if_pos ?_))
  rw [hport, hfree]
  rfl

/-- The loop of the member over the records of the master. What it refuses is late, and sent
back. -/
theorem Fdb.Shows.blck {fa : List PtiFdbr} {mos : ℕ → Moment} {r : Fdb × List PtiFdbr}
    (h : f.Shows c gU) (hagree : Agree late Shown.IsPort gM gU (fa.map PtiFdbr.act ++ acts))
    (hacts : ∀ a ∈ acts, Replica.Plain a) (hsound : ∀ fr ∈ fa, fr.Sound)
    (hok : ReplRun.OkRecords c m sid fa mos f) (hm : m.master ≠ c.stackId)
    (hr : fdbMacForeignBlck c m sid fa mos f = some r) :
    ∃ gU', r.1.Shows c gU' ∧ Agree (late ∪ recordKeys r.2) Shown.IsPort gM gU' acts ∧
      ∀ fr ∈ r.2, fr.Refusal := by
  -- on the records of the packet
  induction fa generalizing f gU mos r late with
  | nil =>
    obtain rfl := Option.some_inj.mp hr
    exact ⟨gU, h, hagree.mono Set.subset_union_left, fun _ hfr => absurd hfr List.not_mem_nil⟩
  | cons fr fa ih =>
    have hsound' := fun x hx => hsound x (List.mem_cons_of_mem fr hx)
    rw [fdbMacForeignBlck] at hr
    rw [ReplRun.OkRecords] at hok
    rw [List.map_cons, List.cons_append] at hagree
    cases hop : fr.operation with
    -- a deletion takes the entry away on both sides
    | PTI_FDB_OP_DEL =>
      rw [hop] at hr hok
      obtain ⟨hvid, hmax, hdev⟩ := hsound fr List.mem_cons_self
      dsimp only at hr hok
      rw [fdbMacForeignDel_eq hvid hmax (hdev hop)] at hr hok
      rw [PtiFdbr.act_del hop] at hagree
      exact ih (h.remove_plain fr.key (.inr hm)) hagree.pop hsound' hok hr
    | PTI_FDB_OP_ADD =>
      rw [hop] at hr hok
      obtain ⟨r₁, hr₁, hr⟩ := Option.bind_eq_some_iff.mp hr
      obtain ⟨r₂, hr₂, rfl⟩ := Option.map_eq_some_iff.mp hr
      unfold fdbMacForeignAdd at hr₁
      split_ifs at hr₁ with hvalid
      obtain rfl := Option.some_inj.mp hr₁
      have hvlan : fr.entry.key.vlanId ≠ 0 := Nat.pos_iff_ne_zero.mp hvalid.1
      rw [PtiFdbr.act_add hop] at hagree
      -- an addition is admitted, or refused for a chosen victim
      by_cases hadm : f.Admits c (mos 0) fr.entry
      · obtain ⟨hst, hshows⟩ := h.admitted m false hadm hvlan nofun le_rfl
        rw [Fdb.victim_eq_none h rfl] at hshows
        have hkeep : (f.insert c m (mos 0) fr.entry false false).2 ≠ .ST_BAD_STATE := by
          rw [hst]
          nofun
        rw [if_neg hkeep]
        exact ih hshows hagree.pop hsound' hok.2 hr₂
      · obtain ⟨t, hchosen, hfree, hstop⟩ := hok.1.resolve_left hadm
        obtain ⟨hshows, -, -, hbad⟩ := h.refused m false hadm
        rw [if_pos (hbad (Option.isSome_iff_exists.mpr ⟨t, hchosen⟩))]
        have hnone : gU fr.key = none := h.eq_none_of_chosen hvlan hchosen hfree
        have htype := isPort_of_limited hfree hstop
        have hport : fr.entry.shows.IsPort := by
          refine ⟨fr.hwdev, fr.hwport, ?_⟩
          simp [MacEntry.shows, PtiFdbr.entry, PtiFdbr.dst, htype, DstInterface.target]
        have hplain : ∀ a ∈ fa.map PtiFdbr.act ++ acts, Replica.Plain a := by
          intro a ha
          rcases List.mem_append.mp ha with ha | ha
          · exact plain_pktActs c (⟨0, 0, ∅, .FMC_MASTER_UPDATE fa⟩, .refused) a ha
          · exact hacts a ha
        have hagree' := hagree.refuse hplain (if_pos rfl) hport hnone fun k hk => by
          unfold Replica.write
          rw [if_neg hk, if_neg (Option.some_ne_none k).symm]
        obtain ⟨gU', hshows', hagree'', hall⟩ := ih hshows hagree' hsound' hok.2 hr₂
        refine ⟨gU', hshows', ?_, List.forall_mem_cons.mpr ⟨?_, hall⟩⟩
        · refine hagree''.mono ?_
          rw [recordKeys_cons, Set.insert_union, Set.union_insert]
          rfl
        · -- the record passed the assertion for a port
          refine ⟨⟨Nat.pos_iff_ne_zero.mp hvalid.1, hvalid.2.1, fun _ => ?_⟩, rfl⟩
          rcases hvalid.2.2 with ⟨-, hdev, -⟩ | ⟨htrunk, -⟩
          · exact hdev
          · cases htype.symm.trans htrunk

/-- The loop of the master over the records that the member sent back. They are late no more. -/
theorem Fdb.Shows.refusals {fa : List PtiFdbr} {mos : ℕ → Moment} {r : Fdb × List PtiFdbr}
    (h : f.Shows c gM) (hagree : Agree (recordKeys fa ∪ late) Shown.IsPort gM gU acts)
    (hfa : ∀ fr ∈ fa, fr.Refusal) (hr : updateLoop c m sid fa mos f = some r) :
    (∃ gM', r.1.Shows c gM' ∧
      Agree late Shown.IsPort gM' gU (acts ++ r.2.map PtiFdbr.act)) ∧ ∀ fr ∈ r.2, fr.Sound := by
  induction fa generalizing f gM mos r acts with
  | nil =>
    obtain rfl := Option.some_inj.mp hr
    refine ⟨⟨gM, h, ?_⟩, fun _ hfr => absurd hfr List.not_mem_nil⟩
    rw [List.map_nil, List.append_nil]
    refine hagree.mono ?_
    rintro k (⟨fr, hfr, -⟩ | hk)
    · exact absurd hfr List.not_mem_nil
    · exact hk
  | cons fr fa ih =>
    obtain ⟨r₁, hr₁, hr⟩ := Option.bind_eq_some_iff.mp hr
    obtain ⟨r₂, hr₂, rfl⟩ := Option.map_eq_some_iff.mp hr
    obtain ⟨⟨hvid, hmax, hdev⟩, hop⟩ := hfa fr List.mem_cons_self
    have hfa' := fun x hx => hfa x (List.mem_cons_of_mem fr hx)
    rw [hop] at hr₁
    obtain rfl := Option.some_inj.mp hr₁
    rw [fdbMacForeignDel_eq hvid hmax (hdev hop)] at hr₂ ⊢
    have hsub : (recordKeys (fr :: fa) ∪ late) \ {fr.key} ⊆ recordKeys fa ∪ late := by
      rw [recordKeys_cons]
      rintro k ⟨(rfl | hk) | hk, hne⟩
      · exact absurd rfl hne
      · exact .inl hk
      · exact .inr hk
    rcases h.remove (m := m) fr.key sid with ⟨hst, hshows⟩ | ⟨hst, hshows, hcases⟩
    · rw [if_pos hst, List.map_cons, PtiFdbr.act_del hop]
      have hpush := hagree.push (Replica.plain_erase fr.key)
      have hforget := hpush.forget (k := fr.key) fun w hw => by
        unfold Replica.erase at hw
        rw [if_pos rfl] at hw
        exact nomatch hw
      obtain ⟨⟨gM', hshows', hagree'⟩, hall⟩ := ih hshows (hforget.mono hsub) hfa' hr₂
      refine ⟨⟨gM', hshows', ?_⟩, List.forall_mem_cons.mpr ⟨⟨hvid, hmax, hdev⟩, hall⟩⟩
      rwa [List.append_assoc] at hagree'
    · rw [if_neg hst]
      refine ih hshows ((hagree.forget fun w hw => ?_).mono hsub) hfa' hr₂
      -- the master has not got the address, or on a trunk by now
      rintro ⟨dev, num, hport⟩
      rcases hcases with hnone | ⟨-, -, id, st, hsome⟩
      · exact nomatch hnone.symm.trans hw
      · obtain rfl := Option.some_inj.mp (hsome.symm.trans hw)
        exact nomatch hport

/-! ## Packets -/

/-- Splitting records among packets loses none. -/
theorem splitRecords_flatten {fuel : ℕ} {pf : List PtiFdbr} (h : pf.length < fuel) :
    (splitRecords fuel pf).flatten = pf := by
  have hpos : 0 < TIPC_FDB_NREC := by decide
  induction fuel generalizing pf with
  | zero => exact absurd h (Nat.not_lt_zero _)
  | succ fuel ih =>
    rw [splitRecords, List.flatten_cons]
    split_ifs with hmore
    · rw [ih (by rw [List.length_drop]; omega), List.take_append_drop]
    · rw [List.flatten_nil, List.append_nil, List.take_of_length_le (by omega)]

section Sent

variable {uc : UnitConf} {u : FdbUnit} {pf : List PtiFdbr}

/-- The packets of the master stand for the records sent. -/
theorem sent_acts (pf : List PtiFdbr) (t : Took) :
    ((fdbmanSendMsgUniUpdate uc u pf true).map fun p => (p, t)).flatMap (pktActs c) =
      pf.map PtiFdbr.act := by
  unfold fdbmanSendMsgUniUpdate
  by_cases hpf : pf = []
  · rw [if_pos hpf, hpf]
    rfl
  · rw [if_neg hpf]
    have hflat := splitRecords_flatten (Nat.lt_succ_self pf.length)
    generalize splitRecords (pf.length + 1) pf = chunks at hflat ⊢
    rw [← hflat, List.map_map, List.flatMap_map, List.map_flatten]
    rfl

/-- A packet with records has the header of its unit and some of the records sent. -/
theorem of_mem_sent {master : Bool} {p : FdbPkt}
    (hp : p ∈ fdbmanSendMsgUniUpdate uc u pf master) : ∃ data, (∀ fr ∈ data, fr ∈ pf) ∧
      p = u.pkt uc ∅ (if master then .FMC_MASTER_UPDATE data else .FMC_UPDATE data) := by
  unfold fdbmanSendMsgUniUpdate at hp
  by_cases hpf : pf = []
  · rw [if_pos hpf] at hp
    exact absurd hp List.not_mem_nil
  · rw [if_neg hpf] at hp
    obtain ⟨data, hdata, rfl⟩ := List.mem_map.mp hp
    refine ⟨data, fun fr hfr => ?_, rfl⟩
    rw [← splitRecords_flatten (Nat.lt_succ_self pf.length)]
    exact List.mem_flatten.mpr ⟨data, hdata, hfr⟩

/-- The keys in packets of the member. -/
def lateKeys (up : List FdbPkt) : Set MacKey :=
  {k | ∃ p ∈ up, ∃ data, p.msg = .FMC_UPDATE data ∧ k ∈ recordKeys data}

/-- All records that the member sends are in its packets. -/
theorem recordKeys_subset_sent :
    recordKeys pf ⊆ lateKeys (fdbmanSendMsgUniUpdate uc u pf false) := by
  rintro k ⟨fr, hfr, hk⟩
  have hpf : pf ≠ [] := List.ne_nil_of_mem hfr
  rw [← splitRecords_flatten (Nat.lt_succ_self pf.length)] at hfr
  obtain ⟨data, hdata, hfr⟩ := List.mem_flatten.mp hfr
  refine ⟨u.pkt uc ∅ (.FMC_UPDATE data), ?_, data, rfl, fr, hfr, hk⟩
  unfold fdbmanSendMsgUniUpdate
  rw [if_neg hpf]
  exact List.mem_map.mpr ⟨data, hdata, rfl⟩

theorem lateKeys_append (up up' : List FdbPkt) :
    lateKeys (up ++ up') = lateKeys up ∪ lateKeys up' := by
  ext k
  simp only [lateKeys, List.mem_append, Set.mem_ofPred_eq, Set.mem_union, or_and_right, exists_or]

end Sent

/-! ## Runs -/

namespace ReplRun

variable {d : Duo} {s s' : ReplRun} {op : ReplOp}

/-- What holds of the packets on their way to the member. -/
def OkPkt (d : Duo) : FdbmanMsg → Prop
  | .FMC_MASTER_UPDATE data => ∀ fr ∈ data, fr.Sound
  | .FMC_MASTER_MACOP arg => arg.vid ≠ 0 ∧
      (arg.delete = true ∨ arg.iface d.member.fdb = arg.iface d.master.fdb)
  | .FMC_MASTER_FLUSH _ => True
  | .FMC_MASTER_FLUSH_VIF arg => ∀ id, arg.vifid = some id →
      d.member.fdb.vif id = d.master.fdb.vif id
  | _ => False

/-- The invariant of a run: once the packets under way are applied, the member shows what the master
shows, but for the keys that it asks the master to delete. -/
structure Inv (d : Duo) (s : ReplRun) : Prop where
  master_state : s.master.man.state = .FST_MASTER
  member_state : s.member.man.state = .FST_MEMBER
  member_master : s.member.man.master = d.master.stackId
  serial : s.member.man.serial = s.master.man.serial
  down : ∀ x ∈ s.down, x.1.stackId = d.master.stackId ∧ x.1.serial = s.master.man.serial ∧
    OkPkt d x.1.msg
  up : ∀ p ∈ s.up, p.stackId = d.member.stackId ∧ p.serial = s.master.man.serial ∧
    ∃ data, p.msg = .FMC_UPDATE data ∧ ∀ fr ∈ data, fr.Refusal
  agree : ∃ gM gU, s.master.fdb.Shows d.master.fdb gM ∧ s.member.fdb.Shows d.member.fdb gU ∧
    Agree (lateKeys s.up) Shown.IsPort gM gU (s.down.flatMap (pktActs d.master.fdb))

theorem inv_start (h : Start d s) : Inv d s := by
  obtain ⟨_, rM, hrM, heqM⟩ := h.master_table
  obtain ⟨_, rU, hrU, heqU⟩ := h.member_table
  have hM := Fdb.shows_of_reach hrM
  have hU := Fdb.shows_of_reach hrU
  rw [heqM] at hM
  rw [heqU] at hU
  have hsame := (Fdb.sameEntries_iff hM hU).mp h.same
  refine ⟨h.master_state, h.member_state, h.member_master, h.serial, ?_, ?_, _, _, hM, hU, ?_⟩
  · rw [h.down]
    exact fun x hx => absurd hx List.not_mem_nil
  · rw [h.up]
    exact fun p hp => absurd hp List.not_mem_nil
  · rw [h.down, ← hsame]
    exact fun k => .inl rfl

/-- The outcome on the master of a request or report whose packets stand for what it does. -/
theorem Inv.send (h : Inv d s) {o : Handled} {t : Took} (hman : o.unit.man = s.master.man)
    (hsent : ∀ p ∈ o.sent, p.stackId = d.master.stackId ∧ p.serial = s.master.man.serial ∧
      OkPkt d p.msg)
    (htable : ∀ g, s.master.fdb.Shows d.master.fdb g → o.unit.fdb.Shows d.master.fdb fun k =>
      Replica.run ((o.sent.map fun p => (p, t)).flatMap (pktActs d.master.fdb)) k (g k)) :
    Inv d (s.send o t) := by
  obtain ⟨gM, gU, hM, hU, hagree⟩ := h.agree
  refine ⟨?_, h.member_state, h.member_master, ?_, fun x hx => ?_, fun p hp => ?_,
    _, gU, htable gM hM, hU, ?_⟩
  · show o.unit.man.state = _
    rw [hman]
    exact h.master_state
  · show _ = o.unit.man.serial
    rw [hman]
    exact h.serial
  · show _ ∧ _ = o.unit.man.serial ∧ _
    rw [hman]
    rcases List.mem_append.mp hx with hold | hnew
    · exact h.down x hold
    · obtain ⟨p, hp, rfl⟩ := List.mem_map.mp hnew
      exact hsent p hp
  · show _ ∧ _ = o.unit.man.serial ∧ _
    rw [hman]
    exact h.up p hp
  · show Agree _ _ _ _ ((s.down ++ o.sent.map fun p => (p, t)).flatMap (pktActs d.master.fdb))
    rw [List.flatMap_append]
    refine hagree.push_list fun a ha => ?_
    obtain ⟨x, -, hx⟩ := List.mem_flatMap.mp ha
    exact plain_pktActs _ x a hx

/-- A packet of no effect. -/
theorem Inv.drop (h : Inv d s) (t : Took) : Inv d (s.send (.drop s.master) t) :=
  h.send rfl (fun _ hp => absurd hp List.not_mem_nil) fun _ hg => hg

/-- A request to insert or remove. -/
theorem Inv.macop (h : Inv d s) {mo : Moment} {arg : MacOpArgVif} (hvid : arg.vid ≠ 0)
    (hiface : arg.delete = true ∨ arg.iface d.member.fdb = arg.iface d.master.fdb) :
    Inv d (s.send (fdbmanHandleMsgMacop d.master s.master mo arg)
      (took d.master.fdb s.master.fdb mo arg)) := by
  refine h.send rfl (fun p hp => ?_) fun g hg => hg.macop hvid
  obtain rfl := List.mem_singleton.mp hp
  exact ⟨rfl, rfl, hvid, hiface⟩

/-- A request to flush. -/
theorem Inv.flush (h : Inv d s) {arg : FdbFlushArg} (t : Took)
    (hidle : PortIdle d.master.fdb s.master.fdb arg) :
    Inv d (s.send (fdbmanHandleMsgFlush d.master s.master arg) t) := by
  refine h.send rfl (fun p hp => ?_) fun g hg => hg.flush hidle
  obtain rfl := List.mem_singleton.mp hp
  exact ⟨rfl, rfl, trivial⟩

/-- A request to flush an interface. -/
theorem Inv.flushVif (h : Inv d s) {arg : FdbFlushArgVif} (t : Took)
    (hvif : ∀ id, arg.vifid = some id → d.member.fdb.vif id = d.master.fdb.vif id) :
    Inv d (s.send (fdbmanHandleMsgFlushVif d.master s.master arg) t) := by
  refine h.send rfl (fun p hp => ?_) fun g hg => hg.flushVif arg
  obtain rfl := List.mem_singleton.mp hp
  exact ⟨rfl, rfl, hvif⟩

/-- The packets for records that stand for what was done. -/
theorem Inv.sendRecords (h : Inv d s) {r : Fdb × List PtiFdbr} {t : Took}
    (htable : ∀ g, s.master.fdb.Shows d.master.fdb g →
      (r.1.Shows d.master.fdb fun k => Replica.run (r.2.map PtiFdbr.act) k (g k)) ∧
        ∀ fr ∈ r.2, fr.Sound) :
    Inv d (s.send ⟨{ s.master with fdb := r.1 },
      fdbmanSendMsgUniUpdate d.master s.master r.2 true, []⟩ t) := by
  obtain ⟨gM, -, hM, -⟩ := h.agree
  refine h.send rfl (fun p hp => ?_) fun g hg => ?_
  · obtain ⟨data, hdata, rfl⟩ := of_mem_sent hp
    exact ⟨rfl, rfl, fun fr hfr => (htable gM hM).2 fr (hdata fr hfr)⟩
  · rw [sent_acts]
    exact (htable g hg).1

/-- The master handles a packet of another unit. -/
theorem Inv.recv (h : Inv d s) {mo : ℕ → Moment} {p : FdbPkt} {o : Handled}
    (hallowed : p.msg.isRequest = true ∧ p.stackId ≠ 16 ∧
      ∀ arg, p.msg = .FMC_MACOP arg → arg.vid ≠ 0)
    (hok : OkMsg d s.master.fdb p.msg) (ho : fdbmanHandlePkt d.master s.master mo p = some o) :
    Inv d (s.send o (tookMsg d.master.fdb s.master.fdb (mo 0) p.msg)) := by
  obtain ⟨hreq, -, hvid⟩ := hallowed
  unfold fdbmanHandlePkt at ho
  by_cases hstale : p.msg ≠ .FMC_MASTER_READY ∧ p.serial < s.master.man.serial
  · rw [if_pos hstale] at ho
    obtain rfl := Option.some_inj.mp ho
    exact h.drop _
  rw [if_neg hstale] at ho
  cases hmsg : p.msg with
  | FMC_UPDATE data =>
    simp only [hmsg, h.master_state] at ho
    obtain ⟨r, hr, rfl⟩ := Option.map_eq_some_iff.mp ho
    exact h.sendRecords fun g hg => hg.records hr
  | FMC_MACOP arg =>
    simp only [hmsg, unlessMember, h.master_state] at ho
    obtain rfl := Option.some_inj.mp ho
    rw [hmsg] at hok
    exact h.macop (hvid arg hmsg) hok
  | FMC_FLUSH arg =>
    simp only [hmsg, unlessMember, h.master_state] at ho
    obtain rfl := Option.some_inj.mp ho
    rw [hmsg] at hok
    exact h.flush _ hok
  | FMC_FLUSH_VIF arg =>
    simp only [hmsg, unlessMember, h.master_state] at ho
    obtain rfl := Option.some_inj.mp ho
    rw [hmsg] at hok
    exact h.flushVif _ hok
  | _ =>
    -- no other command is a request
    rw [hmsg] at hreq
    exact nomatch hreq

/-- The master executes a request of its own control thread. -/
theorem Inv.ctl (h : Inv d s) {mo : Moment} {cmd : FdbCtlCmd}
    (hvid : ∀ arg, cmd = .FCC_MAC_OP_VIF arg → arg.vid ≠ 0)
    (hok : OkMsg d s.master.fdb cmd.msg) :
    Inv d (s.send (fdbCtlHandler d.master s.master mo cmd)
      (tookMsg d.master.fdb s.master.fdb mo cmd.msg)) := by
  unfold fdbCtlHandler
  cases cmd with
  | FCC_MAC_OP_VIF arg =>
    simp only [h.master_state]
    exact h.macop (hvid arg rfl) hok
  | FCC_FLUSH arg =>
    simp only [h.master_state]
    exact h.flush _ hok
  | FCC_FLUSH_VIF arg =>
    simp only [h.master_state]
    exact h.flushVif _ hok

/-- The master learns what its hardware reports. -/
theorem Inv.upd (h : Inv d s) {env : LearnEnv} {mo : ℕ → Moment} {buf : ℕ → PtiFdbr}
    {as : List MacUpdate} {o : Handled} (has : ∀ a ∈ as, a.Sound)
    (hage : ∀ a ∈ as, a.updType = .CPSS_AA_E → a.dst.type = .TRUNK → a.dst.trunkId ≤ 0x1f)
    (ho : fdbUpdForDev d.master s.master env mo buf as = some o) :
    Inv d (s.send o .refused) := by
  have hm : s.master.man.state ≠ .FST_MEMBER := by
    rw [h.master_state]
    nofun
  obtain ⟨r, hr, rfl⟩ := Option.map_eq_some_iff.mp ho
  have hmaster : decide (s.master.man.state ≠ .FST_MEMBER) = true := decide_eq_true hm
  rw [hmaster]
  exact h.sendRecords fun g hg => hg.reports hm has hage hr

/-! ## What the member does -/

/-- The outcome on the member of the first packet, which stands for what is done with it. -/
theorem Inv.apply (h : Inv d s) {x : FdbPkt × Took} {down : List (FdbPkt × Took)} {f : Fdb}
    (hdown : s.down = x :: down)
    (htable : ∀ g, s.member.fdb.Shows d.member.fdb g → f.Shows d.member.fdb fun k =>
      Replica.run (pktActs d.master.fdb x) k (g k)) :
    Inv d { s with member := { s.member with fdb := f }, down := down, up := s.up ++ [] } := by
  obtain ⟨gM, gU, hM, hU, hagree⟩ := h.agree
  rw [hdown, List.flatMap_cons] at hagree
  rw [List.append_nil]
  refine ⟨h.master_state, h.member_state, h.member_master, h.serial, fun y hy => ?_, h.up,
    gM, _, hM, htable gU hU, fun k => ?_⟩
  · exact h.down y (by rw [hdown]; exact List.mem_cons_of_mem x hy)
  · have hk := hagree k
    rwa [Replica.run_append] at hk

/-- What a flush stands for is the same on both units. -/
theorem flushAct_member (d : Duo) (vid : Option ℕ) (ds : Bool) (hits : Option (Target → Bool)) :
    flushAct d.member.fdb vid ds hits = flushAct d.master.fdb vid ds hits := by
  unfold flushAct
  rw [d.macVlanId_eq]

/-- What a request stands for is the same on both units that know the interface. -/
theorem macopAct_member {arg : MacOpArgVif} {t t' : Took}
    (hiface : arg.delete = true ∨ arg.iface d.member.fdb = arg.iface d.master.fdb)
    (ht : arg.delete = true ∨ t = t') :
    macopAct d.member.fdb arg t = macopAct d.master.fdb arg t' := by
  unfold macopAct
  by_cases hdel : arg.delete = true
  · rw [if_pos hdel, if_pos hdel]
  · rw [if_neg hdel, if_neg hdel, hiface.resolve_left hdel, ht.resolve_left hdel]

/-- The next packet reaches the member. -/
theorem Inv.deliver (h : Inv d s) {mo : ℕ → Moment} {x : FdbPkt × Took}
    {down : List (FdbPkt × Took)} {o : Handled} (hdown : s.down = x :: down)
    (hok : OkDeliver d s mo x) (ho : fdbmanHandlePkt d.member s.member mo x.1 = some o) :
    Inv d { s with member := o.unit, down := down, up := s.up ++ o.sent } := by
  obtain ⟨hsid, hserial, hpkt⟩ := h.down x (by rw [hdown]; exact List.mem_cons_self)
  have hstale : ¬(x.1.msg ≠ .FMC_MASTER_READY ∧ x.1.serial < s.member.man.serial) := by
    rw [hserial, h.serial]
    exact fun hlt => lt_irrefl _ hlt.2
  have hsender : ¬x.1.stackId ≠ s.member.man.master := by
    rw [hsid, h.member_master]
    exact fun hne => hne rfl
  unfold fdbmanHandlePkt at ho
  rw [if_neg hstale] at ho
  unfold OkDeliver at hok
  cases hmsg : x.1.msg with
  | FMC_MASTER_UPDATE data =>
    simp only [hmsg, if_neg hsender, h.member_state] at ho hok
    rw [hmsg] at hpkt
    obtain ⟨r, hr, rfl⟩ := Option.map_eq_some_iff.mp ho
    obtain ⟨gM, gU, hM, hU, hagree⟩ := h.agree
    have hacts : pktActs d.master.fdb x = data.map PtiFdbr.act := by
      unfold pktActs
      rw [hmsg]
    rw [hdown, List.flatMap_cons, hacts] at hagree
    have hplain : ∀ a ∈ down.flatMap (pktActs d.master.fdb), Replica.Plain a := by
      intro a ha
      obtain ⟨y, -, hy⟩ := List.mem_flatMap.mp ha
      exact plain_pktActs _ y a hy
    have hmaster : s.member.man.master ≠ d.member.fdb.stackId := by
      rw [h.member_master]
      exact d.ne.symm
    obtain ⟨gU', hU', hagree', hrefusal⟩ := hU.blck hagree hplain hpkt hok hmaster hr
    refine ⟨h.master_state, h.member_state, h.member_master, h.serial, fun y hy => ?_,
      fun p hp => ?_, gM, gU', hM, hU', hagree'.mono ?_⟩
    · exact h.down y (by rw [hdown]; exact List.mem_cons_of_mem x hy)
    · rcases List.mem_append.mp hp with hold | hnew
      · exact h.up p hold
      · obtain ⟨recs, hrecs, rfl⟩ := of_mem_sent hnew
        exact ⟨rfl, h.serial, recs, rfl, fun fr hfr => hrefusal fr (hrecs fr hfr)⟩
    · show _ ⊆ lateKeys (s.up ++ _)
      rw [lateKeys_append]
      exact Set.union_subset_union_right _ recordKeys_subset_sent
  | FMC_MASTER_MACOP arg =>
    simp only [hmsg, onMember, if_neg hsender, h.member_state] at ho hok
    rw [hmsg] at hpkt
    obtain rfl := Option.some_inj.mp ho
    refine h.apply hdown fun g hg => ?_
    have hacts : pktActs d.master.fdb x = [macopAct d.master.fdb arg x.2] := by
      unfold pktActs
      rw [hmsg]
    rw [hacts, ← macopAct_member hpkt.2 hok]
    exact hg.macop hpkt.1
  | FMC_MASTER_FLUSH arg =>
    simp only [hmsg, onMember, if_neg hsender, h.member_state] at ho hok
    obtain rfl := Option.some_inj.mp ho
    refine h.apply hdown fun g hg => ?_
    have hacts : pktActs d.master.fdb x =
        [flushAct d.master.fdb arg.vid arg.ds (flushHits d.master.fdb arg)] := by
      unfold pktActs
      rw [hmsg]
    have hhits : flushHits d.master.fdb arg = flushHits d.member.fdb arg := by
      unfold flushHits
      rw [d.vlanValid_eq]
    rw [hacts, hhits, ← flushAct_member]
    exact hg.flush hok
  | FMC_MASTER_FLUSH_VIF arg =>
    simp only [hmsg, onMember, if_neg hsender, h.member_state] at ho
    rw [hmsg] at hpkt
    obtain rfl := Option.some_inj.mp ho
    refine h.apply hdown fun g hg => ?_
    have hacts : pktActs d.master.fdb x =
        [flushAct d.master.fdb arg.vid arg.ds (flushVifHits d.master.fdb arg)] := by
      unfold pktActs
      rw [hmsg]
    have hhits : flushVifHits d.master.fdb arg = flushVifHits d.member.fdb arg := by
      unfold flushVifHits
      rw [d.vlanValid_eq]
      cases hid : arg.vifid with
      | none => rfl
      | some id =>
        dsimp only
        rw [hpkt id hid]
    rw [hacts, hhits, ← flushAct_member]
    exact hg.flushVif arg
  | _ =>
    -- the master sends no other packet
    rw [hmsg] at hpkt
    exact hpkt.elim

/-- The next packet of the member reaches the master. -/
theorem Inv.deliverUp (h : Inv d s) {mo : ℕ → Moment} {p : FdbPkt} {up : List FdbPkt}
    {o : Handled} (hup : s.up = p :: up) (ho : fdbmanHandlePkt d.master s.master mo p = some o) :
    Inv d ({ s with up := up }.send o .refused) := by
  obtain ⟨hsid, hserial, data, hmsg, hrefusal⟩ := h.up p (by rw [hup]; exact List.mem_cons_self)
  have hstale : ¬(p.msg ≠ .FMC_MASTER_READY ∧ p.serial < s.master.man.serial) := by
    rw [hserial]
    exact fun hlt => lt_irrefl _ hlt.2
  unfold fdbmanHandlePkt at ho
  rw [if_neg hstale] at ho
  simp only [hmsg, h.master_state] at ho
  obtain ⟨r, hr, rfl⟩ := Option.map_eq_some_iff.mp ho
  obtain ⟨gM, gU, hM, hU, hagree⟩ := h.agree
  have hlate : lateKeys s.up ⊆ recordKeys data ∪ lateKeys up := by
    rw [hup]
    rintro k ⟨q, hq, data', hdata', hk⟩
    rcases List.mem_cons.mp hq with rfl | hq
    · obtain rfl := FdbmanMsg.FMC_UPDATE.inj (hmsg.symm.trans hdata')
      exact .inl hk
    · exact .inr ⟨q, hq, data', hdata', hk⟩
  obtain ⟨⟨gM', hM', hagree'⟩, hsound⟩ := hM.refusals (hagree.mono hlate) hrefusal hr
  refine ⟨h.master_state, h.member_state, h.member_master, h.serial, fun y hy => ?_,
    fun q hq => ?_, gM', gU, hM', hU, ?_⟩
  · rcases List.mem_append.mp hy with hold | hnew
    · exact h.down y hold
    · obtain ⟨q, hq, rfl⟩ := List.mem_map.mp hnew
      obtain ⟨recs, hrecs, rfl⟩ := of_mem_sent hq
      exact ⟨rfl, rfl, fun fr hfr => hsound fr (hrecs fr hfr)⟩
  · exact h.up q (by rw [hup]; exact List.mem_cons_of_mem p hq)
  · show Agree _ _ _ _ ((s.down ++ _).flatMap _)
    rw [List.flatMap_append, sent_acts]
    exact hagree'

/-- Every step keeps the invariant. -/
theorem Inv.step (h : Inv d s) (hallowed : Allowed op) (hok : Ok d s op)
    (hs : s.step d op = some s') : Inv d s' := by
  unfold ReplRun.step at hs
  cases op with
  | ctl mo cmd =>
    obtain rfl := Option.some_inj.mp hs
    refine h.ctl (fun arg harg => ?_) hok
    subst harg
    exact hallowed
  | recv mo p =>
    obtain ⟨o, ho, rfl⟩ := Option.map_eq_some_iff.mp hs
    exact h.recv hallowed hok ho
  | upd env mo buf as =>
    obtain ⟨o, ho, rfl⟩ := Option.map_eq_some_iff.mp hs
    exact h.upd hallowed hok ho
  | deliver mo =>
    cases hdown : s.down with
    | nil =>
      simp only [hdown] at hs
      exact nomatch hs
    | cons x down =>
      simp only [hdown] at hs
      obtain ⟨o, ho, rfl⟩ := Option.map_eq_some_iff.mp hs
      exact h.deliver hdown (hok x down hdown) ho
  | deliverUp mo =>
    cases hup : s.up with
    | nil =>
      simp only [hup] at hs
      exact nomatch hs
    | cons p up =>
      simp only [hup] at hs
      obtain ⟨o, ho, rfl⟩ := Option.map_eq_some_iff.mp hs
      exact h.deliverUp hup ho

/-- Whatever arrives at the master, and in whatever order the packets are delivered: as long as the
steps meet the condition, the tables hold the same entries whenever no packet is under way. -/
theorem agree_when_quiet {s₀ : ReplRun} (d : Duo) (s : ReplRun) (h₀ : Start d s₀)
    (hr : Guarded.Reach (ReplRun.step d) (fun s op => Allowed op ∧ Ok d s op) s₀ s)
    (hdown : s.down = []) (hup : s.up = []) : Fdb.SameEntries s.master.fdb s.member.fdb := by
  have hinv : Inv d s := hr.invariant (Inv d) (inv_start h₀)
    fun _ _ _ h hok hs => h.step hok.1 hok.2 hs
  obtain ⟨gM, gU, hM, hU, hagree⟩ := hinv.agree
  have hquiet : lateKeys s.up = ∅ := by
    rw [hup]
    ext k
    simp [lateKeys]
  rw [hdown, hquiet] at hagree
  exact (Fdb.sameEntries_iff hM hU).mpr hagree.eq_of_quiet.symm

/-! ### A flush of a port -/

/-- Unit 2, which numbers its ports as unit 1 does its own. -/
def conf₂ : UnitConf where
  fdb := { FdbRun.conf₁ with stackId := 2, portHw := fun p => (2, p - 1) }
  vif := LsNet.twoPorts 2
  stpArgsSize := 16

/-- Unit 1 is the master, unit 2 a member. -/
def duo₁₂ : Duo where
  master := FdbUnit.conf₁
  member := conf₂
  macVlanId_eq := rfl
  vlanValid_eq := rfl
  ne := by decide
  member_ne := by decide

/-- An address learned on the first port of unit 1. -/
def portEntry : MacEntry where
  key := .macAddr 10 1
  isStatic := false
  userDefined := .FEP_DYN
  dst := { type := .PORT, devNum := 1, portNum := 0 }

/-- The table of a unit that has learned the address. -/
def learnedOn (c : FdbConf) : FdbRun :=
  ((FdbRun.init FdbRun.psecOff).step c
    (.insert FdbRun.master₁ ⟨200, .PAS_OK⟩ portEntry false false)).getD (FdbRun.init FdbRun.psecOff)

/-- Both units have learned the address. -/
def start₁₂ : ReplRun where
  master := ⟨FdbRun.master₁, FdbUnit.vifsDown, (learnedOn duo₁₂.master.fdb).fdb⟩
  member := ⟨{ FdbRun.master₁ with state := .FST_MEMBER }, FdbUnit.vifsDown,
    (learnedOn duo₁₂.member.fdb).fdb⟩
  down := []
  up := []

/-- A table that holds the address, and nothing else. -/
theorem shows_learnedOn (c : FdbConf)
    (hst : ((FdbRun.init FdbRun.psecOff).fdb.insert c FdbRun.master₁ ⟨200, .PAS_OK⟩ portEntry
      false false).2 = .ST_OK) :
    Guarded.Reach (FdbRun.step c) Fdb.Entering (FdbRun.init FdbRun.psecOff) (learnedOn c) ∧
    (learnedOn c).fdb.Shows c
      fun k => if k = portEntry.key then some portEntry.shows else none := by
  have hvlan : portEntry.key.vlanId ≠ 0 := by decide
  have h₀ : Guarded.Reach (FdbRun.step c) Fdb.Entering (FdbRun.init FdbRun.psecOff)
    (FdbRun.init FdbRun.psecOff) := .init
  have h₁ : Guarded.Reach (FdbRun.step c) Fdb.Entering (FdbRun.init FdbRun.psecOff)
      (learnedOn c) :=
    h₀.snoc (.insert FdbRun.master₁ ⟨200, .PAS_OK⟩ portEntry false false) ⟨hvlan, le_rfl⟩ rfl
  refine ⟨h₁, ?_⟩
  have hlive : ∀ k, (learnedOn c).live k = if k = portEntry.key then some portEntry else none := by
    intro k
    let r := (FdbRun.init FdbRun.psecOff).fdb.insert c FdbRun.master₁ ⟨200, .PAS_OK⟩ portEntry
      false false
    show FdbRun.liveAfter c (FdbRun.init FdbRun.psecOff) r.1 r.2
      (.insert FdbRun.master₁ ⟨200, .PAS_OK⟩ portEntry false false) k = _
    unfold FdbRun.liveAfter
    dsimp only
    rw [if_pos ⟨hst, rfl⟩]
    by_cases hk : k = portEntry.key
    · rw [if_pos hk, if_pos hk]
    · rw [if_neg hk, if_neg hk]
      -- nothing was in the table before
      exact ite_self _
  convert Fdb.shows_of_reach h₁ using 2 with k
  rw [hlive]
  split_ifs <;> rfl

theorem start_start₁₂ : Start duo₁₂ start₁₂ := by
  obtain ⟨hrM, hM⟩ := shows_learnedOn duo₁₂.master.fdb (by decide)
  obtain ⟨hrU, hU⟩ := shows_learnedOn duo₁₂.member.fdb (by decide)
  exact ⟨rfl, rfl, rfl, rfl, rfl, rfl, rfl, ⟨_, _, hrM, rfl⟩, ⟨_, _, hrU, rfl⟩,
    (Fdb.sameEntries_iff hM hU).mpr rfl⟩

/-- Unit 3 has learned another address, on its first port. -/
def record₃ : PtiFdbr where
  operation := .PTI_FDB_OP_ADD
  type := .IFTYPE_PORT
  hwdev := 3
  hwport := 0
  vid := 10
  mac := 2

/-- The steps of a list, the state as it is where one does not return. -/
def after (d : Duo) (s : ReplRun) (ops : List ReplOp) : ReplRun :=
  ops.foldl (fun s op => (s.step d op).getD s) s

/-- Unit 3 reports the address, and the member learns of it. -/
def reported₁₂ : ReplRun :=
  after duo₁₂ start₁₂ [.recv FdbUnit.at₂₀₀ ⟨3, 1, ∅, .FMC_UPDATE [record₃]⟩, .deliver FdbUnit.at₂₀₀]

theorem agree_when_quiet_reported₁₂ :
    Fdb.SameEntries reported₁₂.master.fdb reported₁₂.member.fdb := by
  have h₀ : Guarded.Reach (ReplRun.step duo₁₂) (fun s op => Allowed op ∧ Ok duo₁₂ s op) start₁₂
    start₁₂ := .init
  have h₁ := h₀.snoc (.recv FdbUnit.at₂₀₀ ⟨3, 1, ∅, .FMC_UPDATE [record₃]⟩)
    ⟨⟨rfl, by decide, fun _ => nofun⟩, trivial⟩ rfl
  have h₂ := h₁.snoc (.deliver FdbUnit.at₂₀₀) ⟨trivial, fun x down hx => ?_⟩ rfl
  exact agree_when_quiet duo₁₂ reported₁₂ start_start₁₂ h₂ rfl rfl
  · obtain ⟨rfl, rfl⟩ := List.cons.inj hx
    exact ⟨.inl (by decide), trivial⟩

/-- A request to flush the first port of a unit. -/
def flushPort₁ : FdbFlushArg := ⟨none, some 1, false⟩

/-- The master is told to flush its first port. -/
def flushed₁₂ : ReplRun :=
  after duo₁₂ start₁₂ [.ctl ⟨200, .PAS_OK⟩ (.FCC_FLUSH flushPort₁), .deliver FdbUnit.at₂₀₀]

/-- The member flushes its own first port, and keeps the address that the master has no more. -/
theorem not_agree_when_quiet : Start duo₁₂ start₁₂ ∧
    Guarded.Reach (ReplRun.step duo₁₂) (fun _ op => Allowed op) start₁₂ flushed₁₂ ∧
    flushed₁₂.down = [] ∧ flushed₁₂.up = [] ∧
    ¬Fdb.SameEntries flushed₁₂.master.fdb flushed₁₂.member.fdb := by
  have h₀ : Guarded.Reach (ReplRun.step duo₁₂) (fun _ op => Allowed op) start₁₂ start₁₂ := .init
  have h₁ := h₀.snoc (.ctl ⟨200, .PAS_OK⟩ (.FCC_FLUSH flushPort₁)) trivial rfl
  have h₂ := h₁.snoc (.deliver FdbUnit.at₂₀₀) trivial rfl
  refine ⟨start_start₁₂, h₂, rfl, rfl, fun hsame => ?_⟩
  obtain ⟨hrM, -⟩ := shows_learnedOn duo₁₂.master.fdb (by decide)
  obtain ⟨hrU, -⟩ := shows_learnedOn duo₁₂.member.fdb (by decide)
  have hM := Fdb.shows_of_reach (hrM.snoc (.flush flushPort₁) ⟨trivial, trivial⟩ rfl)
  have hU := Fdb.shows_of_reach (hrU.snoc (.flush flushPort₁) ⟨trivial, trivial⟩ rfl)
  -- by the history, the address is gone on the master only
  have heq := congrFun ((Fdb.sameEntries_iff hM hU).mp hsame) (.macAddr 10 1)
  exact absurd heq (by decide)

end ReplRun

end Presteramgr
