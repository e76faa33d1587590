import Presteramgr.Mac.PortSec

/-!
# Port security and the learning of addresses (`port.c`)

What the hardware does with a new address on a port depends on the port security of the port. It is
programmed when port security is switched on and off, and rewritten when the limit of addresses is
reached or left. A new violation action for a port on which port security is on already is only
noted down.

## Main definitions

* `PsecPort`: port security of a port, with what is programmed for it;
* `SecFdb`: the table with the ports, and its operations;
* `PsecPort.Fresh`: what is programmed is what `__psec_enable` programs anew;
* `SecFdb.Steady`: no new action for a locked port.

## Main results

* `SecFdb.step_toFdb`: on the table and the counters these are the operations of `PsecRun`;
* `SecFdb.fresh_iff_steady`: in a run of steady operations the hardware is right in every state, and
  the next operation keeps it so if and only if it is steady;
* `SecFdb.not_fresh`: a locked port gets a new action.
-/

namespace Presteramgr

open Function (update update_self update_of_ne)

/-! ## Ports -/

/-- The values of `CPSS_PORT_LOCK_CMD_ENT` that port security uses. -/
inductive PortLockCmd
  | LOCK_FRWRD
  | LOCK_DROP
deriving DecidableEq, Repr

/-- What is programmed for new addresses on a port. -/
structure PortLearn where
  /-- `cpssDxChBrgFdbPortLearnStatusSet`. -/
  lockCmd : PortLockCmd
  /-- `cpssDxChBrgFdbNaToCpuPerPortSet`. -/
  naToCpu : Bool
  /-- `cpssDxChBrgSecurBreachNaPerPortSet`, by `sec_port_na_enable`. -/
  securBreachNa : Bool
  /-- `cpssDxChBrgFdbNaStormPreventSet`. -/
  naStormPrevent : Bool
deriving DecidableEq, Repr

/-- What `port_start` programs for a port that is no stack port. -/
def portStartLearn : PortLearn where
  lockCmd := .LOCK_FRWRD
  naToCpu := true
  securBreachNa := false
  naStormPrevent := true

/-- The port security part of `struct port`, and what is programmed. -/
@[ext]
structure PsecPort extends Psec where
  learn : PortLearn
deriving DecidableEq, Repr

namespace PsecPort

variable (p : PsecPort)

/-- What is programmed changes. -/
def setLearn (learn : PortLearn) : PsecPort := { p with learn := learn }

/-- `__psec_disable_learning`. -/
def psecDisableLearning : PsecPort :=
  match p.action with
  | .PSECA_FORWARD => p.setLearn { p.learn with lockCmd := .LOCK_FRWRD, naToCpu := false }
  | .PSECA_RESTRICT =>
    p.setLearn { p.learn with lockCmd := .LOCK_DROP, securBreachNa := true, naToCpu := false }

/-- `__psec_enable_learning`. -/
def psecEnableLearning : PsecPort :=
  p.setLearn { p.learn with securBreachNa := false, naToCpu := true, lockCmd := .LOCK_FRWRD }

/-- `__psec_limit_reached`. -/
def psecLimitReached : PsecPort := if p.enabled then p.psecDisableLearning else p

/-- `__psec_limit_left`. -/
def psecLimitLeft : PsecPort :=
  if p.enabled ∧ p.mode = .PSECM_MAX_ADDRS then p.psecEnableLearning else p

/-- `__psec_addr_del`. -/
def psecAddrDel : PsecPort :=
  let n := p.naddrs
  let p := { p with naddrs := n - 1 }
  let p := if n = p.maxAddrs then p.psecLimitLeft else p
  if p.naddrs < 0 then { p with naddrs := 0 } else p

/-- The part of `psec_addr_check` that counts a new address. -/
def psecAddrAdd : PsecPort :=
  let p := { p with naddrs := p.naddrs + 1 }
  if p.enabled ∧ p.naddrs = p.maxAddrs then p.psecLimitReached else p

/-- `psec_after_flush`, for one port. -/
def psecAfterFlush : PsecPort :=
  let p := if p.naddrs < 0 then { p with naddrs := 0 } else p
  if p.enabled ∧ p.naddrs < p.maxAddrs then p.psecLimitLeft else p

/-- `__psec_enable`. -/
def psecEnableNow : PsecPort :=
  if p.enabled then
    let p := p.setLearn { p.learn with naStormPrevent := false }
    match p.mode with
    | .PSECM_LOCK => p.psecDisableLearning
    | .PSECM_MAX_ADDRS =>
      if p.maxAddrs ≤ p.naddrs then p.psecDisableLearning else p.psecEnableLearning
  else
    let p := p.psecEnableLearning
    p.setLearn { p.learn with naStormPrevent := true }

/-- The body of `psec_enable`. -/
def psecEnable (enable : Bool) (act : PsecAction) (trapInterval : ℕ) : PsecPort :=
  let doEnable := p.enabled ≠ enable
  let p := { p with enabled := enable, action := act, trapInterval := trapInterval }
  if doEnable then p.psecEnableNow else p

/-- `psec_enable_na_sb_all`, for one port. -/
def psecEnableNaSb (enable : Bool) : PsecPort :=
  if ¬p.enabled then p
  else if enable then
    if p.action = .PSECA_RESTRICT ∧ (p.mode = .PSECM_LOCK ∨
        p.mode = .PSECM_MAX_ADDRS ∧ p.maxAddrs ≤ p.naddrs) then
      p.setLearn { p.learn with securBreachNa := true }
    else p
  else p.setLearn { p.learn with securBreachNa := false }

end PsecPort

/-! ## The table and the ports -/

/-- The table, and the ports by their number. -/
structure SecFdb where
  slot : FdbSlot → FdbEntry
  ports : ℕ → PsecPort

/-- `__psec_addr_del` for the port pointed to, if there is one. -/
def psecPortDel (ports : ℕ → PsecPort) : Option ℕ → ℕ → PsecPort
  | none => ports
  | some p => update ports p (ports p).psecAddrDel

section Check

variable (c : FdbConf)

/-- `psec_addr_check`, as `psecAddrCheck`, with what is programmed. -/
def psecPortCheck (st : PsecAddrStatus) (ports : ℕ → PsecPort) (o : FdbEntry) (n : MacEntry)
    (fake : Bool) : (ℕ → PsecPort) × PsecAddrStatus :=
  let op := if o.valid then o.me.port c else none
  let np := n.port c
  if np = op then (ports, .PAS_OK)
  else
    match np with
    | some p =>
      if (ports p).enabled ∧ (ports p).maxAddrs ≤ (ports p).naddrs then (ports, .PAS_LIMIT)
      else if fake then (ports, .PAS_OK)
      else (psecPortDel (update ports p (ports p).psecAddrAdd) op, .PAS_OK)
    | none => (if fake then ports else psecPortDel ports op, st)

end Check

namespace SecFdb

variable (c : FdbConf) (m : Fdbman) (x : SecFdb)

/-- The table, and the counters. -/
def toFdb : Fdb := ⟨x.slot, fun p => (x.ports p).toPsec⟩

/-- The end of `fdb_insert`, once slot `s` is chosen for the entry. -/
def enter (mo : Moment) (e : MacEntry) (secure fake meExists : Bool) (s : FdbSlot) :
    SecFdb × Status :=
  let (ports, st) := psecPortCheck c mo.st x.ports (x.slot s) e (fake || meExists)
  if st ≠ .PAS_OK then ({ x with ports := ports }, .ST_BAD_STATE)
  else if fake then ({ x with ports := ports }, .ST_OK)
  else (⟨update x.slot s (Fdb.write m mo e secure (x.slot s)), ports⟩, .ST_OK)

/-- `fdb_insert`. -/
def insert (mo : Moment) (e : MacEntry) (secure fake : Bool) : SecFdb × Status :=
  match c.hash e.key with
  | none => (x, .ST_HEX)
  | some b =>
    let (slot, r) := insertScan x.slot e mo.ts b bucketSlots none e.userDefined
    let x : SecFdb := { x with slot := slot }
    match r with
    | .ret st => (x, st)
    | .best none _ => (x, .ST_DOES_NOT_EXIST)
    | .best (some i) meExists => x.enter c m mo e secure fake meExists (b, i)

/-- A slot is freed. -/
def free (s : FdbSlot) : SecFdb where
  slot := update x.slot s (x.slot s).freed
  ports := psecPortDel x.ports ((x.slot s).me.port c)

/-- `fdb_remove`. -/
def remove (k : MacKey) (sid : ℕ) : SecFdb × Status :=
  match c.hash k with
  | none => (x, .ST_HEX)
  | some b =>
    match x.toFdb.find b k with
    | none => (x, .ST_DOES_NOT_EXIST)
    | some i =>
      let s := x.slot (b, i)
      if m.master = c.stackId ∧ s.me.dst.type = .TRUNK ∧ sid ≠ 16 then
        let left := s.pcAgingStatus.erase sid
        let x : SecFdb := { x with slot := update x.slot (b, i) { s with pcAgingStatus := left } }
        if left ≠ ∅ then (x, .ST_NOT_READY) else (x.free c (b, i), .ST_OK)
      else (x.free c (b, i), .ST_OK)

/-- The loops of `fdb_flush` and `fdb_flush_vif`. -/
def flushSlots (hit : FdbEntry → Bool) : List FdbSlot → SecFdb → SecFdb
  | [], x => x
  | s :: ss, x => flushSlots hit ss (if hit (x.slot s) then x.free c s else x)

/-- The loops over ports of `psec_after_flush` and `psec_enable_na_sb_all`. -/
def forPorts (f : PsecPort → PsecPort) : SecFdb :=
  { x with ports := fun p => if 1 ≤ p ∧ p ≤ c.nports then f (x.ports p) else x.ports p }

/-- The entries that match are flushed. -/
def flushBy (vid : Option ℕ) (dst : DstInterface → Bool) (ds : Bool) : SecFdb :=
  (flushSlots c (Fdb.flushHit c vid dst ds) Fdb.slots x).forPorts c PsecPort.psecAfterFlush

/-- `fdb_flush`. -/
def flush (arg : FdbFlushArg) : SecFdb × Status :=
  match Fdb.flushDst c arg with
  | none => (x, .ST_BAD_VALUE)
  | some dst =>
    let x := x.forPorts c (PsecPort.psecEnableNaSb · false)
    let x := x.flushBy c arg.vid dst arg.ds
    (x.forPorts c (PsecPort.psecEnableNaSb · true), .ST_OK)

/-- `fdb_flush_vif`. -/
def flushVif (arg : FdbFlushArgVif) : SecFdb × Status :=
  match Fdb.flushVifDst c arg with
  | none => (x, .ST_BAD_VALUE)
  | some dst => (x.flushBy c arg.vid dst arg.ds, .ST_OK)

/-- `psec_set_max_addrs`. -/
def psecSetMaxAddrs (pid : ℕ) (max : ℤ) : SecFdb × Status :=
  match portPtr c pid with
  | none => (x, .ST_BAD_VALUE)
  | some p =>
    if ¬(c.psecMinAddrs ≤ max ∧ max ≤ c.psecMaxAddrs) then (x, .ST_BAD_VALUE)
    else if (x.ports p).enabled then (x, .ST_BAD_STATE)
    else ({ x with ports := update x.ports p { x.ports p with maxAddrs := max } }, .ST_OK)

/-- `psec_set_mode`. -/
def psecSetMode (pid : ℕ) (mode : PsecMode) : SecFdb × Status :=
  match portPtr c pid with
  | none => (x, .ST_BAD_VALUE)
  | some p =>
    if (x.ports p).enabled then (x, .ST_BAD_STATE)
    else ({ x with ports := update x.ports p { x.ports p with mode := mode } }, .ST_OK)

/-- `psec_enable`. -/
def psecEnable (pid : ℕ) (enable : Bool) (act : PsecAction) (trapInterval : ℕ) : SecFdb × Status :=
  match portPtr c pid with
  | none => (x, .ST_BAD_VALUE)
  | some p =>
    let trapInterval := if trapInterval = 0 then 30 else trapInterval
    if 1000000 < trapInterval then (x, .ST_BAD_VALUE)
    else ({ x with ports := update x.ports p ((x.ports p).psecEnable enable act trapInterval) }, .ST_OK)

/-- A step of a run. -/
def step : PsecOp → Option SecFdb
  | .fdb (.insert m mo e secure fake) => some (x.insert c m mo e secure fake).1
  | .fdb (.remove m k sid) => some (x.remove c m k sid).1
  | .fdb (.flush arg) => some (x.flush c arg).1
  | .fdb (.flushVif arg) => some (x.flushVif c arg).1
  | .setMaxAddrs pid max => some (x.psecSetMaxAddrs c pid max).1
  | .setMode pid mode => some (x.psecSetMode c pid mode).1
  | .enable pid enable act trap => some (x.psecEnable c pid enable act trap).1

/-- The empty table, and the ports after `port_init` and `port_start`. Of the stack ports `stack`
says what is programmed. -/
def init (stack : ℕ → Option PortLearn) : SecFdb where
  slot _ := .zero
  ports p :=
    { enabled := false
      action := .PSECA_RESTRICT
      trapInterval := 30
      mode := .PSECM_LOCK
      maxAddrs := 1
      naddrs := 0
      learn := (stack p).getD portStartLearn }

end SecFdb

/-! ## The same table and counters -/

namespace PsecPort

variable (p : PsecPort)

/-- The flags of the learning are no part of the counted state. -/
@[simp] theorem setLearn_toPsec (learn : PortLearn) : (p.setLearn learn).toPsec = p.toPsec := rfl

/-- Closing the learning of a port changes none of its counts. -/
@[simp] theorem psecDisableLearning_toPsec : p.psecDisableLearning.toPsec = p.toPsec := by
  unfold psecDisableLearning
  cases p.action <;> rfl

/-- Opening the learning of a port changes none of its counts. -/
@[simp] theorem psecEnableLearning_toPsec : p.psecEnableLearning.toPsec = p.toPsec := rfl

/-- The answer to a reached limit changes flags only. -/
@[simp] theorem psecLimitReached_toPsec : p.psecLimitReached.toPsec = p.toPsec := by
  unfold psecLimitReached
  split_ifs
  · exact psecDisableLearning_toPsec p
  · rfl

/-- The answer to a left limit changes flags only. -/
@[simp] theorem psecLimitLeft_toPsec : p.psecLimitLeft.toPsec = p.toPsec := by
  unfold psecLimitLeft
  split_ifs <;> rfl

/-- Programming the flags of a port changes none of its counts. -/
@[simp] theorem psecEnableNow_toPsec : p.psecEnableNow.toPsec = p.toPsec := by
  unfold psecEnableNow
  split_ifs
  · dsimp only
    split
    · rw [psecDisableLearning_toPsec, setLearn_toPsec]
    · split_ifs
      · rw [psecDisableLearning_toPsec, setLearn_toPsec]
      · rfl
  · rfl

/-- `psec_enable` sets the three configured fields of the counted state. -/
theorem psecEnable_toPsec (enable : Bool) (act : PsecAction) (trap : ℕ) :
    (p.psecEnable enable act trap).toPsec =
      { p.toPsec with enabled := enable, action := act, trapInterval := trap } := by
  unfold psecEnable
  dsimp only
  split_ifs
  · exact psecEnableNow_toPsec _
  · rfl

/-- Muting the breach traps of a port changes none of its counts. -/
@[simp] theorem psecEnableNaSb_toPsec (enable : Bool) :
    (p.psecEnableNaSb enable).toPsec = p.toPsec := by
  unfold psecEnableNaSb
  split_ifs <;> rfl

/-- Deleting an address counts as it does without the flags. -/
theorem psecAddrDel_toPsec : p.psecAddrDel.toPsec = p.toPsec.addrDel := by
  obtain ⟨q, hq, hdef⟩ : ∃ q : PsecPort, q.toPsec = { p.toPsec with naddrs := p.naddrs - 1 } ∧
      p.psecAddrDel = if q.naddrs < 0 then { q with naddrs := 0 } else q := by
    refine ⟨_, ?_, rfl⟩
    split_ifs
    · exact psecLimitLeft_toPsec _
    · rfl
  have hn : q.naddrs = p.naddrs - 1 := congrArg Psec.naddrs hq
  rw [hdef, Psec.addrDel, hn]
  split_ifs
  · show { q.toPsec with naddrs := 0 } = _
    rw [hq]
  · exact hq

/-- The step after a flush sets a negative count back to zero. -/
theorem psecAfterFlush_toPsec : p.psecAfterFlush.toPsec =
    if p.naddrs < 0 then { p.toPsec with naddrs := 0 } else p.toPsec := by
  unfold psecAfterFlush
  dsimp only
  split_ifs <;> first | rfl | exact psecLimitLeft_toPsec _

/-- Adding an address counts as it does without the flags. -/
theorem psecAddrAdd_toPsec : p.psecAddrAdd.toPsec = p.toPsec.addrAdd := by
  unfold psecAddrAdd
  dsimp only
  split_ifs
  · exact psecLimitReached_toPsec _
  · rfl

end PsecPort

/-- Forgetting the flags goes through an update of one port. -/
theorem update_toPsec (ports : ℕ → PsecPort) (q : ℕ) (y : PsecPort) :
    (fun p => (update ports q y p).toPsec) = update (fun p => (ports p).toPsec) q y.toPsec := by
  funext p
  by_cases hp : p = q
  · rw [hp, update_self, update_self]
  · rw [update_of_ne hp, update_of_ne hp]

/-- The count of a deleted entry is the same with and without the flags. -/
theorem psecPortDel_toPsec (ports : ℕ → PsecPort) (op : Option ℕ) :
    (fun p => (psecPortDel ports op p).toPsec) = psecDel (fun p => (ports p).toPsec) op := by
  cases op with
  | none => rfl
  | some q =>
    rw [psecPortDel, update_toPsec, PsecPort.psecAddrDel_toPsec]
    rfl

/-- The check of an address decides the same with and without the flags. -/
theorem psecPortCheck_toPsec (c : FdbConf) (st : PsecAddrStatus) (ports : ℕ → PsecPort)
    (o : FdbEntry)
    (n : MacEntry) (fake : Bool) :
    ((fun p => ((psecPortCheck c st ports o n fake).1 p).toPsec),
      (psecPortCheck c st ports o n fake).2) =
      psecAddrCheck c st (fun p => (ports p).toPsec) o n fake := by
  unfold psecPortCheck psecAddrCheck
  dsimp only
  by_cases hsame : n.port c = if o.valid then o.me.port c else none
  · rw [if_pos hsame, if_pos hsame]
  · rw [if_neg hsame, if_neg hsame]
    cases n.port c with
    | none =>
      dsimp only
      split_ifs
      · rfl
      · rw [psecPortDel_toPsec]
      · rw [psecPortDel_toPsec]
    | some p =>
      dsimp only
      split_ifs
      · rfl
      · rfl
      · rw [psecPortDel_toPsec, update_toPsec, PsecPort.psecAddrAdd_toPsec]
      · rw [psecPortDel_toPsec, update_toPsec, PsecPort.psecAddrAdd_toPsec]

namespace SecFdb

variable (c : FdbConf) (m : Fdbman) (x : SecFdb)

/-- The slots of the table are the ones of the model without flags. -/
@[simp] theorem toFdb_slot : x.toFdb.slot = x.slot := rfl

/-- Entering an address does the same with and without the flags. -/
theorem enter_toFdb (mo : Moment) (e : MacEntry) (secure fake meExists : Bool) (s : FdbSlot) :
    (x.enter c m mo e secure fake meExists s).1.toFdb =
      (x.toFdb.enter c m mo e secure fake meExists s).1 := by
  have hcheck : psecAddrCheck c mo.st x.toFdb.psec (x.toFdb.slot s) e (fake || meExists) = _ :=
    (psecPortCheck_toPsec c mo.st x.ports (x.slot s) e (fake || meExists)).symm
  unfold enter Fdb.enter
  rw [hcheck]
  rcases psecPortCheck c mo.st x.ports (x.slot s) e (fake || meExists) with ⟨ports, st⟩
  dsimp only
  split_ifs <;> rfl

/-- `fdb_insert` does the same with and without the flags. -/
theorem insert_toFdb (mo : Moment) (e : MacEntry) (secure fake : Bool) :
    (x.insert c m mo e secure fake).1.toFdb = (x.toFdb.insert c m mo e secure fake).1 := by
  unfold insert Fdb.insert
  cases c.hash e.key with
  | none => rfl
  | some b =>
    dsimp only [Fdb.insertAt, toFdb]
    rcases insertScan x.slot e mo.ts b bucketSlots none e.userDefined with ⟨slot, st |
      ⟨_ | i, meExists⟩⟩
    · rfl
    · rfl
    · exact enter_toFdb c m { x with slot := slot } mo e secure fake meExists (b, i)

/-- Freeing a slot does the same with and without the flags. -/
theorem free_toFdb (s : FdbSlot) : (x.free c s).toFdb = x.toFdb.free c s :=
  congrArg (Fdb.mk _) (psecPortDel_toPsec x.ports ((x.slot s).me.port c))

/-- `fdb_remove` does the same with and without the flags. -/
theorem remove_toFdb (k : MacKey) (sid : ℕ) :
    (x.remove c m k sid).1.toFdb = (x.toFdb.remove c m k sid).1 := by
  unfold remove Fdb.remove
  cases c.hash k with
  | none => rfl
  | some b =>
    dsimp only
    cases x.toFdb.find b k with
    | none => rfl
    | some i =>
      dsimp only
      rw [toFdb_slot]
      by_cases htrunk : m.master = c.stackId ∧ (x.slot (b, i)).me.dst.type = .TRUNK ∧ sid ≠ 16
      · rw [if_pos htrunk, if_pos htrunk]
        split_ifs
        · rfl
        · exact free_toFdb c { x with slot := update x.slot (b, i) _ } (b, i)
      · rw [if_neg htrunk, if_neg htrunk]
        exact free_toFdb c x (b, i)

/-- The loop of a flush does the same with and without the flags. -/
theorem flushSlots_toFdb (hit : FdbEntry → Bool) (ss : List FdbSlot) :
    (flushSlots c hit ss x).toFdb = Fdb.flushSlots c hit ss x.toFdb := by
  induction ss generalizing x with
  | nil => rfl
  | cons s ss ih =>
    rw [flushSlots, Fdb.flushSlots, ih]
    refine congrArg _ ?_
    rw [toFdb_slot]
    split_ifs
    · exact free_toFdb c x s
    · rfl

/-- The step after a flush does the same with and without the flags. -/
theorem afterFlush_toFdb :
    (x.forPorts c PsecPort.psecAfterFlush).toFdb = x.toFdb.psecAfterFlush c := by
  refine congrArg (Fdb.mk x.slot) (funext fun p => ?_)
  show (if 1 ≤ p ∧ p ≤ c.nports then (x.ports p).psecAfterFlush else x.ports p).toPsec =
    if 1 ≤ p ∧ p ≤ c.nports ∧ (x.ports p).naddrs < 0 then { (x.ports p).toPsec with naddrs := 0 }
    else (x.ports p).toPsec
  by_cases hp : 1 ≤ p ∧ p ≤ c.nports
  · rw [if_pos hp, PsecPort.psecAfterFlush_toPsec]
    simp only [hp, true_and]
  · rw [if_neg hp, if_neg fun hall => hp ⟨hall.1, hall.2.1⟩]

/-- A flush with any filter does the same with and without the flags. -/
theorem flushBy_toFdb (vid : Option ℕ) (dst : DstInterface → Bool) (ds : Bool) :
    (x.flushBy c vid dst ds).toFdb = x.toFdb.flushBy c vid dst ds := by
  rw [flushBy, Fdb.flushBy, afterFlush_toFdb, flushSlots_toFdb]

/-- What is only programmed does not concern the table. -/
theorem forPorts_toFdb {f : PsecPort → PsecPort} (hf : ∀ p, (f p).toPsec = p.toPsec) :
    (x.forPorts c f).toFdb = x.toFdb := by
  refine congrArg (Fdb.mk x.slot) (funext fun p => ?_)
  dsimp only [forPorts]
  split_ifs
  · exact hf _
  · rfl

/-- `fdb_flush` does the same with and without the flags. -/
theorem flush_toFdb (arg : FdbFlushArg) : (x.flush c arg).1.toFdb = (x.toFdb.flush c arg).1 := by
  rw [Fdb.flush_eq]
  unfold flush
  cases Fdb.flushDst c arg with
  | none => rfl
  | some dst =>
    dsimp only
    rw [forPorts_toFdb c _ fun p => p.psecEnableNaSb_toPsec true, flushBy_toFdb,
      forPorts_toFdb c _ fun p => p.psecEnableNaSb_toPsec false]

/-- `fdb_flush_vif` does the same with and without the flags. -/
theorem flushVif_toFdb (arg : FdbFlushArgVif) :
    (x.flushVif c arg).1.toFdb = (x.toFdb.flushVif c arg).1 := by
  rw [Fdb.flushVif_eq]
  unfold flushVif
  cases Fdb.flushVifDst c arg with
  | none => rfl
  | some dst => exact flushBy_toFdb c x arg.vid dst arg.ds

/-- `psec_set_max_addrs` does the same with and without the flags. -/
theorem psecSetMaxAddrs_toFdb (pid : ℕ) (max : ℤ) : (x.psecSetMaxAddrs c pid max).1.toFdb =
    { x.toFdb with psec := (Presteramgr.psecSetMaxAddrs c x.toFdb.psec pid max).1 } := by
  unfold psecSetMaxAddrs Presteramgr.psecSetMaxAddrs
  cases portPtr c pid with
  | none => rfl
  | some p =>
    dsimp only
    by_cases hrange : ¬(c.psecMinAddrs ≤ max ∧ max ≤ c.psecMaxAddrs)
    · rw [if_pos hrange, if_pos hrange]
    · rw [if_neg hrange, if_neg hrange]
      by_cases hen : (x.ports p).enabled = true
      · rw [if_pos hen, if_pos (show (x.toFdb.psec p).enabled = true from hen)]
      · rw [if_neg hen, if_neg (show ¬(x.toFdb.psec p).enabled = true from hen)]
        exact congrArg (Fdb.mk _) (update_toPsec ..)

/-- `psec_set_mode` does the same with and without the flags. -/
theorem psecSetMode_toFdb (pid : ℕ) (mode : PsecMode) : (x.psecSetMode c pid mode).1.toFdb =
    { x.toFdb with psec := (Presteramgr.psecSetMode c x.toFdb.psec pid mode).1 } := by
  unfold psecSetMode Presteramgr.psecSetMode
  cases portPtr c pid with
  | none => rfl
  | some p =>
    dsimp only
    by_cases hen : (x.ports p).enabled = true
    · rw [if_pos hen, if_pos (show (x.toFdb.psec p).enabled = true from hen)]
    · rw [if_neg hen, if_neg (show ¬(x.toFdb.psec p).enabled = true from hen)]
      exact congrArg (Fdb.mk _) (update_toPsec ..)

/-- `psec_enable` does the same with and without the flags. -/
theorem psecEnable_toFdb (pid : ℕ) (enable : Bool) (act : PsecAction) (trap : ℕ) :
    (x.psecEnable c pid enable act trap).1.toFdb =
      { x.toFdb with psec := (Presteramgr.psecEnable c x.toFdb.psec pid enable act trap).1 } := by
  unfold psecEnable Presteramgr.psecEnable
  cases portPtr c pid with
  | none => rfl
  | some p =>
    dsimp only [toFdb]
    generalize (if trap = 0 then 30 else trap) = interval
    by_cases hlong : 1000000 < interval
    · rw [if_pos hlong, if_pos hlong]
    · rw [if_neg hlong, if_neg hlong]
      exact congrArg (Fdb.mk _) ((update_toPsec ..).trans
        (congrArg (update _ p) (PsecPort.psecEnable_toPsec ..)))

/-- On the table and the counters a step is one of `PsecRun`. -/
theorem step_toFdb {x x' : SecFdb} {op : PsecOp} (hs : step c x op = some x') :
    PsecRun.step c x.toFdb op = some x'.toFdb := by
  cases op with
  | fdb op =>
    cases op with
    | insert m mo e secure fake =>
      obtain rfl := Option.some_inj.mp hs
      exact congrArg some (insert_toFdb c m x mo e secure fake).symm
    | remove m k sid =>
      obtain rfl := Option.some_inj.mp hs
      exact congrArg some (remove_toFdb c m x k sid).symm
    | flush arg =>
      obtain rfl := Option.some_inj.mp hs
      exact congrArg some (flush_toFdb c x arg).symm
    | flushVif arg =>
      obtain rfl := Option.some_inj.mp hs
      exact congrArg some (flushVif_toFdb c x arg).symm
  | setMaxAddrs pid max =>
    obtain rfl := Option.some_inj.mp hs
    exact congrArg some (psecSetMaxAddrs_toFdb c x pid max).symm
  | setMode pid mode =>
    obtain rfl := Option.some_inj.mp hs
    exact congrArg some (psecSetMode_toFdb c x pid mode).symm
  | enable pid enable act trap =>
    obtain rfl := Option.some_inj.mp hs
    exact congrArg some (psecEnable_toFdb c x pid enable act trap).symm

end SecFdb

/-! ## What a port is to have programmed -/

/-- No more addresses are to be learned while port security is on. -/
def Psec.Locked (p : Psec) : Prop := p.mode = .PSECM_LOCK ∨ p.maxAddrs ≤ p.naddrs

instance (p : Psec) : Decidable p.Locked := inferInstanceAs (Decidable (_ ∨ _))

/-- What is programmed for a port that is not to learn addresses. -/
def lockedLearn : PsecAction → PortLearn
  | .PSECA_FORWARD => ⟨.LOCK_FRWRD, false, false, false⟩
  | .PSECA_RESTRICT => ⟨.LOCK_DROP, false, true, false⟩

/-- What is programmed for a port that learns addresses under port security. -/
def openLearn : PortLearn := ⟨.LOCK_FRWRD, true, false, false⟩

/-- The flags of a locked port tell the action that was configured for it. -/
theorem lockedLearn_injective : Function.Injective lockedLearn := by
  intro a b h
  cases a <;> cases b <;> first | rfl | exact absurd h (by decide)

/-- What the state of a port asks for. -/
def Psec.learns (p : Psec) : PortLearn :=
  if p.enabled = false then portStartLearn
  else if p.Locked then lockedLearn p.action
  else openLearn

namespace Psec

/-- A port without port security learns as after the start. -/
theorem learns_disabled (p : Psec) (h : p.enabled = false) : p.learns = portStartLearn := if_pos h

/-- A port at its limit has the flags of its action. -/
theorem learns_locked (p : Psec) (h : p.enabled = true) (hl : p.Locked) :
    p.learns = lockedLearn p.action := by
  rw [learns, if_neg (by rw [h]; decide), if_pos hl]

/-- A port below its limit learns. -/
theorem learns_open (p : Psec) (h : p.enabled = true) (hl : ¬p.Locked) : p.learns = openLearn := by
  rw [learns, if_neg (by rw [h]; decide), if_neg hl]

/-- What a port is to have depends on these. -/
theorem learns_congr {p q : Psec} (hen : q.enabled = p.enabled) (hact : q.action = p.action)
    (hl : p.enabled = true → (q.Locked ↔ p.Locked)) : q.learns = p.learns := by
  unfold learns
  rw [hen, hact]
  cases h : p.enabled with
  | false => rfl
  | true =>
    have hne : ¬true = false := by decide
    rw [if_neg hne, if_neg hne, if_congr (hl h) rfl rfl]

end Psec

namespace PsecPort

/-- What `__psec_enable` programs on a port as `port_start` leaves it. -/
def fresh (p : PsecPort) : PortLearn := (p.setLearn portStartLearn).psecEnableNow.learn

/-- The hardware has what a fresh enable would program. -/
def Fresh (p : PsecPort) : Prop := p.learn = p.fresh

variable {p q : PsecPort}

/-- `psec_disable_na` programs the flags of a locked port when no flag is held by another user. -/
theorem psecDisableLearning_learn (hstorm : p.learn.naStormPrevent = false)
    (hbreach : p.action = .PSECA_FORWARD → p.learn.securBreachNa = false) :
    p.psecDisableLearning.learn = lockedLearn p.action := by
  unfold psecDisableLearning
  cases hact : p.action with
  | PSECA_FORWARD =>
    show PortLearn.mk _ _ p.learn.securBreachNa p.learn.naStormPrevent = _
    rw [hbreach hact, hstorm]
    rfl
  | PSECA_RESTRICT =>
    show PortLearn.mk _ _ _ p.learn.naStormPrevent = _
    rw [hstorm]
    rfl

/-- `psec_enable_na` programs the flags of an open port when storm prevention is off. -/
theorem psecEnableLearning_learn (hstorm : p.learn.naStormPrevent = false) :
    p.psecEnableLearning.learn = openLearn := by
  show PortLearn.mk _ _ _ p.learn.naStormPrevent = _
  rw [hstorm]
  rfl

/-- A port without port security gets what it is to have. -/
theorem psecEnableNow_learn (h : p.enabled = true → p.learn.securBreachNa = false) :
    p.psecEnableNow.learn = p.toPsec.learns := by
  unfold psecEnableNow Psec.learns
  cases hen : p.enabled with
  | false => rfl
  | true =>
    rw [if_pos rfl, if_neg (by decide)]
    have hlocked : (p.setLearn { p.learn with naStormPrevent := false }).psecDisableLearning.learn =
        lockedLearn p.action := psecDisableLearning_learn rfl fun _ => h hen
    have hopen : (p.setLearn { p.learn with naStormPrevent := false }).psecEnableLearning.learn =
        openLearn := psecEnableLearning_learn rfl
    have hlockedIff : p.toPsec.Locked ↔
        (p.setLearn { p.learn with naStormPrevent := false }).Locked :=
      Iff.rfl
    rw [if_congr hlockedIff rfl rfl]
    generalize p.setLearn { p.learn with naStormPrevent := false } = q at hlocked hopen ⊢
    by_cases hq : q.Locked
    · rw [if_pos hq]
      dsimp only
      split
      · exact hlocked
      · rename_i hmode
        rw [if_pos (hq.resolve_left (by rw [hmode]; decide))]
        exact hlocked
    · rw [if_neg hq]
      obtain ⟨hmode, hfull⟩ := not_or.mp hq
      dsimp only
      split
      · exact absurd ‹_› hmode
      · rw [if_neg hfull]
        exact hopen

/-- What `psec_enable` would program now is what the counts ask for. -/
theorem fresh_eq (p : PsecPort) : p.fresh = p.toPsec.learns := psecEnableNow_learn fun _ => rfl

/-- What is programmed is what the state asks for, but for the breach of security by new addresses
where `mute` is set. -/
def Agrees (mute : Bool) (p : PsecPort) : Prop :=
  p.learn = if mute then { p.toPsec.learns with securBreachNa := false } else p.toPsec.learns

/-- A port that is not muted agrees with its counts exactly when its flags are fresh. -/
theorem agrees_iff_fresh : p.Agrees false ↔ p.Fresh := by
  rw [Fresh, fresh_eq]
  exact Iff.rfl

/-- A port with port security has no storm prevention. -/
theorem Agrees.storm {mute : Bool} (h : p.Agrees mute) (hen : p.enabled = true) :
    p.learn.naStormPrevent = false := by
  have hlearns : p.toPsec.learns.naStormPrevent = false := by
    by_cases hl : p.toPsec.Locked
    · rw [p.toPsec.learns_locked hen hl]
      cases p.action <;> rfl
    · rw [p.toPsec.learns_open hen hl]
      rfl
  rw [h]
  cases mute <;> exact hlearns

/-- Muting the breach of an open port changes nothing: its flag is already off. -/
theorem openLearn_mute (mute : Bool) :
    openLearn = if mute then { openLearn with securBreachNa := false } else openLearn := by
  cases mute <;> rfl

/-- The state of a port changes, but not what it asks for. -/
theorem Agrees.congr {mute : Bool} (h : p.Agrees mute) (hlearn : q.learn = p.learn)
    (heq : q.toPsec.learns = p.toPsec.learns) : q.Agrees mute := by
  unfold Agrees
  rw [hlearn, heq]
  exact h

/-- The limit is left, and the port learns again. -/
theorem Agrees.limitLeft {mute : Bool} (hstorm : p.enabled = true → p.learn.naStormPrevent = false)
    (hmax : p.naddrs < p.maxAddrs)
    (hold : p.enabled = false ∨ p.mode = .PSECM_LOCK → p.Agrees mute) :
    p.psecLimitLeft.Agrees mute := by
  unfold psecLimitLeft
  split_ifs with h
  · have hno : ¬p.toPsec.Locked := not_or.mpr ⟨by rw [h.2]; decide, not_le.mpr hmax⟩
    show p.psecEnableLearning.learn = _
    rw [psecEnableLearning_learn (hstorm h.1)]
    show _ = if mute then { p.toPsec.learns with securBreachNa := false } else p.toPsec.learns
    rw [p.toPsec.learns_open h.1 hno]
    exact openLearn_mute mute
  · refine hold ?_
    cases hen : p.enabled with
    | false => exact .inl rfl
    | true =>
      refine .inr ?_
      cases hmode : p.mode with
      | PSECM_LOCK => rfl
      | PSECM_MAX_ADDRS => exact absurd ⟨hen, hmode⟩ h

/-- An address is taken off a port. -/
theorem Agrees.addrDel {mute : Bool} (h : p.Agrees mute) (hmax : 0 < p.maxAddrs) :
    p.psecAddrDel.Agrees mute := by
  have hlearns (n : ℤ) (hn : p.mode = .PSECM_LOCK ∨ (p.maxAddrs ≤ n ↔ p.maxAddrs ≤ p.naddrs)) :
      PsecPort.Agrees mute { p with naddrs := n } := by
    refine h.congr rfl (Psec.learns_congr rfl rfl fun _ => ?_)
    obtain hmode | hn := hn
    · exact iff_of_true (.inl hmode) (.inl hmode)
    · exact or_congr_right hn
  unfold psecAddrDel
  dsimp only
  by_cases hlimit : p.naddrs = p.maxAddrs
  · rw [if_pos hlimit]
    have hleft : (PsecPort.psecLimitLeft { p with naddrs := p.naddrs - 1 }).Agrees mute := by
      refine Agrees.limitLeft (fun hen => h.storm hen) (by dsimp only; omega) fun hold => ?_
      obtain hen | hmode := hold
      · exact h.congr rfl (Psec.learns_congr rfl rfl fun htrue =>
          absurd (hen.symm.trans htrue) (by decide))
      · exact hlearns _ (.inl hmode)
    have hn : (PsecPort.psecLimitLeft { p with naddrs := p.naddrs - 1 }).naddrs = p.naddrs - 1 :=
      congrArg Psec.naddrs (psecLimitLeft_toPsec _)
    rw [if_neg (by omega)]
    exact hleft
  · rw [if_neg hlimit]
    dsimp only
    split_ifs with hneg
    · exact hlearns 0 (.inr (by omega))
    · exact hlearns _ (.inr (by omega))

/-- A new address is counted. -/
theorem Agrees.addrAdd (h : p.Agrees false) : p.psecAddrAdd.Agrees false := by
  unfold psecAddrAdd
  dsimp only
  by_cases hlimit : p.enabled = true ∧ p.naddrs + 1 = p.maxAddrs
  · rw [if_pos hlimit]
    obtain ⟨hen, hn⟩ := hlimit
    have hlocked : Psec.Locked { p.toPsec with naddrs := p.naddrs + 1 } := .inr hn.ge
    show _ = (PsecPort.psecLimitReached { p with naddrs := p.naddrs + 1 }).toPsec.learns
    rw [psecLimitReached_toPsec, psecLimitReached, if_pos hen]
    refine (@psecDisableLearning_learn { p with naddrs := p.naddrs + 1 } (h.storm hen)
      fun hact => ?_).trans
      (Psec.learns_locked { p.toPsec with naddrs := p.naddrs + 1 } hen hlocked).symm
    show p.learn.securBreachNa = false
    rw [show p.learn = p.toPsec.learns from h]
    by_cases hl : p.toPsec.Locked
    · rw [p.toPsec.learns_locked hen hl, show p.action = .PSECA_FORWARD from hact]
      rfl
    · rw [p.toPsec.learns_open hen hl]
      rfl
  · rw [if_neg hlimit]
    refine h.congr rfl (Psec.learns_congr rfl rfl fun hen => or_congr_right ?_)
    have hn : p.naddrs + 1 ≠ p.maxAddrs := fun heq => hlimit ⟨hen, heq⟩
    dsimp only
    omega

/-- A flush opens the learning of a port with a positive limit, so the port agrees after it. -/
theorem Agrees.afterFlush {mute : Bool} (h : p.Agrees mute) (hmax : 0 < p.maxAddrs) :
    p.psecAfterFlush.Agrees mute := by
  have hclamp : PsecPort.Agrees mute (if p.naddrs < 0 then { p with naddrs := 0 } else p) := by
    split_ifs with hneg
    · refine h.congr rfl (Psec.learns_congr rfl rfl fun _ => or_congr_right ?_)
      dsimp only
      omega
    · exact h
  have hmaxEq : (if p.naddrs < 0 then { p with naddrs := 0 } else p).maxAddrs = p.maxAddrs := by
    split_ifs <;> rfl
  unfold psecAfterFlush
  dsimp only
  generalize (if p.naddrs < 0 then { p with naddrs := 0 } else p : PsecPort) = q at hclamp hmaxEq ⊢
  split_ifs with hleft
  · exact Agrees.limitLeft (fun hen => hclamp.storm hen) hleft.2 fun _ => hclamp
  · exact hclamp

/-- `psec_enable_na_sb_all` before a flush. -/
theorem Agrees.mute {mute : Bool} (h : p.Agrees mute) : (p.psecEnableNaSb false).Agrees true := by
  have h' : { p.learn with securBreachNa := false } =
      { p.toPsec.learns with securBreachNa := false } := by
    rw [show p.learn = _ from h]
    cases mute <;> rfl
  unfold psecEnableNaSb
  by_cases hen : p.enabled = true
  · rw [if_neg (not_not.mpr hen), if_neg (by decide)]
    exact h'
  · rw [if_pos hen, Agrees, show p.learn = _ from h,
      p.toPsec.learns_disabled (Bool.eq_false_iff.mpr hen)]
    cases mute <;> rfl

/-- `psec_enable_na_sb_all` after a flush. -/
theorem Agrees.unmute (h : p.Agrees true) : (p.psecEnableNaSb true).Agrees false := by
  have h' : p.learn = { p.toPsec.learns with securBreachNa := false } := h
  unfold psecEnableNaSb
  by_cases hen : p.enabled = true
  · have hlockedIff : (p.mode = .PSECM_LOCK ∨ p.mode = .PSECM_MAX_ADDRS ∧ p.maxAddrs ≤ p.naddrs) ↔
        p.toPsec.Locked := by
      unfold Psec.Locked
      cases p.mode <;> simp
    rw [if_neg (not_not.mpr hen), if_pos rfl, if_congr (and_congr_right' hlockedIff) rfl rfl]
    by_cases hl : p.toPsec.Locked
    · have hlearns := p.toPsec.learns_locked hen hl
      by_cases hact : p.action = .PSECA_RESTRICT
      · rw [hact] at hlearns
        rw [if_pos ⟨hact, hl⟩, h', hlearns]
        exact hlearns.symm
      · have hforward : p.action = .PSECA_FORWARD := by
          cases hcase : p.action with
          | PSECA_FORWARD => rfl
          | PSECA_RESTRICT => exact absurd hcase hact
        rw [hforward] at hlearns
        rw [if_neg fun hall => hact hall.1, Agrees, h', hlearns]
        rfl
    · rw [if_neg fun hall => hl hall.2, Agrees, h', p.toPsec.learns_open hen hl]
      rfl
  · rw [if_pos hen, Agrees, h', p.toPsec.learns_disabled (Bool.eq_false_iff.mpr hen)]
    rfl

/-- A call of `psec_enable` leaves what the state asks for, unless it gives a new action to a port
that is locked and stays so. -/
theorem psecEnable_agrees_iff (h : p.Agrees false) (enable : Bool) (act : PsecAction) (trap : ℕ) :
    (p.psecEnable enable act trap).Agrees false ↔
      (p.enabled = true → enable = true → p.toPsec.Locked → act = p.action) := by
  have h' : p.learn = p.toPsec.learns := h
  unfold psecEnable
  dsimp only
  by_cases hdo : p.enabled ≠ enable
  · rw [if_pos hdo]
    refine iff_of_true ?_ fun hen henable => absurd (hen.trans henable.symm) hdo
    show _ = (PsecPort.psecEnableNow _).toPsec.learns
    rw [psecEnableNow_toPsec]
    refine psecEnableNow_learn fun henable => ?_
    have hoff : p.enabled = false := Bool.eq_false_iff.mpr fun hen => hdo (hen.trans henable.symm)
    show p.learn.securBreachNa = false
    rw [h', p.toPsec.learns_disabled hoff]
    rfl
  · rw [if_neg hdo]
    obtain rfl := not_ne_iff.mp hdo
    show p.learn = Psec.learns { p.toPsec with action := act, trapInterval := trap } ↔ _
    rw [h']
    by_cases hen : p.enabled = true
    · by_cases hl : p.toPsec.Locked
      · rw [p.toPsec.learns_locked hen hl,
          Psec.learns_locked { p.toPsec with action := act, trapInterval := trap } hen hl]
        exact ⟨fun heq _ _ _ => (lockedLearn_injective heq).symm,
          fun hall => by rw [hall hen hen hl]⟩
      · rw [p.toPsec.learns_open hen hl,
          Psec.learns_open { p.toPsec with action := act, trapInterval := trap } hen hl]
        exact iff_of_true rfl fun _ _ hlocked => absurd hlocked hl
    · have hoff : p.enabled = false := Bool.eq_false_iff.mpr hen
      rw [p.toPsec.learns_disabled hoff,
        Psec.learns_disabled { p.toPsec with action := act, trapInterval := trap } hoff]
      exact iff_of_true rfl fun hon => absurd hon hen

end PsecPort

/-! ## Runs -/

/-- What a predicate of ports says of all ports before, it says after. -/
def Follow (P : PsecPort → Prop) (ports ports' : ℕ → PsecPort) : Prop :=
  ∀ p, P (ports p) → P (ports' p)

/-- A property of all ports goes through a change of one port that keeps it. -/
theorem follow_update {P : PsecPort → Prop} {ports : ℕ → PsecPort} {q : ℕ} {y : PsecPort}
    (h : P (ports q) → P y) : Follow P ports (update ports q y) := by
  intro p hp
  by_cases hq : p = q
  · rw [hq] at hp ⊢
    rw [update_self]
    exact h hp
  · rwa [update_of_ne hq]

/-- The hardware is right for a port, and its limit can be reached. -/
structure PsecPort.Ok (mute : Bool) (p : PsecPort) : Prop where
  agrees : p.Agrees mute
  max : 0 < p.maxAddrs

namespace PsecPort.Ok

variable {mute : Bool} {p : PsecPort}

/-- Deleting an address keeps the flags in agreement with the counts. -/
theorem addrDel (h : p.Ok mute) : p.psecAddrDel.Ok mute := by
  refine ⟨h.agrees.addrDel h.max, ?_⟩
  have hmax := congrArg Psec.maxAddrs p.psecAddrDel_toPsec
  exact lt_of_lt_of_eq h.max hmax.symm

/-- Adding an address keeps the flags in agreement with the counts. -/
theorem addrAdd (h : p.Ok false) : p.psecAddrAdd.Ok false := by
  refine ⟨h.agrees.addrAdd, ?_⟩
  have hmax := congrArg Psec.maxAddrs p.psecAddrAdd_toPsec
  exact lt_of_lt_of_eq h.max hmax.symm

/-- The step after a flush keeps the flags in agreement with the counts. -/
theorem afterFlush (h : p.Ok mute) : p.psecAfterFlush.Ok mute := by
  refine ⟨h.agrees.afterFlush h.max, ?_⟩
  have hmax := congrArg Psec.maxAddrs p.psecAfterFlush_toPsec
  split_ifs at hmax <;> exact lt_of_lt_of_eq h.max hmax.symm

end PsecPort.Ok

section Follow

variable {P : PsecPort → Prop} (hdel : ∀ p, P p → P p.psecAddrDel)
  (hadd : ∀ p, P p → P p.psecAddrAdd)

include hdel

/-- A property that the deletion of an address keeps is kept by the deletion of an entry. -/
theorem follow_del (ports : ℕ → PsecPort) (op : Option ℕ) :
    Follow P ports (psecPortDel ports op) := by
  cases op with
  | none => exact fun _ h => h
  | some q => exact follow_update (hdel _)

include hadd

/-- A property that both counting steps keep is kept by the check of an address. -/
theorem follow_check (c : FdbConf) (st : PsecAddrStatus) (ports : ℕ → PsecPort) (o : FdbEntry)
    (n : MacEntry) (fake : Bool) : Follow P ports (psecPortCheck c st ports o n fake).1 := by
  unfold psecPortCheck
  dsimp only
  generalize (if o.valid then o.me.port c else none) = op
  by_cases hsame : n.port c = op
  · rw [if_pos hsame]
    exact fun _ h => h
  · rw [if_neg hsame]
    cases n.port c with
    | none =>
      cases fake with
      | true => exact fun _ h => h
      | false => exact follow_del hdel ports _
    | some q =>
      dsimp only
      split_ifs
      · exact fun _ h => h
      · exact fun _ h => h
      · exact fun p h => follow_del hdel (update ports q _) op p (follow_update (hadd _) p h)

end Follow

namespace SecFdb

variable {c : FdbConf} {x x' : SecFdb} {P : PsecPort → Prop}

/-- A property that both counting steps keep is kept by `fdb_insert`. -/
theorem follow_insert (hdel : ∀ p, P p → P p.psecAddrDel) (hadd : ∀ p, P p → P p.psecAddrAdd)
    (m : Fdbman)
    (mo : Moment) (e : MacEntry) (secure fake : Bool) :
    Follow P x.ports (x.insert c m mo e secure fake).1.ports := by
  unfold insert
  cases c.hash e.key with
  | none => exact fun _ h => h
  | some b =>
    dsimp only
    rcases insertScan x.slot e mo.ts b bucketSlots none e.userDefined with ⟨slot, st |
      ⟨_ | i, meExists⟩⟩
    · exact fun _ h => h
    · exact fun _ h => h
    · dsimp only [enter]
      have hcheck := follow_check hdel hadd c mo.st x.ports (slot (b, i)) e (fake || meExists)
      split_ifs <;> exact hcheck

/-- A property that the deletion of an address keeps is kept by `fdb_remove`. -/
theorem follow_remove (hdel : ∀ p, P p → P p.psecAddrDel) (m : Fdbman) (k : MacKey) (sid : ℕ) :
    Follow P x.ports (x.remove c m k sid).1.ports := by
  unfold remove
  cases c.hash k with
  | none => exact fun _ h => h
  | some b =>
    dsimp only
    cases x.toFdb.find b k with
    | none => exact fun _ h => h
    | some i =>
      dsimp only
      split_ifs
      · exact fun _ h => h
      · exact follow_del hdel x.ports _
      · exact follow_del hdel x.ports _

/-- A property that the deletion of an address keeps is kept by the loop of a flush. -/
theorem follow_flushSlots (hdel : ∀ p, P p → P p.psecAddrDel) (hit : FdbEntry → Bool)
    (ss : List FdbSlot) :
    Follow P x.ports (flushSlots c hit ss x).ports := by
  induction ss generalizing x with
  | nil => exact fun _ h => h
  | cons s ss ih =>
    intro p h
    rw [flushSlots]
    refine ih p ?_
    split_ifs
    · exact follow_del hdel _ _ p h
    · exact h

/-- A property that a function keeps is kept when the function is applied to all ports. -/
theorem follow_forPorts {f : PsecPort → PsecPort} (hf : ∀ p, P p → P (f p)) :
    Follow P x.ports (x.forPorts c f).ports := by
  intro p h
  unfold forPorts
  dsimp only
  split_ifs
  · exact hf _ h
  · exact h

/-- A property that both steps of a flush keep is kept by the whole flush. -/
theorem follow_flushBy (hdel : ∀ p, P p → P p.psecAddrDel) (hflush : ∀ p, P p → P p.psecAfterFlush)
    (vid : Option ℕ) (dst : DstInterface → Bool) (ds : Bool) :
    Follow P x.ports (x.flushBy c vid dst ds).ports :=
  fun p h => follow_forPorts hflush p
    (follow_flushSlots hdel (Fdb.flushHit c vid dst ds) Fdb.slots p h)

/-- Ports that are right stay so when entries are flushed. -/
theorem ok_flushBy {mute : Bool} (vid : Option ℕ) (dst : DstInterface → Bool) (ds : Bool) :
    Follow (PsecPort.Ok mute) x.ports (x.flushBy c vid dst ds).ports :=
  follow_flushBy (P := PsecPort.Ok mute) (fun _ => PsecPort.Ok.addrDel)
    (fun _ => PsecPort.Ok.afterFlush) vid dst ds

/-- Each port of the unit is right after a flush. -/
theorem ok_flush {mute : Bool} {arg : FdbFlushArg} {dst : DstInterface → Bool}
    (hdst : Fdb.flushDst c arg = some dst)
    {p : ℕ} (hp : 1 ≤ p ∧ p ≤ c.nports) (h : (x.ports p).Ok mute) :
    ((x.flush c arg).1.ports p).Ok false := by
  unfold flush
  rw [hdst]
  dsimp only
  -- muted while the entries are flushed
  have hmute : ((x.forPorts c (PsecPort.psecEnableNaSb · false)).ports p).Ok true := by
    unfold forPorts
    dsimp only
    rw [if_pos hp]
    refine ⟨h.agrees.mute, ?_⟩
    exact lt_of_lt_of_eq h.max (congrArg Psec.maxAddrs (PsecPort.psecEnableNaSb_toPsec _ _)).symm
  have hflush := ok_flushBy (c := c) arg.vid dst arg.ds p hmute
  generalize (x.forPorts c (PsecPort.psecEnableNaSb · false)).flushBy c arg.vid dst arg.ds = y at hflush ⊢
  unfold forPorts
  dsimp only
  rw [if_pos hp]
  refine ⟨hflush.agrees.unmute, ?_⟩
  exact lt_of_lt_of_eq hflush.max (congrArg Psec.maxAddrs (PsecPort.psecEnableNaSb_toPsec _ _)).symm

/-- `fdb_flush` keeps the flags in agreement with the counts. -/
theorem follow_flush (arg : FdbFlushArg) :
    Follow (PsecPort.Ok false) x.ports (x.flush c arg).1.ports := by
  cases hdst : Fdb.flushDst c arg with
  | none =>
    unfold flush
    rw [hdst]
    exact fun _ h => h
  | some dst =>
    intro p h
    by_cases hp : 1 ≤ p ∧ p ≤ c.nports
    · exact ok_flush hdst hp h
    · unfold flush
      rw [hdst]
      dsimp only
      have hkeep : ((x.forPorts c (PsecPort.psecEnableNaSb · false)).ports p).Ok false := by
        unfold forPorts
        dsimp only
        rwa [if_neg hp]
      have hflush := ok_flushBy (c := c) arg.vid dst arg.ds p hkeep
      generalize (x.forPorts c (PsecPort.psecEnableNaSb · false)).flushBy c arg.vid dst arg.ds = y
        at hflush ⊢
      unfold forPorts
      dsimp only
      rwa [if_neg hp]

/-- `fdb_flush_vif` keeps the agreement, that of muted ports as well. -/
theorem follow_flushVif {mute : Bool} (arg : FdbFlushArgVif) :
    Follow (PsecPort.Ok mute) x.ports (x.flushVif c arg).1.ports := by
  unfold flushVif
  cases Fdb.flushVifDst c arg with
  | none => exact fun _ h => h
  | some dst => exact ok_flushBy arg.vid dst arg.ds

/-- `psec_set_max_addrs` keeps the agreement: the smallest limit is positive. -/
theorem follow_setMaxAddrs {mute : Bool} (hmin : 0 < c.psecMinAddrs) (pid : ℕ) (max : ℤ) :
    Follow (PsecPort.Ok mute) x.ports (x.psecSetMaxAddrs c pid max).1.ports := by
  unfold psecSetMaxAddrs
  cases portPtr c pid with
  | none => exact fun _ h => h
  | some q =>
    dsimp only
    split_ifs with hrange hen
    · exact fun _ h => h
    · exact follow_update fun h => ⟨h.agrees.congr rfl (Psec.learns_congr rfl rfl fun hon =>
        absurd hon hen), hmin.trans_le hrange.1⟩
    · exact fun _ h => h

/-- `psec_set_mode` keeps the agreement. -/
theorem follow_setMode {mute : Bool} (pid : ℕ) (mode : PsecMode) :
    Follow (PsecPort.Ok mute) x.ports (x.psecSetMode c pid mode).1.ports := by
  unfold psecSetMode
  cases portPtr c pid with
  | none => exact fun _ h => h
  | some q =>
    dsimp only
    split_ifs with hen
    · exact fun _ h => h
    · exact follow_update fun h => ⟨h.agrees.congr rfl (Psec.learns_congr rfl rfl fun hon =>
        absurd hon hen), h.max⟩

variable (c)

/-- The hardware of every port has what a fresh enable would program. -/
def Programmed (stack : ℕ → Option PortLearn) (x : SecFdb) : Prop :=
  ∀ p, 1 ≤ p → p ≤ c.nports → stack p = none → (x.ports p).Fresh

/-- A call of `psec_enable` gives no new action to a port that is locked and stays so. -/
def Steady (stack : ℕ → Option PortLearn) (x : SecFdb) : PsecOp → Prop
  | .enable pid enable act trap => 1 ≤ pid → pid ≤ c.nports → stack pid = none → trap ≤ 1000000 →
      (x.ports pid).enabled = true → enable = true → (x.ports pid).toPsec.Locked →
      act = (x.ports pid).action
  | _ => True

variable {c}

/-- A step of a run, but for calls of `psec_enable`. -/
theorem follow_step (hmin : 0 < c.psecMinAddrs) {op : PsecOp}
    (hop : ∀ pid enable act trap, op ≠ .enable pid enable act trap) (hs : x.step c op = some x') :
    Follow (PsecPort.Ok false) x.ports x'.ports := by
  cases op with
  | fdb op =>
    cases op with
    | insert m mo e secure fake =>
      obtain rfl := Option.some_inj.mp hs
      exact follow_insert (P := PsecPort.Ok false) (fun _ => PsecPort.Ok.addrDel)
        (fun _ => PsecPort.Ok.addrAdd) m mo e secure fake
    | remove m k sid =>
      obtain rfl := Option.some_inj.mp hs
      exact follow_remove (P := PsecPort.Ok false) (fun _ => PsecPort.Ok.addrDel) m k sid
    | flush arg =>
      obtain rfl := Option.some_inj.mp hs
      exact follow_flush arg
    | flushVif arg =>
      obtain rfl := Option.some_inj.mp hs
      exact follow_flushVif arg
  | setMaxAddrs pid max =>
    obtain rfl := Option.some_inj.mp hs
    exact follow_setMaxAddrs hmin pid max
  | setMode pid mode =>
    obtain rfl := Option.some_inj.mp hs
    exact follow_setMode pid mode
  | enable pid enable act trap => exact absurd rfl (hop pid enable act trap)

/-- A call of `psec_enable`. -/
theorem enable_ports (pid : ℕ) (enable : Bool) (act : PsecAction) (trap : ℕ) :
    (x.psecEnable c pid enable act trap).1.ports =
      if 1 ≤ pid ∧ pid ≤ c.nports ∧ trap ≤ 1000000 then
        update x.ports pid
          ((x.ports pid).psecEnable enable act (if trap = 0 then 30 else trap))
      else x.ports := by
  have hshort : ¬1000000 < (if trap = 0 then 30 else trap) ↔
      trap ≤ 1000000 := by split_ifs <;> omega
  unfold psecEnable portPtr
  dsimp only
  generalize (if trap = 0 then 30 else trap) = interval at hshort ⊢
  by_cases hp : 1 ≤ pid ∧ pid ≤ c.nports
  · rw [if_pos hp]
    dsimp only
    by_cases htrap : trap ≤ 1000000
    · rw [if_neg (hshort.mpr htrap), if_pos ⟨hp.1, hp.2, htrap⟩]
    · rw [if_pos (not_not.mp fun h => htrap (hshort.mp h)), if_neg fun h => htrap h.2.2]
  · rw [if_neg hp, if_neg fun h => hp ⟨h.1, h.2.1⟩]

/-- The invariant of runs: the ports that are no stack ports are right. -/
def Sound (stack : ℕ → Option PortLearn) (x : SecFdb) : Prop :=
  ∀ p, stack p = none → (x.ports p).Ok false

variable {stack : ℕ → Option PortLearn}

/-- The ports after the start are sound. -/
theorem sound_init : Sound stack (init stack) := by
  intro p hp
  refine ⟨?_, Int.one_pos⟩
  show (stack p).getD portStartLearn = _
  rw [hp]
  rfl

/-- Sound ports are programmed as their counts ask. -/
theorem Sound.programmed (h : Sound stack x) : Programmed c stack x := fun p _ _ hp =>
  PsecPort.agrees_iff_fresh.mp (h p hp).agrees

/-- A call of `psec_enable` keeps the hardware right if and only if it is steady. -/
theorem Sound.enable_iff (h : Sound stack x) (pid : ℕ) (enable : Bool) (act : PsecAction)
    (trap : ℕ) :
    Programmed c stack (x.psecEnable c pid enable act trap).1 ↔
      Steady c stack x (.enable pid enable act trap) := by
  unfold Programmed
  rw [enable_ports]
  by_cases hcall : 1 ≤ pid ∧ pid ≤ c.nports ∧ trap ≤ 1000000
  · rw [if_pos hcall]
    obtain ⟨hlo, hhi, htrap⟩ := hcall
    constructor
    · intro hall _ _ hfront _
      have hfresh := hall pid hlo hhi hfront
      rw [update_self] at hfresh
      exact (PsecPort.psecEnable_agrees_iff (h pid hfront).agrees enable act _).mp
        (PsecPort.agrees_iff_fresh.mpr hfresh)
    · intro hsteady p hplo hphi hfront
      by_cases hp : p = pid
      · obtain rfl := hp
        rw [update_self]
        exact PsecPort.agrees_iff_fresh.mp
          ((PsecPort.psecEnable_agrees_iff (h p hfront).agrees enable act _).mpr
          (hsteady hlo hhi hfront htrap))
      · rw [update_of_ne hp]
        exact PsecPort.agrees_iff_fresh.mp (h p hfront).agrees
  · rw [if_neg hcall]
    refine iff_of_true (fun p hplo hphi hfront => ?_) fun hlo hhi _ htrap => ?_
    · exact PsecPort.agrees_iff_fresh.mp (h p hfront).agrees
    · exact absurd ⟨hlo, hhi, htrap⟩ hcall

/-- **Step.** `psec_enable` keeps the ports sound when it is steady. -/
theorem Sound.enable (h : Sound stack x) (pid : ℕ) (enable : Bool) (act : PsecAction) (trap : ℕ)
    (hsteady : Steady c stack x (.enable pid enable act trap)) :
    Sound stack (x.psecEnable c pid enable act trap).1 := by
  intro p hfront
  rw [enable_ports]
  generalize (if trap = 0 then 30 else trap) = interval
  split_ifs with hcall
  · by_cases hp : p = pid
    · obtain rfl := hp
      rw [update_self]
      refine ⟨(PsecPort.psecEnable_agrees_iff (h p hfront).agrees enable act _).mpr
        (hsteady hcall.1 hcall.2.1 hfront hcall.2.2), ?_⟩
      have hmax := congrArg Psec.maxAddrs ((x.ports p).psecEnable_toPsec enable act interval)
      exact lt_of_lt_of_eq (h p hfront).max hmax.symm
    · rw [update_of_ne hp]
      exact h p hfront
  · exact h p hfront

/-- A steady step keeps the ports right. -/
theorem Sound.step (hmin : 0 < c.psecMinAddrs) (h : Sound stack x) {op : PsecOp}
    (hs : SecFdb.step c x op = some x') (hsteady : Steady c stack x op) : Sound stack x' := by
  by_cases hop : ∃ pid enable act trap, op = .enable pid enable act trap
  · obtain ⟨pid, enable, act, trap, rfl⟩ := hop
    obtain rfl := Option.some_inj.mp hs
    exact h.enable pid enable act trap hsteady
  · have hother : ∀ pid enable act trap, op ≠ .enable pid enable act trap :=
      fun pid enable act trap heq => hop ⟨pid, enable, act, trap, heq⟩
    exact fun p hfront => follow_step hmin hother hs p (h p hfront)

/-- Sound ports are programmed after a call exactly when the call is steady. -/
theorem Sound.programmed_iff (hmin : 0 < c.psecMinAddrs) (h : Sound stack x) {op : PsecOp}
    (hs : SecFdb.step c x op = some x') : Programmed c stack x' ↔ Steady c stack x op := by
  by_cases hop : ∃ pid enable act trap, op = .enable pid enable act trap
  · obtain ⟨pid, enable, act, trap, rfl⟩ := hop
    obtain rfl := Option.some_inj.mp hs
    exact h.enable_iff pid enable act trap
  · have hsteady : Steady c stack x op := by
      cases op with
      | enable pid enable act trap => exact absurd ⟨pid, enable, act, trap, rfl⟩ hop
      | fdb op => trivial
      | setMaxAddrs pid max => trivial
      | setMode pid mode => trivial
    exact iff_of_true (h.step hmin hs hsteady).programmed hsteady

/-- In a run of steady operations every port that is no stack port has in the hardware what a fresh
enable would program, and the next operation keeps this if and only if it is steady. -/
theorem fresh_iff_steady (hmin : 0 < c.psecMinAddrs)
    (hr : Guarded.Reach (SecFdb.step c) (Steady c stack) (init stack) x) :
    Programmed c stack x ∧
      ∀ op x', SecFdb.step c x op = some x' → (Programmed c stack x' ↔ Steady c stack x op) := by
  have hsound : Sound stack x :=
    hr.invariant (Sound stack) sound_init fun _ _ _ h hok hs => h.step hmin hs hok
  exact ⟨hsound.programmed, fun op x' hs => hsound.programmed_iff hmin hs⟩

/-- No port is a stack port. -/
def noStack : ℕ → Option PortLearn := fun _ => none

/-- Port 1 may have one address; an address beyond it is a breach. -/
def limited : SecFdb :=
  let x := ((init noStack).psecSetMode FdbRun.conf₁ 1 .PSECM_MAX_ADDRS).1
  (x.psecEnable FdbRun.conf₁ 1 true .PSECA_RESTRICT 0).1

/-- The run to the limit of a port meets the condition at each of its steps. -/
theorem reach_limited : Guarded.Reach (SecFdb.step FdbRun.conf₁) (Steady FdbRun.conf₁ noStack)
    (init noStack) limited := by
  have h₀ : Guarded.Reach (SecFdb.step FdbRun.conf₁) (Steady FdbRun.conf₁ noStack) (init noStack)
    (init noStack) := .init
  have h₁ := h₀.snoc (.setMode 1 .PSECM_MAX_ADDRS) trivial rfl
  exact h₁.snoc (.enable 1 true .PSECA_RESTRICT 0) (fun _ _ _ _ hen => absurd hen (by decide)) rfl

/-- An address is learned, the port is locked, and a new action would not be programmed. -/
theorem fresh_iff_steady_limited :
    Programmed FdbRun.conf₁ noStack
        (limited.insert FdbRun.conf₁ FdbRun.master₁
          ⟨200, .PAS_OK⟩ PsecRun.portEntry false false).1 ∧
      ¬Programmed FdbRun.conf₁ noStack
        ((limited.insert FdbRun.conf₁ FdbRun.master₁ ⟨200, .PAS_OK⟩
          PsecRun.portEntry false false).1.psecEnable
          FdbRun.conf₁ 1 true .PSECA_FORWARD 0).1 := by
  have hr := reach_limited.snoc
    (.fdb (.insert FdbRun.master₁ ⟨200, .PAS_OK⟩ PsecRun.portEntry false false)) trivial rfl
  obtain ⟨hfresh, hiff⟩ := fresh_iff_steady (by decide) hr
  refine ⟨hfresh, fun h => ?_⟩
  have hsteady := (hiff (.enable 1 true .PSECA_FORWARD 0) _ rfl).mp h
  exact absurd (hsteady (by decide) (by decide) rfl (by decide) (by decide +kernel) rfl
    (by decide +kernel)) (by decide +kernel)

/-- Port 1 is locked and forwards what comes from new addresses. Then it is to restrict them, and
goes on to forward. -/
theorem not_fresh : ∃ x,
    Guarded.Reach (SecFdb.step FdbRun.conf₁) (fun _ _ => True) (init noStack) x ∧
    ¬Programmed FdbRun.conf₁ noStack x := by
  have h₀ : Guarded.Reach (SecFdb.step FdbRun.conf₁) (fun _ _ => True) (init noStack)
    (init noStack) := .init
  have h₁ := h₀.snoc (.enable 1 true .PSECA_FORWARD 0) trivial rfl
  have h₂ := h₁.snoc (.enable 1 true .PSECA_RESTRICT 0) trivial rfl
  refine ⟨_, h₂, fun h => ?_⟩
  have hport := h 1 (by decide) (by decide) rfl
  revert hport
  unfold PsecPort.Fresh
  decide +kernel

end SecFdb

end Presteramgr
