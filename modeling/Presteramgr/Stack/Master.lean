import Presteramgr.Mac.Fencing

/-!
# The order of stack configurations

A unit is told of stack configurations, each with a serial, by `stack_set_master`, which hands them
on to the FDB thread (`fdbman_set_master`), and by the announcements of masters. An old
configuration is refused in both places, but not before each of them has changed something:
`stack_set_master` has assigned `master_id`, and `fdbman_set_master` has cleared the link-state
serials of the devices of the old configuration. A configuration between the serial of the unit and
the one pending is even accepted, when its devices are others.

## Main definitions

* `stackSetMaster`: the variables of `stack.c`, and what is handed on to the FDB thread;
* `MasterRun`: these variables together with the FDB thread;
* `MasterRun.Forward`: a step brings no serial back, and an old configuration changes nothing;
* `MasterRun.Ok`: an old configuration is one that the checks refuse before anything is changed.

## Main results

* `MasterRun.never_back`: then all steps go forward;
* `MasterRun.not_never_back`: a configuration that overtakes another takes the pending serial back.
-/

namespace Presteramgr

/-- The arguments of `stack_set_master`. -/
structure StackConf where
  master : ℕ
  serial : ℕ
  dbmp : Finset ℕ
  mac : Mac
deriving DecidableEq

/-- `master_id`, `stack_serial` and `master_mac`. -/
structure StackMaster where
  masterId : ℕ
  stackSerial : ℕ
  masterMac : Mac
deriving DecidableEq

/-- `stack_init`. -/
def StackMaster.start (stackId : ℕ) (mac : Mac) : StackMaster where
  masterId := stackId
  stackSerial := 0
  masterMac := mac

/-- `stack_set_master`: the variables, the message to the FDB thread, and the status. -/
def stackSetMaster (s : StackMaster) (conf : StackConf) :
    StackMaster × Option SetMasterInfo × Status :=
  if 16 < conf.master then (s, none, .ST_BAD_VALUE)
  else
    let s := { s with masterId := conf.master }
    if conf.serial < s.stackSerial then (s, none, .ST_OK)
    else
      ({ s with stackSerial := conf.serial, masterMac := conf.mac },
        some ⟨conf.master, conf.serial, conf.dbmp⟩, .ST_OK)

/-- All that `stack_set_master` can do: nothing, take over the master alone, or take over the
configuration. -/
theorem stackSetMaster_cases (s : StackMaster) (conf : StackConf) :
    (16 < conf.master ∧ stackSetMaster s conf = (s, none, .ST_BAD_VALUE)) ∨
    (conf.master ≤ 16 ∧ conf.serial < s.stackSerial ∧
      stackSetMaster s conf = ({ s with masterId := conf.master }, none, .ST_OK)) ∨
    (conf.master ≤ 16 ∧ s.stackSerial ≤ conf.serial ∧ stackSetMaster s conf =
      (⟨conf.master, conf.serial, conf.mac⟩, some ⟨conf.master, conf.serial, conf.dbmp⟩,
        .ST_OK)) := by
  unfold stackSetMaster
  by_cases hmax : 16 < conf.master
  · exact .inl ⟨hmax, if_pos hmax⟩
  · rw [if_neg hmax]
    by_cases hold : conf.serial < s.stackSerial
    · exact .inr (.inl ⟨by omega, hold, if_pos hold⟩)
    · exact .inr (.inr ⟨by omega, by omega, if_neg hold⟩)

/-- The stack variables and the FDB thread of a unit, the messages from the one to the other, and
all configurations that `stack_set_master` was called with. -/
structure MasterRun where
  stack : StackMaster
  mailbox : List SetMasterInfo
  unit : FdbUnit
  called : List StackConf

/-- What happens on a unit: a call of `stack_set_master`, or a step of the FDB thread, which may
take a configuration at any time. -/
inductive MasterOp
  | stack (conf : StackConf)
  | unit (op : UnitOp)

namespace MasterRun

variable (c : UnitConf)

/-- A step of a run. -/
def step (s : MasterRun) : MasterOp → Option MasterRun
  | .stack conf =>
    let r := stackSetMaster s.stack conf
    some { s with
      stack := r.1
      mailbox := s.mailbox ++ r.2.1.toList
      called := conf :: s.called }
  | .unit op => (s.unit.step c op).map fun u => { s with unit := u }

/-- A unit after its start. -/
def init (mac : Mac) (vifs : Vifs) (psec : ℕ → Psec) : MasterRun where
  stack := .start c.stackId mac
  mailbox := []
  unit := FdbUnit.init c vifs psec
  called := []

/-- Serials do not decrease, and a configuration that is older than the newest one accepted changes
nothing. -/
structure Forward (s s' : MasterRun) (op : MasterOp) : Prop where
  serial_le : s.unit.man.serial ≤ s'.unit.man.serial
  newserial_le : s.unit.man.newserial ≤ s'.unit.man.newserial
  stale : ∀ info, op = .unit (.setMaster info) → info.serial < s.unit.man.newserial →
    s'.unit.man.newmaster = s.unit.man.newmaster ∧ s'.unit.man.state = s.unit.man.state ∧
      s'.unit.man.devsbmp = s.unit.man.devsbmp ∧ s'.unit.vifs.serial = s.unit.vifs.serial
  stack_stale : ∀ conf, op = .stack conf → conf.serial < s.stack.stackSerial →
    s'.stack = s.stack ∧ s'.mailbox = s.mailbox ∧ s'.unit = s.unit

/-- The stack variables are those of a configuration that `stack_set_master` was called with, or
the ones of the start. -/
def Belongs (mac : Mac) (s : MasterRun) : Prop :=
  s.stack = .start c.stackId mac ∨
    ∃ conf ∈ s.called, s.stack = ⟨conf.master, conf.serial, conf.mac⟩

/-- An old configuration for the FDB thread is older than the unit's own one and clears no serial,
or names the devices that the unit knows already; one for `stack_set_master` has a master that is
refused, or the one that the unit has. -/
def Ok (s : MasterRun) : MasterOp → Prop
  | .unit (.setMaster info) => info.serial < s.unit.man.newserial →
      (info.serial < s.unit.man.serial ∧ ∀ i ∈ info.dbmp \ s.unit.man.devsbmp,
        1 ≤ i → i ≤ 15 → s.unit.vifs.serial i = 0) ∨ s.unit.man.devsbmp = info.dbmp
  | .stack conf => conf.serial < s.stack.stackSerial →
      16 < conf.master ∨ conf.master = s.stack.masterId
  | _ => True

variable {c} {s s' : MasterRun} {op : MasterOp} {mac : Mac} {u u' : FdbUnit}
  {info : SetMasterInfo}

/-- Serials that are 0 already are not changed by clearing them. -/
theorem vifLsClearSerial_serial {v : Vifs} {newdevs : Finset ℕ}
    (hzero : ∀ i ∈ newdevs, 1 ≤ i → i ≤ 15 → v.serial i = 0) :
    (vifLsClearSerial v newdevs).serial = v.serial := by
  funext i
  show (if i ∈ newdevs ∧ 1 ≤ i ∧ i ≤ 15 then 0 else v.serial i) = v.serial i
  split_ifs with hi
  · exact (hzero i hi.1 hi.2.1 hi.2.2).symm
  · rfl

/-- A configuration told to the FDB thread. -/
theorem setMaster_forward
    (hok : info.serial < u.man.newserial →
      (info.serial < u.man.serial ∧ ∀ i ∈ info.dbmp \ u.man.devsbmp,
        1 ≤ i → i ≤ 15 → u.vifs.serial i = 0) ∨ u.man.devsbmp = info.dbmp)
    (hset : u.man.Settled c.stackId) :
    u.man.serial ≤ (u.setMaster c info).man.serial ∧
      u.man.newserial ≤ (u.setMaster c info).man.newserial ∧
      (info.serial < u.man.newserial → (u.setMaster c info).man = u.man ∧
        (u.setMaster c info).vifs.serial = u.vifs.serial) := by
  have hle := hset.serial_le
  show u.man.serial ≤ (u.man.setMaster c.stackId info).1.serial ∧
    u.man.newserial ≤ (u.man.setMaster c.stackId info).1.newserial ∧ _
  rcases Fdbman.setMaster_cases c.stackId u.man info with ⟨heq, -⟩ | ⟨hge, hnew, hcases⟩
  · rw [heq]
    refine ⟨le_rfl, le_rfl, fun hold => ⟨heq, vifLsClearSerial_serial ?_⟩⟩
    rcases hok hold with ⟨-, hzero⟩ | hsame
    · exact hzero
    · -- no device is new
      rw [hsame, Finset.sdiff_self]
      exact fun i hi => absurd hi (Finset.notMem_empty i)
  · -- a configuration that is accepted is not old
    have hnewer : u.man.newserial ≤ info.serial := by
      by_contra hlt
      rcases hok (by omega) with ⟨hold, -⟩ | hsame
      · omega
      · exact hnew ⟨by omega, hsame⟩
    rcases hcases with ⟨-, heq⟩ | ⟨-, heq⟩
    · rw [heq]
      exact ⟨hge, hnewer, fun hold => absurd hold (not_lt.mpr hnewer)⟩
    · rw [heq]
      exact ⟨le_rfl, hnewer, fun hold => absurd hold (not_lt.mpr hnewer)⟩

/-- An announcement brings no serial back. -/
theorem masterReady_forward {m : Fdbman} (stackId sender serial : ℕ) (devsbmp : Finset ℕ) :
    m.serial ≤ (m.masterReady stackId sender serial devsbmp).serial ∧
      m.newserial ≤ (m.masterReady stackId sender serial devsbmp).newserial := by
  rcases Fdbman.masterReady_cases stackId m sender serial devsbmp with
    ⟨heq, -⟩ | ⟨hle, -, heq⟩ | ⟨hle, hle', heq⟩ <;> rw [heq]
  · exact ⟨le_rfl, le_rfl⟩
  · exact ⟨hle, le_rfl⟩
  · exact ⟨hle, hle'⟩

/-- A step of the FDB thread other than a configuration brings no serial back. -/
theorem unit_forward {op : UnitOp} (hs : u.step c op = some u')
    (hop : ∀ info, op ≠ .setMaster info) :
    u.man.serial ≤ u'.man.serial ∧ u.man.newserial ≤ u'.man.newserial := by
  cases op with
  | setMaster info => exact absurd rfl (hop info)
  | recv mo p =>
    obtain ⟨h, hh, rfl⟩ := Option.map_eq_some_iff.mp hs
    by_cases hready : p.msg = .FMC_MASTER_READY
    · obtain rfl := Option.some_inj.mp ((FdbUnit.fdbmanHandlePkt_ready hready).symm.trans hh)
      exact masterReady_forward _ _ _ _
    · rw [FdbUnit.fdbmanHandlePkt_man hready hh]
      exact ⟨le_rfl, le_rfl⟩
  | ctl mo cmd =>
    obtain rfl := Option.some_inj.mp hs
    rw [FdbUnit.fdbCtlHandler_man]
    exact ⟨le_rfl, le_rfl⟩
  | upd env mo buf as =>
    obtain ⟨h, hh, rfl⟩ := Option.map_eq_some_iff.mp hs
    obtain ⟨r, -, rfl⟩ := Option.map_eq_some_iff.mp hh
    exact ⟨le_rfl, le_rfl⟩

/-- Every step goes forward. -/
theorem forward_step (hset : s.unit.man.Settled c.stackId) (hok : Ok s op)
    (hs : step c s op = some s') : Forward s s' op := by
  cases op with
  | stack conf =>
    obtain rfl := Option.some_inj.mp hs
    refine ⟨le_rfl, le_rfl, nofun, fun conf' heq hold => ?_⟩
    obtain rfl := MasterOp.stack.inj heq
    show (stackSetMaster s.stack conf).1 = _ ∧
      s.mailbox ++ (stackSetMaster s.stack conf).2.1.toList = _ ∧ _
    rcases stackSetMaster_cases s.stack conf with ⟨-, hr⟩ | ⟨hmax, -, hr⟩ | ⟨-, hge, -⟩
    · rw [hr]
      exact ⟨rfl, List.append_nil _, rfl⟩
    · rw [hr]
      have hsame : conf.master = s.stack.masterId := (hok hold).resolve_left (by omega)
      exact ⟨by rw [hsame], List.append_nil _, rfl⟩
    · omega
  | unit op =>
    obtain ⟨u', hu, rfl⟩ := Option.map_eq_some_iff.mp hs
    cases op with
    | setMaster info =>
      obtain rfl := Option.some_inj.mp hu
      obtain ⟨hserial, hnewserial, hstale⟩ := setMaster_forward hok hset
      refine ⟨hserial, hnewserial, fun info' heq hold => ?_, nofun⟩
      obtain rfl := UnitOp.setMaster.inj (MasterOp.unit.inj heq)
      obtain ⟨hman, hvifs⟩ := hstale hold
      exact ⟨congrArg Fdbman.newmaster hman, congrArg Fdbman.state hman,
        congrArg Fdbman.devsbmp hman, hvifs⟩
    | _ =>
      obtain ⟨hserial, hnewserial⟩ := unit_forward hu fun _ => nofun
      exact ⟨hserial, hnewserial, fun _ => nofun, fun _ => nofun⟩

/-- The stack variables stay those of a configuration. -/
theorem belongs_step (h : Belongs c mac s) (hok : Ok s op) (hs : step c s op = some s') :
    Belongs c mac s' := by
  cases op with
  | unit op =>
    obtain ⟨u', -, rfl⟩ := Option.map_eq_some_iff.mp hs
    exact h
  | stack conf =>
    obtain rfl := Option.some_inj.mp hs
    have hkeep : (stackSetMaster s.stack conf).1 = s.stack →
        Belongs c mac { s with
          stack := (stackSetMaster s.stack conf).1
          mailbox := s.mailbox ++ (stackSetMaster s.stack conf).2.1.toList
          called := conf :: s.called } := by
      intro heq
      unfold Belongs
      dsimp only
      rw [heq]
      exact h.imp_right fun ⟨conf', hmem, hconf⟩ =>
        ⟨conf', List.mem_cons_of_mem _ hmem, hconf⟩
    rcases stackSetMaster_cases s.stack conf with ⟨-, hr⟩ | ⟨hmax, hold, hr⟩ | ⟨-, -, hr⟩
    · exact hkeep (congrArg Prod.fst hr)
    · refine hkeep ((congrArg Prod.fst hr).trans ?_)
      have hsame : conf.master = s.stack.masterId := (hok hold).resolve_left (by omega)
      rw [hsame]
    · exact .inr ⟨conf, List.mem_cons_self, congrArg Prod.fst hr⟩

/-- What holds in every state. -/
structure Inv (c : UnitConf) (mac : Mac) (s : MasterRun) : Prop where
  settled : s.unit.man.Settled c.stackId
  belongs : Belongs c mac s

theorem Inv.step (h : Inv c mac s) (hok : Ok s op) (hs : MasterRun.step c s op = some s') :
    Inv c mac s' := by
  refine ⟨?_, belongs_step h.belongs hok hs⟩
  cases op with
  | stack conf =>
    obtain rfl := Option.some_inj.mp hs
    exact h.settled
  | unit op =>
    obtain ⟨u', hu, rfl⟩ := Option.map_eq_some_iff.mp hs
    exact FdbUnit.settled_step h.settled hu

/-- In a run in which old configurations are such that the checks refuse them before anything is
changed, no serial goes back, old configurations change nothing, and the master is always that of
the configuration with the stack serial. -/
theorem never_back (c : UnitConf) (mac : Mac) (vifs : Vifs) (psec : ℕ → Psec) (s : MasterRun)
    (hr : Guarded.Reach (step c) Ok (init c mac vifs psec) s) :
    s.unit.man.Settled c.stackId ∧ Belongs c mac s ∧
      ∀ op s', Ok s op → step c s op = some s' → Forward s s' op := by
  have h : Inv c mac s := hr.invariant (Inv c mac) ⟨Fdbman.settled_start, .inl rfl⟩
    fun _ _ _ h hok hs => h.step hok hs
  exact ⟨h.settled, h.belongs, fun op s' hok hs => forward_step h.settled hok hs⟩

/-! ### A configuration that overtakes another -/

/-- Unit 1 has been told that unit 2 is master of configuration 5. -/
def pending₅ : MasterRun :=
  let s := init FdbUnit.conf₁ 7 FdbUnit.vifsDown FdbRun.psecOff
  { s with unit := s.unit.setMaster FdbUnit.conf₁ ⟨2, 5, {1, 2}⟩ }

theorem reach_pending₅ {ok : MasterRun → MasterOp → Prop}
    (hok : ok (init FdbUnit.conf₁ 7 FdbUnit.vifsDown FdbRun.psecOff)
      (.unit (.setMaster ⟨2, 5, {1, 2}⟩))) :
    Guarded.Reach (step FdbUnit.conf₁) ok (init FdbUnit.conf₁ 7 FdbUnit.vifsDown FdbRun.psecOff)
      pending₅ := by
  have h₀ : Guarded.Reach (step FdbUnit.conf₁) ok
    (init FdbUnit.conf₁ 7 FdbUnit.vifsDown FdbRun.psecOff)
    (init FdbUnit.conf₁ 7 FdbUnit.vifsDown FdbRun.psecOff) := .init
  exact h₀.snoc (.unit (.setMaster ⟨2, 5, {1, 2}⟩)) hok rfl

/-- The configuration is pending, under its serial. -/
theorem never_back_pending₅ :
    pending₅.unit.man.Settled 1 ∧ pending₅.unit.man.state = .FST_PRE_MEMBER ∧
      pending₅.unit.man.serial = 0 ∧ pending₅.unit.man.newserial = 5 := by
  refine ⟨(never_back FdbUnit.conf₁ 7 FdbUnit.vifsDown FdbRun.psecOff pending₅
    (reach_pending₅ fun hold => ?_)).1, by decide, by decide, by decide⟩
  exact absurd hold (Nat.not_lt_zero 5)

/-- Configuration 3 arrives late. Its devices are others, so it replaces configuration 5. -/
theorem not_never_back : ∃ s s' op, Guarded.Reach (step FdbUnit.conf₁) (fun _ _ => True)
    (init FdbUnit.conf₁ 7 FdbUnit.vifsDown FdbRun.psecOff) s ∧
    step FdbUnit.conf₁ s op = some s' ∧ ¬Forward s s' op := by
  refine ⟨pending₅, _, .unit (.setMaster ⟨3, 3, {1, 3}⟩), reach_pending₅ trivial, rfl, fun h => ?_⟩
  exact absurd h.newserial_le (by decide)

end MasterRun

end Presteramgr
