import Mathlib.Data.Finset.SDiff
import Presteramgr.Stack.LinkState

/-!
# The FDB manager of a unit

The units of a stack share one forwarding database, kept by the unit that is its master. A unit
learns who is master from the stack configuration (`fdbman_set_master`) and from the announcement
of the master itself (`FMC_MASTER_READY`); a configuration that makes another unit master is
pending until that unit has announced itself.

Bitmaps of devices (`devsbmp_t`) are sets of device numbers, serials are natural numbers.

## Main definitions

* `Fdbman`: the variables of the election;
* `Fdbman.setMaster`, `Fdbman.masterReady`: what the configuration and an announcement do;
* `Fdbman.Settled`: what holds of these variables at all times.

## Main results

* `Fdbman.setMaster_cases` and `Fdbman.masterReady_cases`: all that a step can do;
* `Fdbman.settled_setMaster` and `Fdbman.settled_masterReady`.
-/

namespace Presteramgr

/-- `enum fdbman_state`. -/
inductive FdbmanState
  | FST_MASTER
  | FST_PRE_MEMBER
  | FST_MEMBER
deriving DecidableEq, Repr

/-- `fdbman_state`, `fdbman_master`, `fdbman_newmaster`, `fdbman_serial`, `fdbman_newserial` and
`fdbman_devsbmp`. -/
structure Fdbman where
  state : FdbmanState
  master : ℕ
  newmaster : ℕ
  serial : ℕ
  newserial : ℕ
  devsbmp : Finset ℕ
deriving DecidableEq

/-- `struct set_master_info`. -/
structure SetMasterInfo where
  master : ℕ
  serial : ℕ
  dbmp : Finset ℕ
deriving DecidableEq

/-- What `fdbman_set_master` sends to the other units and to the control thread. -/
inductive ManOut
  /-- `fdbman_send_master_announce_pkt`. -/
  | masterReady (serial : ℕ) (bmp : Finset ℕ)
  /-- `fdbman_sync_ls`, with the serial that the packet carries. -/
  | syncLs (serial : ℕ) (bmp : Finset ℕ)
  /-- `fdbman_sync_routing`: clear, then all routes and resolved addresses. -/
  | syncRouting (serial : ℕ) (bmp : Finset ℕ)
  /-- `fdbman_send_clear_routing`. -/
  | clearRouting (serial : ℕ) (bmp : Finset ℕ)
  /-- `SC_INT_CLEAR_RT_CMD`. -/
  | clearRt
  /-- `SC_INT_CLEAR_RE_CMD`. -/
  | clearRe (devs : Finset ℕ)
deriving DecidableEq

namespace Fdbman

/-- `mac_start`: a unit is master of itself. -/
def start (stackId : ℕ) : Fdbman where
  state := .FST_MASTER
  master := stackId
  newmaster := stackId
  serial := 0
  newserial := 0
  devsbmp := {stackId}

variable (stackId : ℕ) (m : Fdbman)

/-- `fdbman_set_master` on unit `stackId`, after `vif_ls_clear_serial`. -/
def setMaster (info : SetMasterInfo) : Fdbman × List ManOut :=
  let newdevs := info.dbmp \ m.devsbmp
  let deldevs := m.devsbmp \ info.dbmp
  if info.serial < m.serial then (m, [])
  else if info.serial ≤ m.newserial ∧ m.devsbmp = info.dbmp then (m, [])
  else
    let (m', out) : Fdbman × List ManOut :=
      match m.state with
      | .FST_MASTER =>
        if stackId ≠ info.master then
          ({ m with newmaster := info.master, newserial := info.serial, state := .FST_PRE_MEMBER },
            [])
        else
          ({ m with
              serial := info.serial
              newserial := info.serial
              master := info.master
              newmaster := info.master },
            [.masterReady info.serial info.dbmp] ++
              (if newdevs = ∅ then [] else
                [.syncLs info.serial newdevs, .syncRouting info.serial newdevs]))
      | .FST_PRE_MEMBER | .FST_MEMBER =>
        if stackId = info.master then
          ({ m with
              newmaster := info.master
              newserial := info.serial
              master := info.master
              serial := info.serial
              state := .FST_MASTER },
            [.masterReady info.serial info.dbmp] ++
              (if info.dbmp = ∅ then [] else [.syncLs info.serial info.dbmp]) ++
              [.clearRt, .clearRouting info.serial info.dbmp])
        else ({ m with newmaster := info.master, newserial := info.serial }, [])
    ({ m' with devsbmp := info.dbmp }, out ++ [.clearRe deldevs])

/-- The case `FMC_MASTER_READY` of `fdbman_handle_pkt` on unit `stackId`, for a packet of unit
`sender`. -/
def masterReady (sender serial : ℕ) (devsbmp : Finset ℕ) : Fdbman :=
  if stackId ∉ devsbmp then m
  else if serial < m.serial then m
  else if serial < m.newserial then
    { m with master := sender, serial := serial, devsbmp := devsbmp }
  -- the three states and their branches make the same assignments
  else
    { state := .FST_MEMBER
      newmaster := sender
      master := sender
      newserial := serial
      serial := serial
      devsbmp := devsbmp }

variable {stackId : ℕ} {m : Fdbman} {info : SetMasterInfo} {sender serial : ℕ}
  {devsbmp : Finset ℕ}

/-- All that `fdbman_set_master` can do: nothing, make the unit master at once, or leave the
master of the configuration pending. -/
theorem setMaster_cases (stackId : ℕ) (m : Fdbman) (info : SetMasterInfo) :
    ((setMaster stackId m info).1 = m ∧ (info.serial < m.serial ∨
      (info.serial ≤ m.newserial ∧ m.devsbmp = info.dbmp))) ∨
    (m.serial ≤ info.serial ∧ ¬(info.serial ≤ m.newserial ∧ m.devsbmp = info.dbmp) ∧
      ((stackId = info.master ∧ (setMaster stackId m info).1 =
        ⟨.FST_MASTER, info.master, info.master, info.serial, info.serial, info.dbmp⟩) ∨
      (stackId ≠ info.master ∧ (setMaster stackId m info).1 =
        { m with
          newmaster := info.master
          newserial := info.serial
          devsbmp := info.dbmp
          state := if m.state = .FST_MASTER then .FST_PRE_MEMBER else m.state }))) := by
  unfold setMaster
  by_cases hold : info.serial < m.serial
  · rw [if_pos hold]
    exact .inl ⟨rfl, .inl hold⟩
  by_cases hsame : info.serial ≤ m.newserial ∧ m.devsbmp = info.dbmp
  · rw [if_neg hold, if_pos hsame]
    exact .inl ⟨rfl, .inr hsame⟩
  rw [if_neg hold, if_neg hsame]
  refine .inr ⟨by omega, hsame, ?_⟩
  by_cases hme : stackId = info.master
  · refine .inl ⟨hme, ?_⟩
    cases m.state <;> simp [hme]
  · refine .inr ⟨hme, ?_⟩
    cases m.state <;> simp [hme]

/-- A unit announces itself only as the master of the configuration it is given. -/
theorem setMaster_announces {bmp : Finset ℕ}
    (h : .masterReady serial bmp ∈ (setMaster stackId m info).2) :
    stackId = info.master ∧ serial = info.serial ∧ bmp = info.dbmp := by
  unfold setMaster at h
  by_cases hold : info.serial < m.serial
  · rw [if_pos hold] at h
    exact absurd h List.not_mem_nil
  by_cases hsame : info.serial ≤ m.newserial ∧ m.devsbmp = info.dbmp
  · rw [if_neg hold, if_pos hsame] at h
    exact absurd h List.not_mem_nil
  rw [if_neg hold, if_neg hsame] at h
  by_cases hme : stackId = info.master
  · refine ⟨hme, ?_⟩
    -- the announcement comes first, and none of the other messages is one
    cases hstate : m.state <;> simp only [hstate] at h <;> split_ifs at h <;> simp_all
  · cases hstate : m.state <;> simp [hstate, hme] at h

/-- All that an announcement can do: nothing, bring the unit nearer to a configuration it knows
already, or make the unit a member. -/
theorem masterReady_cases (stackId : ℕ) (m : Fdbman) (sender serial : ℕ) (devsbmp : Finset ℕ) :
    (masterReady stackId m sender serial devsbmp = m ∧
      (stackId ∉ devsbmp ∨ serial < m.serial)) ∨
    (m.serial ≤ serial ∧ serial < m.newserial ∧ masterReady stackId m sender serial devsbmp =
      { m with master := sender, serial := serial, devsbmp := devsbmp }) ∨
    (m.serial ≤ serial ∧ m.newserial ≤ serial ∧ masterReady stackId m sender serial devsbmp =
      ⟨.FST_MEMBER, sender, sender, serial, serial, devsbmp⟩) := by
  unfold masterReady
  split_ifs with hbmp hold hknown
  · exact .inl ⟨rfl, .inr hold⟩
  · exact .inr (.inl ⟨by omega, hknown, rfl⟩)
  · exact .inr (.inr ⟨by omega, by omega, rfl⟩)
  · exact .inl ⟨rfl, .inl hbmp⟩

/-- A unit for which another master is pending is no master. -/
theorem pending_ne_master (state : FdbmanState) :
    (if state = .FST_MASTER then FdbmanState.FST_PRE_MEMBER else state) ≠ .FST_MASTER := by
  split_ifs with hstate
  · decide
  · exact hstate

/-- The serial is never ahead of the pending one, and a master is its own master under the last
configuration it knows. -/
structure Settled (stackId : ℕ) (m : Fdbman) : Prop where
  serial_le : m.serial ≤ m.newserial
  master : m.state = .FST_MASTER → m.master = stackId
  serial_eq : m.state = .FST_MASTER → m.serial = m.newserial

theorem settled_start : Settled stackId (start stackId) :=
  ⟨le_rfl, fun _ => rfl, fun _ => rfl⟩

theorem settled_setMaster (h : Settled stackId m) :
    Settled stackId (setMaster stackId m info).1 := by
  rcases setMaster_cases stackId m info with
    ⟨heq, -⟩ | ⟨hle, -, ⟨hme, heq⟩ | ⟨-, heq⟩⟩
  · rwa [heq]
  · rw [heq]
    exact ⟨le_rfl, fun _ => hme.symm, fun _ => rfl⟩
  · -- the unit is no master any more
    rw [heq]
    exact ⟨hle, fun hstate => absurd hstate (pending_ne_master _),
      fun hstate => absurd hstate (pending_ne_master _)⟩

theorem settled_masterReady (h : Settled stackId m) :
    Settled stackId (masterReady stackId m sender serial devsbmp) := by
  rcases masterReady_cases stackId m sender serial devsbmp with
    ⟨heq, -⟩ | ⟨hle, hlt, heq⟩ | ⟨-, -, heq⟩
  · rwa [heq]
  · rw [heq]
    -- a master knows no later configuration
    have hne : m.state ≠ .FST_MASTER := fun hstate => by
      have := h.serial_eq hstate
      omega
    exact ⟨hlt.le, fun hstate => absurd hstate hne, fun hstate => absurd hstate hne⟩
  · rw [heq]
    exact ⟨le_rfl, nofun, nofun⟩

end Fdbman

end Presteramgr
