import Mathlib.Data.Bool.Basic
import Presteramgr.Lib.Guarded
import Presteramgr.Lib.Sweep
import Presteramgr.Types

/-!
# Port isolation (`port.c`)

Ports can be protected and put into communities. Each port has a bitmap of the ports of its device
that it may send to; a call edits the bitmaps of its port and of the others, marks them, and writes
the marked ones to the hardware.

## Main definitions

* `IsoConf`: the port map of a hardware variant;
* `Iso.setComm`, `Iso.setProt`: `__port_set_comm` and `__port_set_prot`;
* `Iso.portSetProtected`, `Iso.portSetComm`, `Iso.portStart`;
* `Iso.blocked`: two ports are protected and in no common community.
-/

namespace Presteramgr

open Function (update update_self update_of_ne)
open Sweep (sweep)

/-- `enum port_stack_role`. -/
inductive PortStackRole
  | PSR_NONE
  | PSR_PRIMARY
  | PSR_SECONDARY
deriving DecidableEq, Repr

/-- The number of the CPU port of a device. -/
def CPSS_CPU_PORT_NUM_CNS : ℕ := 63

/-- A hardware variant (`DECLARE_PORT_MAP`, `PORT_STACK_ROLE`, `dev_info`) and the number of the
unit. Ports are given by their index in `ports`. -/
structure IsoConf where
  NPORTS : ℕ
  ldev : ℕ → ℕ
  lport : ℕ → ℕ
  stack_role : ℕ → PortStackRole
  /-- The ports that connect the devices of a unit. -/
  ic_ports : ℕ → List ℕ
  stack_id : ℕ
  inj : ∀ i < NPORTS, ∀ j < NPORTS, ldev i = ldev j → lport i = lport j → i = j
  not_ic : ∀ i < NPORTS, lport i ∉ ic_ports (ldev i)
  not_cpu : ∀ i < NPORTS, lport i ≠ CPSS_CPU_PORT_NUM_CNS
  ic_not_cpu : ∀ i < NPORTS, CPSS_CPU_PORT_NUM_CNS ∉ ic_ports (ldev i)

namespace IsoConf

variable (c : IsoConf)

/-- `stack_active`. -/
def stackActive : Prop := c.stack_id ≠ 0

/-- `is_stack_port`. -/
def isStackPort (i : ℕ) : Prop := c.stackActive ∧ c.stack_role i ≠ .PSR_NONE

instance (i : ℕ) : Decidable (c.isStackPort i) :=
  inferInstanceAs (Decidable (c.stack_id ≠ 0 ∧ _))

/-- `all_ports_bmp`, as `port_init` fills it. -/
def allPortsBmp (d p : ℕ) : Bool :=
  decide (p ∈ c.ic_ports d) || (List.range c.NPORTS).any fun i => c.ldev i = d ∧ c.lport i = p

/-- A port of the front panel. -/
def Front (i : ℕ) : Prop := i < c.NPORTS ∧ ¬c.isStackPort i

instance (i : ℕ) : Decidable (c.Front i) := inferInstanceAs (Decidable (_ ∧ _))

/-- The port of an interface is among all ports. -/
theorem allPortsBmp_lport {i : ℕ} (hi : i < c.NPORTS) :
    c.allPortsBmp (c.ldev i) (c.lport i) = true := by
  refine Bool.or_eq_true_iff.mpr (Or.inr ?_)
  rw [List.any_eq_true]
  exact ⟨i, List.mem_range.mpr hi, decide_eq_true ⟨rfl, rfl⟩⟩

/-- A port between the devices of a unit is among all ports. -/
theorem allPortsBmp_ic {d p : ℕ} (hp : p ∈ c.ic_ports d) : c.allPortsBmp d p = true :=
  Bool.or_eq_true_iff.mpr (Or.inl (decide_eq_true hp))

/-- The port of the CPU is not among all ports. -/
theorem allPortsBmp_cpu {i : ℕ} (hi : i < c.NPORTS) :
    c.allPortsBmp (c.ldev i) CPSS_CPU_PORT_NUM_CNS = false := by
  refine Bool.or_eq_false_iff.mpr ⟨decide_eq_false (c.ic_not_cpu i hi), ?_⟩
  rw [List.any_eq_false]
  intro j hj h
  exact c.not_cpu j (List.mem_range.mp hj) (of_decide_eq_true h).2

end IsoConf

/-- `struct port`, as far as isolation goes. -/
structure IsoPort where
  c_protected : Bool
  c_prot_comm : ℕ
  iso_bmp : ℕ → Bool
  iso_bmp_changed : Bool

/-- The isolation table has entries for bridged and for routed traffic. -/
inductive IsoTraffic
  | L2
  | L3
deriving DecidableEq, Repr

/-- `ports` and the isolation table of the hardware, where `none` stands for an entry that was not
written. -/
structure Iso where
  ports : ℕ → IsoPort
  hw : IsoTraffic → ℕ → Option (ℕ → Bool)

namespace Iso

variable (c : IsoConf) (s : Iso)

/-- A port changes. -/
def port (i : ℕ) (f : IsoPort → IsoPort) : Iso :=
  { s with ports := update s.ports i (f (s.ports i)) }

/-- The port `t` may or may not send to the port `o`, and the other way round. -/
def link (t o : ℕ) (allow : Bool) : Iso :=
  (s.port t fun p =>
    { p with
      iso_bmp := update p.iso_bmp (c.lport o) allow
      iso_bmp_changed := true }).port o fun p =>
      { p with iso_bmp := update p.iso_bmp (c.lport t) allow, iso_bmp_changed := true }

/-- `port_set_iso_bmp`. -/
def portSetIsoBmp (s : Iso) (i : ℕ) : Iso :=
  if (s.ports i).iso_bmp_changed then
    { s.port i fun p => { p with iso_bmp_changed := false } with
      hw := fun traffic => update (s.hw traffic) i (some (s.ports i).iso_bmp) }
  else s

/-- One round of the loop of `__port_set_comm`. -/
def setCommRound (t comm : ℕ) (s : Iso) (i : ℕ) : Iso :=
  if ¬(s.ports i).c_protected then s
  else if i = t then s
  else
    let s :=
      if (s.ports t).c_prot_comm ≠ 0 ∧ (s.ports t).c_prot_comm = (s.ports i).c_prot_comm then
        s.link c t i false
      else s
    if comm ≠ 0 ∧ comm = (s.ports i).c_prot_comm then s.link c t i true else s

/-- `__port_set_comm`, with the value it returns. -/
def setComm (t comm : ℕ) : Bool × Iso :=
  if (s.ports t).c_prot_comm = comm then (false, s)
  else
    let s := if (s.ports t).c_protected then sweep (setCommRound c t comm) c.NPORTS s else s
    let s := s.port t fun p => { p with c_prot_comm := comm }
    ((s.ports t).c_protected, s)

/-- One round of the loop of `__port_set_prot`. -/
def setProtRound (t : ℕ) (prot : Bool) (s : Iso) (i : ℕ) : Iso :=
  if i = t then s
  else if prot then
    if (s.ports i).c_protected then
      if (s.ports t).c_prot_comm ≠ 0 ∧ (s.ports i).c_prot_comm = (s.ports t).c_prot_comm then
        s.link c t i true
      else s.link c t i false
    else s.link c t i true
  else s.link c t i true

/-- `__port_set_prot`, with the value it returns. -/
def setProt (t : ℕ) (prot : Bool) : Bool × Iso :=
  if (s.ports t).c_protected = prot then (false, s)
  else
    let s := sweep (setProtRound c t prot) c.NPORTS s
    (true, s.port t fun p => { p with c_protected := prot })

/-- `port_update_iso`. -/
def portUpdateIso : Iso := sweep portSetIsoBmp c.NPORTS s

/-- `port_valid`. -/
def portValid (pid : ℕ) : Prop := 1 ≤ pid ∧ pid ≤ c.NPORTS

instance (pid : ℕ) : Decidable (portValid c pid) := inferInstanceAs (Decidable (_ ∧ _))

/-- `port_set_protected`. -/
def portSetProtected (pid : ℕ) (protect : ℕ) : Status × Iso :=
  if ¬portValid c pid then (.ST_BAD_VALUE, s)
  else if c.isStackPort (pid - 1) then (.ST_BAD_STATE, s)
  else
    let (changed, s) := s.setProt c (pid - 1) (decide (protect ≠ 0))
    (.ST_OK, if changed then s.portUpdateIso c else s)

/-- `port_set_comm`. `__port_set_comm` takes 8 bits of the community. -/
def portSetComm (pid : ℕ) (comm : ℕ) : Status × Iso :=
  if ¬portValid c pid then (.ST_BAD_VALUE, s)
  else if c.isStackPort (pid - 1) then (.ST_BAD_STATE, s)
  else
    let (changed, s) := s.setComm c (pid - 1) (comm % 256)
    (.ST_OK, if changed then s.portUpdateIso c else s)

/-- The ports after `port_init`. -/
def init : Iso where
  ports _ := ⟨false, 0, fun _ => false, false⟩
  hw _ _ := none

/-- `port_start` for one port. -/
def portStartRound (s : Iso) (i : ℕ) : Iso :=
  if c.isStackPort i then s
  else
    let s := s.port i fun p =>
      { p with iso_bmp := c.allPortsBmp (c.ldev i), iso_bmp_changed := true }
    s.portSetIsoBmp i

/-- `port_start`. -/
def portStart : Iso := sweep (portStartRound c) c.NPORTS init

/-- The calls. -/
inductive IsoOp
  | setProtected (pid protect : ℕ)
  | setComm (pid comm : ℕ)
deriving DecidableEq, Repr

/-- The state after a call. -/
def step (op : IsoOp) : Option Iso :=
  match op with
  | .setProtected pid protect => some (s.portSetProtected c pid protect).2
  | .setComm pid comm => some (s.portSetComm c pid comm).2

/-! ### Blocked pairs -/

/-- Traffic from `t` to `o` is to be blocked: both are protected and not in the same community. -/
def blocked (t o : ℕ) : Prop :=
  ((s.ports t).c_protected = true ∧ (s.ports o).c_protected = true) ∧
    ¬((s.ports t).c_prot_comm ≠ 0 ∧ (s.ports t).c_prot_comm = (s.ports o).c_prot_comm)

instance (t o : ℕ) : Decidable (s.blocked t o) := inferInstanceAs (Decidable ((_ ∧ _) ∧ ¬(_ ∧ _)))

/-- Isolation holds in both directions. -/
theorem blocked_comm {s : Iso} {t o : ℕ} : s.blocked t o ↔ s.blocked o t := by
  unfold blocked
  constructor
  · rintro ⟨⟨ht, ho⟩, hcomm⟩
    exact ⟨⟨ho, ht⟩, fun ⟨h, heq⟩ => hcomm ⟨heq ▸ h, heq.symm⟩⟩
  · rintro ⟨⟨ht, ho⟩, hcomm⟩
    exact ⟨⟨ho, ht⟩, fun ⟨h, heq⟩ => hcomm ⟨heq ▸ h, heq.symm⟩⟩

end Iso

end Presteramgr
