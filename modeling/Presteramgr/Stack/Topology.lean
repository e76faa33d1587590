import Presteramgr.Lib.Loop
import Presteramgr.Lib.Sweep

/-!
# The topology of the stack (`stack.c`)

The stack daemon tells a unit of all units of the stack: the neighbours of each and the hops to it
over either stack port. From this the unit programs for each unit the stack port that leads there
(`stack_update_dev_map`) and the stack ports that pass on what the unit has flooded
(`stack_update_srcid_groups`). A port of the source is a number 0 or 1 of the arrays `hops` and
`neighbor`, the primary and the secondary stack port.

## Main definitions

* `StackSys`: what is fixed for a unit, `StackState`: its tables;
* `stackUpdateDevMap`, `stackUpdateSrcidGroups`, `stackUpdateConf`;
* `StackState.outPort`: the stack port by which frames to a unit leave.
-/

namespace Presteramgr

open Function (update update_self update_of_ne)
open Sweep

/-- `struct stackd_unit`. -/
structure StackdUnit where
  id : ℕ
  hops : Port → ℕ
  neighbor : Port → ℕ
  num_pp : ℕ

/-- An entry of `stack_units` after `memset`. -/
def StackdUnit.zero : StackdUnit := ⟨0, fun _ => 0, fun _ => 0, 0⟩

/-- `struct stackd_ntf_conf_info` with the units behind it. -/
structure StackdConf where
  /-- `topo == STT_RING`. -/
  ring : Bool
  units : List StackdUnit

/-- `CPSS_CSCD_LINK_TYPE_STC`. -/
inductive CscdLink
  | port (linkNum : ℕ)
  | trunk (linkNum : ℕ)
deriving DecidableEq, Repr

/-- `SYSD_CSCD_TRUNK`. -/
def SYSD_CSCD_TRUNK : ℕ := 127

/-- What is fixed for a unit: its number, its devices and where its stack ports are. -/
structure StackSys where
  stack_id : ℕ
  MAX_STACK_UNITS : ℕ
  NEXTDEV_INC : ℕ
  NDEVS : ℕ
  ldev : Port → ℕ
  lport : Port → ℕ
  CPSS_NULL_PORT_NUM_CNS : ℕ
  id_pos : 0 < stack_id
  max_lt : MAX_STACK_UNITS < 32
  max_le : MAX_STACK_UNITS ≤ NEXTDEV_INC
  ndevs_le : NDEVS ≤ 2
  ldev_lt : ∀ p, ldev p < NDEVS
  ports_ne : ldev .zero = ldev .one → lport .zero ≠ lport .one

/-- `stack_units`, and in the hardware the device map of each device and the stack ports of the
source-id groups. -/
structure StackState where
  stack_units : ℕ → StackdUnit
  dev_map : ℕ → ℕ → CscdLink
  srcid : ℕ → Port → Bool

variable (sys : StackSys)

/-- `phys_dev` for some device. -/
def StackSys.OwnDev (i : ℕ) : Prop :=
  i = sys.stack_id ∨ sys.NDEVS = 2 ∧ i = sys.stack_id + sys.NEXTDEV_INC

instance (i : ℕ) : Decidable (sys.OwnDev i) := inferInstanceAs (Decidable (_ ∨ _ ∧ _))

/-- `stack_start`. The entries of the own devices are left as they are, `own`; the port bitmaps of
the own group have been set by `port_start`. -/
def StackState.start (own : ℕ → ℕ → CscdLink) : StackState where
  stack_units _ := .zero
  dev_map d i :=
    if i < 32 ∧ ¬sys.OwnDev i then .port sys.CPSS_NULL_PORT_NUM_CNS else own d i
  srcid i _ := decide (i = 0 ∨ i = sys.stack_id)

/-! ### The device map -/

/-- The stack port for the hops. -/
def hopsPort (hops : Port → ℕ) : Option Port :=
  if hops .zero ≠ 0 then
    if hops .one ≠ 0 then
      if hops .one ≥ hops .zero then some .zero else some .one
    else some .zero
  else if hops .one ≠ 0 then some .one
  else none

/-- The link of the device `d` that leads to a stack port. -/
def StackSys.portLink (d : ℕ) : Option Port → CscdLink
  | none => .port sys.CPSS_NULL_PORT_NUM_CNS
  | some p => if sys.ldev p = d then .port (sys.lport p) else .trunk SYSD_CSCD_TRUNK

/-- `cpssDxChCscdDevMapTableSet`. -/
def StackState.devMapTableSet (s : StackState) (d dev : ℕ) (lp : CscdLink) : StackState :=
  { s with dev_map := update s.dev_map d (update (s.dev_map d) dev lp) }

/-- `stack_update_dev_map` for the device `d`. -/
def devMapRound (dev : ℕ) (hops : Port → ℕ) (num_pp : ℕ) (s : StackState) (d : ℕ) : StackState :=
  let lp := sys.portLink d (hopsPort hops)
  let s := s.devMapTableSet d dev lp
  if num_pp = 2 then s.devMapTableSet d (dev + sys.NEXTDEV_INC) lp else s

/-- `stack_update_dev_map`. -/
def stackUpdateDevMap (s : StackState) (dev : ℕ) (hops : Port → ℕ) (num_pp : ℕ) : StackState :=
  sweep (devMapRound sys dev hops num_pp) sys.NDEVS s

/-! ### The source-id groups -/

/-- The loop of `stack_get_hops_from_target_port`: from `od` to `d` and on, until the own unit. The
result is `h`, `d` and `od` at the end, `none` where the assertion fails or `fuel` rounds are not
enough. -/
def hopsLoop (units : ℕ → StackdUnit) : ℕ → ℕ → ℕ → ℕ → Option (ℕ × ℕ × ℕ)
  | fuel, d, od, h =>
    if sys.stack_id = d then some (h, d, od)
    else
      match fuel with
      | 0 => none
      | fuel + 1 =>
        if (units d).neighbor .zero = od then
          hopsLoop units fuel ((units d).neighbor .one) d ((h + 1) % 256)
        else if (units d).neighbor .one = od then
          hopsLoop units fuel ((units d).neighbor .zero) d ((h + 1) % 256)
        else none

/-- `stack_get_hops_from_target_port`: the hops and `our_port`. The latter is `none` where its
assertion fails. -/
def stackGetHopsFromTargetPort (units : ℕ → StackdUnit) (target : ℕ) (p : Port) :
    Option (ℕ × Option Port) :=
  (hopsLoop sys units sys.MAX_STACK_UNITS ((units target).neighbor p) target 1).map
    fun (h, d, od) =>
      (h, if (units d).neighbor .zero = od then some .zero
        else if (units d).neighbor .one = od then some .one
        else none)

/-- `cpssDxChBrgSrcIdGroupPortAdd` and `cpssDxChBrgSrcIdGroupPortDelete` for a stack port. -/
def portAdd (group : Port → Bool) (p : Port) : Port → Bool := update group p true

@[inherit_doc portAdd]
def portDelete (group : Port → Bool) (p : Port) : Port → Bool := update group p false

/-- `stack_update_srcid_groups`: the stack ports of the group of the unit `dev`. -/
def stackUpdateSrcidGroups (units : ℕ → StackdUnit) (dev : ℕ) (ring : Bool) (n : ℕ)
    (group : Port → Bool) : Option (Port → Bool) :=
  let group := portDelete group .zero
  let group := portDelete group .one
  if dev = sys.stack_id then
    if n = 1 then some group
    else if ¬ring then
      let group := if (units dev).neighbor .zero ≠ 0 then portAdd group .zero else group
      some (if (units dev).neighbor .one ≠ 0 then portAdd group .one else group)
    else
      let group := portAdd group .zero
      some (if 2 < n then portAdd group .one else group)
  else if ¬ring then
    let group :=
      if (units dev).hops .zero ≠ 0 then
        if (units sys.stack_id).neighbor .one ≠ 0 then portAdd group .one else group
      else group
    some <|
      if (units dev).hops .one ≠ 0 then
        if (units sys.stack_id).neighbor .zero ≠ 0 then portAdd group .zero else group
      else group
  else if n = 2 ∨ n = 3 then some group
  else
    let hops0 := (units dev).hops .zero
    let hops1 := (units dev).hops .one
    let hops_diff := ((hops0 : ℤ) - hops1).natAbs
    if 2 < hops_diff then
      if hops0 < hops1 then some (portAdd group .one) else some (portAdd group .zero)
    else if hops_diff = 2 then
      (stackGetHopsFromTargetPort sys units dev .zero).bind fun (h, sp) =>
        sp.bind fun sp =>
          (stackGetHopsFromTargetPort sys units dev .one).map fun (h', _) =>
            if h < h' then
              if sp = .zero then portAdd group .one else portAdd group .zero
            else group
    else some group

/-! ### A configuration -/

/-- The source-id group of a unit is programmed. -/
def StackState.updateGroup (s : StackState) (units : ℕ → StackdUnit) (dev : ℕ) (ring : Bool)
    (n : ℕ) :
    Option StackState :=
  (stackUpdateSrcidGroups sys units dev ring n (s.srcid dev)).map fun group =>
    { s with srcid := update s.srcid dev group }

/-- `stack_update_all` for the unit `i`. `stack_units_update` is `units`. -/
def updateRound (units : ℕ → StackdUnit) (ring : Bool) (n : ℕ) (s : StackState) (i : ℕ) :
    Option StackState :=
  if i = sys.stack_id then s.updateGroup sys units i ring n
  else
    let s' :=
      if (s.stack_units i).hops .zero ≠ (units i).hops .zero ∨
          (s.stack_units i).hops .one ≠ (units i).hops .one then
        stackUpdateDevMap sys s i (units i).hops (units i).num_pp
      else s
    if i = (units i).id ∨ i = (s.stack_units i).id then s'.updateGroup sys units i ring n
    else some s'

/-- `stack_update_all`. -/
def stackUpdateAll (units : ℕ → StackdUnit) (ring : Bool) (n : ℕ) (s : StackState) :
    Option StackState :=
  sweepM (fun s i => updateRound sys units ring n s (i + 1)) sys.MAX_STACK_UNITS s

/-- `stack_units_update`. -/
def loadUnits (units : List StackdUnit) : ℕ → StackdUnit :=
  units.foldl (fun table x => update table x.id x) fun _ => .zero

/-- `stack_update_conf`, `none` standing for an access outside `stack_units_update` and for a failed
assertion. -/
def stackUpdateConf (s : StackState) (conf : StackdConf) : Option StackState :=
  if ∀ x ∈ conf.units, x.id ≤ sys.MAX_STACK_UNITS then
    let units := loadUnits conf.units
    (stackUpdateAll sys units conf.ring conf.units.length s).map fun s =>
      { s with stack_units := units }
  else none

/-! ### Frames to a unit -/

/-- The stack port of a link of the device `d`. -/
def StackSys.linkPort (d : ℕ) : CscdLink → Option Port
  | .port linkNum =>
    if sys.ldev .zero = d ∧ sys.lport .zero = linkNum then some .zero
    else if sys.ldev .one = d ∧ sys.lport .one = linkNum then some .one
    else none
  | .trunk _ => none

/-- The stack port by which a frame to the unit `v` leaves that is on the device `d`: the trunk
leads to the other device of the unit, which looks into its own map. -/
def StackState.outPort (s : StackState) (v d : ℕ) : Option Port :=
  match s.dev_map d v with
  | .port linkNum => sys.linkPort d (.port linkNum)
  | .trunk _ => sys.linkPort (1 - d) (s.dev_map (1 - d) v)

end Presteramgr
