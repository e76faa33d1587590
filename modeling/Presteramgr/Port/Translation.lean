import Mathlib.Algebra.BigOperators.Group.Finset.Piecewise
import Mathlib.Algebra.Order.BigOperators.Group.Finset
import Presteramgr.Lib.Guarded
import Presteramgr.Lib.Tally
import Presteramgr.Types

/-!
# VLAN translation (`port.c`)

A port translates VLANs by specific rules, one for each VLAN, and by a default rule. Beside the
rules the port counts for each VLAN the rules that map to it, and each VLAN counts the rules of all
ports that map to it. A rule that maps to 0 drops.

## Main definitions

* `VtPort`, `Vt`: the rules of the ports and the counters;
* `Vt.portVlanTranslate`, `Vt.portClearTranslation`, `Vt.portSetMode`, `Vt.vlanSetXlateTunnel`;
* `VtPort.rule`: the rules of a port.
-/

namespace Presteramgr

open Function (update update_self update_of_ne)

/-- `vlan_valid`. -/
def vlanValid (vid : ℕ) : Prop := 0 < vid ∧ vid < 4095

instance (vid : ℕ) : Decidable (vlanValid vid) := inferInstanceAs (Decidable (_ ∧ _))

/-- `enum port_mode`. -/
inductive PortMode
  | PM_ACCESS
  | PM_TRUNK
  | PM_CUSTOMER
  | other (n : ℕ)
deriving DecidableEq, Repr

/-- `struct port_vlan_conf`, as far as VLANs are translated. `refc` has 12 bits. -/
structure PortVlanConf where
  xlate : Bool
  map_to : ℕ
  refc : ℕ
deriving DecidableEq, Repr

/-- `struct port`, as far as VLANs are translated. -/
structure VtPort where
  mode : PortMode
  /-- `is_stack_port`. -/
  stack : Bool
  vlan_conf : ℕ → PortVlanConf
  def_xlate : Bool
  def_map_to : ℕ

/-- `ports`, `vlans[i].vt_refc` and `vlan_xlate_tunnel`. -/
structure Vt where
  ports : ℕ → VtPort
  vt_refc : ℕ → ℤ
  vlan_xlate_tunnel : Bool

/-- The number of ports, and the value that stands for all of them. -/
structure VtConf where
  nports : ℕ
  ALL_PORTS : ℕ

namespace PortVlanConf

/-- `refc++`. -/
def incr (c : PortVlanConf) : PortVlanConf := { c with refc := (c.refc + 1) % 4096 }

/-- `refc--`. -/
def decr (c : PortVlanConf) : PortVlanConf := { c with refc := (c.refc + 4095) % 4096 }

/-- Counting one more rule adds one to the twelve-bit counter. -/
theorem incr_refc (c : PortVlanConf) : c.incr.refc = (c.refc + 1) % 4096 := rfl

/-- Counting a rule up leaves the rule of the VLAN alone. -/
theorem incr_rule (c : PortVlanConf) : c.incr.xlate = c.xlate ∧ c.incr.map_to = c.map_to :=
  ⟨rfl, rfl⟩

/-- Counting a rule down leaves the rule of the VLAN alone. -/
theorem decr_rule (c : PortVlanConf) : c.decr.xlate = c.xlate ∧ c.decr.map_to = c.map_to := by
  simp only [decr, and_self]

/-- Counting one rule less takes one from the twelve-bit counter, which wraps at zero. -/
theorem decr_refc (c : PortVlanConf) : c.decr.refc = (c.refc + 4095) % 4096 := rfl

end PortVlanConf

namespace VtPort

variable (p : VtPort)

/-- A port with no rules. -/
def start (stack : Bool) : VtPort := ⟨.PM_ACCESS, stack, fun _ => ⟨false, 0, 0⟩, false, 0⟩

/-- `vlan_conf[ix]` changes. -/
def conf (ix : ℕ) (f : PortVlanConf → PortVlanConf) : VtPort :=
  { p with vlan_conf := update p.vlan_conf ix (f (p.vlan_conf ix)) }

/-- The specific rule at the index `ix` is written. -/
def setRule (ix : ℕ) (xlate : Bool) (map_to : ℕ) : VtPort :=
  p.conf ix fun c => { c with xlate := xlate, map_to := map_to }

/-- The default rule is written. -/
def setDef (xlate : Bool) (map_to : ℕ) : VtPort :=
  { p with def_xlate := xlate, def_map_to := map_to }

end VtPort

namespace Vt

variable (c : VtConf) (s : Vt)

/-- The state after the start. -/
def start (stack : ℕ → Bool) (tunnel : Bool) : Vt where
  ports i := .start (stack i)
  vt_refc _ := 0
  vlan_xlate_tunnel := tunnel

/-- `port_valid`. -/
def portValid (pid : ℕ) : Prop := 1 ≤ pid ∧ pid ≤ c.nports

instance (pid : ℕ) : Decidable (portValid c pid) := inferInstanceAs (Decidable (_ ∧ _))

/-- A port changes. -/
def port (i : ℕ) (f : VtPort → VtPort) : Vt := { s with ports := update s.ports i (f (s.ports i)) }

/-- One more rule of the port maps to the VLAN. -/
def incr (i toVid : ℕ) : Vt :=
  { s.port i (·.conf (toVid - 1) .incr) with
    vt_refc := update s.vt_refc (toVid - 1) (s.vt_refc (toVid - 1) + 1) }

/-- One rule less of the port maps to the VLAN. -/
def decr (i toVid : ℕ) : Vt :=
  { s.port i (·.conf (toVid - 1) .decr) with
    vt_refc := update s.vt_refc (toVid - 1) (s.vt_refc (toVid - 1) - 1) }

/-- A rule for the VLAN `from` is added, in `port_vlan_translate`, `none` standing for an access
outside `vlan_conf` and `vlans`. -/
def addSpecific (i fromVid toVid : ℕ) : Option Vt :=
  let map_to := ((s.ports i).vlan_conf (fromVid - 1)).map_to
  if map_to = toVid then some s
  else
    let s := if vlanValid map_to then s.decr i map_to else s
    let s := s.port i (·.setRule (fromVid - 1) true toVid)
    if toVid = 0 then none else some (s.incr i toVid)

/-- The default rule is set. -/
def addDefault (i toVid : ℕ) : Vt :=
  let p := s.ports i
  if p.def_xlate ∧ p.def_map_to = toVid then s
  else
    let s := if p.def_xlate ∧ vlanValid p.def_map_to then s.decr i p.def_map_to else s
    let s := s.port i (·.setDef true toVid)
    if vlanValid toVid then s.incr i toVid else s

/-- A rule is deleted: that for `from`, or the default rule. -/
def delRule (i fromVid : ℕ) : Option Vt :=
  let p := s.ports i
  if fromVid ≠ 0 ∧ (p.vlan_conf (fromVid - 1)).xlate then
    let toVid := (p.vlan_conf (fromVid - 1)).map_to
    let s := s.port i (·.setRule (fromVid - 1) false 0)
    if toVid = 0 then none else some (s.decr i toVid)
  else if p.def_xlate then
    let s := if p.def_map_to ≠ 0 then s.decr i p.def_map_to else s
    some (s.port i (·.setDef false 0))
  else some s

/-- `port_vlan_translate`. -/
def portVlanTranslate (pid fromVid toVid : ℕ) (add : Bool) : Option (Status × Vt) :=
  if ¬portValid c pid then some (.ST_BAD_VALUE, s)
  else if fromVid ≠ 0 ∧ ¬vlanValid fromVid then some (.ST_BAD_VALUE, s)
  else if toVid ≠ 0 ∧ ¬vlanValid toVid then some (.ST_BAD_VALUE, s)
  else if fromVid = 0 ∧ toVid ≠ 0 ∧ ¬s.vlan_xlate_tunnel then some (.ST_BAD_VALUE, s)
  else
    let i := pid - 1
    let r :=
      if add then
        if fromVid ≠ 0 then s.addSpecific i fromVid toVid else some (s.addDefault i toVid)
      else s.delRule i fromVid
    r.map fun s => (.ST_OK, s)

/-- One round of the loop of `__port_clear_translation`. -/
def clearRule (i : ℕ) (s : Vt) (ix : ℕ) : Option Vt :=
  let p := s.ports i
  if p.mode = .PM_TRUNK ∧ (p.vlan_conf ix).xlate then
    let toVid := (p.vlan_conf ix).map_to
    if toVid = 0 then none
    else
      let refc := (p.vlan_conf (toVid - 1)).refc
      let s :=
        if refc ≠ 0 then
          { s.port i (·.conf (toVid - 1) fun c => { c with refc := 0 }) with
            vt_refc := update s.vt_refc (toVid - 1) (s.vt_refc (toVid - 1) - refc) }
        else s
      some (s.port i (·.setRule ix false 0))
  else some s

/-- `__port_clear_translation`. -/
def clearTranslation (s : Vt) (i : ℕ) : Option Vt :=
  ((List.range 4094).foldlM (clearRule i) s).map (·.port i (·.setDef false 0))

/-- `port_clear_translation`. -/
def portClearTranslation (pid : ℕ) : Option (Status × Vt) :=
  if pid = c.ALL_PORTS then
    ((List.range c.nports).foldlM clearTranslation s).map fun s => (.ST_OK, s)
  else if ¬portValid c pid then some (.ST_BAD_VALUE, s)
  else (s.clearTranslation (pid - 1)).map fun s => (.ST_OK, s)

/-- `port_set_mode`, `result` being that of the function for the mode. -/
def portSetMode (pid : ℕ) (mode : PortMode) (result : Status) : Status × Vt :=
  if ¬portValid c pid then (.ST_BAD_VALUE, s)
  else if (s.ports (pid - 1)).stack then (.ST_BAD_STATE, s)
  else if (s.ports (pid - 1)).mode = mode then (.ST_OK, s)
  else
    let result := match mode with
      | .other _ => .ST_BAD_VALUE
      | _ => result
    if result = .ST_OK then (result, s.port (pid - 1) fun p => { p with mode := mode })
    else (result, s)

/-- `vlan_set_xlate_tunnel`. -/
def vlanSetXlateTunnel (enable : Bool) : Option (Status × Vt) :=
  if s.vlan_xlate_tunnel ≠ enable then
    (s.portClearTranslation c c.ALL_PORTS).map fun r =>
      (.ST_OK, { r.2 with vlan_xlate_tunnel := enable })
  else some (.ST_OK, s)

end Vt

/-! ## Rules -/

namespace VtPort

/-- The target of the rule for a VLAN, 0 standing for the default rule. -/
def rule (p : VtPort) (fromVid : ℕ) : Option ℕ :=
  if fromVid = 0 then if p.def_xlate then some p.def_map_to else none
  else if (p.vlan_conf (fromVid - 1)).xlate then some (p.vlan_conf (fromVid - 1)).map_to
  else none

/-- The rule of the default VLAN is kept in the fields of the port itself. -/
theorem rule_zero (p : VtPort) : p.rule 0 = if p.def_xlate then some p.def_map_to else none := rfl

/-- The rule of a VLAN is kept in its `vlan_conf` entry, one below its number. -/
theorem rule_succ (p : VtPort) (ix : ℕ) :
    p.rule (ix + 1) = if (p.vlan_conf ix).xlate then some (p.vlan_conf ix).map_to else none := by
  simp [rule]

/-- The number of rules that map to a VLAN. -/
def nrules (p : VtPort) (toVid : ℕ) : ℕ :=
  (Finset.univ.filter fun fromVid : Fin 4095 => p.rule fromVid = some toVid).card

/-- The VLAN that the rule maps to, none if there is no rule or it drops. -/
def target (p : VtPort) (fromVid : Fin 4095) : Option ℕ := (p.rule fromVid).filter (· ≠ 0)

/-- The counter of the rules that map to a VLAN. -/
def refcAt (p : VtPort) (toVid : ℕ) : ℤ :=
  if toVid = 0 then 0 else (p.vlan_conf (toVid - 1)).refc

variable {p : VtPort}

/-- A rule has a target VLAN when it is set and does not drop the packets. -/
theorem target_eq_some_iff {fromVid : Fin 4095} {toVid : ℕ} :
    p.target fromVid = some toVid ↔ p.rule fromVid = some toVid ∧ toVid ≠ 0 := by
  simp [target, Option.filter_eq_some_iff]

/-- The tally of a VLAN is the number of rules that map to it. -/
theorem tally_target {toVid : ℕ} (ht : toVid ≠ 0) :
    Tally.tally p.target toVid = p.nrules toVid := by
  simp only [Tally.tally, nrules, target_eq_some_iff, ht, ne_eq, not_false_iff, and_true]

/-- `conf` changes the entry at the given index only. -/
theorem conf_vlan_conf (ix : ℕ) (f : PortVlanConf → PortVlanConf) :
    (p.conf ix f).vlan_conf = update p.vlan_conf ix (f (p.vlan_conf ix)) := rfl

/-- Setting a rule keeps the counter that is stored beside it. -/
theorem setRule_vlan_conf (ix : ℕ) (xlate : Bool) (map_to : ℕ) :
    (p.setRule ix xlate map_to).vlan_conf =
      update p.vlan_conf ix ⟨xlate, map_to, (p.vlan_conf ix).refc⟩ := rfl

/-- A change of counters leaves every rule of the port as it was. -/
theorem rule_conf (ix : ℕ) {f : PortVlanConf → PortVlanConf}
    (hf : ∀ c, (f c).xlate = c.xlate ∧ (f c).map_to = c.map_to) : (p.conf ix f).rule = p.rule := by
  funext fromVid
  have hconf : ∀ ix', ((p.conf ix f).vlan_conf ix').xlate = (p.vlan_conf ix').xlate ∧
      ((p.conf ix f).vlan_conf ix').map_to = (p.vlan_conf ix').map_to := fun ix' => by
    unfold conf
    by_cases hix : ix' = ix
    · subst hix
      simp [hf]
    · simp [hix]
  unfold rule
  rw [(hconf _).1, (hconf _).2]
  rfl

/-- Setting the rule of one VLAN leaves the rules of the others alone. -/
theorem rule_setRule (ix : ℕ) (xlate : Bool) (map_to fromVid : ℕ) :
    (p.setRule ix xlate map_to).rule fromVid =
      if fromVid = ix + 1 then if xlate then some map_to else none else p.rule fromVid := by
  unfold rule setRule conf
  by_cases h0 : fromVid = 0
  · subst h0
    simp
  · by_cases hix : fromVid = ix + 1
    · subst hix
      simp
    · have hne : fromVid - 1 ≠ ix := by omega
      simp [h0, hix, hne]

/-- Setting the default rule leaves the rules of the VLANs alone. -/
theorem rule_setDef (xlate : Bool) (map_to fromVid : ℕ) :
    (p.setDef xlate map_to).rule fromVid =
      if fromVid = 0 then if xlate then some map_to else none else p.rule fromVid := by
  unfold rule setDef
  by_cases h0 : fromVid = 0
  · simp [h0]
  · simp [h0]

/-- Setting a rule changes no counter: `vtUpdateRefcount` does that in a step of its own. -/
theorem refcAt_setRule (ix : ℕ) (xlate : Bool) (map_to toVid : ℕ) :
    (p.setRule ix xlate map_to).refcAt toVid = p.refcAt toVid := by
  unfold refcAt setRule conf
  by_cases hix : toVid - 1 = ix
  · simp [hix]
  · simp [hix]

/-- Setting the default rule changes no counter. -/
theorem refcAt_setDef (xlate : Bool) (map_to toVid : ℕ) :
    (p.setDef xlate map_to).refcAt toVid = p.refcAt toVid := rfl

/-- A change of the counter of one target VLAN leaves the counters of the others alone. -/
theorem refcAt_conf {toVid : ℕ} (ht : toVid ≠ 0) (f : PortVlanConf → PortVlanConf) (vid : ℕ) :
    (p.conf (toVid - 1) f).refcAt vid =
      if vid = toVid then ((f (p.vlan_conf (toVid - 1))).refc : ℤ) else p.refcAt vid := by
  unfold refcAt conf
  by_cases hvid : vid = toVid
  · subst hvid
    simp [ht]
  · by_cases h0 : vid = 0
    · simp [h0, ht.symm]
    · have hne : vid - 1 ≠ toVid - 1 := by omega
      simp [hvid, hne]

end VtPort

end Presteramgr
