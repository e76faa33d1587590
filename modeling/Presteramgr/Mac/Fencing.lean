import Presteramgr.Lib.Guarded
import Presteramgr.Mac.Buckets
import Presteramgr.Mac.Unit

/-!
# Packets of stale masters

A unit obeys the packets `FMC_MASTER_*` of its master only. Each command has its own check of the
sender, of the serial and of the unit's state; two commands, for routes and for clearing all
routes, are obeyed whoever sends them.

## Main definitions

* `UnitOp`: what happens on a unit, with `FdbUnit.step`;
* `FdbUnit.Fenced`: a packet of a stale or foreign master has no effect on table and routes;
* `FdbUnit.Unfenced`: the packet has one of the two commands and passes the other checks.

## Main results

* `FdbUnit.settled_of_reach`: the election variables of a unit are settled at all times;
* `FdbUnit.fenced_iff`: all packets are fenced but those.
-/

namespace Presteramgr

/-- What happens on a unit. -/
inductive UnitOp
  | setMaster (info : SetMasterInfo)
  | recv (mo : ℕ → Moment) (p : FdbPkt)
  | ctl (mo : Moment) (cmd : FdbCtlCmd)
  | upd (env : LearnEnv) (mo : ℕ → Moment) (buf : ℕ → PtiFdbr) (as : List MacUpdate)

/-- The commands `FMC_MASTER_*` other than `FMC_MASTER_READY`. -/
def FdbmanMsg.isMasterCmd : FdbmanMsg → Bool
  | .FMC_MASTER_UPDATE _ | .FMC_MASTER_FLUSH _ | .FMC_MASTER_FLUSH_VIF _ | .FMC_MASTER_MACOP _
  | .FMC_MASTER_RT _ | .FMC_MASTER_NA _ | .FMC_MASTER_NA_IPV6 _ | .FMC_MASTER_UDT _
  | .FMC_MASTER_UDT_IPV6 _ | .FMC_MASTER_CLEAR_ROUTING => true
  | _ => false

/-- The commands whose sender is not checked. -/
def FdbmanMsg.isRouting : FdbmanMsg → Bool
  | .FMC_MASTER_RT _ | .FMC_MASTER_CLEAR_ROUTING => true
  | _ => false

namespace FdbUnit

variable (c : UnitConf) (u : FdbUnit)

/-- A step of a unit. -/
def step : UnitOp → Option FdbUnit
  | .setMaster info => some (u.setMaster c info)
  | .recv mo p => (fdbmanHandlePkt c u mo p).map Handled.unit
  | .ctl mo cmd => some (fdbCtlHandler c u mo cmd).unit
  | .upd env mo buf as => (fdbUpdForDev c u env mo buf as).map Handled.unit

/-- A unit after its start, with any link states and counters. -/
def init (vifs : Vifs) (psec : ℕ → Psec) : FdbUnit where
  man := Fdbman.start c.stackId
  vifs := vifs
  fdb := ⟨fun _ => .zero, psec⟩

/-- A packet of a unit that is not the master, or of an old configuration, changes no entry and
gives no command to the control thread, and a master takes no notice of other masters. -/
structure Fenced (mo : ℕ → Moment) (p : FdbPkt) : Prop where
  stale : p.stackId ≠ u.man.master ∨ p.serial < u.man.serial →
    ∃ h, fdbmanHandlePkt c u mo p = some h ∧ h.unit.fdb = u.fdb ∧ h.ctl = []
  master : u.man.state = .FST_MASTER → p.stackId ≠ c.stackId →
    fdbmanHandlePkt c u mo p = some (.drop u)

/-- A command about routes for this unit, under a serial that is not old, from a unit that is not
the master. -/
def Unfenced (p : FdbPkt) : Prop :=
  p.msg.isRouting = true ∧ c.stackId ∈ p.devsbmp ∧ u.man.serial ≤ p.serial ∧
    p.stackId ≠ u.man.master

variable {c u} {u' : FdbUnit} {mo : ℕ → Moment} {p : FdbPkt} {h : Handled}

/-! ## The election variables in a run -/

section Man

theorem unlessMember_man (hman : h.unit.man = u.man) : (unlessMember u h).unit.man = u.man := by
  unfold unlessMember
  split
  · exact hman
  · exact hman
  · rfl

theorem onMember_man (hman : h.unit.man = u.man) : (onMember u p h).unit.man = u.man := by
  unfold onMember
  split_ifs
  · rfl
  · split
    · rfl
    · rfl
    · exact hman

theorem fromMaster_man (hman : h.unit.man = u.man) : (fromMaster u p h).unit.man = u.man := by
  unfold fromMaster
  split_ifs
  · rfl
  · exact hman

theorem onOwnBit_man (hman : h.unit.man = u.man) : (onOwnBit c u p h).unit.man = u.man := by
  unfold onOwnBit
  split_ifs
  · exact hman
  · rfl

/-- The loops over records change the table only. -/
theorem fdbmanHandleMsgMasterUpdate_man {sid : ℕ} {data : List PtiFdbr}
    (hh : fdbmanHandleMsgMasterUpdate c u mo sid data = some h) : h.unit.man = u.man := by
  obtain ⟨r, -, rfl⟩ := Option.map_eq_some_iff.mp hh
  rfl

@[inherit_doc fdbmanHandleMsgMasterUpdate_man]
theorem fdbmanHandleMsgUpdate_man {sid : ℕ} {data : List PtiFdbr}
    (hh : fdbmanHandleMsgUpdate c u mo sid data = some h) : h.unit.man = u.man := by
  obtain ⟨r, -, rfl⟩ := Option.map_eq_some_iff.mp hh
  rfl

/-- A packet that is no announcement does not change the election variables. -/
theorem fdbmanHandlePkt_man (hmsg : p.msg ≠ .FMC_MASTER_READY)
    (hh : fdbmanHandlePkt c u mo p = some h) : h.unit.man = u.man := by
  unfold fdbmanHandlePkt at hh
  by_cases hold : p.msg ≠ .FMC_MASTER_READY ∧ p.serial < u.man.serial
  · rw [if_pos hold] at hh
    obtain rfl := Option.some_inj.mp hh
    rfl
  · rw [if_neg hold] at hh
    cases hcmd : p.msg <;> rw [hcmd] at hh <;> dsimp only at hh
    case FMC_MASTER_READY => exact absurd hcmd hmsg
    case FMC_UPDATE data =>
      cases hst : u.man.state <;> rw [hst] at hh <;> dsimp only at hh
      · exact fdbmanHandleMsgUpdate_man hh
      · exact fdbmanHandleMsgUpdate_man hh
      · obtain rfl := Option.some_inj.mp hh
        rfl
    case FMC_MASTER_UPDATE data =>
      cases hst : u.man.state <;> rw [hst] at hh <;> dsimp only at hh <;> split_ifs at hh
      all_goals first
        | exact fdbmanHandleMsgMasterUpdate_man hh
        | (obtain rfl := Option.some_inj.mp hh; rfl)
    case FMC_VIF_SET_STP_STATE data =>
      cases hst : u.man.state <;> rw [hst] at hh <;> dsimp only at hh
      case FST_MEMBER =>
        unfold fdbmanHandleMsgVifSetStpState at hh
        split_ifs at hh <;> obtain rfl := Option.some_inj.mp hh <;> rfl
      all_goals
        obtain rfl := Option.some_inj.mp hh
        rfl
    all_goals
      obtain rfl := Option.some_inj.mp hh
      first
        | rfl
        | exact unlessMember_man rfl
        | exact onMember_man rfl
        | exact onOwnBit_man rfl
        | exact fromMaster_man rfl
        | exact fromMaster_man (onOwnBit_man rfl)

end Man

/-- An announcement changes nothing but the election variables. -/
theorem fdbmanHandlePkt_ready (hmsg : p.msg = .FMC_MASTER_READY) : fdbmanHandlePkt c u mo p =
    some (.drop { u with
      man := u.man.masterReady c.stackId p.stackId p.serial p.devsbmp }) := by
  unfold fdbmanHandlePkt
  rw [if_neg fun hold => hold.1 hmsg, hmsg]

/-- Requests of the control thread do not concern the election. -/
theorem fdbCtlHandler_man (mo : Moment) (cmd : FdbCtlCmd) :
    (fdbCtlHandler c u mo cmd).unit.man = u.man := by
  cases cmd <;> simp only [fdbCtlHandler] <;> split <;> rfl

/-- Every step leaves the election variables settled. -/
theorem settled_step (hset : u.man.Settled c.stackId) {op : UnitOp}
    (hs : u.step c op = some u') : u'.man.Settled c.stackId := by
  cases op with
  | setMaster info =>
    obtain rfl := Option.some_inj.mp hs
    exact Fdbman.settled_setMaster hset
  | recv mo p =>
    obtain ⟨h, hh, rfl⟩ := Option.map_eq_some_iff.mp hs
    by_cases hready : p.msg = .FMC_MASTER_READY
    · obtain rfl := Option.some_inj.mp ((fdbmanHandlePkt_ready hready).symm.trans hh)
      exact Fdbman.settled_masterReady hset
    · rwa [fdbmanHandlePkt_man hready hh]
  | ctl mo cmd =>
    obtain rfl := Option.some_inj.mp hs
    rwa [fdbCtlHandler_man]
  | upd env mo buf as =>
    obtain ⟨h, hh, rfl⟩ := Option.map_eq_some_iff.mp hs
    obtain ⟨r, -, rfl⟩ := Option.map_eq_some_iff.mp hh
    exact hset

/-- In every state that a unit reaches its election variables are settled. -/
theorem settled_of_reach {vifs : Vifs} {psec : ℕ → Psec}
    (hr : Guarded.Reach (step c) (fun _ _ => True) (init c vifs psec) u) :
    u.man.Settled c.stackId :=
  hr.invariant (fun u => u.man.Settled c.stackId) Fdbman.settled_start
    fun _ _ _ hset _ hs => settled_step hset hs

/-! ## Fencing -/

/-- Packets of an old configuration are dropped. -/
theorem dropped_of_old (hmsg : p.msg.isMasterCmd = true) (hold : p.serial < u.man.serial) :
    fdbmanHandlePkt c u mo p = some (.drop u) := by
  refine if_pos ⟨?_, hold⟩
  rintro hready
  rw [hready] at hmsg
  exact absurd hmsg (by decide)

/-- Commands of a unit that is not the master are dropped, but for those about routes that concern
this unit. -/
theorem dropped_of_alien (hmsg : p.msg.isMasterCmd = true) (halien : p.stackId ≠ u.man.master)
    (hfence : ¬(p.msg.isRouting = true ∧ c.stackId ∈ p.devsbmp)) :
    fdbmanHandlePkt c u mo p = some (.drop u) := by
  unfold fdbmanHandlePkt
  by_cases hold : p.msg ≠ .FMC_MASTER_READY ∧ p.serial < u.man.serial
  · exact if_pos hold
  · rw [if_neg hold]
    cases hcmd : p.msg <;> rw [hcmd] at hmsg hfence
    -- the two commands without a check of the sender
    case FMC_MASTER_RT data => exact congrArg some (if_pos fun hbit => hfence ⟨rfl, hbit⟩)
    case FMC_MASTER_CLEAR_ROUTING => exact congrArg some (if_pos fun hbit => hfence ⟨rfl, hbit⟩)
    case FMC_MASTER_UPDATE data => exact if_pos halien
    all_goals first
      | exact absurd hmsg Bool.false_ne_true
      | exact congrArg some (if_pos halien)

/-- A command about routes that concerns this unit, under a serial that is not old, is handed on to
the control thread. -/
theorem handed_on (mo : ℕ → Moment) (hroute : p.msg.isRouting = true) (hbit : c.stackId ∈ p.devsbmp)
    (hserial : u.man.serial ≤ p.serial) :
    ∃ cmd, fdbmanHandlePkt c u mo p = some ⟨u, [], [cmd]⟩ := by
  unfold fdbmanHandlePkt
  rw [if_neg fun hold => absurd hold.2 (not_lt.mpr hserial)]
  cases hcmd : p.msg <;> rw [hcmd] at hroute
  case FMC_MASTER_RT data => exact ⟨_, congrArg some (if_neg (not_not.mpr hbit))⟩
  case FMC_MASTER_CLEAR_ROUTING => exact ⟨_, congrArg some (if_neg (not_not.mpr hbit))⟩
  all_goals exact absurd hroute Bool.false_ne_true

/-- In every reachable state of a unit, a command of a master is fenced exactly if it is not about
routes, does not concern this unit, is old, or comes from the unit's master. -/
theorem fenced_iff (c : UnitConf) (vifs : Vifs) (psec : ℕ → Psec) (u : FdbUnit)
    (hr : Guarded.Reach (step c) (fun _ _ => True) (init c vifs psec) u) (mo : ℕ → Moment)
    (p : FdbPkt) (hmsg : p.msg.isMasterCmd = true) : Fenced c u mo p ↔ ¬Unfenced c u p := by
  constructor
  · rintro hfenced ⟨hroute, hbit, hserial, halien⟩
    obtain ⟨h, hh, -, hctl⟩ := hfenced.stale (.inl halien)
    obtain ⟨cmd, hcmd⟩ := handed_on mo hroute hbit hserial
    obtain rfl := Option.some_inj.mp (hcmd.symm.trans hh)
    exact absurd hctl (List.cons_ne_nil cmd [])
  · intro hnot
    have hdrop : p.stackId ≠ u.man.master ∨ p.serial < u.man.serial →
        fdbmanHandlePkt c u mo p = some (.drop u) := by
      intro hstale
      by_cases hold : p.serial < u.man.serial
      · exact dropped_of_old hmsg hold
      · have halien := hstale.resolve_right hold
        exact dropped_of_alien hmsg halien fun hroute =>
          hnot ⟨hroute.1, hroute.2, not_lt.mp hold, halien⟩
    refine ⟨fun hstale => ⟨_, hdrop hstale, rfl, rfl⟩, fun hmaster hother => ?_⟩
    -- a master has itself for a master, so another unit is not
    have hself := (settled_of_reach hr).master hmaster
    exact hdrop (.inl fun heq => hother (heq.trans hself))

/-! ### A deposed master -/

/-- Unit 1 with two FE ports. -/
def conf₁ : UnitConf where
  fdb := FdbRun.conf₁
  vif := LsNet.twoPorts 1
  stpArgsSize := 16

/-- No link is up. -/
def vifsDown : Vifs := ⟨fun _ => 0, fun _ => LsNet.down⟩

/-- The moments of an operation that does not last. -/
def at₂₀₀ : ℕ → Moment := fun _ => ⟨200, .PAS_OK⟩

/-- Unit 1, a member of the stack of units 1, 2 and 3 whose master is unit 2. -/
def member₁ : FdbUnit :=
  let u := (init conf₁ vifsDown FdbRun.psecOff).setMaster conf₁ ⟨2, 1, {1, 2, 3}⟩
  { u with man := u.man.masterReady 1 2 1 {1, 2, 3} }

theorem reach_member₁ : Guarded.Reach (step conf₁) (fun _ _ => True)
    (init conf₁ vifsDown FdbRun.psecOff) member₁ := by
  have h₀ : Guarded.Reach (step conf₁) (fun _ _ => True) (init conf₁ vifsDown FdbRun.psecOff)
    (init conf₁ vifsDown FdbRun.psecOff) := .init
  have h₁ := h₀.snoc (.setMaster ⟨2, 1, {1, 2, 3}⟩) trivial rfl
  exact h₁.snoc (.recv at₂₀₀ ⟨2, 1, {1, 2, 3}, .FMC_MASTER_READY⟩) trivial rfl

/-- Unit 3, which is not the master, resolves an address. -/
theorem fenced_iff_member₁ : Fenced conf₁ member₁ at₂₀₀ ⟨3, 1, {1, 2}, .FMC_MASTER_UDT []⟩ := by
  refine (fenced_iff conf₁ vifsDown FdbRun.psecOff member₁ reach_member₁ at₂₀₀ _ (by decide)).mpr ?_
  rintro ⟨hroute, -⟩
  exact absurd hroute (by decide)

/-- Unit 3 makes unit 1 clear all its routes. -/
theorem not_fenced : Guarded.Reach (step conf₁) (fun _ _ => True)
      (init conf₁ vifsDown FdbRun.psecOff) member₁ ∧
    member₁.man.state = .FST_MEMBER ∧ member₁.man.master = 2 ∧
    ¬Fenced conf₁ member₁ at₂₀₀ ⟨3, 1, {1, 2}, .FMC_MASTER_CLEAR_ROUTING⟩ := by
  refine ⟨reach_member₁, by decide, by decide, fun hfenced => ?_⟩
  obtain ⟨h, hh, -, hctl⟩ := hfenced.stale (.inl (by decide))
  obtain rfl := Option.some_inj.mp hh
  exact absurd hctl (by decide)

end FdbUnit

end Presteramgr
