import Mathlib.Logic.Function.Basic
import Mathlib.Data.List.Basic
import Mathlib.Tactic.Linarith
import Presteramgr.Types
import Presteramgr.Lib.Guarded

/-!
# Link states of the units of a stack

A unit announces the link states of its ports in packets that carry a serial, one packet for each
change (`vif_set_link_status`) and one with all ports on request (`vif_form_ls_sync_pkt`). The
other units take the states over from the packets (`vif_process_ls_pkt`).

Packets that were sent stay in `sent` and may be delivered at any time, again or never. The stored
serial of another unit is never advanced, `vif_process_ls_pkt` assigns the serials the wrong way
round, so a packet that comes late is taken for a new one.

## Main definitions

* `Vifs`: the virtual interfaces of a unit, with their link states and the serials;
* `LsNet`: the units of a stack and the packets between them;
* `LsNet.Latest`: each unit has for each port the state in the newest packet delivered to it that
  names the port;
* `LsOp.Timely`: the packet delivered is the newest so far, or brings nothing new.

## Main results

* `LsNet.latest_of_timely`: without late packets the states are the latest ones;
* `LsNet.not_latest_of_late`: one late packet rolls a port back.
-/

namespace Presteramgr

open Function (update update_self update_of_ne)

/-! ## Virtual interfaces -/

/-- `vif_type_t`. -/
inductive VifType
  | VIFT_FE
  | VIFT_GE
  | VIFT_XG
  | VIFT_CPU
  | VIFT_PC
deriving DecidableEq, Repr

/-- `struct vif_id`. -/
structure VifId where
  type : VifType
  dev : ℕ
  num : ℕ
deriving DecidableEq, Repr

/-- What `struct port_link_state` holds. -/
structure PortLinkState where
  link : Bool
  speed : ℕ
  duplex : ℕ
deriving DecidableEq, Repr

/-- The `struct vif` that a pointer designates: a port of a device, in `vifs`, or a trunk, in
`trunks`. -/
inductive VifRef
  | port (dev : ℕ) (type : VifType) (num : ℕ)
  | trunk (num : ℕ)
deriving DecidableEq, Repr

/-- What unit `sid` knows of the interfaces of the stack. -/
structure VifConf (sid : ℕ) where
  /-- `vifs[dev].n_by_type[type]`. -/
  nByType : ℕ → VifType → ℕ
  /-- The trunk that `vif->trunk` points to. -/
  trunkOf : VifRef → Option ℕ
  /-- `vif_port[i]` and `port_enabled[i]` of a trunk. -/
  members : ℕ → List (VifRef × Bool)
  trunkIdMin : ℕ
  trunkIdMax : ℕ
  /-- `PORT_SPEED_10`. -/
  speed10 : ℕ
  /-- Type and number of the unit's own ports, in the order of `ports`. -/
  ports : List (VifType × ℕ)
  /-- A port is no trunk. -/
  ports_ne_pc : ∀ p ∈ ports, p.1 ≠ .VIFT_PC
  /-- `vif_init` counts the unit's own ports. -/
  ports_known : ∀ p ∈ ports, 1 ≤ p.2 ∧ p.2 ≤ nByType sid p.1

/-- The interfaces of a unit: `vifs[dev].vif_link_state_serial` and the `state` of each. -/
structure Vifs where
  serial : ℕ → ℕ
  state : VifRef → PortLinkState

/-- `vif_get` on unit `sid`. -/
def vifGet {sid : ℕ} (c : VifConf sid) (type : VifType) (dev num : ℕ) : Option VifRef :=
  if 15 < dev then none
  else if sid = 0 ∧ dev ≠ 0 then none
  else
    let dev := if dev = 0 then sid else dev
    if type = .VIFT_PC then
      if c.trunkIdMin ≤ num ∧ num ≤ c.trunkIdMax then some (.trunk num) else none
    else if c.nByType dev type < num ∨ num = 0 then none
    else some (.port dev type num)

/-- `vif_getn`. -/
def vifGetn {sid : ℕ} (c : VifConf sid) (id : VifId) : Option VifRef :=
  vifGet c id.type id.dev id.num

namespace Vifs

variable {sid : ℕ} (c : VifConf sid) (v : Vifs)

/-- The link state of an interface becomes `st`. -/
def setState (r : VifRef) (st : PortLinkState) : Vifs :=
  { v with state := update v.state r st }

/-- The state that `vif_update_trunk_link_status` computes for the trunk `t`. -/
def trunkState (t : ℕ) : PortLinkState :=
  (c.members t).foldl (fun pls m =>
    if m.2 ∧ (v.state m.1).link then
      ⟨true, max (v.state m.1).speed pls.speed, max (v.state m.1).duplex pls.duplex⟩
    else pls) ⟨false, c.speed10, 0⟩

/-- `vif_update_trunk_link_status`. -/
def updateTrunkLinkStatus (t : ℕ) : Vifs :=
  v.setState (.trunk t) (v.trunkState c t)

/-- An interface gets a link state, and its trunk, if it is a member of one, is updated. -/
def enter (r : VifRef) (st : PortLinkState) : Vifs :=
  match c.trunkOf r with
  | none => v.setState r st
  | some t => (v.setState r st).updateTrunkLinkStatus c t

@[simp] theorem setState_serial (r : VifRef) (st : PortLinkState) :
    (v.setState r st).serial = v.serial := rfl

@[simp] theorem enter_serial (r : VifRef) (st : PortLinkState) :
    (v.enter c r st).serial = v.serial := by
  unfold enter
  split <;> rfl

/-- Of the ports, only the one entered changes. -/
theorem enter_state (r : VifRef) (st : PortLinkState) (d : ℕ) (t : VifType) (n : ℕ) :
    (v.enter c r st).state (.port d t n) =
      if VifRef.port d t n = r then st else v.state (.port d t n) := by
  unfold enter
  split
  · simp only [setState, update]
    split_ifs with h
    · subst h
      rfl
    · rfl
  · simp [setState, updateTrunkLinkStatus, update]

end Vifs

/-! ## Packets -/

/-- `struct vif_link_state_header` with its data. -/
structure LsPkt where
  stackId : ℕ
  serial : ℕ
  data : List (VifId × PortLinkState)
deriving DecidableEq, Repr

/-- `vif_set_link_status`: the unit's state after it, and the packet that is sent. -/
def vifSetLinkStatus {sid : ℕ} (c : VifConf sid) (v : Vifs) (vifid : VifId)
    (state : PortLinkState) :
    Vifs × LsPkt :=
  let v := { v with serial := update v.serial sid (v.serial sid + 1) }
  let pkt : LsPkt := ⟨sid, v.serial sid, [(vifid, state)]⟩
  match vifGetn c vifid with
  | none => (v, pkt)
  | some r => (v.enter c r state, pkt)

/-- The loop of `vif_process_ls_pkt` over the entries of the packet. -/
def processEntries {sid : ℕ} (c : VifConf sid) : Vifs → List (VifId × PortLinkState) → Vifs
  | v, [] => v
  | v, (id, st) :: data =>
    match vifGetn c id with
    -- the interface is unknown here: SKIPPED
    | none => processEntries c v data
    | some r => processEntries c (v.enter c r st) data

/-- `vif_process_ls_pkt`. -/
def vifProcessLsPkt {sid : ℕ} (c : VifConf sid) (v : Vifs) (lsh : LsPkt) : Vifs × Status :=
  if lsh.serial ≤ v.serial lsh.stackId ∨ lsh.stackId = sid then (v, .ST_ALREADY_EXISTS)
  else
    -- `vif_lsh->serial = vifs[..].vif_link_state_serial` writes to the packet, which is not
    -- read again; the serial stored stays what it was
    (processEntries c v lsh.data, .ST_OK)

/-- `vif_form_ls_sync_pkt`. -/
def vifFormLsSyncPkt {sid : ℕ} (c : VifConf sid) (v : Vifs) : LsPkt :=
  ⟨sid, v.serial sid, c.ports.map fun p => (⟨p.1, sid, p.2⟩, v.state (.port sid p.1 p.2))⟩

/-- `vif_ls_clear_serial`, with the set of the devices whose bit is set. -/
def vifLsClearSerial (v : Vifs) (newdevs : Finset ℕ) : Vifs :=
  { v with serial := fun i => if i ∈ newdevs ∧ 1 ≤ i ∧ i ≤ 15 then 0 else v.serial i }

section Resolve

variable {sid : ℕ} {c : VifConf sid} {v : Vifs} {d n : ℕ} {t : VifType} {r : VifRef}
  {st : PortLinkState} {data : List (VifId × PortLinkState)}

/-- The identifier of a port names that port and no other. -/
theorem eq_port_of_vifGetn (hd : d ≠ 0) (ht : t ≠ .VIFT_PC)
    (h : vifGetn c ⟨t, d, n⟩ = some r) : r = .port d t n := by
  simp only [vifGetn, vifGet, if_neg hd, if_neg ht] at h
  split_ifs at h
  exact (Option.some_inj.mp h).symm

/-- A unit knows its own ports. -/
theorem vifGetn_own (hpos : 1 ≤ sid) (hle : sid ≤ 15) {p : VifType × ℕ} (hp : p ∈ c.ports) :
    vifGetn c ⟨p.1, sid, p.2⟩ = some (.port sid p.1 p.2) := by
  have hpc := c.ports_ne_pc p hp
  obtain ⟨h1, h2⟩ := c.ports_known p hp
  have hsid : sid ≠ 0 := by omega
  have hnum : ¬(c.nByType sid p.1 < p.2 ∨ p.2 = 0) := by omega
  have hdev : ¬15 < sid := by omega
  simp [vifGetn, vifGet, hdev, hsid, hpc, hnum]

/-- When all entries for a port agree on its state, the port has that state afterwards if it had
it before or an entry names the port. -/
theorem processEntries_state (hall : ∀ e ∈ data, vifGetn c e.1 = some (.port d t n) → e.2 = st)
    (hsome : v.state (.port d t n) = st ∨ ∃ e ∈ data, vifGetn c e.1 = some (.port d t n)) :
    (processEntries c v data).state (.port d t n) = st := by
  induction data generalizing v with
  | nil => simpa [processEntries] using hsome
  | cons e data ih =>
    obtain ⟨id, st'⟩ := e
    have hall' := fun e he => hall e (List.mem_cons_of_mem _ he)
    rw [processEntries]
    cases hr : vifGetn c id with
    | none =>
      refine ih hall' (hsome.imp_right ?_)
      rintro ⟨e, he, her⟩
      rcases List.mem_cons.mp he with rfl | he
      · simp [hr] at her
      · exact ⟨e, he, her⟩
    | some r =>
      refine ih hall' ?_
      rw [Vifs.enter_state]
      split_ifs with h
      · subst h
        exact .inl (hall _ List.mem_cons_self hr)
      · refine hsome.imp_right ?_
        rintro ⟨e, he, her⟩
        rcases List.mem_cons.mp he with rfl | he
        · exact absurd (Option.some_inj.mp (hr.symm.trans her)).symm h
        · exact ⟨e, he, her⟩

@[simp] theorem processEntries_serial : (processEntries c v data).serial = v.serial := by
  induction data generalizing v with
  | nil => rfl
  | cons e data ih =>
    rw [processEntries]
    split
    · exact ih
    · rw [ih, Vifs.enter_serial]

/-- The serials that are stored do not change. -/
@[simp] theorem vifProcessLsPkt_serial (pkt : LsPkt) :
    (vifProcessLsPkt c v pkt).1.serial = v.serial := by
  unfold vifProcessLsPkt
  split
  · rfl
  · exact processEntries_serial

end Resolve

/-! ## The stack -/

/-- The number of a unit of a stack. -/
@[ext]
structure UnitId where
  id : ℕ
  pos : 1 ≤ id
  le : id ≤ 15
deriving DecidableEq

/-- The units of a stack, all packets sent so far, and for each unit the packets delivered to it
since it last cleared the serial of their sender. -/
structure LsNet where
  unit : UnitId → Vifs
  sent : List LsPkt
  delivered : UnitId → List LsPkt

/-- What happens in the stack. -/
inductive LsOp
  /-- A port of unit `u` changes its state. -/
  | link (u : UnitId) (port : VifType × ℕ) (st : PortLinkState)
  /-- Unit `u` sends all its states. -/
  | sync (u : UnitId)
  /-- The packet reaches unit `w`. -/
  | deliver (w : UnitId) (pkt : LsPkt)
  /-- The devices join, and unit `w` forgets their serials. -/
  | clear (w : UnitId) (devs : Finset ℕ)

namespace LsNet

variable (conf : ∀ u : UnitId, VifConf u.id)

/-- A step of the stack. -/
def step (s : LsNet) : LsOp → Option LsNet
  | .link u p st =>
    let (v, pkt) := vifSetLinkStatus (conf u) (s.unit u) ⟨p.1, u.id, p.2⟩ st
    some { s with unit := update s.unit u v, sent := pkt :: s.sent }
  | .sync u => some { s with sent := vifFormLsSyncPkt (conf u) (s.unit u) :: s.sent }
  | .deliver w pkt =>
    some { s with
      unit := update s.unit w (vifProcessLsPkt (conf w) (s.unit w) pkt).1
      delivered := update s.delivered w (pkt :: s.delivered w) }
  | .clear w devs =>
    some { s with
      unit := update s.unit w (vifLsClearSerial (s.unit w) devs)
      delivered := update s.delivered w
        ((s.delivered w).filter fun p => ¬(p.stackId ∈ devs ∧ 1 ≤ p.stackId ∧ p.stackId ≤ 15)) }

/-- The stack after `vif_init` of all units: no serial, and link states `st₀`. -/
def init (st₀ : UnitId → VifRef → PortLinkState) : LsNet where
  unit := fun u => ⟨fun _ => 0, st₀ u⟩
  sent := []
  delivered := fun _ => []

/-- What may happen: ports report their own link states, only packets that were sent are
delivered, and no unit restarts its own serial. -/
def Allowed (s : LsNet) : LsOp → Prop
  | .link u p _ => p ∈ (conf u).ports
  | .sync _ => True
  | .deliver _ pkt => pkt ∈ s.sent
  | .clear w devs => w.id ∉ devs

/-- For each unit and each interface that packets of another unit named, the unit has the state in a
packet that no other packet delivered from that unit and naming the interface exceeds in its
serial. -/
def Latest (s : LsNet) : Prop :=
  ∀ w, ∀ p ∈ s.delivered w, p.stackId ≠ w.id → ∀ e ∈ p.data,
    (∀ q ∈ s.delivered w, q.stackId = p.stackId → (∃ f ∈ q.data, f.1 = e.1) → q.serial ≤ p.serial) →
    ∀ r, vifGetn (conf w) e.1 = some r → (s.unit w).state r = e.2

/-- A packet that reaches another unit has a serial, and none exceeds it among the packets that
reached the unit before; or the unit has the states of the packet already. -/
def Timely (s : LsNet) : LsOp → Prop
  | .deliver w pkt =>
    pkt.stackId = w.id ∨
    (0 < pkt.serial ∧ ∀ q ∈ s.delivered w, q.stackId = pkt.stackId → q.serial ≤ pkt.serial) ∨
    ∀ e ∈ pkt.data, ∀ r, vifGetn (conf w) e.1 = some r → (s.unit w).state r = e.2
  | _ => True

/-- What holds in every state of the stack. -/
structure Inv (s : LsNet) : Prop where
  /-- No serial of another unit is ever stored. -/
  serial : ∀ w : UnitId, ∀ i ≠ w.id, (s.unit w).serial i = 0
  /-- A packet comes from a unit, tells of its ports, and is not newer than the unit's serial. -/
  origin : ∀ p ∈ s.sent, ∃ u : UnitId, p.stackId = u.id ∧ p.serial ≤ (s.unit u).serial u.id ∧
    ∀ e ∈ p.data, ∃ q ∈ (conf u).ports, e.1 = ⟨q.1, u.id, q.2⟩
  /-- A packet with a unit's last serial tells the states the unit has. -/
  last : ∀ p ∈ s.sent, ∀ u : UnitId, p.stackId = u.id → p.serial = (s.unit u).serial u.id →
    ∀ e ∈ p.data, (s.unit u).state (.port u.id e.1.type e.1.num) = e.2
  /-- Packets of a unit with one serial do not contradict each other. -/
  agree : ∀ p ∈ s.sent, ∀ q ∈ s.sent, p.stackId = q.stackId → p.serial = q.serial →
    ∀ e ∈ p.data, ∀ f ∈ q.data, e.1 = f.1 → e.2 = f.2
  delivered : ∀ w, ∀ p ∈ s.delivered w, p ∈ s.sent
  latest : Latest conf s

variable {conf}

theorem inv_init (st₀ : UnitId → VifRef → PortLinkState) : Inv conf (init st₀) where
  serial _ _ _ := rfl
  origin _ hp := absurd hp List.not_mem_nil
  last _ hp := absurd hp List.not_mem_nil
  agree _ hp := absurd hp List.not_mem_nil
  delivered _ _ hp := absurd hp List.not_mem_nil
  latest _ _ hp := absurd hp List.not_mem_nil

variable {s : LsNet} {u w : UnitId} {v : Vifs} {pkt : LsPkt}

/-- An entry of a packet that was sent names a port of its sender. -/
theorem Inv.entry (h : Inv conf s) (hp : pkt ∈ s.sent) {e : VifId × PortLinkState}
    (he : e ∈ pkt.data) : e.1.type ≠ .VIFT_PC ∧ e.1.dev = pkt.stackId ∧ pkt.stackId ≠ 0 := by
  obtain ⟨u, hu, -, hdata⟩ := h.origin pkt hp
  obtain ⟨q, hq, hid⟩ := hdata e he
  have hpos := u.pos
  rw [hid, hu]
  exact ⟨(conf u).ports_ne_pc q hq, rfl, by omega⟩

/-- On every unit an entry of a packet that was sent stands for that port. -/
theorem Inv.resolve (h : Inv conf s) (hp : pkt ∈ s.sent) {e : VifId × PortLinkState}
    (he : e ∈ pkt.data) {r : VifRef} (hr : vifGetn (conf w) e.1 = some r) :
    r = .port pkt.stackId e.1.type e.1.num := by
  obtain ⟨hpc, hdev, hpos⟩ := h.entry hp he
  obtain ⟨⟨t, d, n⟩, st⟩ := e
  obtain rfl : d = pkt.stackId := hdev
  exact eq_port_of_vifGetn hpos hpc hr

/-- A unit whose ports may have changed sends a packet with its last serial and the states it
has. The serial is a new one if a port changed. -/
theorem Inv.send (h : Inv conf s) (v : Vifs) (pkt : LsPkt)
    (hserial : ∀ i ≠ u.id, v.serial i = 0) (hmono : (s.unit u).serial u.id ≤ v.serial u.id)
    (hother : ∀ d ≠ u.id, ∀ t n, v.state (.port d t n) = (s.unit u).state (.port d t n))
    (hsame : v.serial u.id = (s.unit u).serial u.id → v = s.unit u)
    (hid : pkt.stackId = u.id) (hpkt : pkt.serial = v.serial u.id)
    (hports : ∀ e ∈ pkt.data, ∃ q ∈ (conf u).ports, e.1 = ⟨q.1, u.id, q.2⟩)
    (hdata : ∀ e ∈ pkt.data, v.state (.port u.id e.1.type e.1.num) = e.2) :
    Inv conf { s with unit := update s.unit u v, sent := pkt :: s.sent } := by
  -- whatever carries the last serial tells the states the unit has now
  have hlast : ∀ p ∈ pkt :: s.sent, ∀ u' : UnitId, p.stackId = u'.id →
      p.serial = (update s.unit u v u').serial u'.id →
      ∀ e ∈ p.data, (update s.unit u v u').state (.port u'.id e.1.type e.1.num) = e.2 := by
    intro p hp u' hu' hser e he
    rcases List.mem_cons.mp hp with rfl | hp
    · obtain rfl : u' = u := UnitId.ext (hu'.symm.trans hid)
      rw [update_self]
      exact hdata e he
    · by_cases huu : u' = u
      · subst huu
        rw [update_self] at hser ⊢
        obtain ⟨u'', hu'', hle, -⟩ := h.origin p hp
        obtain rfl : u'' = u' := UnitId.ext (hu''.symm.trans hu')
        have hv := hsame (by omega)
        rw [hv] at hser ⊢
        exact h.last p hp _ hu' hser e he
      · rw [update_of_ne huu] at hser ⊢
        exact h.last p hp u' hu' hser e he
  have horigin : ∀ p ∈ pkt :: s.sent, ∃ u' : UnitId, p.stackId = u'.id ∧
      p.serial ≤ (update s.unit u v u').serial u'.id ∧
      ∀ e ∈ p.data, ∃ q ∈ (conf u').ports, e.1 = ⟨q.1, u'.id, q.2⟩ := by
    intro p hp
    rcases List.mem_cons.mp hp with rfl | hp
    · exact ⟨u, hid, by rw [update_self, hpkt], hports⟩
    · obtain ⟨u', hu', hle, hdata'⟩ := h.origin p hp
      refine ⟨u', hu', ?_, hdata'⟩
      by_cases huu : u' = u
      · subst huu
        rw [update_self]
        exact hle.trans hmono
      · rwa [update_of_ne huu]
  refine ⟨fun w i hi => ?_, horigin, hlast, fun p hp q hq hpq hser e he f hf hef => ?_,
    fun w p hp => List.mem_cons_of_mem _ (h.delivered w p hp), fun w p hp hne e he hmax r hr => ?_⟩
  · by_cases hwu : w = u
    · subst hwu
      show (update s.unit w v w).serial i = 0
      rw [update_self]
      exact hserial i hi
    · show (update s.unit u v w).serial i = 0
      rw [update_of_ne hwu]
      exact h.serial w i hi
  · -- if one of the two is the new packet, both carry the last serial
    by_cases hnew : p ∈ s.sent ∧ q ∈ s.sent
    · exact h.agree p hnew.1 q hnew.2 hpq hser e he f hf hef
    · have hboth : p.stackId = u.id ∧ p.serial = (update s.unit u v u).serial u.id := by
        rw [update_self]
        rcases List.mem_cons.mp hp with rfl | hp'
        · exact ⟨hid, hpkt⟩
        · rcases List.mem_cons.mp hq with rfl | hq'
          · exact ⟨hpq.trans hid, hser.trans hpkt⟩
          · exact absurd ⟨hp', hq'⟩ hnew
      rw [← hlast p hp u hboth.1 hboth.2 e he,
        ← hlast q hq u (hpq ▸ hboth.1) (hser ▸ hboth.2) f hf, hef]
  · have hold := h.latest w p hp hne e he hmax r hr
    by_cases hwu : w = u
    · subst hwu
      obtain rfl := h.resolve (h.delivered w p hp) he hr
      show (update s.unit w v w).state _ = _
      rw [update_self, hother _ hne]
      exact hold
    · show (update s.unit u v w).state r = _
      rwa [update_of_ne hwu]

/-- A change of a port keeps the invariant. -/
theorem Inv.link (h : Inv conf s) {p : VifType × ℕ} (hp : p ∈ (conf u).ports)
    {st : PortLinkState} {s' : LsNet} (hs : step conf s (.link u p st) = some s') :
    Inv conf s' := by
  simp only [step, vifSetLinkStatus, vifGetn_own u.pos u.le hp, Option.some.injEq] at hs
  subst hs
  refine h.send _ _ (fun i hi => ?_) ?_ (fun d hd t n => ?_) (fun heq => ?_) rfl ?_ ?_ ?_
  · simpa [update_of_ne hi] using h.serial u i hi
  · simp
  · rw [Vifs.enter_state, if_neg (by simp [hd])]
  · simp at heq
  · simp
  · intro e he
    obtain rfl := List.mem_singleton.mp he
    exact ⟨p, hp, rfl⟩
  · intro e he
    obtain rfl := List.mem_singleton.mp he
    rw [Vifs.enter_state, if_pos rfl]

/-- Sending all states keeps the invariant. -/
theorem Inv.sync (h : Inv conf s) :
    Inv conf
      { s with sent := vifFormLsSyncPkt (conf u) (s.unit u) :: s.sent } := by
  have hsend := h.send (s.unit u) (vifFormLsSyncPkt (conf u) (s.unit u))
    (h.serial u) le_rfl (fun _ _ _ _ => rfl) (fun _ => rfl) rfl rfl
    (fun e he => ?_) (fun e he => ?_)
  · rwa [Function.update_eq_self] at hsend
  all_goals
    obtain ⟨q, hq, rfl⟩ := List.mem_map.mp he
  · exact ⟨q, hq, rfl⟩
  · rfl

/-- A delivered packet changes no port of a unit other than its sender. -/
theorem Inv.process_state_of_ne (h : Inv conf s) (hp : pkt ∈ s.sent) {d : ℕ}
    (hd : d ≠ pkt.stackId) (t : VifType) (n : ℕ) :
    (vifProcessLsPkt (conf w) (s.unit w) pkt).1.state (.port d t n) =
      (s.unit w).state (.port d t n) := by
  unfold vifProcessLsPkt
  split
  · rfl
  · refine processEntries_state (fun e he hr => ?_) (.inl rfl)
    exact absurd (VifRef.port.inj (h.resolve hp he hr)).1 hd

/-- A delivered packet changes no port that it does not name. -/
theorem process_state_of_not_named {d : ℕ} {t : VifType} {n : ℕ}
    (hnot : ∀ e ∈ pkt.data, vifGetn (conf w) e.1 ≠ some (.port d t n)) :
    (vifProcessLsPkt (conf w) (s.unit w) pkt).1.state (.port d t n) =
        (s.unit w).state (.port d t n) := by
  unfold vifProcessLsPkt
  split
  · rfl
  · exact processEntries_state (fun e he hr => absurd hr (hnot e he)) (.inl rfl)

/-- A packet that tells what the unit has already changes no port. -/
theorem process_state_of_held
    (hheld : ∀ e ∈ pkt.data, ∀ r, vifGetn (conf w) e.1 = some r → (s.unit w).state r = e.2)
    (d : ℕ) (t : VifType) (n : ℕ) :
    (vifProcessLsPkt (conf w) (s.unit w) pkt).1.state (.port d t n) =
      (s.unit w).state (.port d t n) := by
  unfold vifProcessLsPkt
  split
  · rfl
  · exact processEntries_state (fun e he hr => (hheld e he _ hr).symm) (.inl rfl)

/-- Entries of packets of one unit that stand for one port name it by the same identifier. -/
theorem Inv.entry_inj (h : Inv conf s) {p q : LsPkt} (hp : p ∈ s.sent) (hq : q ∈ s.sent)
    (hid : p.stackId = q.stackId) {e f : VifId × PortLinkState} (he : e ∈ p.data) (hf : f ∈ q.data)
    {r : VifRef} (her : vifGetn (conf w) e.1 = some r) (hfr : vifGetn (conf w) f.1 = some r) :
    e.1 = f.1 := by
  obtain ⟨-, htype, hnum⟩ :=
    VifRef.port.inj ((h.resolve hp he her).symm.trans (h.resolve hq hf hfr))
  have hdev : e.1.dev = f.1.dev := (h.entry hp he).2.1.trans (hid.trans (h.entry hq hf).2.1.symm)
  obtain ⟨⟨t₁, d₁, n₁⟩, st₁⟩ := e
  obtain ⟨⟨t₂, d₂, n₂⟩, st₂⟩ := f
  dsimp only at htype hnum hdev
  rw [htype, hnum, hdev]

/-- The unit takes over a packet of another unit that has a serial: afterwards it has for a port the
state that a packet `q` told, if the packet tells it too, or does not name the port. -/
theorem Inv.process_state_of_new (h : Inv conf s) (hp : pkt ∈ s.sent)
    (hne : pkt.stackId ≠ w.id) (hpos : 0 < pkt.serial) {q : LsPkt} (hq : q ∈ s.sent)
    (hid : q.stackId = pkt.stackId) {e : VifId × PortLinkState} (he : e ∈ q.data)
    (hser : (∃ f ∈ pkt.data, f.1 = e.1) → q.serial = pkt.serial) {r : VifRef}
    (hr : vifGetn (conf w) e.1 = some r) (hsome : (s.unit w).state r = e.2 ∨ q = pkt) :
    (vifProcessLsPkt (conf w) (s.unit w) pkt).1.state r = e.2 := by
  have hnot : ¬(pkt.serial ≤ (s.unit w).serial pkt.stackId ∨ pkt.stackId = w.id) := by
    rw [h.serial w _ hne]
    omega
  rw [vifProcessLsPkt, if_neg hnot]
  obtain rfl := h.resolve hq he hr
  have htold : q = pkt →
      ∃ f ∈ pkt.data, vifGetn (conf w) f.1 = some (.port q.stackId e.1.type e.1.num) := by
    rintro rfl
    exact ⟨e, he, hr⟩
  refine processEntries_state (fun f hf hfr => ?_) (hsome.imp_right htold)
  -- the entry names the same port, so both packets have one serial
  have hsame : f.1 = e.1 := h.entry_inj hp hq hid.symm hf he hfr hr
  exact h.agree pkt hp q hq hid.symm (hser ⟨f, hf, hsame⟩).symm f hf e he hsame

/-- A packet in time keeps the invariant. -/
theorem Inv.deliver (h : Inv conf s) (hp : pkt ∈ s.sent)
    (ht : Timely conf s (.deliver w pkt)) :
    Inv conf { s with
      unit := update s.unit w (vifProcessLsPkt (conf w) (s.unit w) pkt).1
      delivered := update s.delivered w (pkt :: s.delivered w) } := by
  -- the serials and the states of the unit's own ports stay
  have hserial : ∀ u : UnitId, (update s.unit w (vifProcessLsPkt (conf w) (s.unit w) pkt).1
      u).serial = (s.unit u).serial := by
    intro u
    by_cases huw : u = w
    · subst huw
      rw [update_self, vifProcessLsPkt_serial]
    · rw [update_of_ne huw]
  have hown : ∀ (u : UnitId) t n, (update s.unit w (vifProcessLsPkt (conf w) (s.unit w) pkt).1
      u).state (.port u.id t n) = (s.unit u).state (.port u.id t n) := by
    intro u t n
    by_cases huw : u = w
    · subst huw
      rw [update_self]
      by_cases hself : pkt.stackId = u.id
      · rw [vifProcessLsPkt, if_pos (.inr hself)]
      · exact h.process_state_of_ne hp (Ne.symm hself) t n
    · rw [update_of_ne huw]
  refine ⟨fun u i hi => ?_, fun p hp' => ?_, fun p hp' u hu hser e he => ?_, h.agree,
    fun u p hp' => ?_, fun u p hp' hne e he hmax r hr => ?_⟩
  · show (update s.unit w _ u).serial i = 0
    rw [hserial]
    exact h.serial u i hi
  · obtain ⟨u, hu, hle, hdata⟩ := h.origin p hp'
    refine ⟨u, hu, ?_, hdata⟩
    show _ ≤ (update s.unit w _ u).serial u.id
    rwa [hserial]
  · have hser' : p.serial = (update s.unit w _ u).serial u.id := hser
    rw [hserial] at hser'
    exact (hown u _ _).trans (h.last p hp' u hu hser' e he)
  · by_cases huw : u = w
    · subst huw
      have hmem : p ∈ update s.delivered u (pkt :: s.delivered u) u := hp'
      rw [update_self] at hmem
      rcases List.mem_cons.mp hmem with rfl | hmem
      · exact hp
      · exact h.delivered u p hmem
    · have hmem : p ∈ update s.delivered w (pkt :: s.delivered w) u := hp'
      rw [update_of_ne huw] at hmem
      exact h.delivered u p hmem
  · by_cases huw : u = w
    · subst huw
      show (update s.unit u _ u).state r = e.2
      have hmem : p ∈ update s.delivered u (pkt :: s.delivered u) u := hp'
      have hmax' : ∀ q ∈ update s.delivered u (pkt :: s.delivered u) u,
        q.stackId = p.stackId → (∃ f ∈ q.data, f.1 = e.1) → q.serial ≤ p.serial := hmax
      rw [update_self] at hmem hmax' ⊢
      have hsent : p ∈ s.sent := (List.mem_cons.mp hmem).elim (· ▸ hp) (h.delivered u p)
      -- a packet that is the newest that names the port was the newest of those before
      have hold : p ∈ s.delivered u → (s.unit u).state r = e.2 := fun hpu =>
        h.latest u p hpu hne e he (fun q hq => hmax' q (List.mem_cons_of_mem _ hq)) r hr
      by_cases hid : p.stackId = pkt.stackId
      · rcases ht with hself | ⟨hpos, hnew⟩ | hheld
        · exact absurd (hid.trans hself) hne
        · have hser : (∃ f ∈ pkt.data, f.1 = e.1) → p.serial = pkt.serial := by
            intro hnamed
            refine le_antisymm ?_ (hmax' pkt List.mem_cons_self hid.symm hnamed)
            rcases List.mem_cons.mp hmem with rfl | hpu
            · exact le_rfl
            · exact hnew p hpu hid
          refine h.process_state_of_new hp (hid ▸ hne) hpos hsent hid he hser hr ?_
          exact (List.mem_cons.mp hmem).elim .inr fun hpu => .inl (hold hpu)
        · obtain rfl := h.resolve hsent he hr
          rw [process_state_of_held hheld]
          rcases List.mem_cons.mp hmem with rfl | hpu
          · exact hheld e he _ hr
          · exact hold hpu
      · obtain rfl := h.resolve hsent he hr
        rw [h.process_state_of_ne hp hid]
        exact hold ((List.mem_cons.mp hmem).resolve_left fun heq =>
          hid (congrArg LsPkt.stackId heq))
    · have hmem : p ∈ update s.delivered w (pkt :: s.delivered w) u := hp'
      have hmax' : ∀ q ∈ update s.delivered w (pkt :: s.delivered w) u,
        q.stackId = p.stackId → (∃ f ∈ q.data, f.1 = e.1) → q.serial ≤ p.serial := hmax
      rw [update_of_ne huw] at hmem hmax'
      show (update s.unit w _ u).state r = e.2
      rw [update_of_ne huw]
      exact h.latest u p hmem hne e he hmax' r hr

/-- Forgetting the serials of other units keeps the invariant. -/
theorem Inv.clear (h : Inv conf s) {devs : Finset ℕ} (hw : w.id ∉ devs) {s' : LsNet}
    (hs : step conf s (.clear w devs) = some s') : Inv conf s' := by
  obtain rfl := Option.some_inj.mp hs
  have hstate : ∀ u : UnitId, (update s.unit w (vifLsClearSerial (s.unit w) devs) u).state =
      (s.unit u).state := by
    intro u
    by_cases huw : u = w
    · subst huw
      rw [update_self]
      rfl
    · rw [update_of_ne huw]
  have hserial : ∀ u : UnitId, (update s.unit w (vifLsClearSerial (s.unit w) devs) u).serial u.id =
      (s.unit u).serial u.id := by
    intro u
    by_cases huw : u = w
    · subst huw
      rw [update_self]
      exact if_neg fun hmem => hw hmem.1
    · rw [update_of_ne huw]
  refine ⟨fun u i hi => ?_, fun p hp => ?_, fun p hp u hu hser e he => ?_, h.agree,
    fun u p hp => ?_, fun u p hp hne e he hmax r hr => ?_⟩
  · show (update s.unit w _ u).serial i = 0
    by_cases huw : u = w
    · subst huw
      rw [update_self]
      show (if _ then 0 else (s.unit u).serial i) = 0
      split
      · rfl
      · exact h.serial u i hi
    · rw [update_of_ne huw]
      exact h.serial u i hi
  · obtain ⟨u, hu, hle, hdata⟩ := h.origin p hp
    exact ⟨u, hu, hle.trans_eq (hserial u).symm, hdata⟩
  · refine (congrFun (hstate u) _).trans (h.last p hp u hu ?_ e he)
    exact hser.trans (hserial u)
  · by_cases huw : u = w
    · subst huw
      have hmem : p ∈ update s.delivered u _ u := hp
      rw [update_self] at hmem
      exact h.delivered u p (List.mem_filter.mp hmem).1
    · have hmem : p ∈ update s.delivered w _ u := hp
      rw [update_of_ne huw] at hmem
      exact h.delivered u p hmem
  · refine (congrFun (hstate u) r).trans ?_
    by_cases huw : u = w
    · subst huw
      have hmem : p ∈ update s.delivered u _ u := hp
      have hmax' : ∀ q ∈ update s.delivered u _ u,
        q.stackId = p.stackId → (∃ f ∈ q.data, f.1 = e.1) → q.serial ≤ p.serial := hmax
      rw [update_self] at hmem hmax'
      obtain ⟨hpu, hkeep⟩ := List.mem_filter.mp hmem
      -- packets of one sender are kept or forgotten together
      refine h.latest u p hpu hne e he
        (fun q hq hqp => hmax' q (List.mem_filter.mpr ⟨hq, ?_⟩) hqp) r hr
      rwa [hqp]
    · have hmem : p ∈ update s.delivered w _ u := hp
      have hmax' : ∀ q ∈ update s.delivered w _ u,
        q.stackId = p.stackId → (∃ f ∈ q.data, f.1 = e.1) → q.serial ≤ p.serial := hmax
      rw [update_of_ne huw] at hmem hmax'
      exact h.latest u p hmem hne e he hmax' r hr

/-- Every step in time keeps the invariant. -/
theorem Inv.step (h : Inv conf s) {op : LsOp} (hok : Allowed conf s op)
    (ht : Timely conf s op) {s' : LsNet} (hs : LsNet.step conf s op = some s') :
    Inv conf s' := by
  cases op with
  | link u p st => exact h.link hok hs
  | sync u =>
    obtain rfl := Option.some_inj.mp hs
    exact h.sync
  | deliver w pkt =>
    obtain rfl := Option.some_inj.mp hs
    exact h.deliver hok ht
  | clear w devs => exact h.clear hok hs

/-- An operation that is allowed and in time. -/
def Ok (conf : ∀ u : UnitId, VifConf u.id) (s : LsNet) (op : LsOp) : Prop :=
  Allowed conf s op ∧ Timely conf s op

/-- While every packet is in time, each unit has for each port the latest link state it was told; a
packet changes only ports that it names, and one older than a packet delivered before changes
neither a port nor a stored serial. -/
theorem latest_of_timely (conf : ∀ u : UnitId, VifConf u.id) (st₀ : UnitId → VifRef → PortLinkState)
    (s : LsNet) (hr : Guarded.Reach (step conf) (Ok conf) (init st₀) s) :
    Latest conf s ∧
      ∀ w pkt s', Ok conf s (.deliver w pkt) → LsNet.step conf s (.deliver w pkt) = some s' →
        (∀ d t n, (∀ e ∈ pkt.data, vifGetn (conf w) e.1 ≠ some (.port d t n)) →
          (s'.unit w).state (.port d t n) = (s.unit w).state (.port d t n)) ∧
        ((∃ q ∈ s.delivered w, q.stackId = pkt.stackId ∧ pkt.serial < q.serial) →
          (s'.unit w).serial = (s.unit w).serial ∧
            ∀ d t n, (s'.unit w).state (.port d t n) = (s.unit w).state (.port d t n)) := by
  have h : Inv conf s :=
    hr.invariant (Inv conf) (inv_init st₀) fun _ _ _ h hok hs => h.step hok.1 hok.2 hs
  refine ⟨h.latest, fun w pkt s' hok hs => ?_⟩
  obtain rfl := Option.some_inj.mp hs
  show (∀ d t n, _ → (update s.unit w _ w).state _ = _) ∧
    (_ → (update s.unit w _ w).serial = _ ∧ ∀ d t n, (update s.unit w _ w).state _ = _)
  rw [update_self]
  refine ⟨fun d t n hnot => process_state_of_not_named hnot,
    fun hlate => ⟨vifProcessLsPkt_serial pkt, ?_⟩⟩
  obtain ⟨q, hq, hid, hlt⟩ := hlate
  rcases hok.2 with hself | ⟨-, hnew⟩ | hheld
  · intro d t n
    rw [vifProcessLsPkt, if_pos (.inr hself)]
  · exact absurd (hnew q hq hid) (by omega)
  · exact process_state_of_held hheld

/-! ### A late packet -/

/-- A unit that knows two FE ports on each unit, and no trunks. -/
def twoPorts (sid : ℕ) : VifConf sid where
  nByType _ t := if t = .VIFT_FE then 2 else 0
  trunkOf _ := none
  members _ := []
  trunkIdMin := 1
  trunkIdMax := 31
  speed10 := 0
  ports := [(.VIFT_FE, 1), (.VIFT_FE, 2)]
  ports_ne_pc := by decide
  ports_known := by decide

/-- A port that is up, and one that is down. -/
def up : PortLinkState := ⟨true, 3, 1⟩

@[inherit_doc up]
def down : PortLinkState := ⟨false, 0, 0⟩

/-- Units 1 and 2. -/
def unit₁ : UnitId := ⟨1, by decide, by decide⟩

@[inherit_doc unit₁]
def unit₂ : UnitId := ⟨2, by decide, by decide⟩

/-- The state after a list of operations. -/
def after (ops : List LsOp) : Option LsNet :=
  ops.foldl (fun s op => s.bind fun s => step (fun u => twoPorts u.id) s op)
    (some (init fun _ _ => down))

/-- Port 1 of unit 1 goes up, and both packets that tell so reach unit 2 in order. -/
theorem latest_of_timely_up : ∃ s, after [.link unit₁ (.VIFT_FE, 1) up, .sync unit₁,
      .deliver unit₂ ⟨1, 1, [(⟨.VIFT_FE, 1, 1⟩, up)]⟩] = some s ∧
    Latest (fun u => twoPorts u.id) s ∧ (s.unit unit₂).state (.port 1 .VIFT_FE 1) = up := by
  refine ⟨_, rfl, ?_, by decide⟩
  refine (latest_of_timely (fun u => twoPorts u.id) (fun _ _ => down) _ ?_).1
  have h₀ : Guarded.Reach (step fun u => twoPorts u.id) (Ok fun u => twoPorts u.id)
    (init fun _ _ => down) (init fun _ _ => down) := .init
  have h₁ := h₀.snoc (.link unit₁ (.VIFT_FE, 1) up) ⟨List.mem_cons_self, trivial⟩ rfl
  have h₂ := h₁.snoc (.sync unit₁) ⟨trivial, trivial⟩ rfl
  exact h₂.snoc (.deliver unit₂ ⟨1, 1, [(⟨.VIFT_FE, 1, 1⟩, up)]⟩)
    ⟨List.mem_cons_of_mem _ List.mem_cons_self,
      Or.inr (Or.inl ⟨by decide, fun q hq => absurd hq List.not_mem_nil⟩)⟩ rfl

/-- Port 1 of unit 1 goes up and down again. The second packet overtakes the first, and unit 2
ends with the port up. -/
theorem not_latest_of_late : ∃ s, Guarded.Reach (step fun u => twoPorts u.id)
    (Allowed fun u => twoPorts u.id) (init fun _ _ => down) s ∧
    ¬Latest (fun u => twoPorts u.id) s := by
  have h₀ : Guarded.Reach (step fun u => twoPorts u.id) (Allowed fun u => twoPorts u.id)
    (init fun _ _ => down) (init fun _ _ => down) := .init
  have h₁ := h₀.snoc (.link unit₁ (.VIFT_FE, 1) up) List.mem_cons_self rfl
  have h₂ := h₁.snoc (.link unit₁ (.VIFT_FE, 1) down) List.mem_cons_self rfl
  have h₃ := h₂.snoc (.deliver unit₂ ⟨1, 2, [(⟨.VIFT_FE, 1, 1⟩, down)]⟩) List.mem_cons_self rfl
  refine ⟨_, h₃.snoc (.deliver unit₂ ⟨1, 1, [(⟨.VIFT_FE, 1, 1⟩, up)]⟩)
    (List.mem_cons_of_mem _ List.mem_cons_self) rfl, fun h => ?_⟩
  have hdown := h unit₂ ⟨1, 2, [(⟨.VIFT_FE, 1, 1⟩, down)]⟩
    (List.mem_cons_of_mem _ List.mem_cons_self) (by decide) _ List.mem_cons_self ?_
    (.port 1 .VIFT_FE 1) (by decide)
  · revert hdown
    decide
  · intro q hq _ _
    rcases List.mem_cons.mp hq with rfl | hq
    · decide
    · obtain rfl := List.mem_singleton.mp hq
      exact le_rfl

end LsNet

end Presteramgr
