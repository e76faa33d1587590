import Mathlib.Data.List.Flatten
import Presteramgr.Lib.Guarded
import Presteramgr.Mac.Shown
import Presteramgr.Mac.Unit

/-!
# The tables of a master and a member

A master executes requests and has its members repeat them by packets, which arrive in order. A
member does so with its own table, clock, ports and counters. It does not tell the master of what it
has not done, but for one case: an address of a packet `FMC_MASTER_UPDATE` that its port security
refuses it asks the master to delete.

## Main definitions

* `Duo`: a master and a member, and `ReplRun` with the packets between them;
* `ReplRun.Ok`: requests mean the same on both units, and the member admits what the master has
  admitted, unless it lacks the address and refuses it for port security;
* `Took`: what the master has done with a request to insert, noted with the packet;
* `pktActs`: what a packet under way stands for.
-/

namespace Presteramgr

/-! ## The units and the packets -/

/-- A master and a member. They are alike in what hardware and program fix. -/
structure Duo where
  master : UnitConf
  member : UnitConf
  macVlanId_eq : member.fdb.macVlanId = master.fdb.macVlanId
  vlanValid_eq : member.fdb.vlanValid = master.fdb.vlanValid
  ne : member.stackId ≠ master.stackId
  member_ne : member.stackId ≠ 16

/-- What a unit does with the entry of a request: it refuses it, or admits it for a victim. -/
inductive Took
  | refused
  | taken (gone : Option MacKey)
deriving DecidableEq

/-- What a unit does with the entry of a request, by its table. -/
def took (c : FdbConf) (f : Fdb) (mo : Moment) (arg : MacOpArgVif) : Took :=
  match arg.iface c with
  | none => .refused
  | some dst => if f.Admits c mo (arg.entry dst) then .taken (f.victim c mo (arg.entry dst))
      else .refused

/-- What the master does with the entry of a packet, nothing for most packets. -/
def tookMsg (c : FdbConf) (f : Fdb) (mo : Moment) : FdbmanMsg → Took
  | .FMC_MACOP arg => took c f mo arg
  | _ => .refused

/-- The packet with which a member sends a request to the master. -/
def FdbCtlCmd.msg : FdbCtlCmd → FdbmanMsg
  | .FCC_MAC_OP_VIF arg => .FMC_MACOP arg
  | .FCC_FLUSH arg => .FMC_FLUSH arg
  | .FCC_FLUSH_VIF arg => .FMC_FLUSH_VIF arg

/-- The packets that members send to the master for its table. -/
def FdbmanMsg.isRequest : FdbmanMsg → Bool
  | .FMC_UPDATE _ | .FMC_MACOP _ | .FMC_FLUSH _ | .FMC_FLUSH_VIF _ => true
  | _ => false

/-- What hardware reports: an address of a VLAN, on a port or a trunk. -/
def MacUpdate.Sound (a : MacUpdate) : Prop :=
  0 < a.vid ∧ a.vid < 0xFFF ∧
    (a.dst.type = .PORT ∧ a.dst.devNum ≤ 0x1f ∨ a.dst.type = .TRUNK)

/-- The two units, the packets on their way to the member, with what the master has done, and those
on their way to the master. -/
structure ReplRun where
  master : FdbUnit
  member : FdbUnit
  down : List (FdbPkt × Took)
  up : List FdbPkt

/-- What happens on the two units. -/
inductive ReplOp
  /-- A request of the control thread of the master. -/
  | ctl (mo : Moment) (cmd : FdbCtlCmd)
  /-- A packet of any unit reaches the master. -/
  | recv (mo : ℕ → Moment) (p : FdbPkt)
  /-- The hardware of the master reports addresses. -/
  | upd (env : LearnEnv) (mo : ℕ → Moment) (buf : ℕ → PtiFdbr) (as : List MacUpdate)
  /-- The next packet reaches the member. -/
  | deliver (mo : ℕ → Moment)
  /-- The next packet of the member reaches the master. -/
  | deliverUp (mo : ℕ → Moment)

namespace ReplRun

variable (d : Duo) (s : ReplRun)

/-- The outcome of a packet or request on the master. -/
def send (h : Handled) (t : Took) : ReplRun :=
  { s with master := h.unit, down := s.down ++ h.sent.map fun p => (p, t) }

/-- A step of the two units. -/
def step : ReplOp → Option ReplRun
  | .ctl mo cmd =>
    some (s.send (fdbCtlHandler d.master s.master mo cmd)
      (tookMsg d.master.fdb s.master.fdb mo cmd.msg))
  | .recv mo p => (fdbmanHandlePkt d.master s.master mo p).map fun h =>
      s.send h (tookMsg d.master.fdb s.master.fdb (mo 0) p.msg)
  | .upd env mo buf as => (fdbUpdForDev d.master s.master env mo buf as).map fun h =>
      s.send h .refused
  | .deliver mo =>
    match s.down with
    | [] => none
    | x :: down => (fdbmanHandlePkt d.member s.member mo x.1).map fun h =>
        { s with member := h.unit, down := down, up := s.up ++ h.sent }
  | .deliverUp mo =>
    match s.up with
    | [] => none
    | p :: up => (fdbmanHandlePkt d.master s.master mo p).map fun h =>
        { s with up := up }.send h .refused

/-! ## The condition -/

/-- What the callers and the hardware see to: requests name a VLAN, and reports name one with a port
or a trunk. -/
def Allowed : ReplOp → Prop
  | .ctl _ (.FCC_MAC_OP_VIF arg) => arg.vid ≠ 0
  | .recv _ p => p.msg.isRequest = true ∧ p.stackId ≠ 16 ∧
      ∀ arg, p.msg = .FMC_MACOP arg → arg.vid ≠ 0
  | .upd _ _ _ as => ∀ a ∈ as, a.Sound
  | _ => True

/-- A flush of a port hits no entry of the table that is shown. -/
def PortIdle (c : FdbConf) (f : Fdb) (arg : FdbFlushArg) : Prop :=
  arg.port = none ∨ ∀ dst, Fdb.flushDst c arg = some dst → ∀ t, (f.slot t).valid = true →
    (f.slot t).me.userDefined ≠ .FEP_OWN →
      FdbRun.flushed c arg.vid dst arg.ds (f.slot t).me = false

/-- A request names the same interface on both units, and a flush of a port, which each unit takes
for one of its own, hits nothing. -/
def OkMsg (f : Fdb) : FdbmanMsg → Prop
  | .FMC_MACOP arg => arg.delete = true ∨ arg.iface d.member.fdb = arg.iface d.master.fdb
  | .FMC_FLUSH arg => PortIdle d.master.fdb f arg
  | .FMC_FLUSH_VIF arg => ∀ id, arg.vifid = some id →
      d.member.fdb.vif id = d.master.fdb.vif id
  | _ => True

/-- The table has a free place for the entry, and port security refuses it. -/
def Limited (c : FdbConf) (f : Fdb) (mo : Moment) (e : MacEntry) : Prop :=
  ∃ t, f.chosen c mo e = some t ∧ (f.slot t).valid = false ∧
    (psecAddrCheck c mo.st f.psec (f.slot t) e false).2 ≠ .PAS_OK

/-- Each record of a packet `FMC_MASTER_UPDATE` that adds an address is admitted when its turn
comes, or refused by port security for an address that the table has not got. -/
def OkRecords (c : FdbConf) (m : Fdbman) (sid : ℕ) :
    List PtiFdbr → (ℕ → Moment) → Fdb → Prop
  | [], _, _ => True
  | fr :: fa, mo, f =>
    match fr.operation with
    | .PTI_FDB_OP_ADD =>
      (f.Admits c (mo 0) fr.entry ∨ Limited c f (mo 0) fr.entry) ∧
        OkRecords c m sid fa (fun i => mo (i + 1)) (f.insert c m (mo 0) fr.entry false false).1
    | .PTI_FDB_OP_DEL =>
      OkRecords c m sid fa (fun i => mo (i + 1)) (fdbMacForeignDel c m f fr sid).1

/-- The member admits the entry of a request exactly if the master has, and for the same victim. -/
def OkDeliver (mo : ℕ → Moment) (x : FdbPkt × Took) : Prop :=
  match x.1.msg with
  | .FMC_MASTER_UPDATE data =>
    OkRecords d.member.fdb s.member.man x.1.stackId data mo s.member.fdb
  | .FMC_MASTER_MACOP arg =>
    arg.delete = true ∨ took d.member.fdb s.member.fdb (mo 0) arg = x.2
  | .FMC_MASTER_FLUSH arg => PortIdle d.member.fdb s.member.fdb arg
  | _ => True

/-- The condition on a step. Reports that an address on a trunk is aged name a trunk up to 31, as
`fdb_mac_foreign_del` demands. -/
def Ok : ReplOp → Prop
  | .ctl _ cmd => OkMsg d s.master.fdb cmd.msg
  | .recv _ p => OkMsg d s.master.fdb p.msg
  | .upd _ _ _ as => ∀ a ∈ as, a.updType = .CPSS_AA_E → a.dst.type = .TRUNK →
      a.dst.trunkId ≤ 0x1f
  | .deliver mo => ∀ x down, s.down = x :: down → OkDeliver d s mo x
  | .deliverUp _ => True

/-- Master and member of one configuration, whose tables hold the same entries, and nothing under
way. -/
structure Start : Prop where
  master_state : s.master.man.state = .FST_MASTER
  master_master : s.master.man.master = d.master.stackId
  member_state : s.member.man.state = .FST_MEMBER
  member_master : s.member.man.master = d.master.stackId
  serial : s.member.man.serial = s.master.man.serial
  down : s.down = []
  up : s.up = []
  /-- The tables are such as runs of insertions, removals and flushes make. -/
  master_table : ∃ psec r, Guarded.Reach (FdbRun.step d.master.fdb) Fdb.Entering
    (FdbRun.init psec) r ∧ r.fdb = s.master.fdb
  member_table : ∃ psec r, Guarded.Reach (FdbRun.step d.member.fdb) Fdb.Entering
    (FdbRun.init psec) r ∧ r.fdb = s.member.fdb
  same : Fdb.SameEntries s.master.fdb s.member.fdb

end ReplRun

/-! ## What packets stand for -/

/-- What a record stands for. -/
def PtiFdbr.act (fr : PtiFdbr) : Replica.Act MacKey Shown :=
  match fr.operation with
  | .PTI_FDB_OP_ADD => Replica.write fr.key fr.entry.shows none
  | .PTI_FDB_OP_DEL => Replica.erase fr.key

/-- The entries that a flush of an interface concerns, by where they lead. -/
def DstInterface.hits (iface : DstInterface) : Target → Bool
  | .port dev num => iface.type = .PORT && dev == iface.devNum && num == iface.portNum
  | .trunk id => iface.type ≠ .PORT && id == iface.trunkId
  | _ => false

/-- What a flush stands for, of the VLAN and the destinations given. -/
def flushAct (c : FdbConf) (vid : Option ℕ) (ds : Bool) (hits : Option (Target → Bool)) :
    Replica.Act MacKey Shown :=
  Replica.drop fun k w => hits.any fun hit =>
    vid.all (c.macVlanId k == ·) && hit w.target && (ds || !w.isStatic)

/-- The destinations of `fdb_flush`. A flush of a port counts for none. -/
def flushHits (c : FdbConf) (arg : FdbFlushArg) : Option (Target → Bool) :=
  if ¬arg.vid.all c.vlanValid then none
  else
    match arg.port with
    | none => some fun _ => true
    | some _ => none

/-- The destinations of `fdb_flush_vif`. -/
def flushVifHits (c : FdbConf) (arg : FdbFlushArgVif) : Option (Target → Bool) :=
  if ¬arg.vid.all c.vlanValid then none
  else
    match arg.vifid with
    | none => some fun _ => true
    | some id => (c.vif id).map DstInterface.hits

/-- What the execution of a request stands for, of which `t` is known when it inserts. -/
def macopAct (c : FdbConf) (arg : MacOpArgVif) (t : Took) : Replica.Act MacKey Shown :=
  if arg.delete then Replica.erase arg.key
  else
    match arg.iface c, t with
    | some dst, .taken gone => Replica.write arg.key (arg.entry dst).shows gone
    | _, _ => fun _ v => v

/-- What a packet on its way to the member stands for. -/
def pktActs (c : FdbConf) (x : FdbPkt × Took) : List (Replica.Act MacKey Shown) :=
  match x.1.msg with
  | .FMC_MASTER_UPDATE data => data.map PtiFdbr.act
  | .FMC_MASTER_MACOP arg => [macopAct c arg x.2]
  | .FMC_MASTER_FLUSH arg => [flushAct c arg.vid arg.ds (flushHits c arg)]
  | .FMC_MASTER_FLUSH_VIF arg => [flushAct c arg.vid arg.ds (flushVifHits c arg)]
  | _ => []

/-- What a packet does to the table is plain: it writes or erases and asks nothing. -/
theorem plain_pktActs (c : FdbConf) (x : FdbPkt × Took) : ∀ a ∈ pktActs c x, Replica.Plain a := by
  have hrec : ∀ fr : PtiFdbr, Replica.Plain fr.act := by
    intro fr
    unfold PtiFdbr.act
    split
    · exact Replica.plain_write
    · exact Replica.plain_erase _
  have hmacop : ∀ arg, Replica.Plain (macopAct c arg x.2) := by
    intro arg
    unfold macopAct
    split_ifs
    · exact Replica.plain_erase _
    · split
      · exact Replica.plain_write
      · exact fun _ => .inr fun _ => .inl rfl
  intro a ha
  unfold pktActs at ha
  split at ha
  · obtain ⟨fr, -, rfl⟩ := List.mem_map.mp ha
    exact hrec fr
  · obtain rfl := List.mem_singleton.mp ha
    exact hmacop _
  · obtain rfl := List.mem_singleton.mp ha
    exact Replica.plain_drop
  · obtain rfl := List.mem_singleton.mp ha
    exact Replica.plain_drop
  · exact absurd ha List.not_mem_nil

end Presteramgr
