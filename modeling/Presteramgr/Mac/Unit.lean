import Presteramgr.Mac.Table

/-!
# A unit of the stack and its packets

The FDB thread of a unit: what it does with the packets of other units (`fdbman_handle_pkt`), with
the requests of the control thread (`fdb_ctl_handler`), and with what the hardware reports
(`fdb_upd_for_dev`). A unit that is not a member executes a request and has its members repeat it
by a packet `FMC_MASTER_*`; a member sends it to the master and executes nothing.

The data of packets that are only handed on to the control thread are bytes. Times, and what
`psec_addr_check` finds in its uninitialised variable, are given for each insertion. A function
that runs into an `assert` returns `none`.

## Main definitions

* `FdbmanMsg`, `FdbPkt`: the commands with their data, and a packet;
* `FdbUnit`: the state of a unit;
* `fdbmanHandlePkt`, `fdbCtlHandler`, `fdbUpdForDev`: what it does, with the packets it sends and
  the commands it gives to the control thread.
-/

namespace Presteramgr

/-! ## Packets -/

/-- Data that the FDB thread does not look into. -/
abbrev Payload := List UInt8

/-- `mac_type_t`. -/
inductive MacEntryType
  | MET_STATIC
  | MET_DYNAMIC
  | MET_SECURE
deriving DecidableEq, Repr

/-- `struct mac_op_arg_vif`. -/
structure MacOpArgVif where
  vid : ℕ
  mac : Mac
  vifid : VifId
  type : MacEntryType
  drop : Bool
  delete : Bool
deriving DecidableEq, Repr

/-- The key that a request names. -/
def MacOpArgVif.key (arg : MacOpArgVif) : MacKey := .macAddr arg.vid arg.mac

/-- `enum fdbman_cmd`, each command with the data that follow the header. -/
inductive FdbmanMsg
  | FMC_MASTER_READY
  | FMC_UPDATE (data : List PtiFdbr)
  | FMC_MASTER_UPDATE (data : List PtiFdbr)
  | FMC_FLUSH (arg : FdbFlushArg)
  | FMC_MASTER_FLUSH (arg : FdbFlushArg)
  | FMC_FLUSH_VIF (arg : FdbFlushArgVif)
  | FMC_MASTER_FLUSH_VIF (arg : FdbFlushArgVif)
  | FMC_MACOP (arg : MacOpArgVif)
  | FMC_MASTER_MACOP (arg : MacOpArgVif)
  | FMC_MASTER_RT (data : Payload)
  | FMC_MASTER_NA (data : Payload)
  | FMC_MASTER_NA_IPV6 (data : Payload)
  | FMC_OPNA (data : Payload)
  | FMC_OPNA_IPV6 (data : Payload)
  | FMC_MASTER_UDT (data : Payload)
  | FMC_MASTER_UDT_IPV6 (data : Payload)
  | FMC_MASTER_CLEAR_ROUTING
  | FMC_VIF_LS (lsh : LsPkt)
  | FMC_VIFLS_GET
  | FMC_VIF_SET_STP_STATE (data : Payload)
deriving DecidableEq

/-- `struct pti_fdbr_msg`. The VLANs of its records are in the byte order of the unit, which the
sender and the receiver of the source convert from and to. -/
structure FdbPkt where
  stackId : ℕ
  serial : ℕ
  devsbmp : Finset ℕ
  msg : FdbmanMsg
deriving DecidableEq

/-- The commands to the control thread. -/
inductive CtlCmd
  | SC_INT_RTBD_CMD (data : Payload)
  | SC_INT_NA_CMD (data : Payload)
  | SC_INT_NA_IPV6_CMD (data : Payload)
  | SC_INT_OPNA_CMD (data : Payload)
  | SC_INT_OPNA_IPV6_CMD (data : Payload)
  | SC_INT_UDT_CMD (data : Payload)
  | SC_INT_UDT_IPV6_CMD (data : Payload)
  | SC_INT_CLEAR_RT_CMD
  | SC_INT_VIF_SET_STP_STATE (data : Payload)
deriving DecidableEq

/-! ## Requests and records on the table -/

/-- `TRUNK_MAX`. -/
def TRUNK_MAX : ℕ := 127

/-- The entry that `fdb_mac_add_vif` makes for an interface, for a request that is not `own`. -/
def MacOpArgVif.entry (arg : MacOpArgVif) (dst : DstInterface) : MacEntry where
  key := arg.key
  isStatic := arg.type ≠ .MET_DYNAMIC
  userDefined := if arg.type ≠ .MET_DYNAMIC then .FEP_STATIC else .FEP_DYN
  dst := dst

/-- The interface that a request names on a unit: none when `vif_getn` finds nothing. -/
def MacOpArgVif.iface (c : FdbConf) (arg : MacOpArgVif) : Option DstInterface :=
  if arg.drop then some { type := .VID, vlanId := arg.vid } else c.vif arg.vifid

/-- `fdb_mac_add_vif`. -/
def fdbMacAddVif (c : FdbConf) (m : Fdbman) (mo : Moment) (f : Fdb) (arg : MacOpArgVif) :
    Fdb × Status :=
  match arg.iface c with
  | none => (f, .ST_BAD_VALUE)
  | some dst => f.insert c m mo (arg.entry dst) (arg.type = .MET_SECURE) false

/-- `fdb_mac_op_vif`, with `fdb_mac_delete_vif`. -/
def fdbMacOpVif (c : FdbConf) (m : Fdbman) (mo : Moment) (f : Fdb) (arg : MacOpArgVif) :
    Fdb × Status :=
  if arg.delete then f.remove c m arg.key 16 else fdbMacAddVif c m mo f arg

/-- What `fdb_mac_foreign_add` asserts of a record. -/
def PtiFdbr.Valid (c : FdbConf) (fr : PtiFdbr) : Prop :=
  0 < fr.vid ∧ fr.vid < 0xFFF ∧
    ((fr.type = .IFTYPE_PORT ∧ fr.hwdev ≤ 0x1f ∧ fr.hwport < c.maxPorts) ∨
      (fr.type = .IFTYPE_TRUNK ∧ fr.trunkId ≤ TRUNK_MAX ∧ 0 < fr.trunkId))

instance (c : FdbConf) (fr : PtiFdbr) : Decidable (fr.Valid c) :=
  inferInstanceAs (Decidable (_ ∧ _))

/-- The interface that a record names. -/
def PtiFdbr.dst (fr : PtiFdbr) : DstInterface :=
  match fr.type with
  | .IFTYPE_PORT => { type := .PORT, devNum := fr.hwdev, portNum := fr.hwport }
  | .IFTYPE_TRUNK => { type := .TRUNK, trunkId := fr.trunkId }

/-- The entry that `fdb_mac_foreign_add` makes of a record. -/
def PtiFdbr.entry (fr : PtiFdbr) : MacEntry where
  key := fr.key
  isStatic := false
  userDefined := .FEP_DYN
  dst := fr.dst

/-- `fdb_mac_foreign_add`. -/
def fdbMacForeignAdd (c : FdbConf) (m : Fdbman) (mo : Moment) (f : Fdb) (fr : PtiFdbr) :
    Option (Fdb × Status) :=
  if fr.Valid c then some (f.insert c m mo fr.entry false false) else none

/-- The record that asks to delete what a record has added. -/
def PtiFdbr.del (fr : PtiFdbr) : PtiFdbr := { fr with operation := .PTI_FDB_OP_DEL }

/-- The loop of `fdb_mac_foreign_blck`: the table, and the records `fdbr` to send back for
additions that port security refuses. -/
def fdbMacForeignBlck (c : FdbConf) (m : Fdbman) (sid : ℕ) :
    List PtiFdbr → (ℕ → Moment) → Fdb → Option (Fdb × List PtiFdbr)
  | [], _, f => some (f, [])
  | fr :: fa, mo, f =>
    match fr.operation with
    | .PTI_FDB_OP_ADD =>
      (fdbMacForeignAdd c m (mo 0) f fr).bind fun r =>
        (fdbMacForeignBlck c m sid fa (fun i => mo (i + 1)) r.1).map fun r' =>
          (r'.1, if r.2 = .ST_BAD_STATE then fr.del :: r'.2 else r'.2)
    | .PTI_FDB_OP_DEL =>
      fdbMacForeignBlck c m sid fa (fun i => mo (i + 1)) (fdbMacForeignDel c m f fr sid).1

/-- The loop of `fdbman_handle_msg_update`: the table, and the records `fdbr` that took effect. -/
def updateLoop (c : FdbConf) (m : Fdbman) (sid : ℕ) :
    List PtiFdbr → (ℕ → Moment) → Fdb → Option (Fdb × List PtiFdbr)
  | [], _, f => some (f, [])
  | fr :: fa, mo, f =>
    let r : Option (Fdb × Status) :=
      match fr.operation with
      | .PTI_FDB_OP_ADD => fdbMacForeignAdd c m (mo 0) f fr
      | .PTI_FDB_OP_DEL => some (fdbMacForeignDel c m f fr sid)
    r.bind fun r =>
      (updateLoop c m sid fa (fun i => mo (i + 1)) r.1).map fun r' =>
        (r'.1, if r.2 = .ST_OK then fr :: r'.2 else r'.2)

/-! ## The unit -/

/-- What does not change on a unit. -/
structure UnitConf where
  fdb : FdbConf
  vif : VifConf fdb.stackId
  /-- `sizeof (struct mac_vif_set_stp_state_args)`. -/
  stpArgsSize : ℕ

/-- The number of a unit, `stack_id`. -/
abbrev UnitConf.stackId (c : UnitConf) : ℕ := c.fdb.stackId

/-- The state of the FDB thread. -/
structure FdbUnit where
  man : Fdbman
  vifs : Vifs
  fdb : Fdb

/-- The outcome of a packet or a request: the state, the packets sent, and the commands given to
the control thread. -/
structure Handled where
  unit : FdbUnit
  sent : List FdbPkt
  ctl : List CtlCmd

/-- Nothing is done. -/
def Handled.drop (u : FdbUnit) : Handled := ⟨u, [], []⟩

/-- `TIPC_FDB_NREC`: records of 12 bytes behind a header of 15 in `TIPC_MSG_MAX_LEN`, less one. -/
def TIPC_FDB_NREC : ℕ := (11900 - 15) / 12 - 1

/-- The loop of `fdbman_send_msg_uni_update`, which splits records among packets. -/
def splitRecords : ℕ → List PtiFdbr → List (List PtiFdbr)
  | 0, _ => []
  | fuel + 1, pf => pf.take TIPC_FDB_NREC ::
      if TIPC_FDB_NREC < pf.length then splitRecords fuel (pf.drop TIPC_FDB_NREC) else []

section Handlers

variable (c : UnitConf) (u : FdbUnit)

/-- The header that the senders of packets fill in. -/
def FdbUnit.pkt (devsbmp : Finset ℕ) (msg : FdbmanMsg) : FdbPkt where
  stackId := c.stackId
  serial := u.man.serial
  devsbmp := devsbmp
  msg := msg

/-- `fdbman_send_msg_uni_update`, which is not called without records. -/
def fdbmanSendMsgUniUpdate (pf : List PtiFdbr) (master : Bool) : List FdbPkt :=
  if pf = [] then []
  else (splitRecords (pf.length + 1) pf).map fun data =>
    u.pkt c ∅ (if master then .FMC_MASTER_UPDATE data else .FMC_UPDATE data)

/-- `fdbman_handle_msg_master_update`. -/
def fdbmanHandleMsgMasterUpdate (mo : ℕ → Moment) (sid : ℕ) (data : List PtiFdbr) :
    Option Handled :=
  (fdbMacForeignBlck c.fdb u.man sid data mo u.fdb).map fun r =>
    ⟨{ u with fdb := r.1 }, fdbmanSendMsgUniUpdate c u r.2 false, []⟩

/-- `fdbman_handle_msg_update`. -/
def fdbmanHandleMsgUpdate (mo : ℕ → Moment) (sid : ℕ) (data : List PtiFdbr) : Option Handled :=
  (updateLoop c.fdb u.man sid data mo u.fdb).map fun r =>
    ⟨{ u with fdb := r.1 }, fdbmanSendMsgUniUpdate c u r.2 true, []⟩

/-- `fdbman_handle_msg_master_macop`. -/
def fdbmanHandleMsgMasterMacop (mo : Moment) (arg : MacOpArgVif) : Handled :=
  ⟨{ u with fdb := (fdbMacOpVif c.fdb u.man mo u.fdb arg).1 }, [], []⟩

/-- `fdbman_handle_msg_macop`: the packet for the members is sent before the request is executed. -/
def fdbmanHandleMsgMacop (mo : Moment) (arg : MacOpArgVif) : Handled :=
  { fdbmanHandleMsgMasterMacop c u mo arg with sent := [u.pkt c ∅ (.FMC_MASTER_MACOP arg)] }

/-- `fdbman_handle_msg_master_flush`. -/
def fdbmanHandleMsgMasterFlush (arg : FdbFlushArg) : Handled :=
  ⟨{ u with fdb := (u.fdb.flush c.fdb arg).1 }, [], []⟩

/-- `fdbman_handle_msg_flush`. -/
def fdbmanHandleMsgFlush (arg : FdbFlushArg) : Handled :=
  { fdbmanHandleMsgMasterFlush c u arg with sent := [u.pkt c ∅ (.FMC_MASTER_FLUSH arg)] }

/-- `fdbman_handle_msg_master_flush_vif`. -/
def fdbmanHandleMsgMasterFlushVif (arg : FdbFlushArgVif) : Handled :=
  ⟨{ u with fdb := (u.fdb.flushVif c.fdb arg).1 }, [], []⟩

/-- `fdbman_handle_msg_flush_vif`. -/
def fdbmanHandleMsgFlushVif (arg : FdbFlushArgVif) : Handled :=
  { fdbmanHandleMsgMasterFlushVif c u arg with sent := [u.pkt c ∅ (.FMC_MASTER_FLUSH_VIF arg)] }

/-- A command that concerns only the units of the packet's bitmap. -/
def onOwnBit (p : FdbPkt) (h : Handled) : Handled :=
  if c.stackId ∉ p.devsbmp then .drop u else h

/-- Commands to the control thread. -/
def sendControlCmd (cmd : CtlCmd) : Handled := ⟨u, [], [cmd]⟩

/-- `fdbman_handle_msg_vif_set_stp_state`. -/
def fdbmanHandleMsgVifSetStpState (p : FdbPkt) (data : Payload) : Option Handled :=
  if c.stackId ∉ p.devsbmp then some (.drop u)
  else if data.length ≠ c.stpArgsSize then none
  else some (sendControlCmd u (.SC_INT_VIF_SET_STP_STATE data))

/-- What of a packet is executed on a member only, and only when it comes from the master. -/
def onMember (p : FdbPkt) (h : Handled) : Handled :=
  if p.stackId ≠ u.man.master then .drop u
  else
    match u.man.state with
    | .FST_MASTER | .FST_PRE_MEMBER => .drop u
    | .FST_MEMBER => h

/-- What of a packet is executed unless the unit is a member. -/
def unlessMember (h : Handled) : Handled :=
  match u.man.state with
  | .FST_MASTER | .FST_PRE_MEMBER => h
  | .FST_MEMBER => .drop u

/-- A packet is refused unless it comes from the master. -/
def fromMaster (p : FdbPkt) (h : Handled) : Handled :=
  if p.stackId ≠ u.man.master then .drop u else h

/-- `fdbman_handle_pkt`. -/
def fdbmanHandlePkt (mo : ℕ → Moment) (p : FdbPkt) : Option Handled :=
  if p.msg ≠ .FMC_MASTER_READY ∧ p.serial < u.man.serial then some (.drop u)
  else
    match p.msg with
    | .FMC_MASTER_READY =>
      let man := u.man.masterReady c.stackId p.stackId p.serial p.devsbmp
      some (.drop { u with man := man })
    | .FMC_UPDATE data =>
      match u.man.state with
      | .FST_MASTER | .FST_PRE_MEMBER => fdbmanHandleMsgUpdate c u mo p.stackId data
      | .FST_MEMBER => some (.drop u)
    | .FMC_MASTER_UPDATE data =>
      if p.stackId ≠ u.man.master then some (.drop u)
      else
        match u.man.state with
        | .FST_MASTER => some (.drop u)
        | .FST_PRE_MEMBER =>
          if p.stackId = u.man.newmaster then fdbmanHandleMsgMasterUpdate c u mo p.stackId data
          else some (.drop u)
        | .FST_MEMBER => fdbmanHandleMsgMasterUpdate c u mo p.stackId data
    | .FMC_FLUSH arg => some (unlessMember u (fdbmanHandleMsgFlush c u arg))
    | .FMC_MASTER_FLUSH arg => some (onMember u p (fdbmanHandleMsgMasterFlush c u arg))
    | .FMC_FLUSH_VIF arg => some (unlessMember u (fdbmanHandleMsgFlushVif c u arg))
    | .FMC_MASTER_FLUSH_VIF arg => some (onMember u p (fdbmanHandleMsgMasterFlushVif c u arg))
    | .FMC_MACOP arg => some (unlessMember u (fdbmanHandleMsgMacop c u (mo 0) arg))
    | .FMC_MASTER_MACOP arg => some (onMember u p (fdbmanHandleMsgMasterMacop c u (mo 0) arg))
    -- the check of the sender is commented out in the source
    | .FMC_MASTER_RT data => some (onOwnBit c u p (sendControlCmd u (.SC_INT_RTBD_CMD data)))
    | .FMC_MASTER_NA data =>
      some (fromMaster u p (onOwnBit c u p (sendControlCmd u (.SC_INT_NA_CMD data))))
    | .FMC_MASTER_NA_IPV6 data =>
      some (fromMaster u p (onOwnBit c u p (sendControlCmd u (.SC_INT_NA_IPV6_CMD data))))
    | .FMC_OPNA data => some (sendControlCmd u (.SC_INT_OPNA_CMD data))
    | .FMC_OPNA_IPV6 data => some (sendControlCmd u (.SC_INT_OPNA_IPV6_CMD data))
    | .FMC_MASTER_UDT data => some (fromMaster u p (sendControlCmd u (.SC_INT_UDT_CMD data)))
    | .FMC_MASTER_UDT_IPV6 data =>
      some (fromMaster u p (sendControlCmd u (.SC_INT_UDT_IPV6_CMD data)))
    -- the source does not look at the sender
    | .FMC_MASTER_CLEAR_ROUTING => some (onOwnBit c u p (sendControlCmd u .SC_INT_CLEAR_RT_CMD))
    | .FMC_VIF_LS lsh =>
      let vifs := (vifProcessLsPkt c.vif u.vifs lsh).1
      some (onOwnBit c u p (.drop { u with vifs := vifs }))
    | .FMC_VIFLS_GET =>
      let lsh := vifFormLsSyncPkt c.vif u.vifs
      -- `ALL_DEVS`
      some (onOwnBit c u p ⟨u, [u.pkt c (Finset.range 16) (.FMC_VIF_LS lsh)], []⟩)
    | .FMC_VIF_SET_STP_STATE data =>
      match u.man.state with
      | .FST_MASTER | .FST_PRE_MEMBER => some (.drop u)
      | .FST_MEMBER => fdbmanHandleMsgVifSetStpState c u p data

/-- `fdbman_set_master` with `vif_ls_clear_serial`, which it calls first. -/
def FdbUnit.setMaster (info : SetMasterInfo) : FdbUnit :=
  { u with
    man := (u.man.setMaster c.stackId info).1
    vifs := vifLsClearSerial u.vifs (info.dbmp \ u.man.devsbmp) }

/-! ## Requests of the control thread -/

/-- The commands of `enum fdb_ctl_cmd` that concern the whole stack. -/
inductive FdbCtlCmd
  | FCC_MAC_OP_VIF (arg : MacOpArgVif)
  | FCC_FLUSH (arg : FdbFlushArg)
  | FCC_FLUSH_VIF (arg : FdbFlushArgVif)
deriving DecidableEq

/-- `fdb_ctl_handler`. -/
def fdbCtlHandler (mo : Moment) : FdbCtlCmd → Handled
  | .FCC_MAC_OP_VIF arg =>
    match u.man.state with
    | .FST_MASTER | .FST_PRE_MEMBER => fdbmanHandleMsgMacop c u mo arg
    | .FST_MEMBER => ⟨u, [u.pkt c ∅ (.FMC_MACOP arg)], []⟩
  | .FCC_FLUSH arg =>
    match u.man.state with
    | .FST_MASTER | .FST_PRE_MEMBER => fdbmanHandleMsgFlush c u arg
    | .FST_MEMBER => ⟨u, [u.pkt c ∅ (.FMC_FLUSH arg)], []⟩
  | .FCC_FLUSH_VIF arg =>
    match u.man.state with
    | .FST_MASTER | .FST_PRE_MEMBER => fdbmanHandleMsgFlushVif c u arg
    | .FST_MEMBER => ⟨u, [u.pkt c ∅ (.FMC_FLUSH_VIF arg)], []⟩

/-! ## Reports of the hardware -/

/-- `CPSS_MAC_UPDATE_TYPE_EXT_ENT`. -/
inductive UpdType
  | CPSS_NA_E
  | CPSS_SA_E
  | CPSS_AA_E
  /-- The types that `fdb_upd_for_dev` skips. -/
  | other
deriving DecidableEq, Repr

/-- `CPSS_MAC_UPDATE_MSG_EXT_STC`, for an entry of a MAC address. -/
structure MacUpdate where
  updType : UpdType
  vid : ℕ
  mac : Mac
  dst : DstInterface
deriving DecidableEq, Repr

/-- The key of the entry reported. -/
def MacUpdate.key (a : MacUpdate) : MacKey := .macAddr a.vid a.mac

/-- The entry reported, with the fields that `fdb_new_addr` sets. -/
def MacUpdate.entry (a : MacUpdate) : MacEntry where
  key := a.key
  isStatic := false
  userDefined := .FEP_DYN
  dst := a.dst

/-- What `fdb_new_addr` and `fdb_upd_for_dev` ask of ports and hardware. -/
structure LearnEnv where
  /-- `vif_by_hw`, and whether the port is in a trunk. -/
  vifByHw : ℕ → ℕ → Option Bool
  /-- `fdb_insertion_enabled`. -/
  insertionEnabled : ℕ → Bool
  /-- The action mode is `CPSS_FDB_ACTION_AGE_WITH_REMOVAL_E`. -/
  ageWithRemoval : Bool

/-- `mac_form_fdbr`, into a record that holds `fr`. -/
def macFormFdbr (a : MacUpdate) (operation : PtiFdbOp) (fr : PtiFdbr) : PtiFdbr :=
  let fr :=
    match a.dst.type with
    | .PORT => { fr with
        type := .IFTYPE_PORT
        hwdev := a.dst.devNum
        hwport := a.dst.portNum }
    -- the number of the trunk shares its byte with the device
    | .TRUNK => { fr with type := .IFTYPE_TRUNK, hwdev := a.dst.trunkId }
    | .VIDX | .VID => fr
  { fr with vid := a.vid, mac := a.mac, operation := operation }

/-- `fdb_new_addr`. -/
def fdbNewAddr (c : FdbConf) (m : Fdbman) (env : LearnEnv) (mo : Moment) (f : Fdb) (a : MacUpdate)
    (fake : Bool) : Option (Fdb × Status) :=
  if a.dst.type = .PORT then
    match env.vifByHw a.dst.devNum a.dst.portNum with
    | none => none
    | some true => some (f, .ST_BAD_STATE)
    | some false =>
      match portPtr c (portId c a.dst.devNum a.dst.portNum) with
      | none => some (f, .ST_BAD_STATE)
      | some p =>
        if ¬env.insertionEnabled p then some (f, .ST_BAD_STATE)
        else some (f.insert c m mo a.entry false fake)
  else some (f.insert c m mo a.entry false fake)

/-- One report in `fdb_upd_for_dev`: the table, and the operation of the record that it gives. -/
def fdbUpdOne (c : FdbConf) (m : Fdbman) (env : LearnEnv) (mo : Moment) (f : Fdb)
    (a : MacUpdate) : Option (Fdb × Option PtiFdbOp) :=
  match a.updType with
  | .CPSS_NA_E | .CPSS_SA_E =>
    (fdbNewAddr c m env mo f a (m.state = .FST_MEMBER)).map fun r =>
      (r.1, if r.2 = .ST_OK then some .PTI_FDB_OP_ADD else none)
  | .CPSS_AA_E =>
    if m.state = .FST_MEMBER then some (f, some .PTI_FDB_OP_DEL)
    else if env.ageWithRemoval then
      let r := f.remove c m a.key c.stackId
      some (r.1, if r.2 = .ST_OK then some .PTI_FDB_OP_DEL else none)
    else some (f, none)
  | .other => some (f, none)

/-- The loop of `fdb_upd_for_dev`: the table, and the records `fdbr`, which is a buffer that holds
`buf` before. -/
def updLoop (c : FdbConf) (m : Fdbman) (env : LearnEnv) :
    List MacUpdate → (ℕ → Moment) → (ℕ → PtiFdbr) → Fdb → Option (Fdb × List PtiFdbr)
  | [], _, _, f => some (f, [])
  | a :: as, mo, buf, f =>
    (fdbUpdOne c m env (mo 0) f a).bind fun r =>
      match r.2 with
      | some op =>
        (updLoop c m env as (fun i => mo (i + 1)) (fun i => buf (i + 1)) r.1).map fun r' =>
          (r'.1, macFormFdbr a op (buf 0) :: r'.2)
      | none => updLoop c m env as (fun i => mo (i + 1)) buf r.1

/-- `fdb_upd_for_dev`. -/
def fdbUpdForDev (env : LearnEnv) (mo : ℕ → Moment) (buf : ℕ → PtiFdbr) (as : List MacUpdate) :
    Option Handled :=
  (updLoop c.fdb u.man env as mo buf u.fdb).map fun r =>
    ⟨{ u with fdb := r.1 }, fdbmanSendMsgUniUpdate c u r.2 (u.man.state ≠ .FST_MEMBER), []⟩

end Handlers

end Presteramgr
