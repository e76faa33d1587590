import Presteramgr.Lib.Calls
import Presteramgr.Lib.Keyed
import Presteramgr.Types

/-!
# Policers (`policer.c`, `qos.c`)

A policer has an index of one of two arrays, a metering and a billing entry on each device, and,
where it remarks what exceeds the rate, a QoS profile. Profiles come from a stack that `qos.c`
keeps.

## Main definitions

* `Policers`: the index arrays, the stack of profiles, the table of profiles in use, and the
  hardware;
* `Policers.qosProfileManage`;
* `Policers.policerCreate` and `Policers.policerDelete`.
-/

namespace Presteramgr

open Function (update)

/-- `policer_dest_t`. -/
inductive PolicerDest
  | INGRESS
  | EGRESS
deriving DecidableEq, Repr

/-- `policer_status_t`. -/
inductive PolicerStatus
  | POLICER_OK
  | POLICER_NO_MORE_IX
  | POLICER_NOT_IN_USE
  | POLICER_CREATE_ERR
  | POLICER_NOT_IN_RANGE
  | POLICER_QOS_ERR
  | POLICER_BAD_PARAM
  | POLICER_BILLING_ERR
deriving DecidableEq, Repr

/-- The type of an action, with what no case of the source names. -/
inductive PolicerAction
  | UNDEF
  | TRANSMIT
  | DROP
  | SET_DSCP
  | SET_COS
  | other (type : ℕ)
deriving DecidableEq, Repr

/-- An action qualifies a QoS profile. -/
def PolicerAction.remarks : PolicerAction → Bool
  | .SET_DSCP | .SET_COS => true
  | .UNDEF | .TRANSMIT | .DROP | .other _ => false

/-- `struct policer_params`. -/
structure PolicerParams where
  dest : PolicerDest
  cir : UInt32
  cbs : UInt32
  ebs : UInt32
  pir : UInt32
  pbs : UInt32
  exceed_action : PolicerAction
  exceed_value : ℕ
  violate_action : PolicerAction
deriving DecidableEq, Repr

/-- What the meter does with yellow or red packets. -/
inductive NonConformCmd
  | NO_CHANGE
  | REMARK_BY_ENTRY
  | DROP
deriving DecidableEq, Repr

/-- The parameters of the token buckets: single rate, or two rate. -/
inductive TokenBucket
  | srTcm (cir cbs ebs : UInt32)
  | trTcm (cir cbs pir pbs : UInt32)
deriving DecidableEq, Repr

/-- The layer of the field that is remarked. -/
inductive RemarkMode
  | L2
  | L3
deriving DecidableEq, Repr

/-- The part of a metering entry that `set_qos` fills in. -/
structure MeteringQos where
  modifyDscp : Bool
  modifyUp : Bool
  qosProfile : ℕ
  remarkMode : RemarkMode
deriving DecidableEq, Repr

/-- A metering entry of the hardware. -/
structure MeteringEntry where
  countingEntryIndex : ℕ
  tokenBucketParams : TokenBucket
  yellowPcktCmd : NonConformCmd
  redPcktCmd : NonConformCmd
  qos : MeteringQos
deriving DecidableEq, Repr

/-- The profile by which the meter remarks. -/
def MeteringEntry.remarks (e : MeteringEntry) : Option ℕ :=
  if e.qos.modifyDscp ∨ e.qos.modifyUp then some e.qos.qosProfile else none

/-- The counters of a billing entry. -/
structure BillingEntry where
  greenCntr : ℕ
  yellowCntr : ℕ
  redCntr : ℕ
deriving DecidableEq, Repr

/-- A QoS profile of the hardware. -/
structure CosProfile where
  userPriority : ℕ
  trafficClass : ℕ
  dscp : ℕ
  exp : ℕ
deriving DecidableEq, Repr

/-- The calls of the hardware library that a creation makes, with the device. -/
inductive PolicerCall
  | cosProfileEntrySet (d id : ℕ)
  | egressL2RemarkModelSet (d : ℕ)
  | meteringEntrySet (d : ℕ)
  | billingEntrySet (d : ℕ)
  | billingEntryGet (d : ℕ)
deriving DecidableEq, Repr

/-- `struct qpentry`. -/
structure QpEntry where
  id : ℕ
  refc : ℕ
deriving DecidableEq, Repr

/-- The commands of `qos_profile_manage`. -/
inductive QosProfileCmd
  | QOS_PROFILE_ADD
  | QOS_PROFILE_DEL
  | QOS_PROFILE_SET
  | QOS_PROFILE_CHK_AVAIL
deriving DecidableEq, Repr

/-- `struct qos_profile_mgmt`, after `memset`. -/
structure QosProfileMgmt where
  cmd : QosProfileCmd
  num : ℕ := 0
  id : ℕ := 0
  tc : ℕ := 0
  dscp : ℕ := 0
  cos : ℕ := 0
  exp : ℕ := 0
deriving DecidableEq, Repr

/-- The profile that is written. -/
def QosProfileMgmt.prof (qpm : QosProfileMgmt) : CosProfile where
  userPriority := qpm.cos
  trafficClass := qpm.tc
  dscp := qpm.dscp
  exp := qpm.exp

/-- The hardware of the devices. -/
structure PolicerHw where
  metering : ℕ → PolicerDest → ℕ → Option MeteringEntry
  billing : ℕ → PolicerDest → ℕ → Option BillingEntry
  cosProfile : ℕ → ℕ → Option CosProfile
  l2RemarkUp : ℕ → Bool

namespace PolicerHw

variable (hw : PolicerHw) (d : ℕ) (dest : PolicerDest) (ix : ℕ)

/-- A table of entries by device, stage and index, with one written. -/
def write {α : Type} (table : ℕ → PolicerDest → ℕ → Option α) (e : α) :
    ℕ → PolicerDest → ℕ → Option α :=
  update table d (update (table d) dest (update (table d dest) ix (some e)))

/-- `cpssDxCh3PolicerMeteringEntrySet`. -/
def setMetering (e : MeteringEntry) : PolicerHw :=
  { hw with metering := write d dest ix hw.metering e }

/-- `cpssDxCh3PolicerBillingEntrySet`. -/
def setBilling (e : BillingEntry) : PolicerHw := { hw with billing := write d dest ix hw.billing e }

/-- `cpssDxChCosProfileEntrySet`. -/
def setCosProfile (prof : CosProfile) : PolicerHw :=
  { hw with cosProfile := update hw.cosProfile d (update (hw.cosProfile d) ix (some prof)) }

/-- `cpssDxChPolicerEgressL2RemarkModelSet`. -/
def setL2RemarkUp : PolicerHw := { hw with l2RemarkUp := update hw.l2RemarkUp d true }

end PolicerHw

/-- The state of `policer.c` and `qos.c`: which indices are `USED`, the profile of each ingress
policer, the stack of profiles from `sp` on, the table `qpdb`, and the hardware. -/
structure Policers where
  ixs : PolicerDest → ℕ → Bool
  ixs_qos : ℕ → ℕ
  res : List ℕ
  qpdb : List QpEntry
  hw : PolicerHw

namespace Policers

/-- `ixs_sz_ingress` and `ixs_sz_egress`. -/
def ixsSz : PolicerDest → ℕ
  | .INGRESS => 255
  | .EGRESS => 255

/-- `ixs_start_pos`. -/
def ixsStartPos : ℕ := 2

/-- The profiles that are not the default ones of the traffic classes. -/
def QSP_FIRST_REGULAR_IDX : ℕ := 8

/-- How many of them there are. -/
def QSP_MAX : ℕ := 128 - QSP_FIRST_REGULAR_IDX

/-- The position in the array of a policer index, an unsigned difference of 32 bits. -/
def arrIx (ix : ℕ) : ℕ := (((ix : ℤ) - ixsStartPos) % 2 ^ 32).toNat

/-- The start, over the hardware as it is then. -/
def init (hw : PolicerHw) : Policers where
  ixs _ _ := false
  ixs_qos _ := 0
  res := List.range' QSP_FIRST_REGULAR_IDX QSP_MAX
  qpdb := []
  hw := hw

/-- What the calls of the hardware library return, as whether it is `GT_OK`. -/
abbrev Cpss := PolicerCall → Bool

variable (NDEVS : ℕ) (cpss : Cpss) (s : Policers)

/-! ### Profiles (`qos.c`) -/

/-- `cpssDxChCosProfileEntrySet` on all devices. The status is logged only. -/
def writeProfile (id : ℕ) (prof : CosProfile) : Policers :=
  { s with hw := (List.range NDEVS).foldl (fun hw d =>
      if cpss (.cosProfileEntrySet d id) then hw.setCosProfile d id prof else hw) s.hw }

/-- `qos_profile_manage`, with the value it writes to `*id`. -/
def qosProfileManage (qpm : QosProfileMgmt) : Status × Option ℕ × Policers :=
  match qpm.cmd with
  | .QOS_PROFILE_ADD =>
    match s.res with
    | [] => (.ST_BUSY, none, s)
    | rep :: res =>
      (.ST_OK, some rep,
        writeProfile NDEVS cpss { s with res := res, qpdb := ⟨rep, 1⟩ :: s.qpdb } rep qpm.prof)
  | .QOS_PROFILE_DEL =>
    match Keyed.find QpEntry.id s.qpdb qpm.id with
    | none => (.ST_DOES_NOT_EXIST, none, s)
    | some qpe =>
      -- the stack is full when `sp` is 0
      if s.res.length = QSP_MAX then
        (.ST_HEX, none, { s with qpdb := Keyed.del QpEntry.id s.qpdb qpm.id })
      else
        (.ST_OK, none, { s with res := qpe.id :: s.res, qpdb := Keyed.del QpEntry.id s.qpdb qpm.id })
  | .QOS_PROFILE_SET =>
    match Keyed.find QpEntry.id s.qpdb qpm.id with
    | none => (.ST_DOES_NOT_EXIST, none, s)
    | some _ => (.ST_OK, none, writeProfile NDEVS cpss s qpm.id qpm.prof)
  | .QOS_PROFILE_CHK_AVAIL => (if qpm.num ≤ s.res.length then .ST_OK else .ST_BUSY, none, s)

/-! ### Indices -/

/-- `policer_ix_pull`, `none` for `POLICER_NO_MORE_IX`. -/
def policerIxPull (dest : PolicerDest) : Option (ℕ × Policers) :=
  ((List.range (ixsSz dest)).find? fun i => s.ixs dest i = false).map fun i =>
    (i + ixsStartPos, { s with ixs := update s.ixs dest (update (s.ixs dest) i true) })

/-- `policer_ix_push`. -/
def policerIxPush (ix : ℕ) (dest : PolicerDest) : PolicerStatus × Policers :=
  if ixsSz dest - 1 < arrIx ix then (.POLICER_NOT_IN_RANGE, s)
  else if s.ixs dest (arrIx ix) = false then (.POLICER_NOT_IN_USE, s)
  else (.POLICER_OK, { s with ixs := update s.ixs dest (update (s.ixs dest) (arrIx ix) false) })

/-! ### Entries -/

/-- `set_meter_mode` and `set_tocken_bucket`. -/
def setTockenBucket (p : PolicerParams) : TokenBucket :=
  let cbs := if p.cbs = 0 then 0xFFFFFFFF else p.cbs
  if p.pir ≠ 0 then .trTcm p.cir cbs p.pir (if p.pbs = 0 then 0xFFFFFFFF else p.pbs)
  else
    let defEbs := if p.violate_action = .UNDEF then p.cbs else 0xFFFFFFFF
    .srTcm p.cir cbs (if p.ebs = 0 then defEbs else p.ebs)

/-- `set_action`: what is done with yellow and with red packets, `none` for `POLICER_BAD_PARAM`. -/
def setAction (p : PolicerParams) : Option (NonConformCmd × NonConformCmd) := do
  let yellow ← match p.exceed_action with
    | .TRANSMIT => some .NO_CHANGE
    | .SET_DSCP | .SET_COS => if p.dest = .EGRESS then none else some .REMARK_BY_ENTRY
    | .DROP => some .DROP
    | .UNDEF | .other _ => none
  match p.violate_action with
  | .UNDEF => some (yellow, yellow)
  | .DROP => some (yellow, .DROP)
  | .TRANSMIT | .SET_DSCP | .SET_COS | .other _ => none

/-- `add_qos_profile`, with the profile. -/
def addQosProfile (p : PolicerParams) (ix : ℕ) : PolicerStatus × ℕ × Policers :=
  let qpm : QosProfileMgmt :=
    { cmd := .QOS_PROFILE_ADD, num := 1,
      dscp := if p.exceed_action = .SET_DSCP then p.exceed_value else 0,
      cos := if p.exceed_action = .SET_COS then p.exceed_value else 0 }
  match qosProfileManage NDEVS cpss s qpm with
  | (.ST_OK, id, s) =>
    (.POLICER_OK, id.getD 0, { s with ixs_qos := update s.ixs_qos (arrIx ix) (id.getD 0) })
  | (_, id, s) => (.POLICER_QOS_ERR, id.getD 0, s)

/-- `cpssDxChPolicerEgressL2RemarkModelSet` on one device. -/
def setRemarkModel (d : ℕ) (s : Policers) : PolicerStatus × Policers :=
  if cpss (.egressL2RemarkModelSet d) then (.POLICER_OK, { s with hw := s.hw.setL2RemarkUp d })
  else (.POLICER_CREATE_ERR, s)

/-- `set_qos`. -/
def setQos (p : PolicerParams) (ix : ℕ) : PolicerStatus × MeteringQos × Policers :=
  let off : MeteringQos := ⟨false, false, 0, .L2⟩
  if p.exceed_action.remarks then
    match addQosProfile NDEVS cpss s p ix with
    | (.POLICER_OK, id, s) =>
      let qos : MeteringQos :=
        if p.exceed_action = .SET_DSCP then ⟨true, false, id, .L3⟩ else ⟨false, true, id, .L2⟩
      if p.dest = .EGRESS ∧ p.exceed_action = .SET_COS then
        let r := Calls.run .POLICER_OK (setRemarkModel cpss) (List.range NDEVS) s
        (r.1, qos, r.2)
      else (.POLICER_OK, qos, s)
    | (_, _, s) => (.POLICER_CREATE_ERR, off, s)
  else (.POLICER_OK, off, s)

/-- `add_metering_entry`. -/
def addMeteringEntry (p : PolicerParams) (ix d : ℕ) : PolicerStatus × Policers :=
  match setAction p with
  | none => (.POLICER_BAD_PARAM, s)
  | some (yellow, red) =>
    match setQos NDEVS cpss s p ix with
    | (.POLICER_OK, qos, s) =>
      if cpss (.meteringEntrySet d) then
        (.POLICER_OK,
          { s with hw := s.hw.setMetering d p.dest ix ⟨ix, setTockenBucket p, yellow, red, qos⟩ })
      else (.POLICER_CREATE_ERR, s)
    | (_, _, s) => (.POLICER_CREATE_ERR, s)

/-- `add_billing_entry`. -/
def addBillingEntry (p : PolicerParams) (ix d : ℕ) : PolicerStatus × Policers :=
  if cpss (.billingEntrySet d) then
    let s := { s with hw := s.hw.setBilling d p.dest ix ⟨0, 0, 0⟩ }
    -- the counters that are read are reset
    if cpss (.billingEntryGet d) then (.POLICER_OK,
      { s with hw := s.hw.setBilling d p.dest ix ⟨0, 0, 0⟩ })
    else (.POLICER_BILLING_ERR, s)
  else (.POLICER_CREATE_ERR, s)

/-! ### Creation and deletion -/

/-- The body of the loop of `policer_create`. -/
def createOn (p : PolicerParams) (ix d : ℕ) (s : Policers) : PolicerStatus × Policers :=
  match addMeteringEntry NDEVS cpss s p ix d with
  | (.POLICER_OK, s) =>
    match addBillingEntry cpss s p ix d with
    | (.POLICER_OK, s) => (.POLICER_OK, s)
    | (_, s) => (.POLICER_CREATE_ERR, s)
  | (_, s) => (.POLICER_CREATE_ERR, s)

/-- `policer_create`, with the value it writes to `*ix`. -/
def policerCreate (p : PolicerParams) : PolicerStatus × Option ℕ × Policers :=
  match s.policerIxPull p.dest with
  | none => (.POLICER_NO_MORE_IX, none, s)
  | some (ix, s) =>
    let r := Calls.run .POLICER_OK (createOn NDEVS cpss p ix) (List.range NDEVS) s
    (r.1, some ix, r.2)

/-- `del_qos_profile`. -/
def delQosProfile (ix : ℕ) : PolicerStatus × Policers :=
  if s.ixs_qos (arrIx ix) = 0 then (.POLICER_OK, s)
  else
    match qosProfileManage NDEVS cpss s { cmd := .QOS_PROFILE_DEL, id := s.ixs_qos (arrIx ix) } with
    | (.ST_OK, _, s) => (.POLICER_OK, s)
    | (_, _, s) => (.POLICER_QOS_ERR, s)

/-- `policer_delete`. -/
def policerDelete (ix : ℕ) (dest : PolicerDest) : PolicerStatus × Policers :=
  match s.policerIxPush ix dest with
  | (.POLICER_OK, s) => if dest = .INGRESS then delQosProfile NDEVS cpss s ix else (.POLICER_OK, s)
  | (st, s) => (st, s)

end Policers

end Presteramgr
