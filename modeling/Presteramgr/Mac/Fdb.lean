import Mathlib.Data.Finset.Prod
import Mathlib.Data.Fintype.Prod
import Presteramgr.Mac.Fdbman

/-!
# The forwarding database of a unit

The table `fdb` of `mac.c`: a hash of the key gives the first of four slots, the bucket, in which
an entry may lie. Entries are inserted by priority, removed, and flushed by VLAN and destination.
The ports count the addresses that point to them (`port.c`, port security).

The table has `4 * FDB_BUCKETS` slots. What the hardware table holds is not modelled, all writes to
it follow those to `fdb`. An entry carries what the modelled functions read of
`CPSS_MAC_ENTRY_EXT_STC`.

## Main definitions

* `FdbEntry`, `Fdb`: a slot, and the table with the counters of the ports;
* `Fdb.insert`, `Fdb.remove`, `Fdb.query`, `Fdb.flush`, `Fdb.flushVif`;
* `psecAddrCheck`, `psecAddrDel`: the port security of an entry;
* `PtiFdbr`, `fdbMacForeignDel`: a record of another unit, and the removal that it asks for.
-/

namespace Presteramgr

open Function (update update_self update_of_ne)

/-! ## Entries -/

/-- `CPSS_MAC_ENTRY_EXT_KEY_STC` with its `entryType`. -/
inductive MacKey
  | macAddr (vlanId : ℕ) (mac : Mac)
  | ipv4Mcast (vlanId : ℕ) (sip dip : Ip4)
  | ipv6Mcast (vlanId : ℕ) (sip dip : Ip4)
deriving DecidableEq, Repr

/-- The VLAN of a key. -/
def MacKey.vlanId : MacKey → ℕ
  | .macAddr vlanId _ | .ipv4Mcast vlanId _ _ | .ipv6Mcast vlanId _ _ => vlanId

/-- `entryType == CPSS_MAC_ENTRY_EXT_TYPE_MAC_ADDR_E`. -/
def MacKey.isMac : MacKey → Bool
  | .macAddr .. => true
  | _ => false

/-- `me_key_eq`. -/
def meKeyEq : MacKey → MacKey → Bool
  | .macAddr v m, .macAddr v' m' => v == v' && m == m'
  | .ipv4Mcast v s d, .ipv4Mcast v' s' d' => v == v' && s == s' && d == d'
  | .ipv6Mcast v s d, .ipv6Mcast v' s' d' => v == v' && s == s' && d == d'
  | _, _ => false

/-- `me_key_eq` compares keys. -/
@[simp] theorem meKeyEq_iff (a b : MacKey) : meKeyEq a b = true ↔ a = b := by
  cases a <;> cases b <;> simp [meKeyEq, and_assoc]

/-- `enum fdb_entry_prio`. -/
inductive FdbEntryPrio
  | FEP_UNUSED
  | FEP_FOREIGN
  | FEP_DYN
  | FEP_STATIC
  | FEP_OWN
deriving DecidableEq, Repr

/-- The number of a priority. -/
def FdbEntryPrio.rank : FdbEntryPrio → ℕ
  | .FEP_UNUSED => 0
  | .FEP_FOREIGN => 1
  | .FEP_DYN => 2
  | .FEP_STATIC => 3
  | .FEP_OWN => 4

/-- The values of `CPSS_INTERFACE_TYPE_ENT` that are used. -/
inductive IfaceType
  | PORT
  | TRUNK
  | VIDX
  | VID
deriving DecidableEq, Repr

/-- `CPSS_INTERFACE_INFO_STC`. All fields exist, whatever the type. -/
structure DstInterface where
  type : IfaceType
  devNum : ℕ := 0
  portNum : ℕ := 0
  trunkId : ℕ := 0
  vidx : ℕ := 0
  vlanId : ℕ := 0
deriving DecidableEq, Repr

/-- `CPSS_MAC_ENTRY_EXT_STC`. -/
structure MacEntry where
  key : MacKey
  isStatic : Bool
  userDefined : FdbEntryPrio
  dst : DstInterface
deriving DecidableEq, Repr

/-- `struct fdb_entry`. -/
structure FdbEntry where
  valid : Bool
  secure : Bool
  pcAgingStatus : Finset ℕ
  tsAddrChange : ℕ
  addrFlaps : UInt16
  me : MacEntry
deriving DecidableEq

/-- What `memset (fdb, 0, sizeof (fdb))` leaves in a slot: the key of VLAN 0 and address 0. -/
def FdbEntry.zero : FdbEntry where
  valid := false
  secure := false
  pcAgingStatus := ∅
  tsAddrChange := 0
  addrFlaps := 0
  me := ⟨.macAddr 0 0, false, .FEP_UNUSED, { type := .PORT }⟩

/-- The number of buckets, `FDB_MAX_ADDRS / 4`. -/
abbrev FDB_BUCKETS : ℕ := 4096

/-- A bucket, and slot `4 * b + i` of `fdb` as slot `i` of bucket `b`. -/
abbrev FdbBucket := Fin FDB_BUCKETS

@[inherit_doc FdbBucket]
abbrev FdbSlot := FdbBucket × Fin 4

/-! ## Port security -/

/-- `psec_mode_t`. -/
inductive PsecMode
  | PSECM_MAX_ADDRS
  | PSECM_LOCK
deriving DecidableEq, Repr

/-- `psec_action_t`. -/
inductive PsecAction
  | PSECA_FORWARD
  | PSECA_RESTRICT
deriving DecidableEq, Repr

/-- The port security part of `struct port`. -/
structure Psec where
  enabled : Bool
  action : PsecAction
  trapInterval : ℕ
  mode : PsecMode
  maxAddrs : ℤ
  naddrs : ℤ
deriving DecidableEq, Repr

/-- `enum psec_addr_status`. -/
inductive PsecAddrStatus
  | PAS_OK
  | PAS_FULL
  | PAS_LIMIT
  | PAS_PROHIBITED
deriving DecidableEq, Repr

/-- `struct fdb_flush_arg`, without a VLAN for `ALL_VLANS` and without a port for `ALL_PORTS`. -/
structure FdbFlushArg where
  vid : Option ℕ
  port : Option ℕ
  ds : Bool
deriving DecidableEq, Repr

/-- `struct fdb_flush_arg_vif`, without an interface for `ALL_VIFS`. -/
structure FdbFlushArgVif where
  vid : Option ℕ
  vifid : Option VifId
  ds : Bool
deriving DecidableEq, Repr

/-- What does not change on a unit. -/
structure FdbConf where
  stackId : ℕ
  nports : ℕ
  /-- `CPSS_MAX_PORTS_NUM_CNS`. -/
  maxPorts : ℕ
  /-- `dev_ports[hdev][hport]`. -/
  devPorts : ℕ → ℕ → ℕ
  /-- `phys_dev (p->ldev)` and `p->lport` of a port. -/
  portHw : ℕ → ℕ × ℕ
  /-- `cpssDxChBrgFdbHashCalc`, which may fail. -/
  hash : MacKey → Option FdbBucket
  /-- What `key.key.macVlan.vlanId` reads, also of the keys of other types. -/
  macVlanId : MacKey → ℕ
  vlanValid : ℕ → Bool
  /-- `vif_getn` and `fill_cpss_if`. -/
  vif : VifId → Option DstInterface
  psecMinAddrs : ℤ
  psecMaxAddrs : ℤ

/-- The table, and the ports' counters by port number. -/
structure Fdb where
  slot : FdbSlot → FdbEntry
  psec : ℕ → Psec

section Psec

variable (c : FdbConf)

/-- `port_id`. -/
def portId (hdev hport : ℕ) : ℕ :=
  let hdev := if hdev = 0 then c.stackId else hdev
  if 31 < hdev ∨ c.maxPorts ≤ hport then 0 else c.devPorts hdev hport

/-- `port_ptr`: the number of the port pointed to. -/
def portPtr (n : ℕ) : Option ℕ :=
  if 1 ≤ n ∧ n ≤ c.nports then some n else none

/-- The port of this unit that an entry of a MAC address points to. -/
def MacEntry.port (me : MacEntry) : Option ℕ :=
  if me.key.isMac ∧ me.dst.type = .PORT then portPtr c (portId c me.dst.devNum me.dst.portNum)
  else none

/-- `__psec_addr_del` on the counter. -/
def Psec.addrDel (p : Psec) : Psec :=
  let n := p.naddrs - 1
  { p with naddrs := if n < 0 then 0 else n }

/-- `psec_naddrs += 1`. -/
def Psec.addrAdd (p : Psec) : Psec :=
  { p with naddrs := p.naddrs + 1 }

/-- `__psec_addr_del` for the port pointed to, if there is one. -/
def psecDel (psec : ℕ → Psec) : Option ℕ → ℕ → Psec
  | none => psec
  | some p => update psec p (psec p).addrDel

/-- `psec_addr_del`. -/
def psecAddrDel (psec : ℕ → Psec) (o : MacEntry) : ℕ → Psec :=
  psecDel psec (o.port c)

/-- `psec_addr_check`. `st` is what the local variable of that name holds before it is assigned. -/
def psecAddrCheck (st : PsecAddrStatus) (psec : ℕ → Psec) (o : FdbEntry) (n : MacEntry)
    (fake : Bool) : (ℕ → Psec) × PsecAddrStatus :=
  let op := if o.valid then o.me.port c else none
  let np := n.port c
  if np = op then (psec, .PAS_OK)
  else
    match np with
    | some p =>
      if (psec p).enabled ∧ (psec p).maxAddrs ≤ (psec p).naddrs then (psec, .PAS_LIMIT)
      else if fake then (psec, .PAS_OK)
      else (psecDel (update psec p (psec p).addrAdd) op, .PAS_OK)
    -- no port to add to: `st` is returned as it is
    | none => (if fake then psec else psecDel psec op, st)

/-- `psec_set_max_addrs`. -/
def psecSetMaxAddrs (psec : ℕ → Psec) (pid : ℕ) (max : ℤ) : (ℕ → Psec) × Status :=
  match portPtr c pid with
  | none => (psec, .ST_BAD_VALUE)
  | some p =>
    if ¬(c.psecMinAddrs ≤ max ∧ max ≤ c.psecMaxAddrs) then (psec, .ST_BAD_VALUE)
    else if (psec p).enabled then (psec, .ST_BAD_STATE)
    else (update psec p { psec p with maxAddrs := max }, .ST_OK)

/-- `psec_set_mode`. -/
def psecSetMode (psec : ℕ → Psec) (pid : ℕ) (mode : PsecMode) : (ℕ → Psec) × Status :=
  match portPtr c pid with
  | none => (psec, .ST_BAD_VALUE)
  | some p =>
    if (psec p).enabled then (psec, .ST_BAD_STATE)
    else (update psec p { psec p with mode := mode }, .ST_OK)

/-- `psec_enable`. -/
def psecEnable (psec : ℕ → Psec) (pid : ℕ) (enable : Bool) (act : PsecAction)
    (trapInterval : ℕ) : (ℕ → Psec) × Status :=
  match portPtr c pid with
  | none => (psec, .ST_BAD_VALUE)
  | some p =>
    let trapInterval := if trapInterval = 0 then 30 else trapInterval
    if 1000000 < trapInterval then (psec, .ST_BAD_VALUE)
    else
      (update psec p
        { psec p with enabled := enable, action := act, trapInterval := trapInterval }, .ST_OK)

end Psec

/-! ## The table -/

/-- `ANTIFLAPING_INTERVAL`, `FLAP_BLOCKING_TIMEOUT` and `MAX_FLAPS`. -/
def ANTIFLAPING_INTERVAL : ℕ := 100

@[inherit_doc ANTIFLAPING_INTERVAL]
def FLAP_BLOCKING_TIMEOUT : ℕ := 10000

@[inherit_doc ANTIFLAPING_INTERVAL]
def MAX_FLAPS : UInt16 := 5

/-- The time of an insertion, and what `psec_addr_check` finds in its local variable `st`. -/
structure Moment where
  ts : ℕ
  st : PsecAddrStatus

/-- Both interfaces are the same port. -/
def DstInterface.samePort (a b : DstInterface) : Bool :=
  a.type = .PORT && b.type = .PORT && a.devNum == b.devNum && a.portNum == b.portNum

/-- What `fdb_insert` makes of a valid slot with the key of the new entry: the slot with its flap
counter, and the status with which the new entry is refused. -/
def FdbEntry.meet (s : FdbEntry) (e : MacEntry) (ts : ℕ) : FdbEntry × Option Status :=
  let s := if s.addrFlaps ≠ 0 ∧ s.tsAddrChange + FLAP_BLOCKING_TIMEOUT < ts then
    { s with addrFlaps := 0 } else s
  if s.me.userDefined.rank ≤ e.userDefined.rank then
    let s := if e.userDefined = .FEP_DYN ∧ ts ≤ s.tsAddrChange + ANTIFLAPING_INTERVAL then
      { s with addrFlaps := s.addrFlaps + 1 } else s
    if e.userDefined.rank ≤ FdbEntryPrio.FEP_DYN.rank ∧ MAX_FLAPS ≤ s.addrFlaps then
      (s, some .ST_NOT_READY)
    else (s, none)
  -- won't overwrite FDB entry with higher priority
  else (s, some .ST_ALREADY_EXISTS)

/-- An entry that is not valid any more. Its key stays. -/
def FdbEntry.freed (s : FdbEntry) : FdbEntry :=
  { s with valid := false, secure := false, addrFlaps := 0, tsAddrChange := 0 }

/-- How the loop of `fdb_insert` over the bucket ends. -/
inductive ScanEnd
  | ret (st : Status)
  | best (bestIdx : Option (Fin 4)) (meExists : Bool)

/-- The loop of `fdb_insert` over the slots of bucket `b`, with `best_idx` and `best_pri`. -/
def insertScan (slot : FdbSlot → FdbEntry) (e : MacEntry) (ts : ℕ) (b : FdbBucket) :
    List (Fin 4) → Option (Fin 4) → FdbEntryPrio → (FdbSlot → FdbEntry) × ScanEnd
  | [], bestIdx, _ => (slot, .best bestIdx false)
  | i :: is, bestIdx, bestPri =>
    let s := slot (b, i)
    if meKeyEq e.key s.me.key then
      if s.valid then
        match s.meet e ts with
        | (s', some st) => (update slot (b, i) s', .ret st)
        | (s', none) => (update slot (b, i) s', .best (some i) (e.dst.samePort s.me.dst))
      else (slot, .best (some i) false)
    else if bestPri = .FEP_UNUSED then insertScan slot e ts b is bestIdx bestPri
    else if ¬s.valid then insertScan slot e ts b is (some i) .FEP_UNUSED
    else if s.me.userDefined.rank < bestPri.rank then
      insertScan slot e ts b is (some i) s.me.userDefined
    else insertScan slot e ts b is bestIdx bestPri

/-- The offsets of the slots of a bucket, in the order of the loops. -/
def bucketSlots : List (Fin 4) := [0, 1, 2, 3]

namespace Fdb

variable (c : FdbConf) (m : Fdbman) (f : Fdb)

/-- The entry is written to the slot. -/
def write (mo : Moment) (e : MacEntry) (secure : Bool) (s : FdbEntry) : FdbEntry where
  valid := true
  secure := secure
  pcAgingStatus := m.devsbmp
  tsAddrChange := mo.ts
  addrFlaps := if s.valid then s.addrFlaps else 0
  me := e

/-- The end of `fdb_insert`, once slot `s` is chosen for the entry. -/
def enter (mo : Moment) (e : MacEntry) (secure fake meExists : Bool) (s : FdbSlot) :
    Fdb × Status :=
  let (psec, st) := psecAddrCheck c mo.st f.psec (f.slot s) e (fake || meExists)
  if st ≠ .PAS_OK then ({ f with psec := psec }, .ST_BAD_STATE)
  else if fake then ({ f with psec := psec }, .ST_OK)
  else ({ slot := update f.slot s (write m mo e secure (f.slot s)), psec := psec }, .ST_OK)

/-- `fdb_insert` into the bucket that the hash of the key gives. -/
def insertAt (mo : Moment) (e : MacEntry) (secure fake : Bool) (b : FdbBucket) : Fdb × Status :=
  let (slot, r) := insertScan f.slot e mo.ts b bucketSlots none e.userDefined
  let f : Fdb := { f with slot := slot }
  match r with
  | .ret st => (f, st)
  | .best none _ => (f, .ST_DOES_NOT_EXIST)
  | .best (some i) meExists => f.enter c m mo e secure fake meExists (b, i)

/-- The slot that `fdb_insert` chooses for an entry, before port security is checked. -/
def chosen (mo : Moment) (e : MacEntry) : Option FdbSlot :=
  (c.hash e.key).bind fun b =>
    match (insertScan f.slot e mo.ts b bucketSlots none e.userDefined).2 with
    | .best (some i) _ => some (b, i)
    | _ => none

/-- `fdb_insert`. The flag `own` concerns the hardware only. -/
def insert (mo : Moment) (e : MacEntry) (secure fake : Bool) : Fdb × Status :=
  match c.hash e.key with
  | none => (f, .ST_HEX)
  | some b => f.insertAt c m mo e secure fake b

/-- The first slot of the bucket with a valid entry of the key. -/
def find (b : FdbBucket) (k : MacKey) : Option (Fin 4) :=
  bucketSlots.find? fun i => (f.slot (b, i)).valid && meKeyEq k (f.slot (b, i)).me.key

/-- `fdb_flush_entry`, and the end of `fdb_remove`: the slot is freed. -/
def free (s : FdbSlot) : Fdb where
  slot := update f.slot s (f.slot s).freed
  psec := psecAddrDel c f.psec (f.slot s).me

/-- The set of the units that still have to report the entry aged. -/
def setAging (s : FdbSlot) (bmp : Finset ℕ) : Fdb :=
  { f with slot := update f.slot s { f.slot s with pcAgingStatus := bmp } }

/-- `fdb_remove`. -/
def remove (k : MacKey) (sid : ℕ) : Fdb × Status :=
  match c.hash k with
  | none => (f, .ST_HEX)
  | some b =>
    match f.find b k with
    | none => (f, .ST_DOES_NOT_EXIST)
    | some i =>
      let s := f.slot (b, i)
      if m.master = c.stackId ∧ s.me.dst.type = .TRUNK ∧ sid ≠ 16 then
        let left := s.pcAgingStatus.erase sid
        if left ≠ ∅ then (f.setAging (b, i) left, .ST_NOT_READY)
        else ((f.setAging (b, i) left).free c (b, i), .ST_OK)
      else (f.free c (b, i), .ST_OK)

/-- `fdb_query`. -/
def query (k : MacKey) : Except Status FdbEntry :=
  match c.hash k with
  | none => .error .ST_HEX
  | some b =>
    match f.find b k with
    | none => .error .ST_DOES_NOT_EXIST
    | some i => .ok (f.slot (b, i))

/-- All slots, in the order of `fdb`. -/
def slots : List FdbSlot :=
  List.finRange FDB_BUCKETS ×ˢ List.finRange 4

/-- The loops of `fdb_flush` and `fdb_flush_vif`: the slots that match are freed. -/
def flushSlots (hit : FdbEntry → Bool) : List FdbSlot → Fdb → Fdb
  | [], f => f
  | s :: ss, f => flushSlots hit ss (if hit (f.slot s) then f.free c s else f)

/-- `psec_after_flush`. -/
def psecAfterFlush : Fdb :=
  { f with psec := fun p =>
      if 1 ≤ p ∧ p ≤ c.nports ∧ (f.psec p).naddrs < 0 then { f.psec p with naddrs := 0 }
      else f.psec p }

/-- What a flush by VLAN and interface hits, static entries only with `ds`. -/
def flushHit (vid : Option ℕ) (dst : DstInterface → Bool) (ds : Bool) (s : FdbEntry) : Bool :=
  s.valid && vid.all (c.macVlanId s.me.key == ·) && dst s.me.dst && (ds || !s.me.isStatic)

/-- A flush with the VLAN and the interfaces given. -/
def flushBy (vid : Option ℕ) (dst : DstInterface → Bool) (ds : Bool) : Fdb :=
  (flushSlots c (flushHit c vid dst ds) slots f).psecAfterFlush c

/-- `fdb_flush`. The device and port numbers are compared, not the type of the interface. -/
def flush (arg : FdbFlushArg) : Fdb × Status :=
  if ¬arg.vid.all c.vlanValid then (f, .ST_BAD_VALUE)
  else
    match arg.port with
    | none => (f.flushBy c arg.vid (fun _ => true) arg.ds, .ST_OK)
    | some pid =>
      match portPtr c pid with
      | none => (f, .ST_BAD_VALUE)
      | some p =>
        let (actDev, port) := c.portHw p
        (f.flushBy c arg.vid (fun d => d.devNum == actDev && d.portNum == port) arg.ds, .ST_OK)

/-- `fdb_flush_vif`. -/
def flushVif (arg : FdbFlushArgVif) : Fdb × Status :=
  if ¬arg.vid.all c.vlanValid then (f, .ST_BAD_VALUE)
  else
    match arg.vifid with
    | none => (f.flushBy c arg.vid (fun _ => true) arg.ds, .ST_OK)
    | some id =>
      match c.vif id with
      | none => (f, .ST_BAD_VALUE)
      | some iface =>
        let dst : DstInterface → Bool := fun d =>
          if iface.type = .PORT then
            d.type = .PORT && d.devNum == iface.devNum && d.portNum == iface.portNum
          else d.type = .TRUNK && d.trunkId == iface.trunkId
        (f.flushBy c arg.vid dst arg.ds, .ST_OK)

end Fdb

/-! ## Records between units -/

/-- `enum pti_fdb_op`. -/
inductive PtiFdbOp
  | PTI_FDB_OP_ADD
  | PTI_FDB_OP_DEL
deriving DecidableEq, Repr

/-- The values of `enum pti_iface_type` that records carry. -/
inductive PtiIfaceType
  | IFTYPE_PORT
  | IFTYPE_TRUNK
deriving DecidableEq, Repr

/-- `struct pti_fdbr`. The number of a trunk lies in the same byte as the device of a port. -/
structure PtiFdbr where
  operation : PtiFdbOp
  type : PtiIfaceType
  hwdev : ℕ
  hwport : ℕ
  vid : ℕ
  mac : Mac
deriving DecidableEq, Repr

/-- `trunk.trunkId` of a record. -/
def PtiFdbr.trunkId (fr : PtiFdbr) : ℕ := fr.hwdev

/-- The key that a record names. -/
def PtiFdbr.key (fr : PtiFdbr) : MacKey := .macAddr fr.vid fr.mac

/-- `fdb_mac_foreign_del`. -/
def fdbMacForeignDel (c : FdbConf) (m : Fdbman) (f : Fdb) (fr : PtiFdbr) (sid : ℕ) :
    Fdb × Status :=
  if fr.vid = 0 ∨ 0xFFF ≤ fr.vid ∨ 0x1f < fr.hwdev then (f, .ST_BAD_VALUE)
  else f.remove c m fr.key sid

end Presteramgr
