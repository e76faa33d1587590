import Presteramgr.Lib.Keyed
import Presteramgr.Port.Translation

/-!
# Monitor sessions (`monitor.c`)

A session mirrors what its sources receive or send to its destination. The hardware has one analyzer
for received and one for sent frames on each device, so that one session at a time can use each.

## Main definitions

* `Session` and `Monitor`: the sessions, `en_rx`, `en_tx` and `n_en_s`, and the hardware;
* `Monitor.monConfigureDst`, `Monitor.monDeconfigureDst`: the destination of a session;
* `Monitor.monConfigureSrcs`, `Monitor.monDeconfigureSrcs`: its sources;
* `Monitor.dstCompat` and `Monitor.otherActiveSession`;
* `Monitor.step`: a request for sessions.
-/

namespace Presteramgr

open Function (update)

/-- The type of a source, with what no case of the source names. -/
inductive MonIfType
  | MI_SRC_VLAN
  | MI_SRC_PORT_RX
  | MI_SRC_PORT_TX
  | MI_SRC_PORT_BOTH
  | other (type : ℕ)
deriving DecidableEq, Repr

/-- `struct mon_if`. For a port, `num` is the type of the interface and `dummy` its number. -/
structure MonIf where
  type : MonIfType
  num : ℕ
  dev : ℕ
  dummy : ℕ
deriving DecidableEq, Repr

/-- A device and a port on it. -/
structure MonPort where
  dev : ℕ
  port : ℕ
deriving DecidableEq, Repr

/-- What `vif_get` finds: nothing, an interface whose `local` is null (a trunk), or that of a
port. -/
inductive MonVif
  | missing
  | noLocal
  | local (p : MonPort)
deriving DecidableEq, Repr

/-- The unit: its devices, `stack_id`, `vif_get (num, 0, dummy)` and `phys_dev`. -/
structure MonConf where
  NDEVS : ℕ
  stack_id : ℕ
  vifGet : ℕ → ℕ → MonVif
  physDev : ℕ → ℕ

/-- What is mirrored: received frames (`rx`), or sent ones (`tx`). -/
inductive MonDir
  | rx
  | tx
deriving DecidableEq, Repr

namespace MonIf

/-- The VLAN of a source. -/
def vid (x : MonIf) : ℕ := x.num * 32 + x.dev

/-- What a source mirrors, as `mon_session_set_src` computes `rx` and `tx`. -/
def mirrors (x : MonIf) (r : MonDir) : Bool :=
  match x.type, r with
  | .MI_SRC_VLAN, .rx | .MI_SRC_PORT_RX, .rx | .MI_SRC_PORT_TX, .tx | .MI_SRC_PORT_BOTH, _ => true
  | .MI_SRC_VLAN, .tx | .MI_SRC_PORT_RX, .tx | .MI_SRC_PORT_TX, .rx | .other _, _ => false

/-- The check of a source in `mon_session_set_src`. -/
def Valid (x : MonIf) : Prop :=
  match x.type with
  | .MI_SRC_VLAN => vlanValid x.vid
  | .MI_SRC_PORT_RX | .MI_SRC_PORT_TX | .MI_SRC_PORT_BOTH => True
  | .other _ => False

instance (x : MonIf) : Decidable x.Valid :=
  match h : x.type with
  | .MI_SRC_VLAN => decidable_of_iff (vlanValid x.vid) (by unfold Valid; rw [h])
  | .MI_SRC_PORT_RX => isTrue (by unfold Valid; rw [h]; trivial)
  | .MI_SRC_PORT_TX => isTrue (by unfold Valid; rw [h]; trivial)
  | .MI_SRC_PORT_BOTH => isTrue (by unfold Valid; rw [h]; trivial)
  | .other _ => isFalse (by unfold Valid; rw [h]; exact id)

end MonIf

/-- `struct session`. `src` is empty when the pointer is null; `mirrors` is `rx` and `tx`. -/
structure Session where
  num : ℕ
  enabled : Bool := false
  src : List MonIf := []
  dst : Option MonIf := none
  dst_vid : ℕ := 0
  mirrors : MonDir → Bool := fun _ => false

/-- A session with other sources. Without sources `rx` and `tx` are 0. -/
def Session.withSrc (x : Session) (src : List MonIf) : Session :=
  { x with src := src, mirrors := fun r => src.any fun y => y.mirrors r }

/-- A session with another destination. -/
def Session.withDst (x : Session) (dst : Option MonIf) (dst_vid : ℕ) : Session :=
  { x with dst := dst, dst_vid := dst_vid }

/-- An analyzer of a device: whether it is used, its interface, and the VLAN of its tag. -/
structure Analyzer where
  on : Bool
  iface : MonPort
  vid : ℕ
deriving DecidableEq, Repr

/-- The hardware: VLANs and ports that are mirrored, destination ports that tag, and the
analyzers. -/
structure MonHw where
  vlan : ℕ → ℕ → Bool
  port : MonDir → MonPort → Bool
  tag : MonPort → Bool
  analyzer : MonDir → ℕ → Analyzer

/-- The table `sessions`, `en_rx` and `en_tx`, which are pointers to sessions and here their
numbers, `n_en_s`, and the hardware. -/
structure Monitor where
  sessions : List Session
  en : MonDir → Option ℕ
  n_en_s : ℤ
  hw : MonHw

/-- A pointer to a destination: that of a session, or in a request. Each is an object of its own. -/
inductive DstPtr
  | session (n : ℕ)
  | request
deriving DecidableEq, Repr

/-- The requests. -/
inductive MonOp
  | add (num : ℕ)
  | enable (num : ℕ) (enable : Bool)
  | del (num : ℕ)
  | setSrc (num : ℕ) (src : List MonIf)
  | setDst (num : ℕ) (dst : Option MonIf) (dst_vid : ℕ)

namespace MonHw

variable (hw : MonHw)

/-- `cpssDxChMirrorAnalyzerVlanTagEnable`. -/
def setTag (p : MonPort) (b : Bool) : MonHw := { hw with tag := update hw.tag p b }

/-- `cpssDxChMirrorRxPortSet` and `cpssDxChMirrorTxPortSet`. -/
def setPort (r : MonDir) (p : MonPort) (b : Bool) : MonHw :=
  { hw with port := update hw.port r (update (hw.port r) p b) }

/-- `cpssDxChBrgVlanIngressMirrorEnable` on each device. -/
def setVlan (NDEVS vid : ℕ) (b : Bool) : MonHw :=
  { hw with vlan := fun d v => if d < NDEVS ∧ v = vid then b else hw.vlan d v }

end MonHw

/-- An analyzer that is set to an interface and used, with the VLAN of the tag where there is
one. -/
def Analyzer.use (a : Analyzer) (iface : MonPort) (vid? : Option ℕ) : Analyzer where
  on := true
  iface := iface
  vid := vid?.getD a.vid

namespace Monitor

variable (c : MonConf)

/-- `s_get`. -/
def sGet (m : Monitor) (num : ℕ) : Option Session := Keyed.find Session.num m.sessions num

/-- Something is done with the analyzers that a session uses, on each device. -/
def onAnalyzers (x : Session) (f : Analyzer → Analyzer) (hw : MonHw) : MonHw :=
  { hw with analyzer := fun r d =>
      if x.mirrors r = true ∧ d < c.NDEVS then f (hw.analyzer r d) else hw.analyzer r d }

/-! ### Destinations -/

/-- `iface.interface.devPort` of a destination at a port. -/
def analyzerIface (dst : MonIf) (p : MonPort) : MonPort where
  dev := if dst.dev = c.stack_id then c.physDev p.dev else dst.dev
  port := p.port

/-- `mon_configure_dst`. The result is `none` where a null pointer is followed. -/
def monConfigureDst (x : Session) (hw : MonHw) : Option MonHw :=
  match x.dst with
  | none => some hw
  | some dst =>
    match c.vifGet dst.num dst.dummy with
    | .missing => some hw
    | .noLocal => none
    | .local p =>
      let hw := if vlanValid x.dst_vid then hw.setTag p true else hw
      let vid? := if vlanValid x.dst_vid then some x.dst_vid else none
      some (onAnalyzers c x (fun a => a.use (analyzerIface c dst p) vid?) hw)

/-- `other_active_session`. -/
def otherActiveSession (m : Monitor) (num : ℕ) : Option ℕ :=
  if some num = m.en .rx then (if some num = m.en .tx then none else m.en .tx) else m.en .rx

/-- The port whose tagging `mon_deconfigure_dst` disables. -/
def untagPort (dst : MonIf) (p : MonPort) : MonPort where
  dev := if dst.dev = c.stack_id then p.dev else dst.dev
  port := p.port

/-- `mon_deconfigure_dst`. -/
def monDeconfigureDst (m : Monitor) (num : ℕ) (x : Session) (hw : MonHw) : Option MonHw :=
  match x.dst with
  | none => some hw
  | some dst =>
    match c.vifGet dst.num dst.dummy with
    | .missing => some hw
    | .noLocal => none
    | .local p =>
      let hw := onAnalyzers c x (fun a => { a with on := false }) hw
      some (if vlanValid x.dst_vid then
        match m.otherActiveSession num with
        | none => hw.setTag (untagPort c dst p) false
        | some o =>
          if DstPtr.session o ≠ DstPtr.session num then hw.setTag (untagPort c dst p) false else hw
      else hw)

/-- `dst_compat`, with the number of the session, and a destination with the pointer to it. -/
def dstCompat (m : Monitor) (o : Option ℕ) (ptr : DstPtr) (dst : Option MonIf) (dst_vid : ℕ) :
    Option Bool := do
  let some num := o | some true
  let x ← m.sGet num
  let dst ← dst
  if c.vifGet dst.num dst.dummy = .missing then some true
  else
    let xdst ← x.dst
    if c.vifGet xdst.num xdst.dummy = .missing then some true
    else if DstPtr.session num = ptr then
      some (decide
        (vlanValid x.dst_vid ∧ vlanValid dst_vid ∨ ¬vlanValid x.dst_vid ∧ ¬vlanValid dst_vid))
    else some true

/-! ### Sources -/

/-- The port of a source, where it is configured: not where there is no interface, it is on another
unit, or `ready` is false. -/
def srcPort (ready : Bool) (x : MonIf) : Option (Option MonPort) :=
  match c.vifGet x.num x.dummy with
  | .missing => some none
  | .noLocal => if ready = true ∧ x.dev = c.stack_id then none else some none
  | .local p => some (if ready = true ∧ x.dev = c.stack_id then some p else none)

/-- A source in the loops of `mon_configure_srcs` and `mon_deconfigure_srcs`. -/
def writeSrc (b ready : Bool) (hw : MonHw) (x : MonIf) : Option MonHw :=
  match x.type with
  | .MI_SRC_VLAN => some (hw.setVlan c.NDEVS x.vid b)
  | .MI_SRC_PORT_RX => (srcPort c ready x).map fun p? => p?.elim hw fun p => hw.setPort .rx p b
  | .MI_SRC_PORT_TX => (srcPort c ready x).map fun p? => p?.elim hw fun p => hw.setPort .tx p b
  | .MI_SRC_PORT_BOTH => (srcPort c ready x).map fun p? =>
      p?.elim hw fun p => (hw.setPort .rx p b).setPort .tx p b
  | .other _ => some hw

/-- `mon_configure_srcs`. -/
def monConfigureSrcs (m : Monitor) (num : ℕ) (x : Session) : Option Monitor :=
  (x.src.foldlM (writeSrc c true true) m.hw).map fun hw =>
    { m with hw := hw, en := fun r => if x.mirrors r then some num else m.en r }

/-- `mon_deconfigure_srcs`. Ports are left as they are when the session has no destination. -/
def monDeconfigureSrcs (m : Monitor) (x : Session) : Option Monitor :=
  (x.src.foldlM (writeSrc c false x.dst.isSome) m.hw).map fun hw =>
    { m with hw := hw, en := fun r => if x.mirrors r then none else m.en r }

/-! ### Requests -/

/-- A session is changed in place. -/
def setSession (m : Monitor) (num : ℕ) (f : Session → Session) : Monitor :=
  { m with sessions := Keyed.modify Session.num m.sessions num f }

/-- Something is done with the hardware of the state. -/
def onHw (m : Monitor) (f : MonHw → Option MonHw) : Option Monitor :=
  (f m.hw).map fun hw => { m with hw := hw }

/-- `mon_session_add`. -/
def monSessionAdd (m : Monitor) (num : ℕ) : Status × Monitor :=
  match m.sGet num with
  | some _ => (.ST_ALREADY_EXISTS, m)
  | none => (.ST_OK, { m with sessions := { num := num } :: m.sessions })

/-- What is left of `__mon_session_enable` when a session is to be enabled, after the checks. -/
def turnOn (m : Monitor) (num : ℕ) (x : Session) : Option Monitor := do
  let m ← m.onHw (monConfigureDst c x)
  let m ← monConfigureSrcs c m num x
  some ({ m with n_en_s := m.n_en_s + 1 }.setSession num fun x => { x with enabled := true })

/-- What `__mon_session_enable` does when a session is to be disabled. -/
def turnOff (m : Monitor) (num : ℕ) (x : Session) : Option Monitor := do
  let m ← monDeconfigureSrcs c m x
  let m ← m.onHw (monDeconfigureDst c m num x)
  some ({ m with n_en_s := m.n_en_s - 1 }.setSession num fun x => { x with enabled := false })

/-- The analyzer of some direction that the session mirrors is not free for it. -/
def taken (m : Monitor) (free : Option ℕ → Bool) (mirrors : MonDir → Bool) : Bool :=
  mirrors .rx && !free (m.en .rx) || mirrors .tx && !free (m.en .tx)

/-- `__mon_session_enable`. -/
def sessionEnable (m : Monitor) (num : ℕ) (x : Session) (enable : Bool) :
    Option (Status × Monitor) :=
  if x.enabled = enable then some (.ST_OK, m)
  else if enable then
    if 1 < m.n_en_s ∨ m.taken Option.isNone x.mirrors then some (.ST_BUSY, m)
    else do
      let compat ← dstCompat c m (m.otherActiveSession num) (.session num) x.dst x.dst_vid
      if compat then (turnOn c m num x).map fun m => (.ST_OK, m) else some (.ST_BUSY, m)
  else (turnOff c m num x).map fun m => (.ST_OK, m)

/-- `mon_session_enable`. -/
def monSessionEnable (m : Monitor) (num : ℕ) (enable : Bool) : Option (Status × Monitor) :=
  match m.sGet num with
  | none => some (.ST_DOES_NOT_EXIST, m)
  | some x => sessionEnable c m num x enable

/-- `mon_session_del`. -/
def monSessionDel (m : Monitor) (num : ℕ) : Option (Status × Monitor) :=
  match m.sGet num with
  | none => some (.ST_DOES_NOT_EXIST, m)
  | some x => (sessionEnable c m num x false).map fun r =>
      (.ST_OK, { r.2 with sessions := Keyed.del Session.num r.2.sessions num })

/-- What `mon_session_set_src` does about the old sources. -/
def stopSrc (m : Monitor) (num : ℕ) (x : Session) : Option Monitor :=
  if x.src ≠ [] ∧ x.enabled = true then do
    let m ← m.onHw (monDeconfigureDst c m num x)
    monDeconfigureSrcs c m x
  else some m

/-- What it does about the new ones. -/
def startSrc (m : Monitor) (num : ℕ) (x : Session) : Option Monitor :=
  if x.src ≠ [] ∧ x.enabled = true then do
    let m ← monConfigureSrcs c m num x
    m.onHw (monConfigureDst c x)
  else some m

/-- The sources of a session are replaced. -/
def replaceSrc (m : Monitor) (num : ℕ) (x : Session) (src : List MonIf) : Option Monitor := do
  let m ← stopSrc c m num x
  startSrc c (m.setSession num (·.withSrc src)) num (x.withSrc src)

/-- `mon_session_set_src`. -/
def monSessionSetSrc (m : Monitor) (num : ℕ) (src : List MonIf) : Option (Status × Monitor) :=
  match m.sGet num with
  | none => some (.ST_DOES_NOT_EXIST, m)
  | some x =>
    if ¬∀ y ∈ src, y.Valid then some (.ST_BAD_VALUE, m)
    else if src ≠ [] ∧ x.enabled = true then
      if m.taken (fun en => en.all (· = num)) (fun r => src.any fun y => y.mirrors r) then
        some (.ST_BUSY, m)
      else do
        let compat ← dstCompat c m (m.otherActiveSession num) (.session num) x.dst x.dst_vid
        if compat then (replaceSrc c m num x src).map fun m => (.ST_OK, m) else some (.ST_BUSY, m)
    else (replaceSrc c m num x src).map fun m => (.ST_OK, m)

/-- The destination of an enabled session is replaced. -/
def replaceDst (m : Monitor) (num : ℕ) (x : Session) (dst : Option MonIf) (dst_vid : ℕ) :
    Option Monitor := do
  let m ← m.onHw (monDeconfigureDst c m num x)
  (m.setSession num (·.withDst dst dst_vid)).onHw (monConfigureDst c (x.withDst dst dst_vid))

/-- `mon_session_set_dst`. -/
def monSessionSetDst (m : Monitor) (num : ℕ) (dst : Option MonIf) (dst_vid : ℕ) :
    Option (Status × Monitor) :=
  match m.sGet num with
  | none => some (.ST_DOES_NOT_EXIST, m)
  | some x =>
    if ¬(dst.isSome ∧ (dst_vid = 0 ∨ vlanValid dst_vid)) then some (.ST_BAD_VALUE, m)
    else if x.enabled then do
      let compat ← dstCompat c m (m.otherActiveSession num) .request dst dst_vid
      if compat then (replaceDst c m num x dst dst_vid).map fun m =>
        (.ST_OK, m) else some (.ST_BUSY, m)
    else some (.ST_OK, m.setSession num (·.withDst dst dst_vid))

/-- A request, with its status. -/
def request (m : Monitor) : MonOp → Option (Status × Monitor)
  | .add num => some (m.monSessionAdd num)
  | .enable num enable => monSessionEnable c m num enable
  | .del num => monSessionDel c m num
  | .setSrc num src => monSessionSetSrc c m num src
  | .setDst num dst dst_vid => monSessionSetDst c m num dst dst_vid

/-- A request as a step. -/
def step (m : Monitor) (op : MonOp) : Option Monitor := (request c m op).map Prod.snd

end Monitor

end Presteramgr
