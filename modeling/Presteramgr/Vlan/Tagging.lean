import Presteramgr.Lib.Guarded
import Presteramgr.Lib.Sweep
import Presteramgr.Port.Translation

/-!
# Ports in VLANs (`vlan.c`, `port.c`)

An entry of the VLAN table of the hardware says of each port whether it is a member and how frames
leave on it. `setup_tagging` writes the whole entry of a VLAN when the VLAN is added. Later the
entries that a change of a port or of a flag is about are rewritten by the functions for that
change, each of which decides anew.

## Main definitions

* `TagPort`, `VlanTable`: the configuration of the ports, the flags and the table;
* `VlanTable.setupTagging`, and the functions that rewrite entries;
* `VlanTable.portVlanTranslate`, `VlanTable.portClearTranslation`, `VlanTable.vlanSetXlateTunnel`:
  translation, as far as references and entries go;
* `VlanTable.InStep`: every entry of a VLAN is what `setup_tagging` writes;
* `VlanTable.Steady`: the changes that rewrite no entry in another way.

## Main results

* `TagPort.trunkMember_eq_iff`: when the two ways to decide on a port in trunk mode agree;
* `VlanTable.Rewrites.inStep_iff`: after a change of one port the table is in step if and only if
  that port is;
* `VlanTable.InStep.setNativeVid_iff` and the like: when a setting of a port keeps the table in
  step.
-/

namespace Presteramgr

open Function (update update_self update_of_ne)

/-! ## Configuration -/

/-- The values of `CPSS_DXCH_BRG_VLAN_PORT_TAG_CMD_ENT` that are used. The first of them is 0. -/
inductive VlanTagCmd
  | UNTAGGED
  | TAG0
  | OUTER_TAG0_INNER_TAG1
  | POP_OUTER_TAG
deriving DecidableEq, Repr

/-- A port in an entry of the VLAN table. -/
@[ext]
structure VlanMember where
  isMember : Bool
  isTagged : Bool
  tagCmd : VlanTagCmd
deriving DecidableEq, Repr

/-- What `memset` leaves. -/
def VlanMember.clear : VlanMember := ⟨false, false, .UNTAGGED⟩

/-- `enum vlan_state`. -/
inductive VlanState
  | VS_DELETED
  | VS_SHUTDOWN
  | VS_ACTIVE
deriving DecidableEq, Repr

/-- `struct vlan`, as far as its entry goes. -/
structure TagVlan where
  state : VlanState
  vt_refc : ℤ

/-- `struct port_vlan_conf`. -/
structure TagConf extends PortVlanConf where
  tallow : Bool

/-- `struct port`, as far as entries go. The settings of a VLAN, `vlan_conf[vid - 1]`, are found by
its number. -/
structure TagPort where
  mode : PortMode
  access_vid : ℕ
  voice_vid : ℕ
  native_vid : ℕ
  customer_vid : ℕ
  vlan_conf : ℕ → TagConf
  def_xlate : Bool
  def_map_to : ℕ
  /-- `port_set_access_vid` and `port_set_voice_vid` see to it. -/
  access_ne_voice : access_vid ≠ voice_vid

/-- The ports of a variant of the hardware. -/
structure VlanLayout (nports : ℕ) where
  /-- `ldev` and `lport`. -/
  hw : Fin nports → ℕ × ℕ
  /-- `is_stack_port`. -/
  stack : Fin nports → Bool
  /-- `dev_info[d].ic_ports`. -/
  ic_ports : List (ℕ × ℕ)
  /-- What `cpssDxChBrgVlanPortDelete` makes of a port in an entry. -/
  portDelete : VlanMember → VlanMember
  /-- The number that stands for all ports. -/
  ALL_PORTS : ℕ
  hw_injective : Function.Injective hw
  hw_ic : ∀ i, hw i ∉ ic_ports
  hw_stack : ∀ i, stack i = true → (hw i).1 = 0

/-- The ports, `vlans` by the number of the VLAN, the flags, and the table of the hardware. -/
structure VlanTable (nports : ℕ) where
  ports : Fin nports → TagPort
  vlans : ℕ → TagVlan
  vlan_dot1q_tag_native : ℤ
  vlan_xlate_tunnel : Bool
  /-- The entry of a VLAN, by the device and the number of a port there. -/
  entry : ℕ → ℕ × ℕ → VlanMember

/-- The VLANs from 1 to `NVLANS`. -/
def allVids : List ℕ := List.range' 1 4094

/-! ## Decisions -/

namespace TagPort

/-- `vlan_conf[vid - 1]` changes, as far as VLANs are translated. -/
def conf (p : TagPort) (vid : ℕ) (f : PortVlanConf → PortVlanConf) : TagPort :=
  { p with
    vlan_conf := update p.vlan_conf vid
      { p.vlan_conf vid with toPortVlanConf := f (p.vlan_conf vid).toPortVlanConf } }

variable (p : TagPort) (dot1q : ℤ) (tunnel : Bool) (v : TagVlan) (vid : ℕ)

/-- What `setup_tagging` writes for a port that is no stack port, if it writes anything. -/
def tagging : Option VlanMember :=
  match p.mode with
  | .PM_ACCESS =>
    if p.access_vid = vid then some ⟨true, false, .UNTAGGED⟩
    else if p.voice_vid = vid then some ⟨true, false, .OUTER_TAG0_INNER_TAG1⟩
    else none
  | .PM_TRUNK =>
    if p.native_vid = vid ∨ (p.vlan_conf vid).tallow ∨ (p.vlan_conf vid).refc ≠ 0 then
      if (p.vlan_conf vid).refc ≠ 0 then
        some ⟨true, true, if tunnel then .POP_OUTER_TAG else .TAG0⟩
      else if p.native_vid = vid then
        some ⟨true, true, if dot1q ≠ 0 then .OUTER_TAG0_INNER_TAG1 else .UNTAGGED⟩
      else if v.vt_refc ≠ 0 ∧ tunnel then some ⟨true, true, .TAG0⟩
      else some ⟨true, false, .OUTER_TAG0_INNER_TAG1⟩
    else none
  | .PM_CUSTOMER => if p.customer_vid = vid then some ⟨true, false, .POP_OUTER_TAG⟩ else none
  | .other _ => none

/-- What `port_update_trunk_vlan` writes for a VLAN that is not deleted. -/
def trunkMember : VlanMember :=
  if (p.vlan_conf vid).refc ≠ 0 then ⟨true, true, if tunnel then .POP_OUTER_TAG else .TAG0⟩
  else if vid = p.native_vid ∧ dot1q = 0 then ⟨true, false, .UNTAGGED⟩
  else if ¬(p.vlan_conf vid).tallow then ⟨false, true, .TAG0⟩
  else if v.vt_refc ≠ 0 ∧ tunnel then ⟨true, true, .TAG0⟩
  else ⟨true, true, .TAG0⟩

end TagPort

namespace VlanTable

variable {nports : ℕ} (c : VlanLayout nports) (x : VlanTable nports)

/-- The round of the loop over the ports in `setup_tagging`. -/
def setupPort (vid : ℕ) (t : ℕ × ℕ → VlanMember) (i : Fin nports) : ℕ × ℕ → VlanMember :=
  if c.stack i then
    -- the bitmap is that of the first device
    update t (0, (c.hw i).2)
      { t (0, (c.hw i).2) with isMember := true, tagCmd := .OUTER_TAG0_INNER_TAG1 }
  else
    ((x.ports i).tagging x.vlan_dot1q_tag_native x.vlan_xlate_tunnel (x.vlans vid) vid).elim t
      (update t (c.hw i))

/-- `setup_tagging`. -/
def setupTagging (vid : ℕ) : ℕ × ℕ → VlanMember :=
  let t := c.ic_ports.foldl (fun t q => update t q ⟨true, true, .OUTER_TAG0_INNER_TAG1⟩)
      fun _ => .clear
  (List.finRange nports).foldl (x.setupPort c vid) t

/-- `port_ptr`. -/
def portPtr (nports pid : ℕ) : Option (Fin nports) :=
  if h : 1 ≤ pid ∧ pid ≤ nports then some ⟨pid - 1, by omega⟩ else none

/-- The configuration of a port changes. -/
def setPort (i : Fin nports) (p : TagPort) : VlanTable nports :=
  { x with ports := update x.ports i p }

/-- `cpssDxChBrgVlanMemberSet`. -/
def memberSet (i : Fin nports) (vid : ℕ) (m : VlanMember) : VlanTable nports :=
  { x with entry := update x.entry vid (update (x.entry vid) (c.hw i) m) }

/-- `cpssDxChBrgVlanPortDelete`. -/
def portDelete (i : Fin nports) (vid : ℕ) : VlanTable nports :=
  x.memberSet c i vid (c.portDelete (x.entry vid (c.hw i)))

/-- `port_update_trunk_vlan`. -/
def portUpdateTrunkVlan (i : Fin nports) (vid : ℕ) : VlanTable nports :=
  if (x.vlans vid).state = .VS_DELETED then x
  else x.memberSet c i vid
    ((x.ports i).trunkMember x.vlan_dot1q_tag_native x.vlan_xlate_tunnel (x.vlans vid) vid)

/-- `port_vlan_bulk_op`, on the table. -/
def portVlanBulkOp (i : Fin nports) (vid : ℕ) (m rest : VlanMember) : VlanTable nports :=
  let x := allVids.foldl (fun x v =>
    if (x.vlans v).state = .VS_DELETED ∨ vid = v then x else x.memberSet c i v rest) x
  x.memberSet c i vid m

/-- `port_set_trunk_mode`, on the table. -/
def portSetTrunkMode (i : Fin nports) : VlanTable nports :=
  allVids.foldl (fun x vid => x.portUpdateTrunkVlan c i vid) x

/-- `port_set_access_mode`, on the table. -/
def portSetAccessMode (i : Fin nports) : VlanTable nports :=
  let p := x.ports i
  let x := x.portVlanBulkOp c i p.access_vid ⟨true, false, .UNTAGGED⟩ ⟨false, false, .UNTAGGED⟩
  if p.voice_vid ≠ 0 then x.memberSet c i p.voice_vid ⟨true, false, .OUTER_TAG0_INNER_TAG1⟩ else x

/-- `port_set_customer_mode`, on the table. -/
def portSetCustomerMode (i : Fin nports) : VlanTable nports :=
  x.portVlanBulkOp c i (x.ports i).customer_vid ⟨true, true, .POP_OUTER_TAG⟩
    ⟨false, false, .UNTAGGED⟩

/-- `vlan_add`. -/
def vlanAdd (vid : ℕ) : VlanTable nports × Status :=
  if ¬vlanValid vid then (x, .ST_BAD_VALUE)
  else
    ({ x with
        entry := update x.entry vid (x.setupTagging c vid)
        vlans := update x.vlans vid { x.vlans vid with state := .VS_ACTIVE } }, .ST_OK)

/-- `vlan_delete`, which only invalidates the entry. -/
def vlanDelete (vid : ℕ) : VlanTable nports × Status :=
  if ¬vlanValid vid then (x, .ST_BAD_VALUE)
  else ({ x with vlans := update x.vlans vid { x.vlans vid with state := .VS_DELETED } }, .ST_OK)

/-- The round of the loop of `vlan_set_dot1q_tag_native`. -/
def tagNative (m : VlanMember) (x : VlanTable nports) (i : Fin nports) : VlanTable nports :=
  let p := x.ports i
  if p.mode = .PM_TRUNK ∧ (p.vlan_conf p.native_vid).refc = 0 then x.memberSet c i p.native_vid m else x

/-- `vlan_set_dot1q_tag_native`. -/
def vlanSetDot1qTagNative (value : ℤ) : VlanTable nports × Status :=
  let m : VlanMember := if value ≠ 0 then ⟨true, true, .TAG0⟩ else ⟨true, false, .UNTAGGED⟩
  let x :=
    if value ≠ x.vlan_dot1q_tag_native then (List.finRange nports).foldl (tagNative c m) x else x
  ({ x with vlan_dot1q_tag_native := value }, .ST_OK)

/-- `port_set_access_vid`. -/
def portSetAccessVid (pid vid : ℕ) : VlanTable nports × Status :=
  match portPtr nports pid with
  | none => (x, .ST_BAD_VALUE)
  | some i =>
    let p := x.ports i
    if ¬vlanValid vid then (x, .ST_BAD_VALUE)
    else if h : p.voice_vid = vid then (x, .ST_BAD_VALUE)
    else if c.stack i then (x, .ST_BAD_STATE)
    else
      let x :=
        if p.mode = .PM_ACCESS then
          (x.portDelete c i p.access_vid).memberSet c i vid ⟨true, false, .UNTAGGED⟩
        else x
      (x.setPort i { p with access_vid := vid, access_ne_voice := Ne.symm h }, .ST_OK)

/-- `port_set_voice_vid`. -/
def portSetVoiceVid (pid vid : ℕ) : VlanTable nports × Status :=
  match portPtr nports pid with
  | none => (x, .ST_BAD_VALUE)
  | some i =>
    let p := x.ports i
    if ¬(vid = 0 ∨ vlanValid vid) then (x, .ST_BAD_VALUE)
    else if h : p.access_vid = vid then (x, .ST_BAD_VALUE)
    else if c.stack i then (x, .ST_BAD_STATE)
    else
      let x :=
        if p.mode = .PM_ACCESS then
          let x := if p.voice_vid ≠ 0 then x.portDelete c i p.voice_vid else x
          if vid ≠ 0 then x.memberSet c i vid ⟨true, false, .TAG0⟩ else x
        else x
      (x.setPort i { p with voice_vid := vid, access_ne_voice := h }, .ST_OK)

/-- `port_set_native_vid`. -/
def portSetNativeVid (pid vid : ℕ) : VlanTable nports × Status :=
  match portPtr nports pid with
  | none => (x, .ST_BAD_VALUE)
  | some i =>
    let p := x.ports i
    if ¬vlanValid vid then (x, .ST_BAD_VALUE)
    else if c.stack i then (x, .ST_BAD_STATE)
    else
      let x := x.setPort i { p with native_vid := vid }
      if p.mode = .PM_TRUNK then
        ((x.portUpdateTrunkVlan c i p.native_vid).portUpdateTrunkVlan c i vid, .ST_OK)
      else (x, .ST_OK)

/-- `port_set_customer_vid`. -/
def portSetCustomerVid (pid vid : ℕ) : VlanTable nports × Status :=
  match portPtr nports pid with
  | none => (x, .ST_BAD_VALUE)
  | some i =>
    let p := x.ports i
    if ¬vlanValid vid then (x, .ST_BAD_VALUE)
    else if c.stack i then (x, .ST_BAD_STATE)
    else
      let x :=
        if p.mode = .PM_CUSTOMER then
          (x.portDelete c i p.customer_vid).memberSet c i vid ⟨true, true, .POP_OUTER_TAG⟩
        else x
      (x.setPort i { p with customer_vid := vid }, .ST_OK)

/-- The round of the loop of `port_set_trunk_vlans`. -/
def allowVlan (i : Fin nports) (bmp : ℕ → Bool) (x : VlanTable nports) (vid : ℕ) :
    VlanTable nports :=
  let p := x.ports i
  let conf := p.vlan_conf vid
  if conf.tallow ≠ bmp vid then
    let x := x.setPort i
      { p with vlan_conf := update p.vlan_conf vid { conf with tallow := bmp vid } }
    if p.mode = .PM_TRUNK then x.portUpdateTrunkVlan c i vid else x
  else x

/-- `port_set_trunk_vlans`, with the bit of each VLAN. -/
def portSetTrunkVlans (pid : ℕ) (bmp : ℕ → Bool) : VlanTable nports × Status :=
  match portPtr nports pid with
  | none => (x, .ST_BAD_VALUE)
  | some i => (allVids.foldl (allowVlan c i bmp) x, .ST_OK)

/-- `port_set_mode`. -/
def portSetMode (pid : ℕ) (mode : PortMode) : VlanTable nports × Status :=
  match portPtr nports pid with
  | none => (x, .ST_BAD_VALUE)
  | some i =>
    let p := x.ports i
    if c.stack i then (x, .ST_BAD_STATE)
    else if p.mode = mode then (x, .ST_OK)
    else
      match mode with
      | .PM_ACCESS => ((x.portSetAccessMode c i).setPort i { p with mode := mode }, .ST_OK)
      | .PM_TRUNK => ((x.portSetTrunkMode c i).setPort i { p with mode := mode }, .ST_OK)
      | .PM_CUSTOMER => ((x.portSetCustomerMode c i).setPort i { p with mode := mode }, .ST_OK)
      | .other _ => (x, .ST_BAD_VALUE)

/-! ## Translation -/

/-- `port_update_trunk_vlan_all_ports`. -/
def portUpdateTrunkVlanAllPorts (vid : ℕ) : VlanTable nports :=
  (List.finRange nports).foldl
    (fun x i => if (x.ports i).mode = .PM_TRUNK then x.portUpdateTrunkVlan c i vid else x) x

/-- One rule more of the port maps to the VLAN. -/
def incr (i : Fin nports) (toVid : ℕ) : VlanTable nports :=
  { x.setPort i ((x.ports i).conf toVid .incr) with
    vlans := update x.vlans toVid
      { x.vlans toVid with vt_refc := (x.vlans toVid).vt_refc + 1 } }

/-- One rule less of the port maps to the VLAN. -/
def decr (i : Fin nports) (toVid : ℕ) : VlanTable nports :=
  { x.setPort i ((x.ports i).conf toVid .decr) with
    vlans := update x.vlans toVid
      { x.vlans toVid with vt_refc := (x.vlans toVid).vt_refc - 1 } }

/-- The specific rule of the port for a VLAN is written. -/
def setRule (i : Fin nports) (fromVid : ℕ) (xlate : Bool) (map_to : ℕ) : VlanTable nports :=
  x.setPort i ((x.ports i).conf fromVid fun k => { k with xlate := xlate, map_to := map_to })

/-- The default rule of the port is written. -/
def setDef (i : Fin nports) (xlate : Bool) (map_to : ℕ) : VlanTable nports :=
  x.setPort i { x.ports i with def_xlate := xlate, def_map_to := map_to }

/-- A rule for the VLAN `fromVid` is added, in `port_vlan_translate`. The second component is
`vids_to_upd`, and `none` stands for an access outside `vlan_conf` and `vlans`. -/
def addSpecific (i : Fin nports) (fromVid toVid : ℕ) : Option (VlanTable nports × List ℕ) :=
  let map_to := ((x.ports i).vlan_conf fromVid).map_to
  if map_to = toVid then some (x, [])
  else
    let r := if vlanValid map_to then (x.decr i map_to, [map_to]) else (x, [])
    let y := r.1.setRule i fromVid true toVid
    if toVid = 0 then none else some (y.incr i toVid, r.2 ++ [toVid])

/-- The default rule is set. -/
def addDefault (i : Fin nports) (toVid : ℕ) : VlanTable nports × List ℕ :=
  let p := x.ports i
  if p.def_xlate ∧ p.def_map_to = toVid then (x, [])
  else
    let r :=
      if p.def_xlate ∧ vlanValid p.def_map_to then (x.decr i p.def_map_to, [p.def_map_to])
      else (x, [])
    let y := r.1.setDef i true toVid
    if vlanValid toVid then (y.incr i toVid, r.2 ++ [toVid]) else (y, r.2)

/-- A rule is deleted: that for `fromVid`, or the default rule. -/
def delRule (i : Fin nports) (fromVid : ℕ) : Option (VlanTable nports × List ℕ) :=
  let p := x.ports i
  if fromVid ≠ 0 ∧ (p.vlan_conf fromVid).xlate then
    let toVid := (p.vlan_conf fromVid).map_to
    let y := x.setRule i fromVid false 0
    if toVid = 0 then none else some (y.decr i toVid, [toVid])
  else if p.def_xlate then
    let r := if p.def_map_to ≠ 0 then (x.decr i p.def_map_to, [p.def_map_to]) else (x, [])
    some (r.1.setDef i false 0, r.2)
  else some (x, [])

/-- What `port_vlan_translate` does before it applies the changes. -/
def changeRule (i : Fin nports) (fromVid toVid : ℕ) (add : Bool) :
    Option (VlanTable nports × List ℕ) :=
  if add then
    if fromVid ≠ 0 then x.addSpecific i fromVid toVid else some (x.addDefault i toVid)
  else x.delRule i fromVid

/-- `port_vlan_translate` refuses the numbers of the VLANs. -/
def BadRule (fromVid toVid : ℕ) : Prop :=
  fromVid ≠ 0 ∧ ¬vlanValid fromVid ∨ toVid ≠ 0 ∧ ¬vlanValid toVid ∨
    -- default rules that do not drop are for tunnels only
    fromVid = 0 ∧ toVid ≠ 0 ∧ ¬x.vlan_xlate_tunnel

instance (fromVid toVid : ℕ) : Decidable (x.BadRule fromVid toVid) :=
  inferInstanceAs (Decidable (_ ∨ _))

/-- `port_vlan_translate`, on the table. -/
def portVlanTranslate (pid fromVid toVid : ℕ) (add : Bool) : Option (VlanTable nports × Status) :=
  match portPtr nports pid with
  | none => some (x, .ST_BAD_VALUE)
  | some i =>
    if x.BadRule fromVid toVid then some (x, .ST_BAD_VALUE)
    else (x.changeRule i fromVid toVid add).map fun r =>
      (if (x.ports i).mode = .PM_TRUNK then
        r.2.foldl (fun y vid => y.portUpdateTrunkVlanAllPorts c vid) r.1
      else r.1, .ST_OK)

/-- The round of the loop of `__port_clear_translation`. -/
def clearRule (i : Fin nports) (x : VlanTable nports) (vid : ℕ) : Option (VlanTable nports) :=
  let p := x.ports i
  if p.mode = .PM_TRUNK ∧ (p.vlan_conf vid).xlate then
    let toVid := (p.vlan_conf vid).map_to
    if toVid = 0 then none
    else
      let refc := (p.vlan_conf toVid).refc
      let y :=
        if refc ≠ 0 then
          let y :=
            { x with
              vlans := update x.vlans toVid
                { x.vlans toVid with vt_refc := (x.vlans toVid).vt_refc - refc } }
          (y.setPort i (p.conf toVid fun k => { k with refc := 0 })).portUpdateTrunkVlan c i toVid
        else x
      some (y.setRule i vid false 0)
  else some x

/-- `__port_clear_translation`. -/
def clearTranslation (x : VlanTable nports) (i : Fin nports) : Option (VlanTable nports) :=
  (allVids.foldlM (clearRule c i) x).map (·.setDef i false 0)

/-- `port_clear_translation`, on the table. -/
def portClearTranslation (pid : ℕ) : Option (VlanTable nports × Status) :=
  if pid = c.ALL_PORTS then
    ((List.finRange nports).foldlM (clearTranslation c) x).map fun x => (x, .ST_OK)
  else
    match portPtr nports pid with
    | none => some (x, .ST_BAD_VALUE)
    | some i => (x.clearTranslation c i).map fun x => (x, .ST_OK)

/-- `vlan_set_xlate_tunnel`. -/
def vlanSetXlateTunnel (enable : Bool) : Option (VlanTable nports × Status) :=
  if x.vlan_xlate_tunnel ≠ enable then
    (x.portClearTranslation c c.ALL_PORTS).map fun r =>
      -- the entries are written before the flag is
      let y := allVids.foldl (fun y vid => y.portUpdateTrunkVlanAllPorts c vid) r.1
      ({ y with vlan_xlate_tunnel := enable }, .ST_OK)
  else some (x, .ST_OK)

/-! ## Steps -/

/-- A change of the configuration. -/
inductive Op
  | vlanAdd (vid : ℕ)
  | vlanDelete (vid : ℕ)
  | setDot1qTagNative (value : ℤ)
  | setAccessVid (pid vid : ℕ)
  | setVoiceVid (pid vid : ℕ)
  | setNativeVid (pid vid : ℕ)
  | setCustomerVid (pid vid : ℕ)
  | setTrunkVlans (pid : ℕ) (bmp : ℕ → Bool)
  | setMode (pid : ℕ) (mode : PortMode)
  | translate (pid fromVid toVid : ℕ) (add : Bool)
  | clearTranslation (pid : ℕ)
  | setXlateTunnel (enable : Bool)

/-- A step of a run. -/
def step : Op → Option (VlanTable nports)
  | .vlanAdd vid => some (x.vlanAdd c vid).1
  | .vlanDelete vid => some (x.vlanDelete vid).1
  | .setDot1qTagNative value => some (x.vlanSetDot1qTagNative c value).1
  | .setAccessVid pid vid => some (x.portSetAccessVid c pid vid).1
  | .setVoiceVid pid vid => some (x.portSetVoiceVid c pid vid).1
  | .setNativeVid pid vid => some (x.portSetNativeVid c pid vid).1
  | .setCustomerVid pid vid => some (x.portSetCustomerVid c pid vid).1
  | .setTrunkVlans pid bmp => some (x.portSetTrunkVlans c pid bmp).1
  | .setMode pid mode => some (x.portSetMode c pid mode).1
  | .translate pid fromVid toVid add => (x.portVlanTranslate c pid fromVid toVid add).map Prod.fst
  | .clearTranslation pid => (x.portClearTranslation c pid).map Prod.fst
  | .setXlateTunnel enable => (x.vlanSetXlateTunnel c enable).map Prod.fst

/-- The VLAN is there. -/
def Live (vid : ℕ) : Prop := vlanValid vid ∧ (x.vlans vid).state ≠ .VS_DELETED

instance (vid : ℕ) : Decidable (x.Live vid) := inferInstanceAs (Decidable (_ ∧ _))

/-- The port is no stack port, and in trunk or access mode. -/
def Front (i : Fin nports) : Prop :=
  c.stack i = false ∧ ((x.ports i).mode = .PM_ACCESS ∨ (x.ports i).mode = .PM_TRUNK)

instance (i : Fin nports) : Decidable (x.Front c i) := inferInstanceAs (Decidable (_ ∧ _))

/-- The table is what it is after every VLAN was added anew. -/
def InStep : Prop :=
  ∀ vid, x.Live vid → ∀ i, x.Front c i → x.entry vid (c.hw i) = x.setupTagging c vid (c.hw i)

/-- What `setup_tagging` writes for a port. -/
def wanted (i : Fin nports) (vid : ℕ) : VlanMember :=
  ((x.ports i).tagging x.vlan_dot1q_tag_native x.vlan_xlate_tunnel (x.vlans vid) vid).getD .clear

end VlanTable

/-! ## The two decisions on a port in trunk mode -/

/-- What the two decisions on a port in trunk mode agree on. -/
def TagPort.Concordant (p : TagPort) (tunnel : Bool) (v : TagVlan) (vid : ℕ) : Prop :=
  (p.vlan_conf vid).refc ≠ 0 ∨
    (p.vlan_conf vid).tallow = true ∧ p.native_vid ≠ vid ∧ v.vt_refc ≠ 0 ∧ tunnel = true

instance (p : TagPort) (tunnel : Bool) (v : TagVlan) (vid : ℕ) :
    Decidable (p.Concordant tunnel v vid) :=
  inferInstanceAs (Decidable (_ ∨ _))

/-- `__port_clear_translation` drops the references of the port to the VLAN, the specific rules of
the VLANs `fromVids` being cleared. -/
def TagPort.Drops (p : TagPort) (fromVids : List ℕ) (vid : ℕ) : Prop :=
  p.mode = .PM_TRUNK ∧ (p.vlan_conf vid).refc ≠ 0 ∧
    ∃ fromVid ∈ fromVids, (p.vlan_conf fromVid).xlate = true ∧ (p.vlan_conf fromVid).map_to = vid

instance (p : TagPort) (fromVids : List ℕ) (vid : ℕ) : Decidable (p.Drops fromVids vid) :=
  inferInstanceAs (Decidable (_ ∧ _))

/-- What `setup_tagging` writes for a port in trunk mode is the same for two references of a
VLAN. -/
def TagPort.Settled (p : TagPort) (tunnel : Bool) (v v' : TagVlan) (vid : ℕ) : Prop :=
  (p.vlan_conf vid).refc = 0 → p.native_vid ≠ vid → (p.vlan_conf vid).tallow = true →
    tunnel = true → (v.vt_refc ≠ 0 ↔ v'.vt_refc ≠ 0)

instance (p : TagPort) (tunnel : Bool) (v v' : TagVlan) (vid : ℕ) :
    Decidable (p.Settled tunnel v v' vid) :=
  inferInstanceAs (Decidable (_ → _))

namespace TagPort

variable {p : TagPort} {dot1q : ℤ} {tunnel : Bool} {v : TagVlan} {vid : ℕ}

/-- A trunk port is a tagged member of a translated VLAN, by the command for the tunnel. -/
theorem tagging_translated (hmode : p.mode = .PM_TRUNK) (hrefc : (p.vlan_conf vid).refc ≠ 0) :
    p.tagging dot1q tunnel v vid = some ⟨true, true, if tunnel then .POP_OUTER_TAG else .TAG0⟩ := by
  rw [tagging, hmode]
  exact (if_pos (.inr (.inr hrefc))).trans (if_pos hrefc)

/-- A trunk port sends its native VLAN untagged, unless this is to be tagged. -/
theorem tagging_native (hmode : p.mode = .PM_TRUNK) (hrefc : (p.vlan_conf vid).refc = 0)
    (hnative : p.native_vid = vid) : p.tagging dot1q tunnel v vid =
      some ⟨true, true, if dot1q ≠ 0 then .OUTER_TAG0_INNER_TAG1 else .UNTAGGED⟩ := by
  rw [tagging, hmode]
  exact (if_pos (.inl hnative)).trans ((if_neg (not_not.mpr hrefc)).trans (if_pos hnative))

/-- A trunk port sends an allowed VLAN with its tags, or by tag 0 when others map to it in a tunnel. -/
theorem tagging_allowed (hmode : p.mode = .PM_TRUNK) (hrefc : (p.vlan_conf vid).refc = 0)
    (hnative : p.native_vid ≠ vid) (hallow : (p.vlan_conf vid).tallow = true) :
    p.tagging dot1q tunnel v vid = if v.vt_refc ≠ 0 ∧ tunnel = true then some ⟨true, true, .TAG0⟩
      else some ⟨true, false, .OUTER_TAG0_INNER_TAG1⟩ := by
  rw [tagging, hmode]
  exact (if_pos (.inr (.inl hallow))).trans ((if_neg (not_not.mpr hrefc)).trans (if_neg hnative))

/-- A trunk port is no member of any other VLAN. -/
theorem tagging_other (hmode : p.mode = .PM_TRUNK) (hrefc : (p.vlan_conf vid).refc = 0)
    (hnative : p.native_vid ≠ vid) (hallow : (p.vlan_conf vid).tallow ≠ true) :
    p.tagging dot1q tunnel v vid = none := by
  rw [tagging, hmode]
  refine if_neg ?_
  rintro (h | h | h)
  · exact hnative h
  · exact hallow h
  · exact h hrefc

/-- An access port sends its own VLAN untagged and the voice VLAN with its tags. -/
theorem tagging_access (hmode : p.mode = .PM_ACCESS) : p.tagging dot1q tunnel v vid =
    if p.access_vid = vid then some ⟨true, false, .UNTAGGED⟩
    else if p.voice_vid = vid then some ⟨true, false, .OUTER_TAG0_INNER_TAG1⟩ else none := by
  rw [tagging, hmode]

/-- What `setup_tagging` writes depends on these settings of a port. -/
theorem tagging_congr {q : TagPort} (hmode : q.mode = p.mode)
    (hfront : p.mode = .PM_ACCESS ∨ p.mode = .PM_TRUNK)
    (haccess : p.mode = .PM_ACCESS → (q.access_vid = vid ↔ p.access_vid = vid) ∧
      (q.voice_vid = vid ↔ p.voice_vid = vid))
    (htrunk : p.mode = .PM_TRUNK → (q.native_vid = vid ↔ p.native_vid = vid) ∧
      q.vlan_conf vid = p.vlan_conf vid) :
    q.tagging dot1q tunnel v vid = p.tagging dot1q tunnel v vid := by
  unfold tagging
  rw [hmode]
  obtain h | h := hfront
  · rw [h]
    dsimp only
    rw [if_congr (haccess h).1 rfl rfl, if_congr (haccess h).2 rfl rfl]
  · rw [h]
    dsimp only
    rw [(htrunk h).2]
    exact if_congr (or_congr_left (htrunk h).1)
      (if_congr Iff.rfl rfl (if_congr (htrunk h).1 rfl rfl)) rfl

/-- The flag is about the native VLAN of a port in trunk mode. -/
theorem tagging_flag {dot1q' : ℤ} (hfront : p.mode = .PM_ACCESS ∨ p.mode = .PM_TRUNK)
    (hother : p.mode = .PM_TRUNK → (p.vlan_conf vid).refc ≠ 0 ∨ p.native_vid ≠ vid) :
    p.tagging dot1q tunnel v vid = p.tagging dot1q' tunnel v vid := by
  obtain hmode | hmode := hfront
  · rw [tagging_access hmode, tagging_access hmode]
  · by_cases hrefc : (p.vlan_conf vid).refc = 0
    · have hnative := (hother hmode).resolve_left (not_not.mpr hrefc)
      by_cases hallow : (p.vlan_conf vid).tallow = true
      · rw [tagging_allowed hmode hrefc hnative hallow, tagging_allowed hmode hrefc hnative hallow]
      · rw [tagging_other hmode hrefc hnative hallow, tagging_other hmode hrefc hnative hallow]
    · rw [tagging_translated hmode hrefc, tagging_translated hmode hrefc]

/-- What a VLAN other than the native one gets for a port, unless it is a target of translation. -/
theorem trunkMember_other (hrefc : (p.vlan_conf vid).refc = 0) (hnative : p.native_vid ≠ vid) :
    p.trunkMember dot1q tunnel v vid = ⟨(p.vlan_conf vid).tallow, true, .TAG0⟩ := by
  rw [trunkMember, if_neg (not_not.mpr hrefc), if_neg fun h => hnative h.1.symm]
  cases (p.vlan_conf vid).tallow with
  | false => exact if_pos (by decide)
  | true => exact (if_neg (by decide)).trans (ite_self _)

/-- The native VLAN is a member of its own right only while it is not to be tagged. -/
theorem trunkMember_native (hrefc : (p.vlan_conf vid).refc = 0) (hnative : p.native_vid = vid) :
    p.trunkMember dot1q tunnel v vid =
      if dot1q = 0 then ⟨true, false, .UNTAGGED⟩ else ⟨(p.vlan_conf vid).tallow, true, .TAG0⟩ := by
  rw [trunkMember, if_neg (not_not.mpr hrefc)]
  by_cases hdot1q : dot1q = 0
  · rw [if_pos ⟨hnative.symm, hdot1q⟩, if_pos hdot1q]
  · rw [if_neg fun h => hdot1q h.2, if_neg hdot1q]
    cases (p.vlan_conf vid).tallow with
    | false => exact if_pos (by decide)
    | true => exact (if_neg (by decide)).trans (ite_self _)

/-- `setup_tagging` and `port_update_trunk_vlan` agree on a port in trunk mode in these cases
only. -/
theorem trunkMember_eq_iff (hmode : p.mode = .PM_TRUNK) :
    p.trunkMember dot1q tunnel v vid = (p.tagging dot1q tunnel v vid).getD .clear ↔
      p.Concordant tunnel v vid := by
  by_cases hrefc : (p.vlan_conf vid).refc = 0
  · by_cases hnative : p.native_vid = vid
    · -- untagged by the one is tagged by the other, and a tag is not the same tag
      rw [trunkMember_native hrefc hnative, tagging_native hmode hrefc hnative]
      refine iff_of_false (fun heq => ?_) fun hall => ?_
      · by_cases hdot1q : dot1q = 0
        · rw [if_pos hdot1q] at heq
          exact Bool.false_ne_true (congrArg VlanMember.isTagged heq)
        · rw [if_neg hdot1q, if_pos hdot1q] at heq
          exact VlanTagCmd.noConfusion (congrArg VlanMember.tagCmd heq)
      · exact hall.elim (fun h => h hrefc) fun h => h.2.1 hnative
    · rw [trunkMember_other hrefc hnative]
      by_cases hallow : (p.vlan_conf vid).tallow = true
      · rw [tagging_allowed hmode hrefc hnative hallow, hallow]
        by_cases hvt : v.vt_refc ≠ 0 ∧ tunnel = true
        · rw [if_pos hvt]
          exact iff_of_true rfl (.inr ⟨hallow, hnative, hvt⟩)
        · rw [if_neg hvt]
          refine iff_of_false (fun heq => ?_) fun hall => ?_
          · exact Bool.false_ne_true (congrArg VlanMember.isTagged heq).symm
          · exact hall.elim (fun h => h hrefc) fun h => hvt h.2.2
      · rw [tagging_other hmode hrefc hnative hallow]
        refine iff_of_false (fun heq => ?_) fun hall => ?_
        · exact Bool.false_ne_true (congrArg VlanMember.isTagged heq).symm
        · exact hall.elim (fun h => h hrefc) fun h => hallow h.1
  · rw [trunkMember, if_pos hrefc, tagging_translated hmode hrefc]
    exact iff_of_true rfl (.inl hrefc)

/-- They agree on who is a member, but for a native VLAN that is not allowed and is to be tagged. -/
theorem trunkMember_isMember_iff (hmode : p.mode = .PM_TRUNK) :
    (p.trunkMember dot1q tunnel v vid).isMember =
      ((p.tagging dot1q tunnel v vid).getD .clear).isMember ↔
      ¬(p.native_vid = vid ∧ dot1q ≠ 0 ∧ (p.vlan_conf vid).tallow = false ∧
        (p.vlan_conf vid).refc = 0) := by
  by_cases hrefc : (p.vlan_conf vid).refc = 0
  · by_cases hnative : p.native_vid = vid
    · rw [trunkMember_native hrefc hnative, tagging_native hmode hrefc hnative]
      by_cases hdot1q : dot1q = 0
      · rw [if_pos hdot1q]
        exact iff_of_true rfl fun h => h.2.1 hdot1q
      · rw [if_neg hdot1q]
        cases (p.vlan_conf vid).tallow with
        | false => exact iff_of_false Bool.false_ne_true (not_not.mpr ⟨hnative, hdot1q, rfl, hrefc⟩)
        | true => exact iff_of_true rfl fun h => Bool.false_ne_true h.2.2.1.symm
    · rw [trunkMember_other hrefc hnative]
      refine iff_of_true ?_ fun h => hnative h.1
      by_cases hallow : (p.vlan_conf vid).tallow = true
      · rw [tagging_allowed hmode hrefc hnative hallow, hallow]
        split_ifs <;> rfl
      · rw [tagging_other hmode hrefc hnative hallow]
        exact Bool.eq_false_iff.mpr hallow
  · rw [trunkMember, if_pos hrefc, tagging_translated hmode hrefc]
    exact iff_of_true rfl fun h => hrefc h.2.2.2

end TagPort

namespace VlanTable

variable {nports : ℕ} {c : VlanLayout nports} {x : VlanTable nports} {i j : Fin nports} {vid w : ℕ}

/-! ## `setup_tagging` -/

/-- A port that is none of the list keeps what it had. -/
theorem foldl_ic_of_notMem {l : List (ℕ × ℕ)} {q : ℕ × ℕ} (hq : q ∉ l) (t : ℕ × ℕ → VlanMember) :
    l.foldl (fun t q => update t q ⟨true, true, .OUTER_TAG0_INNER_TAG1⟩) t q = t q := by
  refine Sweep.foldl_keeps (fun t : ℕ × ℕ → VlanMember => t q) (fun t r hr => update_of_ne ?_ ..) t
  rintro rfl
  exact hq hr

/-- The round of a port leaves what another port has got. -/
theorem setupPort_of_ne (hij : i ≠ j) (t : ℕ × ℕ → VlanMember) :
    x.setupPort c vid t j (c.hw i) = t (c.hw i) := by
  have hne : c.hw i ≠ c.hw j := fun h => hij (c.hw_injective h)
  unfold setupPort
  cases hj : c.stack j with
  | true =>
    -- a stack port is on the first device
    have hdev : c.hw j = (0, (c.hw j).2) := Prod.ext (c.hw_stack j hj) rfl
    rw [if_pos rfl, update_of_ne (hdev ▸ hne)]
  | false =>
    rw [if_neg Bool.false_ne_true]
    cases (x.ports j).tagging x.vlan_dot1q_tag_native x.vlan_xlate_tunnel (x.vlans vid) vid with
    | none => rfl
    | some m => exact update_of_ne hne m t

/-- The loop over the ports writes no other port. -/
theorem foldl_setupPort_of_notMem {l : List (Fin nports)} (hl : i ∉ l) (t : ℕ × ℕ → VlanMember) :
    l.foldl (x.setupPort c vid) t (c.hw i) = t (c.hw i) := by
  refine Sweep.foldl_keeps (fun t : ℕ × ℕ → VlanMember => t (c.hw i)) (fun t j hj => ?_) t
  refine setupPort_of_ne ?_ t
  rintro rfl
  exact hl hj

/-- The entry of a port that is no stack port is its own decision. -/
theorem setupTagging_front (hi : c.stack i = false) :
    x.setupTagging c vid (c.hw i) = x.wanted i vid := by
  obtain ⟨l₁, l₂, hl⟩ := List.append_of_mem (List.mem_finRange i)
  have hnd : (l₁ ++ i :: l₂).Nodup := hl ▸ List.nodup_finRange nports
  have h₁ : i ∉ l₁ := fun h => (List.nodup_append.mp hnd).2.2 i h i List.mem_cons_self rfl
  have h₂ : i ∉ l₂ := (List.nodup_cons.mp (List.nodup_append.mp hnd).2.1).1
  unfold setupTagging
  rw [hl, List.foldl_append, List.foldl_cons, foldl_setupPort_of_notMem h₂]
  have hzero : l₁.foldl (x.setupPort c vid) (c.ic_ports.foldl
      (fun t q => update t q ⟨true, true, .OUTER_TAG0_INNER_TAG1⟩) fun _ => .clear)
          (c.hw i) = .clear := by
    rw [foldl_setupPort_of_notMem h₁, foldl_ic_of_notMem (c.hw_ic i)]
  rw [setupPort, hi, if_neg Bool.false_ne_true, wanted]
  cases (x.ports i).tagging x.vlan_dot1q_tag_native x.vlan_xlate_tunnel (x.vlans vid) vid with
  | none => exact hzero
  | some m => exact update_self ..

/-! ## Writing entries -/

/-- What an entry says of a port. -/
def member (c : VlanLayout nports) (x : VlanTable nports) (i : Fin nports) (vid : ℕ) : VlanMember :=
  x.entry vid (c.hw i)

/-- The table is in step when each front port is the member that it should be. -/
theorem inStep_iff : InStep c x ↔
    ∀ vid, x.Live vid → ∀ i, x.Front c i → x.member c i vid = x.wanted i vid := by
  refine forall₄_congr fun vid _ i hi => ?_
  rw [setupTagging_front hi.1, member]

/-- One membership is written. -/
theorem member_memberSet (m : VlanMember) : (x.memberSet c i vid m).member c j w =
    if j = i ∧ w = vid then m else x.member c j w := by
  unfold member memberSet
  dsimp only
  by_cases hw : w = vid
  · rw [hw, update_self]
    by_cases hj : j = i
    · rw [hj, update_self, if_pos ⟨rfl, rfl⟩]
    · rw [update_of_ne fun h => hj (c.hw_injective h), if_neg fun h => hj h.1]
  · rw [update_of_ne hw, if_neg fun h => hw h.2]

/-- A loop whose rounds rewrite entries only, with values that the configuration gives. -/
theorem foldl_entries {α : Type*} {step : VlanTable nports → α → VlanTable nports}
    {W : α → Fin nports → ℕ → Prop} [∀ a j w, Decidable (W a j w)] {m : Fin nports → ℕ → VlanMember}
    (hconf : ∀ e a, step { x with entry := e } a =
      { x with entry := (step { x with entry := e } a).entry })
    (hmember : ∀ e a j w, (step { x with entry := e } a).member c j w =
      if W a j w then m j w else member c { x with entry := e } j w)
    {l : List α} {V : Fin nports → ℕ → Prop} [∀ j w, Decidable (V j w)]
    (hV : ∀ j w, V j w ↔ ∃ a ∈ l, W a j w) :
    l.foldl step x = { x with entry := (l.foldl step x).entry } ∧
      ∀ j w, (l.foldl step x).member c j w = if V j w then m j w else x.member c j w := by
  induction l generalizing x V with
  | nil =>
    refine ⟨rfl, fun j w => (if_neg fun h => ?_).symm⟩
    obtain ⟨a, ha, _⟩ := (hV j w).mp h
    exact List.not_mem_nil ha
  | cons a l ih =>
    have hround : step x a = { x with entry := (step x a).entry } := hconf x.entry a
    obtain ⟨hrest, hwrites⟩ := @ih { x with entry := (step x a).entry } hconf hmember
      (fun j w => ∃ a ∈ l, W a j w) (fun _ _ => inferInstance) fun _ _ => Iff.rfl
    rw [← hround] at hrest hwrites
    rw [List.foldl_cons]
    refine ⟨?_, fun j w => ?_⟩
    · rw [hround] at hrest ⊢
      exact hrest
    · rw [hwrites, hmember x.entry a j w, ← ite_or]
      refine if_congr ?_ rfl rfl
      rw [hV, List.exists_mem_cons_iff, or_comm]

/-- The configuration of port `i` becomes `p`, and its entries become what `f` has for them. -/
structure Rewrites (c : VlanLayout nports) (x x' : VlanTable nports) (i : Fin nports) (p : TagPort)
    (f : ℕ → Option VlanMember) : Prop where
  conf : x' = { x with ports := update x.ports i p, entry := x'.entry }
  self : ∀ w, x'.member c i w = (f w).getD (x.member c i w)
  other : ∀ j w, j ≠ i → x'.member c j w = x.member c j w

namespace Rewrites

variable {x' : VlanTable nports} {p q : TagPort} {f : ℕ → Option VlanMember}

/-- Nothing has been written. -/
theorem refl (c : VlanLayout nports) (x : VlanTable nports) (i : Fin nports) :
    Rewrites c x x i (x.ports i) fun _ => none where
  conf := by rw [Function.update_eq_self]
  self _ := rfl
  other _ _ _ := rfl

/-- The port is the one given. -/
theorem ports (h : Rewrites c x x' i p f) : x'.ports i = p := by
  rw [h.conf]
  exact update_self ..

/-- The VLANs are as they were. -/
theorem vlans (h : Rewrites c x x' i p f) : x'.vlans = x.vlans := by rw [h.conf]

/-- New settings of the port write no member. -/
theorem setPort (h : Rewrites c x x' i p f) (q : TagPort) :
    Rewrites c x (x'.setPort i q) i q f where
  conf := by
    rw [VlanTable.setPort, h.conf]
    dsimp only
    rw [Function.update_idem]
  self := h.self
  other := h.other

/-- A membership that is written is the last one of its VLAN. -/
theorem memberSet (h : Rewrites c x x' i p f) (vid : ℕ) (m : VlanMember) :
    Rewrites c x (x'.memberSet c i vid m) i p fun w => if w = vid then some m else f w where
  conf := by
    rw [VlanTable.memberSet, h.conf]
  self w := by
    rw [member_memberSet]
    by_cases hw : w = vid
    · rw [if_pos ⟨rfl, hw⟩, if_pos hw]
      rfl
    · rw [if_neg fun hall => hw hall.2, if_neg hw, h.self]
  other j w hj := by rw [member_memberSet, if_neg fun hall => hj hall.1, h.other j w hj]

/-- What is written may be named in another way. -/
theorem congr {g : ℕ → Option VlanMember} (h : Rewrites c x x' i p f) (hfg : ∀ w, f w = g w) :
    Rewrites c x x' i p g := (funext hfg : f = g) ▸ h

/-- The entries of the VLANs of a list are rewritten one after the other. -/
theorem foldl (g : ℕ → Option VlanMember) (step : VlanTable nports → ℕ → VlanTable nports)
    (hstep : ∀ y f' vid, Rewrites c x y i p f' →
      Rewrites c x (step y vid) i p fun w => if w = vid ∧ (g w).isSome then g w else f' w)
    (h : Rewrites c x x' i p f) (vids : List ℕ) :
    Rewrites c x (vids.foldl step x') i p fun w => if w ∈ vids ∧
      (g w).isSome then g w else f w := by
  induction vids generalizing x' f with
  | nil => exact h.congr fun w => (if_neg fun hall => List.not_mem_nil hall.1).symm
  | cons vid vids ih =>
    refine (ih (hstep x' f vid h)).congr fun w => ?_
    by_cases hg : (g w).isSome
    · by_cases hmem : w ∈ vids
      · rw [if_pos ⟨hmem, hg⟩, if_pos ⟨List.mem_cons_of_mem vid hmem, hg⟩]
      · rw [if_neg fun hall => hmem hall.1]
        refine if_congr ?_ rfl rfl
        rw [List.mem_cons, or_iff_left hmem]
    · rw [if_neg fun hall => hg hall.2, if_neg fun hall => hg hall.2, if_neg fun hall => hg hall.2]

/-- What `port_update_trunk_vlan` writes, for the VLANs that are not deleted. -/
def trunkWrite (x : VlanTable nports) (p : TagPort) (w : ℕ) : Option VlanMember :=
  if (x.vlans w).state = .VS_DELETED then none
  else some (p.trunkMember x.vlan_dot1q_tag_native x.vlan_xlate_tunnel (x.vlans w) w)

/-- `port_update_trunk_vlan` writes the membership of one VLAN. -/
theorem portUpdateTrunkVlan (h : Rewrites c x x' i p f) (vid : ℕ) :
    Rewrites c x (x'.portUpdateTrunkVlan c i vid) i p fun w =>
      if w = vid ∧ (trunkWrite x p w).isSome then trunkWrite x p w else f w := by
  have hconf : x'.vlan_dot1q_tag_native = x.vlan_dot1q_tag_native ∧
      x'.vlan_xlate_tunnel = x.vlan_xlate_tunnel := by
    rw [h.conf]
    exact ⟨rfl, rfl⟩
  unfold VlanTable.portUpdateTrunkVlan
  rw [h.vlans, h.ports, hconf.1, hconf.2]
  by_cases hdel : (x.vlans vid).state = .VS_DELETED
  · rw [if_pos hdel]
    refine h.congr fun w => (if_neg ?_).symm
    rintro ⟨rfl, hsome⟩
    rw [trunkWrite, if_pos hdel] at hsome
    exact Bool.false_ne_true hsome
  · rw [if_neg hdel]
    refine (h.memberSet vid _).congr fun w => ?_
    by_cases hw : w = vid
    · obtain rfl := hw
      have hwrite : trunkWrite x p w = some
          (p.trunkMember x.vlan_dot1q_tag_native x.vlan_xlate_tunnel (x.vlans w) w) := if_neg hdel
      rw [if_pos rfl, hwrite, if_pos ⟨rfl, rfl⟩]
    · rw [if_neg hw, if_neg fun hall => hw hall.1]

/-- The loop over the VLANs writes the membership of each. -/
theorem portSetTrunkMode (h : Rewrites c x x' i p f) :
    Rewrites c x (x'.portSetTrunkMode c i) i p fun w =>
      if w ∈ allVids ∧ (trunkWrite x p w).isSome then trunkWrite x p w else f w :=
  h.foldl _ _ (fun _ _ vid hy => hy.portUpdateTrunkVlan vid) allVids

/-- A bulk operation rewrites the entry of `vid` and those of the VLANs that are not deleted. -/
theorem portVlanBulkOp (h : Rewrites c x x' i p f) (vid : ℕ) (m rest : VlanMember) :
    Rewrites c x (x'.portVlanBulkOp c i vid m rest) i p fun w =>
      if w = vid then some m
      else if w ∈ allVids ∧ (x.vlans w).state ≠ .VS_DELETED then some rest else f w := by
  let g : ℕ → Option VlanMember := fun w =>
    if (x.vlans w).state = .VS_DELETED ∨ vid = w then none else some rest
  have hround : ∀ y f' v, Rewrites c x y i p f' → Rewrites c x
      (if (y.vlans v).state = .VS_DELETED ∨ vid = v then y else y.memberSet c i v rest) i p
      fun w => if w = v ∧ (g w).isSome then g w else f' w := by
    intro y f' v hy
    rw [hy.vlans]
    by_cases hskip : (x.vlans v).state = .VS_DELETED ∨ vid = v
    · rw [if_pos hskip]
      refine hy.congr fun w => (if_neg ?_).symm
      rintro ⟨rfl, hsome⟩
      rw [show g w = none from if_pos hskip] at hsome
      exact Bool.false_ne_true hsome
    · rw [if_neg hskip]
      refine (hy.memberSet v rest).congr fun w => ?_
      by_cases hw : w = v
      · obtain rfl := hw
        rw [if_pos rfl, show g w = some rest from if_neg hskip, if_pos ⟨rfl, rfl⟩]
      · rw [if_neg hw, if_neg fun hall => hw hall.1]
  have hfold := h.foldl g _ hround allVids
  refine (hfold.memberSet vid m).congr fun w => ?_
  by_cases hw : w = vid
  · rw [if_pos hw, if_pos hw]
  · rw [if_neg hw, if_neg hw]
    by_cases hdel : (x.vlans w).state = .VS_DELETED
    · have hg : g w = none := if_pos (.inl hdel)
      rw [hg, if_neg fun hall => Bool.false_ne_true hall.2, if_neg fun hall => hall.2 hdel]
    · have hg : g w = some rest := if_neg (not_or.mpr ⟨hdel, fun h => hw h.symm⟩)
      rw [hg]
      exact if_congr (and_congr_right fun _ => iff_of_true rfl hdel) rfl rfl

end Rewrites

end VlanTable

/-- The VLANs of a list are allowed or not, as the bits say. -/
def TagPort.allow (p : TagPort) (bmp : ℕ → Bool) (vids : List ℕ) : TagPort :=
  { p with vlan_conf := fun w =>
      if w ∈ vids then { p.vlan_conf w with tallow := bmp w } else p.vlan_conf w }

namespace VlanTable.Rewrites

variable {nports : ℕ} {c : VlanLayout nports} {x x' : VlanTable nports} {i : Fin nports}
  {p q : TagPort} {f : ℕ → Option VlanMember}

/-- What is written depends on the native VLAN and on the settings of the VLAN. -/
theorem trunkWrite_congr {w : ℕ} (hnative : q.native_vid = p.native_vid)
    (hconf : q.vlan_conf w = p.vlan_conf w) : trunkWrite x q w = trunkWrite x p w := by
  unfold trunkWrite TagPort.trunkMember
  rw [hnative, hconf]

/-- A round rewrites the entry of its VLAN if the VLAN is allowed now and was not, or the other way
round. -/
theorem allowVlan (h : Rewrites c x x' i p f) (bmp : ℕ → Bool) (vid : ℕ) :
    Rewrites c x (VlanTable.allowVlan c i bmp x' vid) i (p.allow bmp [vid]) fun w =>
      if w = vid ∧ (p.vlan_conf w).tallow ≠ bmp w ∧ p.mode = .PM_TRUNK ∧
        (trunkWrite x (p.allow bmp [vid]) w).isSome then trunkWrite x
            (p.allow bmp [vid]) w else f w := by
  unfold VlanTable.allowVlan
  rw [h.ports]
  dsimp only
  by_cases hallow : (p.vlan_conf vid).tallow = bmp vid
  · have hp : p.allow bmp [vid] = p := by
      have hconf : (p.allow bmp [vid]).vlan_conf = p.vlan_conf := by
        funext w
        refine ite_eq_right_iff.mpr fun hw => ?_
        rw [List.mem_singleton.mp hw, ← hallow]
      unfold TagPort.allow at hconf ⊢
      dsimp only at hconf
      rw [hconf]
    rw [if_neg (not_not.mpr hallow), hp]
    refine h.congr fun w => (if_neg ?_).symm
    rintro ⟨rfl, hne, _⟩
    exact hne hallow
  · have hp :
        { p with vlan_conf := update p.vlan_conf vid { p.vlan_conf vid with tallow := bmp vid } } =
          p.allow bmp [vid] := by
      unfold TagPort.allow
      congr 1
      funext w
      by_cases hw : w = vid
      · rw [hw, update_self, if_pos (List.mem_singleton.mpr rfl)]
      · rw [update_of_ne hw, if_neg fun hmem => hw (List.mem_singleton.mp hmem)]
    rw [if_pos hallow, hp]
    by_cases hmode : p.mode = .PM_TRUNK
    · rw [if_pos hmode]
      refine ((h.setPort (p.allow bmp [vid])).portUpdateTrunkVlan vid).congr fun w => ?_
      refine if_congr (and_congr_right fun hw => ?_) rfl rfl
      rw [hw]
      exact ⟨fun hsome => ⟨hallow, hmode, hsome⟩, fun hall => hall.2.2⟩
    · rw [if_neg hmode]
      refine (h.setPort (p.allow bmp [vid])).congr fun w => (if_neg ?_).symm
      exact fun hall => hmode hall.2.2.1

/-- The rounds over a list of VLANs. -/
theorem foldl_allowVlan (h : Rewrites c x x' i p f) (bmp : ℕ → Bool) {vids : List ℕ}
    (hnd : vids.Nodup) :
    Rewrites c x (vids.foldl (VlanTable.allowVlan c i bmp) x') i (p.allow bmp vids) fun w =>
      if w ∈ vids ∧ (p.vlan_conf w).tallow ≠ bmp w ∧ p.mode = .PM_TRUNK ∧
        (trunkWrite x (p.allow bmp vids) w).isSome then trunkWrite x
            (p.allow bmp vids) w else f w := by
  induction vids generalizing x' p f with
  | nil => exact h.congr fun w => (if_neg fun hall => List.not_mem_nil hall.1).symm
  | cons vid vids ih =>
    obtain ⟨hvid, hnd⟩ := List.nodup_cons.mp hnd
    have hp : (p.allow bmp [vid]).allow bmp vids = p.allow bmp (vid :: vids) := by
      unfold TagPort.allow
      dsimp only
      congr 1
      funext w
      by_cases hw : w = vid
      · rw [hw, if_neg hvid, if_pos (List.mem_singleton.mpr rfl), if_pos List.mem_cons_self]
      · have hone : w ∉ [vid] := fun hmem => hw (List.mem_singleton.mp hmem)
        rw [if_neg hone]
        exact if_congr (by rw [List.mem_cons, or_iff_right hw]) rfl rfl
    have hrest := ih (h.allowVlan bmp vid) hnd
    rw [hp] at hrest
    refine hrest.congr fun w => ?_
    by_cases hw : w = vid
    · obtain rfl := hw
      have hwrite : trunkWrite x (p.allow bmp [w]) w =
          trunkWrite x (p.allow bmp (w :: vids)) w := by
        refine trunkWrite_congr rfl ?_
        unfold TagPort.allow
        dsimp only
        rw [if_pos (List.mem_singleton.mpr rfl), if_pos List.mem_cons_self]
      rw [if_neg fun hall => hvid hall.1, hwrite]
      refine if_congr (and_congr_left fun _ => iff_of_true rfl List.mem_cons_self) rfl rfl
    · have hconf : (p.allow bmp [vid]).vlan_conf w = p.vlan_conf w :=
        if_neg fun hmem => hw (List.mem_singleton.mp hmem)
      rw [hconf, if_neg fun hall : w = vid ∧ _ => hw hall.1]
      exact if_congr (and_congr_left fun _ => by rw [List.mem_cons, or_iff_right hw]) rfl rfl

/-- A live VLAN is written. -/
theorem trunkWrite_live {w : ℕ} (hw : x.Live w) : trunkWrite x p w =
    some (p.trunkMember x.vlan_dot1q_tag_native x.vlan_xlate_tunnel (x.vlans w) w) := if_neg hw.2

/-- In a loop over VLANs a live one is written when it is among them. -/
theorem ite_trunkWrite {w : ℕ} (hw : x.Live w) {P : Prop} [Decidable P] (m : Option VlanMember) :
    (if P ∧ (trunkWrite x p w).isSome then trunkWrite x p w else m) = if P then
      some (p.trunkMember x.vlan_dot1q_tag_native x.vlan_xlate_tunnel (x.vlans w) w) else m := by
  rw [trunkWrite_live hw]
  exact if_congr (and_iff_left rfl) rfl rfl

/-- After a change of one port the table is in step if and only if that port is. -/
theorem inStep_iff (h : Rewrites c x x' i p f) (hx : InStep c x) : InStep c x' ↔
    (c.stack i = false → p.mode = .PM_ACCESS ∨ p.mode = .PM_TRUNK → ∀ w, x.Live w →
      (f w).getD (x.member c i w) =
        (p.tagging x.vlan_dot1q_tag_native x.vlan_xlate_tunnel (x.vlans w) w).getD .clear) := by
  have hlive : ∀ w, x'.Live w ↔ x.Live w := fun w => by rw [Live, Live, h.vlans]
  have hself : ∀ w, x'.wanted i w =
      (p.tagging x.vlan_dot1q_tag_native x.vlan_xlate_tunnel
          (x.vlans w) w).getD .clear := fun w => by
    rw [wanted, h.conf]
    dsimp only
    rw [update_self]
  rw [VlanTable.inStep_iff]
  constructor
  · intro hall hstack hmode w hw
    have hfront : x'.Front c i := ⟨hstack, by rwa [h.ports]⟩
    rw [← h.self, ← hself]
    exact hall w ((hlive w).mpr hw) i hfront
  · intro hall w hw j hj
    by_cases hji : j = i
    · rw [hji] at hj ⊢
      rw [h.self, hself]
      exact hall hj.1 (h.ports ▸ hj.2) w ((hlive w).mp hw)
    · have hports : x'.ports j = x.ports j := by
        rw [h.conf]
        exact update_of_ne hji ..
      have hfront : x.Front c j := ⟨hj.1, hports ▸ hj.2⟩
      have hwanted : x'.wanted j w = x.wanted j w := by
        rw [wanted, hports, h.conf]
        rfl
      rw [h.other j w hji, hwanted]
      exact VlanTable.inStep_iff.mp hx w ((hlive w).mp hw) j hfront

end VlanTable.Rewrites

namespace VlanTable

variable {nports : ℕ} {c : VlanLayout nports} {x x' : VlanTable nports}

/-! ## Steady changes -/

/-- What is left of a VLAN after the rules of the ports of a list were cleared. -/
def cleared (x : VlanTable nports) (l : List (Fin nports)) (vid : ℕ) : TagVlan :=
  { x.vlans vid with
    vt_refc := (x.vlans vid).vt_refc - (l.map fun i =>
      if (x.ports i).Drops allVids vid then (((x.ports i).vlan_conf vid).refc : ℤ) else 0).sum }

/-- The ports that `port_clear_translation` is about. -/
def clearedPorts (c : VlanLayout nports) (pid : ℕ) : List (Fin nports) :=
  if pid = c.ALL_PORTS then List.finRange nports else (portPtr nports pid).toList

/-- A change that rewrites entries only as `setup_tagging` would: no voice VLAN that is there is
set, and where entries of a port in trunk mode are rewritten, the two decisions agree. Where
references change and entries are not rewritten, they do not count. -/
def Steady (c : VlanLayout nports) (x : VlanTable nports) : Op → Prop
  | .setDot1qTagNative value => value ≠ x.vlan_dot1q_tag_native → ∀ i, c.stack i = false →
      (x.ports i).mode = .PM_TRUNK → x.Live (x.ports i).native_vid →
      ((x.ports i).vlan_conf (x.ports i).native_vid).refc ≠ 0
  | .setVoiceVid pid vid => ∀ i, portPtr nports pid = some i → c.stack i = false →
      (x.ports i).mode = .PM_ACCESS → (x.ports i).access_vid ≠ vid → ¬x.Live vid
  | .setNativeVid pid vid => ∀ i, portPtr nports pid = some i → c.stack i = false →
      (x.ports i).mode = .PM_TRUNK → vlanValid vid →
      ∀ w, w = (x.ports i).native_vid ∨ w = vid → x.Live w →
        TagPort.Concordant { x.ports i with native_vid := vid } x.vlan_xlate_tunnel (x.vlans w) w
  | .setTrunkVlans pid bmp => ∀ i, portPtr nports pid = some i → c.stack i = false →
      (x.ports i).mode = .PM_TRUNK →
      ∀ w, x.Live w → ((x.ports i).vlan_conf w).tallow ≠ bmp w →
        ((x.ports i).allow bmp allVids).Concordant x.vlan_xlate_tunnel (x.vlans w) w
  | .setMode pid mode => ∀ i, portPtr nports pid = some i → c.stack i = false →
      (x.ports i).mode ≠ mode → mode = .PM_TRUNK →
      ∀ w, x.Live w → (x.ports i).Concordant x.vlan_xlate_tunnel (x.vlans w) w
  | .translate pid fromVid toVid add => ∀ i, portPtr nports pid = some i →
      ¬x.BadRule fromVid toVid →
      ∀ y vids, x.changeRule i fromVid toVid add = some (y, vids) →
      ∀ w ∈ vids, x.Live w → ∀ j, c.stack j = false → (x.ports j).mode = .PM_TRUNK →
        -- the entries are rewritten only if the port of the rule is in trunk mode
        if (x.ports i).mode = .PM_TRUNK then
          (y.ports j).Concordant x.vlan_xlate_tunnel (y.vlans w) w
        else (x.ports j).Settled x.vlan_xlate_tunnel (x.vlans w) (y.vlans w) w
  | .clearTranslation pid =>
      ∀ w, x.Live w → ∀ j, c.stack j = false → (x.ports j).mode = .PM_TRUNK →
        if j ∈ clearedPorts c pid ∧ (x.ports j).Drops allVids w then
          ((x.ports j).vlan_conf w).tallow = true ∧ (x.ports j).native_vid ≠ w ∧
            (x.cleared (clearedPorts c pid) w).vt_refc ≠ 0 ∧ x.vlan_xlate_tunnel = true
        else (x.ports j).Settled x.vlan_xlate_tunnel (x.vlans w)
          (x.cleared (clearedPorts c pid) w) w
  | .setXlateTunnel enable => x.vlan_xlate_tunnel ≠ enable →
      ∀ w, x.Live w → ∀ j, c.stack j = false → (x.ports j).mode = .PM_TRUNK →
        (((x.ports j).vlan_conf w).refc = 0 ∨ (x.ports j).Drops allVids w) ∧
          ((x.ports j).vlan_conf w).tallow = true ∧ (x.ports j).native_vid ≠ w ∧
            (x.cleared (List.finRange nports) w).vt_refc ≠ 0 ∧ enable = true
  | _ => True

/-- The loop goes over the valid VLANs. -/
theorem mem_allVids {w : ℕ} : w ∈ allVids ↔ vlanValid w := by
  unfold allVids vlanValid
  rw [List.mem_range'_1]
  omega

/-- The loop meets each VLAN once. -/
theorem nodup_allVids : allVids.Nodup := by
  unfold allVids
  exact List.nodup_range'

/-- A live VLAN is met by the loop. -/
theorem Live.mem {w : ℕ} (h : x.Live w) : w ∈ allVids := mem_allVids.mpr h.1

/-- What a table in step has for a port. -/
theorem InStep.member (hx : InStep c x) {i : Fin nports} (hstack : c.stack i = false)
    (hmode : (x.ports i).mode = .PM_ACCESS ∨ (x.ports i).mode = .PM_TRUNK) {w : ℕ} (hw : x.Live w) :
    x.member c i w = x.wanted i w := inStep_iff.mp hx w hw i ⟨hstack, hmode⟩

/-- A number names at most one port. -/
theorem forall_portPtr {pid : ℕ} {i : Fin nports} {P : Fin nports → Prop}
    (hp : portPtr nports pid = some i) : (∀ j, portPtr nports pid = some j → P j) ↔ P i := by
  refine ⟨fun h => h i hp, fun h j hj => ?_⟩
  obtain rfl := Option.some_inj.mp (hp.symm.trans hj)
  exact h

/-- A change of settings that are not about the mode of the port, and of no entry. -/
theorem InStep.setPort (hx : InStep c x) {i : Fin nports} {p : TagPort}
    (hmode : p.mode = (x.ports i).mode)
    (haccess : p.mode = .PM_ACCESS → p.access_vid = (x.ports i).access_vid ∧
      p.voice_vid = (x.ports i).voice_vid)
    (htrunk : p.mode = .PM_TRUNK → p.native_vid = (x.ports i).native_vid ∧
      p.vlan_conf = (x.ports i).vlan_conf) : InStep c (x.setPort i p) := by
  refine (((Rewrites.refl c x i).setPort p).inStep_iff hx).mpr fun hstack hfront w hw => ?_
  rw [hmode] at hfront haccess htrunk
  refine (hx.member hstack hfront hw).trans
    (congrArg (Option.getD · _) (TagPort.tagging_congr hmode hfront
    (fun h => ?_) fun h => ?_).symm)
  · rw [(haccess h).1, (haccess h).2]
    exact ⟨Iff.rfl, Iff.rfl⟩
  · rw [(htrunk h).1, (htrunk h).2]
    exact ⟨Iff.rfl, rfl⟩

/-- A new access VLAN. -/
theorem InStep.setAccessVid (hdel : ∀ m, c.portDelete m = .clear) (hx : InStep c x) (pid vid : ℕ) :
    InStep c (x.portSetAccessVid c pid vid).1 := by
  unfold portSetAccessVid
  cases portPtr nports pid with
  | none => exact hx
  | some i =>
    dsimp only
    by_cases hvid : vlanValid vid
    · rw [if_neg (not_not.mpr hvid)]
      by_cases hvoice : (x.ports i).voice_vid = vid
      · rw [dif_pos hvoice]
        exact hx
      · rw [dif_neg hvoice]
        split_ifs with hstack hmode
        · exact hx
        · -- the port is in access mode: the old VLAN is left before the new one is entered
          have hrw := ((((Rewrites.refl c x i).memberSet (x.ports i).access_vid
            (c.portDelete (x.entry (x.ports i).access_vid (c.hw i)))).memberSet vid
            ⟨true, false, .UNTAGGED⟩).setPort
            { x.ports i with access_vid := vid, access_ne_voice := Ne.symm hvoice })
          refine (hrw.inStep_iff hx).mpr fun hstack _ w hw => ?_
          rw [TagPort.tagging_access (by exact hmode)]
          dsimp only
          by_cases hnew : w = vid
          · rw [if_pos hnew, if_pos hnew.symm]
            rfl
          · have hnew' : vid ≠ w := fun h => hnew h.symm
            rw [if_neg hnew, if_neg hnew']
            by_cases hold : w = (x.ports i).access_vid
            · have hvoice' : (x.ports i).voice_vid ≠ w := fun h =>
                (x.ports i).access_ne_voice (hold.symm.trans h.symm)
              rw [if_pos hold, hdel, if_neg hvoice']
              rfl
            · have hold' : (x.ports i).access_vid ≠ w := fun h => hold h.symm
              rw [if_neg hold]
              refine (hx.member hstack (.inl hmode) hw).trans ?_
              rw [wanted, TagPort.tagging_access hmode, if_neg hold']
        · -- the access VLAN of a port in another mode is only noted down
          exact hx.setPort rfl (fun h => absurd h hmode) fun _ => ⟨rfl, rfl⟩
    · rw [if_pos hvid]
      exact hx

/-- A write for a VLAN that may be 0 is one for a VLAN that is there. -/
theorem Rewrites.ite_write {y : VlanTable nports} {i : Fin nports} {p : TagPort}
    {f : ℕ → Option VlanMember} (h : Rewrites c x y i p f) (vid : ℕ) (m : VlanMember) :
    ∃ g, Rewrites c x (if vid ≠ 0 then y.memberSet c i vid m else y) i p g ∧
      ∀ w, w ≠ 0 → g w = if w = vid then some m else f w := by
  by_cases hvid : vid ≠ 0
  · rw [if_pos hvid]
    exact ⟨_, h.memberSet vid m, fun _ _ => rfl⟩
  · rw [if_neg hvid]
    exact ⟨f, h, fun w hw => (if_neg fun heq : w = vid => hvid (heq ▸ hw)).symm⟩

/-- A new voice VLAN keeps the table in step only if it is not there. -/
theorem InStep.setVoiceVid_iff (hdel : ∀ m, c.portDelete m = .clear) (hx : InStep c x)
    (pid vid : ℕ) :
    InStep c (x.portSetVoiceVid c pid vid).1 ↔ Steady c x (.setVoiceVid pid vid) := by
  unfold portSetVoiceVid
  cases hp : portPtr nports pid with
  | none => exact iff_of_true hx fun i hi => by cases hp.symm.trans hi
  | some i =>
    have hsteady : Steady c x (.setVoiceVid pid vid) ↔ (c.stack i = false →
      (x.ports i).mode = .PM_ACCESS → (x.ports i).access_vid ≠ vid →
        ¬x.Live vid) := forall_portPtr hp
    rw [hsteady]
    dsimp only
    -- a VLAN that is refused changes nothing
    by_cases hvid : vid = 0 ∨ vlanValid vid
    · rw [if_neg (not_not.mpr hvid)]
      by_cases haccess : (x.ports i).access_vid = vid
      · rw [dif_pos haccess]
        exact iff_of_true hx fun _ _ h => absurd haccess h
      · rw [dif_neg haccess]
        cases hstack : c.stack i with
        | true => exact iff_of_true hx fun h => Bool.noConfusion h
        | false =>
          rw [if_neg Bool.false_ne_true]
          -- only an access port has its voice VLAN written
          by_cases hmode : (x.ports i).mode = .PM_ACCESS
          · rw [if_pos hmode]
            obtain ⟨g, hg, hgw⟩ := (Rewrites.refl c x i).ite_write (x.ports i).voice_vid
              (c.portDelete (x.entry (x.ports i).voice_vid (c.hw i)))
            obtain ⟨f, hf, hfw⟩ := hg.ite_write vid ⟨true, false, .TAG0⟩
            refine ((hf.setPort { x.ports i with voice_vid := vid, access_ne_voice := haccess }).inStep_iff
              hx).trans ?_
            constructor
            · -- the command differs from that of a VLAN that is added later
              intro hall _ _ _ hlive
              have hne : vid ≠ 0 := Nat.pos_iff_ne_zero.mp hlive.1.1
              have heq := hall hstack (.inl hmode) vid hlive
              rw [hfw vid hne, if_pos rfl, TagPort.tagging_access (by exact hmode)] at heq
              dsimp only at heq
              rw [if_neg haccess, if_pos rfl] at heq
              exact VlanTagCmd.noConfusion (congrArg VlanMember.tagCmd heq)
            · -- the VLAN is not live, so only the old voice VLAN has changed
              intro hnot _ _ w hlive
              have hne : w ≠ 0 := Nat.pos_iff_ne_zero.mp hlive.1.1
              have hnew : w ≠ vid := fun h => hnot rfl hmode haccess (h ▸ hlive)
              have hnew' : vid ≠ w := fun h => hnew h.symm
              rw [hfw w hne, if_neg hnew, hgw w hne, TagPort.tagging_access (by exact hmode)]
              dsimp only
              rw [if_neg hnew']
              by_cases hold : w = (x.ports i).voice_vid
              · have haccess' : (x.ports i).access_vid ≠ w := fun h =>
                  (x.ports i).access_ne_voice (h.trans hold)
                rw [if_pos hold, hdel, if_neg haccess']
                rfl
              · have hold' : (x.ports i).voice_vid ≠ w := fun h => hold h.symm
                rw [if_neg hold]
                refine (hx.member hstack (.inl hmode) hlive).trans ?_
                rw [wanted, TagPort.tagging_access hmode, if_neg hold']
          · rw [if_neg hmode]
            refine iff_of_true ?_ fun _ h => absurd h hmode
            exact hx.setPort rfl (fun h => absurd h hmode) fun _ => ⟨rfl, rfl⟩
    · rw [if_pos hvid]
      exact iff_of_true hx fun _ _ _ hlive => hvid (.inr hlive.1)

/-- A new native VLAN keeps the table in step if and only if the two decisions agree on the old one
and the new one. -/
theorem InStep.setNativeVid_iff (hx : InStep c x) (pid vid : ℕ) :
    InStep c (x.portSetNativeVid c pid vid).1 ↔ Steady c x (.setNativeVid pid vid) := by
  unfold portSetNativeVid
  cases hp : portPtr nports pid with
  | none => exact iff_of_true hx fun i hi => by cases hp.symm.trans hi
  | some i =>
    have hsteady : Steady c x (.setNativeVid pid vid) ↔ (c.stack i = false →
      (x.ports i).mode = .PM_TRUNK → vlanValid vid →
      ∀ w, w = (x.ports i).native_vid ∨ w = vid → x.Live w →
        TagPort.Concordant { x.ports i with native_vid := vid } x.vlan_xlate_tunnel
            (x.vlans w) w) :=
      forall_portPtr hp
    rw [hsteady]
    dsimp only
    -- a VLAN that is refused changes nothing
    by_cases hvid : vlanValid vid
    · rw [if_neg (not_not.mpr hvid)]
      cases hstack : c.stack i with
      | true => exact iff_of_true hx fun h => Bool.noConfusion h
      | false =>
        rw [if_neg Bool.false_ne_true]
        by_cases hmode : (x.ports i).mode = .PM_TRUNK
        · rw [if_pos hmode]
          have hrw := (((Rewrites.refl c x i).setPort
            { x.ports i with native_vid := vid }).portUpdateTrunkVlan
              (x.ports i).native_vid).portUpdateTrunkVlan vid
          have hagree : ∀ w, TagPort.trunkMember { x.ports i with native_vid := vid }
              x.vlan_dot1q_tag_native x.vlan_xlate_tunnel (x.vlans w) w = _ ↔ _ := fun w =>
            @TagPort.trunkMember_eq_iff { x.ports i with native_vid := vid } _ _ _ _ hmode
          refine (hrw.inStep_iff hx).trans
            ⟨fun hall _ _ _ w hw hlive => ?_, fun hall _ _ w hlive => ?_⟩
          · have heq := hall hstack (.inr hmode) w hlive
            rw [Rewrites.ite_trunkWrite hlive, Rewrites.ite_trunkWrite hlive, ← ite_or,
              if_pos hw.symm] at heq
            exact (hagree w).mp heq
          · -- the old and the new native VLAN are written, in this order
            rw [Rewrites.ite_trunkWrite hlive, Rewrites.ite_trunkWrite hlive, ← ite_or]
            by_cases hw : w = vid ∨ w = (x.ports i).native_vid
            · rw [if_pos hw]
              exact (hagree w).mpr (hall rfl hmode hvid w hw.symm hlive)
            · -- the other VLANs are decided without the native one
              obtain ⟨hnew, hold⟩ := not_or.mp hw
              rw [if_neg hw]
              have hsame : TagPort.tagging
                  { x.ports i with native_vid := vid } x.vlan_dot1q_tag_native
                  x.vlan_xlate_tunnel (x.vlans w) w = (x.ports i).tagging x.vlan_dot1q_tag_native
                  x.vlan_xlate_tunnel (x.vlans w) w :=
                TagPort.tagging_congr rfl (.inr hmode) (fun _ => ⟨Iff.rfl, Iff.rfl⟩) fun _ =>
                  ⟨iff_of_false (fun h => hnew h.symm) fun h => hold h.symm, rfl⟩
              rw [hsame]
              exact hx.member hstack (.inr hmode) hlive
        · rw [if_neg hmode]
          refine iff_of_true ?_ fun _ h => absurd h hmode
          exact hx.setPort rfl (fun _ => ⟨rfl, rfl⟩) fun h => absurd h hmode
    · rw [if_pos hvid]
      exact iff_of_true hx fun _ _ h => absurd h hvid

/-- A new VLAN of a port in customer mode. -/
theorem InStep.setCustomerVid (hx : InStep c x) (pid vid : ℕ) :
    InStep c (x.portSetCustomerVid c pid vid).1 := by
  unfold portSetCustomerVid
  cases portPtr nports pid with
  | none => exact hx
  | some i =>
    dsimp only
    split_ifs with hvid hstack hmode
    · exact hx
    · have hrw := ((((Rewrites.refl c x i).memberSet (x.ports i).customer_vid
        (c.portDelete (x.entry (x.ports i).customer_vid (c.hw i)))).memberSet vid
        ⟨true, true, .POP_OUTER_TAG⟩).setPort { x.ports i with customer_vid := vid })
      refine (hrw.inStep_iff hx).mpr fun _ hfront => ?_
      exact hfront.elim (fun h => PortMode.noConfusion (hmode.symm.trans h))
        fun h => PortMode.noConfusion (hmode.symm.trans h)
    · exact hx.setPort rfl (fun _ => ⟨rfl, rfl⟩) fun _ => ⟨rfl, rfl⟩
    · exact hx

/-- New bits keep the table in step if and only if the two decisions agree on the VLANs that are
allowed now and were not, and on those that were. -/
theorem InStep.setTrunkVlans_iff (hx : InStep c x) (pid : ℕ) (bmp : ℕ → Bool) :
    InStep c (x.portSetTrunkVlans c pid bmp).1 ↔ Steady c x (.setTrunkVlans pid bmp) := by
  unfold portSetTrunkVlans
  cases hp : portPtr nports pid with
  | none => exact iff_of_true hx fun i hi => by cases hp.symm.trans hi
  | some i =>
    have hsteady : Steady c x (.setTrunkVlans pid bmp) ↔ (c.stack i = false →
      (x.ports i).mode = .PM_TRUNK → ∀ w, x.Live w → ((x.ports i).vlan_conf w).tallow ≠ bmp w →
        ((x.ports i).allow bmp allVids).Concordant x.vlan_xlate_tunnel (x.vlans w) w) :=
          forall_portPtr hp
    rw [hsteady]
    dsimp only
    have hrw := (Rewrites.refl c x i).foldl_allowVlan bmp nodup_allVids
    have hkeep : ∀ w, (x.ports i).mode = .PM_ACCESS ∨ (x.ports i).mode = .PM_TRUNK →
        ((x.ports i).mode = .PM_TRUNK → ((x.ports i).vlan_conf w).tallow = bmp w) →
        ((x.ports i).allow bmp allVids).tagging x.vlan_dot1q_tag_native x.vlan_xlate_tunnel
          (x.vlans w) w =
          (x.ports i).tagging x.vlan_dot1q_tag_native x.vlan_xlate_tunnel (x.vlans w) w := by
      intro w hfront hsame
      refine TagPort.tagging_congr rfl hfront (fun _ => ⟨Iff.rfl, Iff.rfl⟩) fun h => ⟨Iff.rfl, ?_⟩
      refine ite_eq_right_iff.mpr fun _ => ?_
      rw [← hsame h]
    refine (hrw.inStep_iff hx).trans (forall_congr' fun hstack => ?_)
    constructor
    · intro hall hmode w hlive hne
      have hmode' : ((x.ports i).allow bmp allVids).mode = .PM_TRUNK := hmode
      have heq := hall (.inr hmode) w hlive
      rw [Rewrites.trunkWrite_live hlive, if_pos ⟨hlive.mem, hne, hmode, rfl⟩] at heq
      exact (TagPort.trunkMember_eq_iff hmode').mp heq
    · intro hall hfront w hlive
      by_cases hwrite : (x.ports i).mode = .PM_TRUNK ∧ ((x.ports i).vlan_conf w).tallow ≠ bmp w
      · obtain ⟨hmode, hne⟩ := hwrite
        have hmode' : ((x.ports i).allow bmp allVids).mode = .PM_TRUNK := hmode
        rw [Rewrites.trunkWrite_live hlive, if_pos ⟨hlive.mem, hne, hmode, rfl⟩]
        exact (TagPort.trunkMember_eq_iff hmode').mpr (hall hmode w hlive hne)
      · rw [if_neg fun h => hwrite ⟨h.2.2.1, h.2.1⟩, hkeep w hfront fun hmode =>
          not_not.mp fun hne => hwrite ⟨hmode, hne⟩]
        exact hx.member hstack hfront hlive

/-- A new mode keeps the table in step if and only if it is not the trunk mode or the two decisions
agree on all VLANs that are there. -/
theorem InStep.setMode_iff (hx : InStep c x) (pid : ℕ) (mode : PortMode) :
    InStep c (x.portSetMode c pid mode).1 ↔ Steady c x (.setMode pid mode) := by
  unfold portSetMode
  cases hp : portPtr nports pid with
  | none => exact iff_of_true hx fun i hi => by cases hp.symm.trans hi
  | some i =>
    have hsteady : Steady c x (.setMode pid mode) ↔ (c.stack i = false → (x.ports i).mode ≠ mode →
      mode = .PM_TRUNK → ∀ w, x.Live w →
        (x.ports i).Concordant x.vlan_xlate_tunnel (x.vlans w) w) :=
      forall_portPtr hp
    rw [hsteady]
    dsimp only
    cases hstack : c.stack i with
    | true => exact iff_of_true hx fun h => Bool.noConfusion h
    | false =>
      rw [if_neg Bool.false_ne_true]
      -- a port that is in the mode already is not touched
      by_cases hmode : (x.ports i).mode = mode
      · rw [if_pos hmode]
        exact iff_of_true hx fun _ h => absurd hmode h
      · rw [if_neg hmode]
        cases mode with
        | PM_ACCESS =>
          refine iff_of_true ?_ fun _ _ h => PortMode.noConfusion h
          obtain ⟨g, hg, hgw⟩ := ((Rewrites.refl c x i).portVlanBulkOp (x.ports i).access_vid
            ⟨true, false, .UNTAGGED⟩ ⟨false, false, .UNTAGGED⟩).ite_write (x.ports i).voice_vid
            ⟨true, false, .OUTER_TAG0_INNER_TAG1⟩
          refine ((hg.setPort { x.ports i with mode := .PM_ACCESS }).inStep_iff hx).mpr
            fun _ _ w hlive => ?_
          rw [hgw w (Nat.pos_iff_ne_zero.mp hlive.1.1), TagPort.tagging_access rfl]
          dsimp only
          -- the voice VLAN and the access VLAN are written last
          by_cases hvoice : w = (x.ports i).voice_vid
          · have haccess : (x.ports i).access_vid ≠ w := fun h =>
              (x.ports i).access_ne_voice (h.trans hvoice)
            rw [if_pos hvoice, if_neg haccess, if_pos hvoice.symm]
            rfl
          · have hvoice' : (x.ports i).voice_vid ≠ w := fun h => hvoice h.symm
            rw [if_neg hvoice, if_neg hvoice']
            by_cases haccess : w = (x.ports i).access_vid
            · rw [if_pos haccess, if_pos haccess.symm]
              rfl
            · have haccess' : (x.ports i).access_vid ≠ w := fun h => haccess h.symm
              rw [if_neg haccess, if_neg haccess', if_pos ⟨hlive.mem, hlive.2⟩]
              rfl
        -- a trunk port gets only what differs from the members that it leaves behind
        | PM_TRUNK =>
          have hrw := ((Rewrites.refl c x i).portSetTrunkMode).setPort
              { x.ports i with mode := .PM_TRUNK }
          have hagree : ∀ w, TagPort.trunkMember { x.ports i with mode := .PM_TRUNK }
              x.vlan_dot1q_tag_native x.vlan_xlate_tunnel (x.vlans w) w = _ ↔ _ := fun w =>
            @TagPort.trunkMember_eq_iff { x.ports i with mode := .PM_TRUNK } _ _ _ _ rfl
          refine (hrw.inStep_iff hx).trans
            ⟨fun hall _ _ _ w hlive => ?_, fun hall _ _ w hlive => ?_⟩
          · have heq := hall hstack (.inr rfl) w hlive
            rw [Rewrites.ite_trunkWrite hlive, if_pos hlive.mem] at heq
            exact (hagree w).mp heq
          · rw [Rewrites.ite_trunkWrite hlive, if_pos hlive.mem]
            exact (hagree w).mpr (hall rfl hmode rfl w hlive)
        | PM_CUSTOMER =>
          -- a customer port takes no part in the agreement
          refine iff_of_true ?_ fun _ _ h => PortMode.noConfusion h
          have hrw := ((Rewrites.refl c x i).portVlanBulkOp (x.ports i).customer_vid
            ⟨true, true, .POP_OUTER_TAG⟩ ⟨false, false, .UNTAGGED⟩).setPort
            { x.ports i with mode := .PM_CUSTOMER }
          refine (hrw.inStep_iff hx).mpr fun _ hfront => ?_
          exact hfront.elim (fun h => PortMode.noConfusion h) fun h => PortMode.noConfusion h
        | other n => exact iff_of_true hx fun _ _ h => PortMode.noConfusion h

/-- A VLAN that is added gets the entry that it is to have. -/
theorem InStep.vlanAdd (hx : InStep c x) (vid : ℕ) : InStep c (x.vlanAdd c vid).1 := by
  unfold VlanTable.vlanAdd
  split_ifs with hvid
  · refine inStep_iff.mpr fun w hw i hi => ?_
    unfold VlanTable.member wanted
    dsimp only
    by_cases hnew : w = vid
    · rw [hnew, update_self, update_self, setupTagging_front hi.1]
      rfl
    · have hlive : x.Live w := ⟨hw.1, by simpa only [update_of_ne hnew] using hw.2⟩
      rw [update_of_ne hnew, update_of_ne hnew]
      exact inStep_iff.mp hx w hlive i hi
  · exact hx

/-- **Step.** A VLAN that is deleted is live no more. -/
theorem InStep.vlanDelete (hx : InStep c x) (vid : ℕ) : InStep c (x.vlanDelete vid).1 := by
  unfold VlanTable.vlanDelete
  split_ifs with hvid
  · refine inStep_iff.mpr fun w hw i hi => ?_
    have hne : w ≠ vid := by
      rintro rfl
      refine hw.2 ?_
      dsimp only
      rw [update_self]
    have hlive : x.Live w := ⟨hw.1, by simpa only [update_of_ne hne] using hw.2⟩
    unfold wanted
    dsimp only
    rw [update_of_ne hne]
    exact inStep_iff.mp hx w hlive i hi
  · exact hx

/-- The rounds of `vlan_set_dot1q_tag_native` over a list of ports. -/
theorem foldl_tagNative (m : VlanMember) (l : List (Fin nports)) :
    l.foldl (tagNative c m) x = { x with entry := (l.foldl (tagNative c m) x).entry } ∧
      ∀ j w, (l.foldl (tagNative c m) x).member c j w =
        if j ∈ l ∧ (x.ports j).mode = .PM_TRUNK ∧
          ((x.ports j).vlan_conf (x.ports j).native_vid).refc = 0 ∧
            w = (x.ports j).native_vid then m
        else x.member c j w := by
  refine @foldl_entries nports c x _ (tagNative c m) (fun i j w => j = i ∧
    (x.ports j).mode = .PM_TRUNK ∧
    ((x.ports j).vlan_conf (x.ports j).native_vid).refc = 0 ∧ w = (x.ports j).native_vid)
    (fun _ _ _ => inferInstance) (fun _ _ => m) (fun e i => ?_)
      (fun e i j w => ?_) l _ _ fun j w => ?_
  · unfold tagNative
    dsimp only
    split_ifs <;> rfl
  · unfold tagNative
    dsimp only
    by_cases hon : (x.ports i).mode = .PM_TRUNK ∧
        ((x.ports i).vlan_conf (x.ports i).native_vid).refc = 0
    · rw [if_pos hon, member_memberSet]
      refine if_congr (and_congr_right fun hj => ?_) rfl rfl
      rw [hj]
      exact ⟨fun hw => ⟨hon.1, hon.2, hw⟩, fun h => h.2.2⟩
    · rw [if_neg hon, if_neg]
      rintro ⟨rfl, hmode, hrefc, _⟩
      exact hon ⟨hmode, hrefc⟩
  · refine ⟨fun h => ⟨j, h.1, rfl, h.2⟩, ?_⟩
    rintro ⟨i, hi, rfl, h⟩
    exact ⟨hi, h⟩

/-- The flag keeps the table in step if and only if it does not change or the native VLAN of every
port in trunk mode is a target of translation there. -/
theorem InStep.setDot1qTagNative_iff (hx : InStep c x) (value : ℤ) :
    InStep c (x.vlanSetDot1qTagNative c value).1 ↔ Steady c x (.setDot1qTagNative value) := by
  unfold vlanSetDot1qTagNative
  dsimp only
  by_cases hvalue : value ≠ x.vlan_dot1q_tag_native
  · rw [if_pos hvalue]
    generalize hm : (if value ≠ 0 then ⟨true, true, .TAG0⟩ else ⟨true, false, .UNTAGGED⟩ : VlanMember) = m
    obtain ⟨hconf, hmember⟩ := @foldl_tagNative nports c x m (List.finRange nports)
    generalize (List.finRange nports).foldl (tagNative c m) x = y at hconf hmember ⊢
    have hwanted : ∀ i w, VlanTable.wanted { y with vlan_dot1q_tag_native := value } i w =
        ((x.ports i).tagging value x.vlan_xlate_tunnel (x.vlans w) w).getD .clear := fun i w => by
      rw [hconf]
      rfl
    -- the flag decides neither which VLANs are live nor which ports take part
    have hlive : ∀ w, VlanTable.Live { y with vlan_dot1q_tag_native := value } w ↔
        x.Live w := fun w => by
      rw [hconf]
      exact Iff.rfl
    have hfront : ∀ i, VlanTable.Front c { y with vlan_dot1q_tag_native := value } i ↔
        x.Front c i :=
      fun i => by
        rw [hconf]
        exact Iff.rfl
    rw [inStep_iff]
    constructor
    · -- neither value of the flag is written as the native VLAN is set up
      intro hall _ i hstack hmode hnative hrefc
      have heq := hall _ ((hlive _).mpr hnative) i ((hfront i).mpr ⟨hstack, .inr hmode⟩)
      rw [hwanted] at heq
      have heq := (hmember i (x.ports i).native_vid).symm.trans heq
      rw [if_pos ⟨List.mem_finRange i, hmode, hrefc, rfl⟩, TagPort.tagging_native hmode hrefc rfl,
        ← hm] at heq
      by_cases hzero : value = 0
      · rw [if_neg (not_not.mpr hzero)] at heq
        exact Bool.false_ne_true (congrArg VlanMember.isTagged heq)
      · rw [if_pos hzero, if_pos hzero] at heq
        exact VlanTagCmd.noConfusion (congrArg VlanMember.tagCmd heq)
    · -- elsewhere no port has the VLAN as its native one, so nothing is written
      intro hall w hw i hi
      have hw := (hlive w).mp hw
      have hi := (hfront i).mp hi
      rw [hwanted]
      refine (hmember i w).trans ?_
      have hkeep : ¬((x.ports i).mode = .PM_TRUNK ∧
          ((x.ports i).vlan_conf (x.ports i).native_vid).refc = 0 ∧
            w = (x.ports i).native_vid) := by
        rintro ⟨hmode, hrefc, rfl⟩
        exact hall hvalue i hi.1 hmode hw hrefc
      rw [if_neg fun h => hkeep h.2]
      refine (inStep_iff.mp hx w hw i hi).trans (congrArg (Option.getD · _) ?_)
      refine TagPort.tagging_flag hi.2 fun hmode => ?_
      by_cases hnative : (x.ports i).native_vid = w
      · exact .inl fun hrefc => hkeep ⟨hmode, hnative ▸ hrefc, hnative.symm⟩
      · exact .inr hnative
  · -- the flag has the value already
    obtain rfl := not_ne_iff.mp hvalue
    rw [if_neg hvalue]
    exact iff_of_true hx fun h => absurd h hvalue

end VlanTable

end Presteramgr
