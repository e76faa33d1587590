import Presteramgr.Lib.Keyed
import Presteramgr.Stack.LinkState

/-!
# Trunks and multicast groups (`vif.c`, `trunk.h`, `mcg.c`)

A trunk has up to eight member ports, each enabled or not, and a list of the multicast groups that
it belongs to. A port points back to its trunk. The ports of a multicast group are kept beside the
hardware.

## Main definitions

* `VifTable`: the ports of all units as one unit knows them;
* `Trunks`: the trunks, the back pointers of the ports, their link states, and the groups;
* `Trunks.vifMcgAddVif` and `Trunks.vifMcgDelVif`;
* `Trunks.vifSetTrunkMembers` and `Trunks.vifSetLinkStatus`.
-/

namespace Presteramgr

open Function (update update_self update_of_ne)

/-! ## Ports -/

/-- `gif_type_t`, other values included. -/
inductive GifType
  | GIFT_FE
  | GIFT_GE
  | GIFT_XG
  | other (n : ℕ)
deriving DecidableEq, Repr

/-- `struct gif_id`. -/
structure GifId where
  type : GifType
  dev : ℕ
  num : ℕ
deriving DecidableEq, Repr

/-- `struct trunk_member`. -/
structure TrunkMember where
  id : GifId
  enabled : Bool
deriving DecidableEq, Repr

/-- The ports of all units in `vifs`. -/
structure VifTable where
  stack_id : ℕ
  /-- `vifs[dev].n_by_type[type]`. -/
  nByType : ℕ → VifType → ℕ
  valid : VifRef → Bool
  /-- `vif_init` makes the unit's own ports valid. -/
  valid_own : ∀ type num, valid (.port stack_id type num) = true
  /-- `PORT_SPEED_10`. -/
  speed10 : ℕ

namespace VifTable

variable (c : VifTable)

/-- `vif->islocal` of a port. -/
def isLocal : VifRef → Bool
  | .port dev _ _ => dev = c.stack_id
  | .trunk _ => false

/-- `vif_get` of a port. -/
def vifGet (type : VifType) (dev num : ℕ) : Option VifRef :=
  if 15 < dev then none
  else if c.stack_id = 0 ∧ dev ≠ 0 then none
  else
    let dev := if dev = 0 then c.stack_id else dev
    if c.nByType dev type < num ∨ num = 0 then none else some (.port dev type num)

/-- `vif_get_by_gif`. -/
def vifGetByGif (id : GifId) : Option VifRef :=
  match id.type with
  | .GIFT_FE => c.vifGet .VIFT_FE id.dev id.num
  | .GIFT_GE => c.vifGet .VIFT_GE id.dev id.num
  | .GIFT_XG => c.vifGet .VIFT_XG id.dev id.num
  | .other _ => none

end VifTable

/-! ## The state -/

/-- `struct trunk`, with `vif_port[i]` and `port_enabled[i]` for `i < nports`, and the keys of
`mcg_head`. -/
structure Trunk where
  vif_port : List (VifRef × Bool)
  designated : Option VifRef
  mcg_head : List ℕ
deriving DecidableEq, Repr

/-- The trunks and what belongs to them. -/
structure Trunks where
  /-- `trunks`. -/
  trunks : ℕ → Trunk
  /-- `vif->trunk`. -/
  trunk : VifRef → Option ℕ
  /-- `vif->state`. -/
  state : VifRef → PortLinkState
  /-- The ports of the groups that exist. -/
  groups : ℕ → Option (VifRef → Bool)

/-- What the hardware makes of `cpssDxChBrgMcMemberAdd` and `cpssDxChBrgMcMemberDelete` for a port
and a group during a call. -/
structure McgHw where
  add : VifRef → ℕ → Bool
  del : VifRef → ℕ → GtStatus

namespace Trunks

/-- The state after `trunk_init`, with the groups that exist. -/
def init (speed10 : ℕ) (groups : ℕ → Option (VifRef → Bool)) : Trunks where
  trunks _ := ⟨[], none, []⟩
  trunk _ := none
  state _ := ⟨false, speed10, 0⟩
  groups := groups

variable (c : VifTable) (hw : McgHw) (s : Trunks)

/-! ## Multicast groups -/

/-- The bit of a port in a group is written. -/
def setBit (mcg : ℕ) (ports : VifRef → Bool) (v : VifRef) (b : Bool) : Trunks :=
  { s with groups := update s.groups mcg (some (update ports v b)) }

/-- `mcg_add_port`. The status does not tell a failure of the hardware. -/
def mcgAddPort (mcg : ℕ) (v : VifRef) : Status × Trunks :=
  match s.groups mcg with
  | none => (.ST_DOES_NOT_EXIST, s)
  | some ports =>
    if ports v then (.ST_ALREADY_EXISTS, s)
    else if hw.add v mcg then (.ST_OK, s.setBit mcg ports v true)
    else (.ST_OK, s)

/-- `mcg_del_port`. -/
def mcgDelPort (mcg : ℕ) (v : VifRef) : Status × Trunks :=
  match s.groups mcg with
  | none => (.ST_DOES_NOT_EXIST, s)
  | some ports =>
    if ¬ports v then (.ST_DOES_NOT_EXIST, s)
    else
      match hw.del v mcg with
      | .GT_OK => (.ST_OK, s.setBit mcg ports v false)
      | .GT_HW_ERROR => (.ST_HW_ERROR, s)
      | .other => (.ST_HEX, s)

/-- A port is taken out of a group only where the hardware has done so. -/
theorem mcgDelPort_snd (mcg : ℕ) (v : VifRef) : (s.mcgDelPort hw mcg v).2 =
    match s.groups mcg with
    | none => s
    | some ports => if ports v ∧ hw.del v mcg = .GT_OK then s.setBit mcg ports v false else s := by
  unfold mcgDelPort
  cases s.groups mcg with
  | none => rfl
  | some ports =>
    dsimp only
    cases hp : ports v <;> cases hd : hw.del v mcg <;> simp

/-- `vif_mcg_add_vif_port` and `vif_mcg_add_vif_remote`. -/
def portMcgAdd (v : VifRef) (mcg : ℕ) : Status × Trunks :=
  if c.isLocal v then s.mcgAddPort hw mcg v else (.ST_REMOTE, s)

/-- `vif_mcg_del_vif_port` and `vif_mcg_del_vif_remote`. -/
def portMcgDel (v : VifRef) (mcg : ℕ) : Status × Trunks :=
  if c.isLocal v then s.mcgDelPort hw mcg v else (.ST_REMOTE, s)

/-- A port is added to groups. -/
def addToGroups (v : VifRef) (mcgs : List ℕ) : Trunks :=
  mcgs.foldl (fun s mcg => (s.portMcgAdd c hw v mcg).2) s

/-- A port is deleted from groups. -/
def delFromGroups (v : VifRef) (mcgs : List ℕ) : Trunks :=
  mcgs.foldl (fun s mcg => (s.portMcgDel c hw v mcg).2) s

/-- A change of a trunk. -/
def modifyTrunk (t : ℕ) (f : Trunk → Trunk) : Trunks :=
  { s with trunks := update s.trunks t (f (s.trunks t)) }

/-- The ports that are enabled in a trunk. -/
def enabled (t : ℕ) : List VifRef := ((s.trunks t).vif_port.filter (·.2)).map (·.1)

/-- `vif_mcg_add_vif_trunk`. -/
def trunkMcgAdd (t mcg : ℕ) : Status × Trunks :=
  if mcg ∈ (s.trunks t).mcg_head then (.ST_ALREADY_EXISTS, s)
  else
    let s := s.modifyTrunk t fun tr => { tr with mcg_head := tr.mcg_head ++ [mcg] }
    (.ST_OK, (s.enabled t).foldl (fun s v => (s.portMcgAdd c hw v mcg).2) s)

/-- `vif_mcg_del_vif_trunk`. -/
def trunkMcgDel (t mcg : ℕ) : Status × Trunks :=
  if mcg ∉ (s.trunks t).mcg_head then (.ST_DOES_NOT_EXIST, s)
  else
    let s := s.modifyTrunk t fun tr => { tr with mcg_head := tr.mcg_head.erase mcg }
    (.ST_OK, (s.enabled t).foldl (fun s v => (s.portMcgDel c hw v mcg).2) s)

/-- `vif_mcg_add_vif`. -/
def vifMcgAddVif (mcg : ℕ) : VifRef → Status × Trunks
  | .trunk t => s.trunkMcgAdd c hw t mcg
  | .port dev type num => s.portMcgAdd c hw (.port dev type num) mcg

/-- `vif_mcg_del_vif`. -/
def vifMcgDelVif (mcg : ℕ) : VifRef → Status × Trunks
  | .trunk t => s.trunkMcgDel c hw t mcg
  | .port dev type num => s.portMcgDel c hw (.port dev type num) mcg

/-! ## Link states -/

/-- `vif_update_trunk_link_status`. -/
def updateTrunkLinkStatus (t : ℕ) : Trunks :=
  let pls := (s.trunks t).vif_port.foldl (fun pls m =>
    if m.2 ∧ (s.state m.1).link then
      ⟨true, max (s.state m.1).speed pls.speed, max (s.state m.1).duplex pls.duplex⟩
    else pls) ⟨false, c.speed10, 0⟩
  { s with state := update s.state (.trunk t) pls }

/-- A port gets a link state, as in `vif_set_link_status` and `vif_process_ls_pkt`. -/
def vifSetLinkStatus (v : VifRef) (st : PortLinkState) : Trunks :=
  let s := { s with state := update s.state v st }
  match s.trunk v with
  | none => s
  | some t => s.updateTrunkLinkStatus c t

/-! ## Members -/

/-- A member of the trunk stays that is valid and in the new list. -/
def stays (mem : List TrunkMember) (m : VifRef × Bool) : Bool :=
  c.valid m.1 && mem.any fun x => c.vifGetByGif x.id = some m.1

/-- One round of the first loop of `vif_set_trunk_members`, for a member that does not stay. -/
def leave (t : ℕ) (v : VifRef) : Trunks :=
  { s with trunk := update s.trunk v none }.delFromGroups c hw v (s.trunks t).mcg_head

/-- The first loop of `vif_set_trunk_members`. -/
def dropMembers (t : ℕ) (mem : List TrunkMember) : Trunks :=
  let l := (s.trunks t).vif_port
  ((l.filter fun m => !stays c mem m).foldl (fun s m => s.leave c hw t m.1) s).modifyTrunk t
    fun tr => { tr with vif_port := l.filter (stays c mem) }

/-- One round of the second loop of `vif_set_trunk_members`. A new member that is enabled is deleted
from the groups of the trunk. -/
def enter (t : ℕ) (x : TrunkMember) : Trunks :=
  match c.vifGetByGif x.id with
  | none => s
  | some v =>
    let mcgs := (s.trunks t).mcg_head
    match (s.trunks t).vif_port.find? (·.1 = v) with
    | some m =>
      let s :=
        if x.enabled ∧ ¬m.2 then s.addToGroups c hw v mcgs
        else if ¬x.enabled ∧ m.2 then s.delFromGroups c hw v mcgs
        else s
      { s with trunk := update s.trunk v (some t) }.modifyTrunk t fun tr =>
        { tr with vif_port := Keyed.modifyFirst (·.1 = v) (fun _ => (v, x.enabled)) tr.vif_port }
    | none =>
      let s := { s with trunk := update s.trunk v (some t) }.modifyTrunk t fun tr =>
        { tr with vif_port := tr.vif_port ++ [(v, x.enabled)] }
      if x.enabled then s.delFromGroups c hw v mcgs else s

/-- `vif_set_trunk_members`. -/
def vifSetTrunkMembers (t : ℕ) (mem : List TrunkMember) : Trunks :=
  let s := mem.foldl (fun s x => s.enter c hw t x) (s.dropMembers c hw t mem)
  let s := s.modifyTrunk t fun tr =>
    { tr with designated := (tr.vif_port.find? (·.2)).map (·.1) }
  s.updateTrunkLinkStatus c t

end Trunks

end Presteramgr
