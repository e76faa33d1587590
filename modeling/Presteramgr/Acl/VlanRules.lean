import Presteramgr.Acl.RuleIndexes
import Presteramgr.Lib.Keyed

/-!
# Rules for VLAN translation (`pcl.c`)

The translation of a VLAN on a port takes two rule indices of a pool that the device of the port
has; the default translation of a port has an index of its own. What is freed is pushed on the stack
of free indices two at a time, and what is invalidated is invalidated on every device.

## Main definitions

* `VtIx`, `VtRules`: the translations, the free indices and the TCAM;
* `VtRules.pclSetupVt`, `VtRules.pclRemoveVt`, `VtRules.pclPortEnableVt`, `VtRules.pclPortClearVt`;
* `VtRules.Divided`: the free indices of a device and those of the translations divide its pool;
* `VtRules.Foreign`: an entry of the TCAM is for something else than the translation of the port;
* `VtRules.Apart`: no default translation is freed, and no index is used on another device.
-/

namespace Presteramgr

open Function (update)

/-- A hardware variant, with the number of each port on its device. -/
structure VtUnit extends AclConf where
  lport : ℕ → ℕ
  ALL_PORTS : ℕ
  NPORTS_lt : NPORTS < 2 ^ 16
  ALL_PORTS_invalid : ¬(1 ≤ ALL_PORTS ∧ ALL_PORTS ≤ NPORTS)

/-- `vt_key`. -/
def vtKey (pid fromVid : ℕ) : ℕ := pid <<< 12 ||| fromVid

/-- `vt_key_vid`. -/
def vtKeyVid (key : ℕ) : ℕ := key &&& 0xFFF

/-- `vt_key_pid`. -/
def vtKeyPid (key : ℕ) : ℕ := key >>> 12 &&& 0xFFFF

/-- `struct vt_ix`. -/
structure VtIx where
  key : ℕ
  tunnel : Bool
  toVid : ℕ
  ix : ℕ × ℕ
deriving DecidableEq, Repr

namespace VtIx

variable (e : VtIx)

/-- The VLAN of a translation, 0 for the default. -/
def vid : ℕ := vtKeyVid e.key

/-- The port of a translation. -/
def pid : ℕ := vtKeyPid e.key

/-- The two indices of a translation. -/
def ixs : List ℕ := [e.ix.1, e.ix.2]

/-- The indices at which a translation has rules. The default has one only. -/
def ruleIxs : List ℕ := if e.vid ≠ 0 then [e.ix.1, e.ix.2] else [e.ix.1]

end VtIx

/-- What a rule does with the VLAN of a packet. -/
inductive VtAction
  | assign (vlanId : ℕ) (nestedVlan : Bool)
  | drop
deriving DecidableEq, Repr

/-- A TCAM rule: for packets that arrive, for those that leave, or that of another feature. -/
inductive VtRule
  | ingress (pclId : ℕ) (vid : Option ℕ) (sourcePort : ℕ) (act : VtAction)
  | egress (pclId vid : ℕ) (act : VtAction)
  | other (n : ℕ)
deriving DecidableEq, Repr

/-- The stacks of free indices, `vt_ix`, the TCAM, and which of its entries were written or
invalidated. -/
structure VtRules where
  rules : ℕ → List ℕ
  vt_ix : List VtIx
  tcam : ℕ → ℕ → Option VtRule
  touched : List (ℕ × ℕ)

/-- A call. -/
inductive VtRuleOp
  | setup (pid fromVid toVid : ℕ) (tunnel enable : Bool)
  | remove (pid fromVid : ℕ) (tunnel : Bool)
  | enable (pid : ℕ) (enable : Bool)
  | clear (pid : ℕ)
deriving DecidableEq, Repr

/-- The port of a call. -/
def VtRuleOp.pid : VtRuleOp → ℕ
  | .setup pid _ _ _ _ | .remove pid _ _ | .enable pid _ | .clear pid => pid

namespace VtRules

variable (c : VtUnit) (s : VtRules)

/-- The state after `pcl_init_rules`, with rules of other features. -/
def init (other : ℕ → ℕ → Option ℕ) : VtRules where
  rules d := List.range' (c.vtStackFirstEntry d) AclConf.vtStackEntries
  vt_ix := []
  tcam d ix := (other d ix).map .other
  touched := []

/-- `cpssDxChPclRuleSet` and `cpssDxChPclRuleInvalidate`. -/
def setTcam (d ix : ℕ) (rule : Option VtRule) : VtRules :=
  { s with tcam := update s.tcam d (update (s.tcam d) ix rule), touched := s.touched ++ [(d, ix)] }

/-- `pcl_alloc_rules` of two indices. -/
def pclAllocRules (dev : ℕ) : Option ((ℕ × ℕ) × VtRules) :=
  match s.rules dev with
  | n₀ :: n₁ :: rest => some ((n₀, n₁), { s with rules := update s.rules dev rest })
  | _ => none

/-- `pcl_free_rules` of two indices. -/
def pclFreeRules (dev : ℕ) (nums : ℕ × ℕ) : VtRules :=
  { s with rules := update s.rules dev (nums.2 :: nums.1 :: s.rules dev) }

/-- `get_vt_ix`. -/
def getVtIx (pid fromVid toVid : ℕ) (tunnel alloc : Bool) : Option VtIx × VtRules :=
  match Keyed.find VtIx.key s.vt_ix (vtKey pid fromVid) with
  | some e =>
    (some { e with tunnel := tunnel, toVid := toVid },
      { s with vt_ix := Keyed.modify VtIx.key s.vt_ix (vtKey pid fromVid) fun e =>
        { e with tunnel := tunnel, toVid := toVid } })
  | none =>
    if alloc then
      if fromVid ≠ 0 then
        match s.pclAllocRules (c.port pid).ldev with
        | some (ix, s) =>
          let e : VtIx := ⟨vtKey pid fromVid, tunnel, toVid, ix⟩
          (some e, { s with vt_ix := s.vt_ix ++ [e] })
        | none => (none, s)
      else
        let e : VtIx := ⟨vtKey pid fromVid, tunnel, toVid, (c.vtPortIpclDefRuleIx pid, 0)⟩
        (some e, { s with vt_ix := s.vt_ix ++ [e] })
    else (none, s)

/-- An index is invalidated on every device. -/
def invalidate (ix : ℕ) : VtRules := (List.range c.NDEVS).foldl (fun s d => s.setTcam d ix none) s

/-- `invalidate_vt_ix`. -/
def invalidateVtIx (e : VtIx) : VtRules :=
  let s := s.invalidate c e.ix.1
  if vtKeyVid e.key ≠ 0 then s.invalidate c e.ix.2 else s

/-- `free_vt_ix`. -/
def freeVtIx (dev : ℕ) (e : VtIx) : VtRules :=
  let s := (s.invalidateVtIx c e).pclFreeRules dev e.ix
  { s with vt_ix := Keyed.del VtIx.key s.vt_ix e.key }

/-- `pcl_remove_vt`. -/
def pclRemoveVt (pid fromVid : ℕ) (tunnel : Bool) : Status × VtRules :=
  match s.getVtIx c pid fromVid 0 tunnel false with
  | (none, s) => (.ST_DOES_NOT_EXIST, s)
  | (some e, s) => (.ST_OK, s.freeVtIx c (c.port pid).ldev e)

/-- The rule of `pcl_enable_vt` for packets that arrive. -/
def ingressRule (e : VtIx) : VtRule :=
  .ingress (AclConf.portIpclId (vtKeyPid e.key))
    (if vtKeyVid e.key ≠ 0 then some (vtKeyVid e.key) else none) (c.lport (vtKeyPid e.key))
    (if e.toVid ≠ 0 then .assign e.toVid e.tunnel else .drop)

/-- The rule of `pcl_enable_vt` for packets that leave. -/
def egressRule (e : VtIx) : VtRule :=
  .egress (AclConf.portEpclId (vtKeyPid e.key)) e.toVid (.assign (vtKeyVid e.key) false)

/-- `pcl_enable_vt`. -/
def pclEnableVt (e : VtIx) (enable : Bool) : VtRules :=
  let s := s.invalidateVtIx c e
  if enable then
    let port := c.port (vtKeyPid e.key)
    let s := s.setTcam port.ldev e.ix.1 (some (ingressRule c e))
    if vtKeyVid e.key ≠ 0 ∧ e.toVid ≠ 0 ∧ e.tunnel = false then
      s.setTcam port.ldev e.ix.2 (some (egressRule e))
    else s
  else s

/-- `pcl_port_enable_vt`. -/
def pclPortEnableVt (pid : ℕ) (enable : Bool) : VtRules :=
  (s.vt_ix.filter fun e => vtKeyPid e.key = pid).foldl (fun s e => s.pclEnableVt c e enable) s

/-- `pcl_port_clear_vt`. It is `none` where the null pointer that stands for the port is
followed. -/
def pclPortClearVt (pid : ℕ) : Option VtRules :=
  match s.vt_ix.filter fun e => pid = c.ALL_PORTS ∨ vtKeyPid e.key = pid with
  | [] => some s
  | e :: es => (c.portPtr pid).map fun port =>
    (e :: es).foldl (fun s e => s.freeVtIx c port.ldev e) s

/-- `pcl_setup_vt`. -/
def pclSetupVt (pid fromVid toVid : ℕ) (tunnel enable : Bool) : Status × VtRules :=
  match s.getVtIx c pid fromVid toVid tunnel enable with
  | (none, s) => (.ST_BAD_STATE, s)
  | (some e, s) => (.ST_OK, if enable then s.pclEnableVt c e true else s)

/-- `port_vlan_translate` calls for a port that is there and a VLAN, or 0 for the default. -/
def Callable (pid fromVid : ℕ) : Prop := (1 ≤ pid ∧ pid ≤ c.NPORTS) ∧ fromVid < 4095

instance (pid fromVid : ℕ) : Decidable (Callable c pid fromVid) :=
  inferInstanceAs (Decidable (_ ∧ _))

/-- A call as a step. -/
def step (s : VtRules) (op : VtRuleOp) : Option VtRules :=
  let s := { s with touched := [] }
  match op with
  | .setup pid fromVid toVid tunnel enable =>
    some (if Callable c pid fromVid then (s.pclSetupVt c pid fromVid toVid tunnel enable).2 else s)
  | .remove pid fromVid tunnel =>
    some (if Callable c pid fromVid then (s.pclRemoveVt c pid fromVid tunnel).2 else s)
  | .enable pid enable => some (s.pclPortEnableVt c pid enable)
  | .clear pid => s.pclPortClearVt c pid

/-! ### What is to hold -/

/-- The translations of VLANs on the ports of a device. -/
def live (d : ℕ) : List VtIx := s.vt_ix.filter fun e => e.vid ≠ 0 ∧ (c.port e.pid).ldev = d

/-- The free indices of each device and those of the translations divide its pool. -/
def Divided : Prop := ∀ d, (s.rules d ++ (s.live c d).flatMap VtIx.ixs).Perm
  (List.range' (c.vtStackFirstEntry d) AclConf.vtStackEntries)

/-- The default translations use the indices that are reserved for their ports. -/
def DefaultsOwn : Prop := ∀ e ∈ s.vt_ix, e.vid = 0 → e.ruleIxs = [c.vtPortIpclDefRuleIx e.pid]

/-- An index of a device is for something else than the translation on the port: another feature, or
the translation of a VLAN on another port. -/
def Foreign (pid d ix : ℕ) : Prop :=
  (∃ u, c.Reserved d ix u ∧ u ≠ .vt ∧ ∀ ingress, u ≠ .vtDef pid ingress) ∨
    ∃ e ∈ s.live c d, e.pid ≠ pid ∧ ix ∈ e.ixs

/-- The indices that the translation of a VLAN on a port has rules at, or would take. -/
def ruleIxsFor (pid fromVid : ℕ) : List ℕ :=
  match Keyed.find VtIx.key s.vt_ix (vtKey pid fromVid) with
  | some e => e.ruleIxs
  | none =>
    if fromVid ≠ 0 then
      match s.rules (c.port pid).ldev with
      | n₀ :: n₁ :: _ => [n₀, n₁]
      | _ => []
    else [c.vtPortIpclDefRuleIx pid]

/-- The translations that a call frees. -/
def freed : VtRuleOp → List VtIx
  | .remove pid fromVid _ =>
    if Callable c pid fromVid then (Keyed.find VtIx.key s.vt_ix (vtKey pid fromVid)).toList else []
  | .clear pid => s.vt_ix.filter fun e => e.pid = pid
  | .setup _ _ _ _ _ | .enable _ _ => []

/-- The indices that a call writes or invalidates. -/
def ruleIxsOf : VtRuleOp → List ℕ
  | .setup pid fromVid _ _ enable =>
    if Callable c pid fromVid ∧ enable = true then s.ruleIxsFor c pid fromVid else []
  | .enable pid _ => (s.vt_ix.filter fun e => e.pid = pid).flatMap VtIx.ruleIxs
  | .remove pid fromVid tunnel => (s.freed c (.remove pid fromVid tunnel)).flatMap VtIx.ruleIxs
  | .clear pid => (s.freed c (.clear pid)).flatMap VtIx.ruleIxs

/-- No default translation is freed, and on the other devices the indices that are written or
invalidated are for nothing else. -/
def Apart (op : VtRuleOp) : Prop :=
  (∀ e ∈ s.freed c op, e.vid ≠ 0) ∧ ∀ ix ∈ s.ruleIxsOf c op, ∀ d < c.NDEVS,
    d ≠ (c.port op.pid).ldev → ¬s.Foreign c op.pid d ix

/-- What a call may do: the pools stay divided, default translations use the indices of their ports,
and what is written or invalidated is for nothing but the translation on the port. -/
structure Proper (op : VtRuleOp) (t : VtRules) : Prop where
  divided : t.Divided c
  defaults : t.DefaultsOwn c
  touched : ∀ d ix, (d, ix) ∈ t.touched → ¬s.Foreign c op.pid d ix
  frame : ∀ d ix, (d, ix) ∉ t.touched → t.tcam d ix = s.tcam d ix

end VtRules

end Presteramgr
