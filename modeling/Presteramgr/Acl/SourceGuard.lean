import Presteramgr.Acl.RuleIndexes
import Presteramgr.Lib.Guarded
import Presteramgr.Lib.Owned

/-!
# IP source guard (`pcl.c`, `ipsg.c`)

Each port has a pool of rule indices for IP source guard, a stack. A client sets rules, is told
their indices, and names an index to have the rule removed. The index is pushed on the stack as it
comes, and a rule for which no index is left is answered like any other.

## Main definitions

* `SourceGuard`: the stacks of free indices and the TCAM;
* `SourceGuard.pclSourceGuardRuleSet`, `SourceGuard.pclSourceGuardRuleUnset`;
* `SourceGuard.request`: a request of the client;
* `SourceGuard.Divided`: the free indices of a port and those of its rules divide its pool;
* `SourceGuard.Fair`: an index is left for the rule, or the index is that of a rule.

## Main results

* `SourceGuard.proper_iff_fair`.
-/

namespace Presteramgr

open Function (update update_self update_of_ne)
open Owned (Divides)

/-- The pattern of a source guard rule, with the fields that the mask selects. -/
structure SgRule where
  pclId : ℕ
  macSa : Option Mac
  vid : ℕ
  sip : Ip4
deriving DecidableEq, Repr

/-- An entry of the TCAM: a rule that forwards what passes source guard, or one of another
feature. -/
inductive SgEntry
  | sourceGuard (rule : SgRule)
  | other (n : ℕ)
deriving DecidableEq, Repr

/-- `sg_rule_ixs` and the TCAM of each device. -/
structure SourceGuard where
  sg_rule_ixs : ℕ → List ℕ
  tcam : ℕ → ℕ → Option SgEntry

/-- The arguments of `RULE_SET`. -/
structure SgRuleArgs where
  vifid : ℕ
  mac : Mac
  vid : ℕ
  ip : Ip4
  verify_mac : Bool
deriving DecidableEq, Repr

/-- The rule that is installed on a port. -/
def SgRuleArgs.rule (a : SgRuleArgs) (pi : ℕ) : SgRule where
  pclId := AclConf.portIpclId pi
  macSa := if a.verify_mac then some a.mac else none
  vid := a.vid
  sip := a.ip

/-- A request, with the status of `POP_ARG` where an argument is missing or has another size. -/
inductive SgRequest
  | ruleSet (args : Except Status SgRuleArgs)
  | ruleUnset (args : Except Status (ℕ × ℕ))

/-- The interface of a request whose arguments are there. -/
def SgRequest.vifid : SgRequest → Option ℕ
  | .ruleSet (.ok a) => some a.vifid
  | .ruleUnset (.ok a) => some a.1
  | _ => none

/-- What a request did: the reply, with the rule index where it has one, the entries that were
written or invalidated, and the state. -/
structure SgOutcome where
  status : Status
  rule_ix : Option ℕ
  touched : List (ℕ × ℕ)
  state : SourceGuard

namespace SourceGuard

variable (c : AclConf) (s : SourceGuard)

/-- The state after `pcl_init_source_guard_rule_ixs`, with entries of other features. -/
def init (other : ℕ → ℕ → Option ℕ) : SourceGuard where
  sg_rule_ixs pid :=
    List.range' (c.portRuleIx pid .ipSourceguard) AclConf.perPortIpSourceGuardRulesCount
  tcam d ix := (other d ix).map .other

/-- `cpssDxChPclRuleSet` and `cpssDxChPclRuleInvalidate`. -/
def setTcam (d ix : ℕ) (entry : Option SgEntry) : SourceGuard :=
  { s with tcam := update s.tcam d (update (s.tcam d) ix entry) }

/-- The stack of a port changes. -/
def setIxs (pi : ℕ) (rule_ixs : List ℕ) : SourceGuard :=
  { s with sg_rule_ixs := update s.sg_rule_ixs pi rule_ixs }

/-- `pcl_source_guard_rule_set`, with the value of `*rule_ix`, which is 0 before. -/
def pclSourceGuardRuleSet (port : Port) (pi : ℕ) (a : SgRuleArgs) : SgOutcome :=
  if port.stack then ⟨.ST_OK, some 0, [], s⟩
  else match s.sg_rule_ixs pi with
    | rule_ix :: rule_ixs =>
      ⟨.ST_OK, some rule_ix, [(port.ldev, rule_ix)],
        (s.setIxs pi rule_ixs).setTcam port.ldev rule_ix (some (.sourceGuard (a.rule pi)))⟩
    | [] => ⟨.ST_OK, some 0, [], s⟩

/-- `pcl_source_guard_rule_unset`. -/
def pclSourceGuardRuleUnset (port : Port) (pi rule_ix : ℕ) : SgOutcome :=
  if port.stack then ⟨.ST_OK, none, [], s⟩
  else ⟨.ST_OK, none, [(port.ldev, rule_ix)],
    (s.setIxs pi (rule_ix :: s.sg_rule_ixs pi)).setTcam port.ldev rule_ix none⟩

/-- `RULE_SET` and `RULE_UNSET`. `localId` is `vif_getn(vifid)->local->id`. The result is `none`
where a null pointer is followed. -/
def request (localId : ℕ → Option ℕ) : SgRequest → Option SgOutcome
  | .ruleSet (.error st) => some ⟨st, none, [], s⟩
  | .ruleSet (.ok a) => do
    let pi ← localId a.vifid
    let port ← c.portPtr pi
    s.pclSourceGuardRuleSet port pi a
  | .ruleUnset (.error st) => some ⟨st, none, [], s⟩
  | .ruleUnset (.ok (vifid, rule_ix)) => do
    let pi ← localId vifid
    let port ← c.portPtr pi
    s.pclSourceGuardRuleUnset port pi rule_ix

/-- A request as a step. -/
def step (localId : ℕ → Option ℕ) (req : SgRequest) : Option SourceGuard :=
  (s.request c localId req).map SgOutcome.state

/-! ### What is to hold -/

/-- A source guard rule of the port is at the index. -/
def Installed (pi ix : ℕ) : Prop :=
  ∃ rule, s.tcam (c.port pi).ldev ix = some (.sourceGuard rule) ∧ rule.pclId = AclConf.portIpclId pi

/-- `Installed`, computed. -/
def installed (pi ix : ℕ) : Bool :=
  match s.tcam (c.port pi).ldev ix with
  | some (.sourceGuard rule) => rule.pclId = AclConf.portIpclId pi
  | _ => false

/-- The test of the code says whether the rule is installed. -/
theorem installed_iff {c : AclConf} {s : SourceGuard} {pi ix : ℕ} :
    s.installed c pi ix = true ↔ s.Installed c pi ix := by
  unfold installed Installed
  constructor
  · intro h
    split at h
    · next rule heq => exact ⟨rule, heq, of_decide_eq_true h⟩
    · exact absurd h (by decide)
  · rintro ⟨rule, heq, hid⟩
    rw [heq]
    exact decide_eq_true hid

instance (pi ix : ℕ) : Decidable (s.Installed c pi ix) := decidable_of_iff _ installed_iff

/-- The index that a rule at the index has. -/
def ownIx (pi ix : ℕ) : Option ℕ := if s.Installed c pi ix then some ix else none

/-- The pool of a port. -/
def Pool (pi ix : ℕ) : Prop := c.Reserved (c.port pi).ldev ix (.port pi .ipSourceguard)

/-- The free indices of the port and those of its rules divide its pool. -/
def Divided (pi : ℕ) : Prop := Divides (Pool c pi) (s.sg_rule_ixs pi) (s.ownIx c pi)

/-- The port has source guard. -/
def Guards (pi : ℕ) : Prop := (c.portPtr pi).any (fun port => !port.stack) = true

instance (pi : ℕ) : Decidable (Guards c pi) := inferInstanceAs (Decidable (_ = true))

/-- The free indices and those of rules divide the pools. -/
def AllDivided : Prop := ∀ pi, Guards c pi → s.Divided c pi

/-- What a request on the port may do: the pools stay divided, no entry outside of the pool of the
port is written or invalidated, and the index in a reply is that of a rule that is new. -/
structure Proper (pi : ℕ) (o : SgOutcome) : Prop where
  divided : o.state.AllDivided c
  touched : ∀ x ∈ o.touched, x.1 = (c.port pi).ldev ∧ Pool c pi x.2
  fresh : ∀ ix, o.rule_ix = some ix → ¬s.Installed c pi ix ∧ o.state.Installed c pi ix

/-- An index is left for the rule, or the index is that of a rule. -/
def Fair (pi : ℕ) : SgRequest → Prop
  | .ruleSet (.ok _) => s.sg_rule_ixs pi ≠ []
  | .ruleUnset (.ok (_, rule_ix)) => s.Installed c pi rule_ix
  | .ruleSet (.error _) | .ruleUnset (.error _) => True

instance (pi : ℕ) : ∀ req, Decidable (s.Fair c pi req)
  | .ruleSet (.ok _) => inferInstanceAs (Decidable (_ ≠ []))
  | .ruleUnset (.ok (_, rule_ix)) => inferInstanceAs (Decidable (s.Installed c pi rule_ix))
  | .ruleSet (.error _) | .ruleUnset (.error _) => isTrue trivial

/-- A request on a port with source guard is fair. -/
def Ok (localId : ℕ → Option ℕ) (req : SgRequest) : Prop :=
  ∀ pi ∈ (req.vifid.bind localId).toList, Guards c pi → s.Fair c pi req

instance (localId : ℕ → Option ℕ) (req : SgRequest) : Decidable (s.Ok c localId req) :=
  inferInstanceAs (Decidable (∀ pi ∈ _, _ → _))

/-! ### Pools and entries -/

section

variable {c : AclConf} {s : SourceGuard} {pi pi' ix ix' d d' : ℕ} {entry : Option SgEntry}

/-- A port guards when it is one that leads to no other unit. -/
theorem guards_iff : Guards c pi ↔ ∃ port, c.portPtr pi = some port ∧ port.stack = false := by
  unfold Guards
  rw [Option.any_eq_true]
  simp

/-- A port that guards has a valid number. -/
theorem Guards.valid (h : Guards c pi) : 1 ≤ pi ∧ pi ≤ c.NPORTS := by
  obtain ⟨port, hport, -⟩ := guards_iff.mp h
  unfold AclConf.portPtr at hport
  by_contra hno
  rw [if_neg hno] at hport
  exact absurd hport (Option.some_ne_none _).symm

/-- A number that names a port names the one of the configuration. -/
theorem portPtr_eq {port : Port} (h : c.portPtr pi = some port) : port = c.port pi := by
  unfold AclConf.portPtr at h
  split_ifs at h
  exact (Option.some_inj.mp h).symm

/-- The pools of the ports of a device are apart. -/
theorem Pool.unique (h : Pool c pi ix) (h' : Pool c pi' ix)
    (hd : (c.port pi).ldev = (c.port pi').ldev) :
    pi = pi' := by
  unfold Pool at h h'
  rw [← hd] at h'
  exact (RuleUse.port.inj (h.unique h')).1

/-- The pool of a port is its part of the table. -/
theorem pool_iff (hpi : 1 ≤ pi ∧ pi ≤ c.NPORTS) : Pool c pi ix ↔
    c.portRuleIx pi .ipSourceguard ≤ ix ∧
      ix < c.portRuleIx pi .ipSourceguard + AclConf.perPortIpSourceGuardRulesCount :=
  ⟨fun h => ⟨h.2.2.1, h.2.2.2⟩, fun h => ⟨hpi, rfl, h.1, h.2⟩⟩

/-- Ports have lists of their own. -/
theorem portIpclId_inj (hpi : 1 ≤ pi) (hpi' : 1 ≤ pi')
    (h : AclConf.portIpclId pi = AclConf.portIpclId pi') : pi = pi' := by
  unfold AclConf.portIpclId at h
  omega

/-- One entry is written. -/
theorem setTcam_tcam (s : SourceGuard) (d ix d' ix' : ℕ) (entry : Option SgEntry) :
    (s.setTcam d ix entry).tcam d' ix' = if d' = d ∧ ix' = ix then entry else s.tcam d' ix' := by
  unfold setTcam
  by_cases hd : d' = d
  · subst hd
    by_cases hix : ix' = ix
    · subst hix
      simp
    · simp [hix]
  · simp [hd]

/-- Where nothing is written, the rules stay. -/
theorem installed_congr {t : SourceGuard}
    (h : t.tcam (c.port pi).ldev ix = s.tcam (c.port pi).ldev ix) :
    t.Installed c pi ix ↔ s.Installed c pi ix := by
  unfold Installed
  rw [h]

/-- The index of an installed rule is its own. -/
theorem ownIx_eq_some : s.ownIx c pi ix = some ix' ↔ s.Installed c pi ix ∧ ix = ix' := by
  unfold ownIx
  split_ifs with h
  · simp [h]
  · simp [h]

namespace Divided

variable (h : s.Divided c pi)

include h

/-- An installed rule is one of the pool of its port. -/
theorem pool_of_installed (hix : s.Installed c pi ix) : Pool c pi ix :=
  (h.cover ix).mpr (.inr ⟨ix, ownIx_eq_some.mpr ⟨hix, rfl⟩⟩)

/-- A free index has no installed rule. -/
theorem not_installed_of_mem (hix : ix ∈ s.sg_rule_ixs pi) : ¬s.Installed c pi ix :=
  fun hinst => h.apart ix ix (ownIx_eq_some.mpr ⟨hinst, rfl⟩) hix

/-- What is neither free nor the index of a rule cannot be pushed on the stack. -/
theorem not_divided_cons {t : SourceGuard} (hno : ¬s.Installed c pi ix)
    (ht : t.sg_rule_ixs pi = ix :: s.sg_rule_ixs pi) : ¬t.Divided c pi := by
  intro h'
  unfold Divided at h'
  rw [ht] at h'
  rcases (h.cover ix).mp ((h'.cover ix).mpr (.inl List.mem_cons_self)) with hfree | ⟨ix', hown⟩
  · exact (List.nodup_cons.mp h'.nodup).1 hfree
  · obtain ⟨hinst, rfl⟩ := ownIx_eq_some.mp hown
    exact hno hinst

end Divided

/-- The pools stay divided when an entry of the pool of one port is written, if they do for that
port. -/
theorem AllDivided.write (h : s.AllDivided c) (hg : Guards c pi) (hix : Pool c pi ix)
    {t : SourceGuard}
    (hixs : ∀ pi' ≠ pi, t.sg_rule_ixs pi' = s.sg_rule_ixs pi')
    (htcam : ∀ d' ix', ¬(d' = (c.port pi).ldev ∧ ix' = ix) → t.tcam d' ix' = s.tcam d' ix')
    (hentry : ∀ rule, t.tcam (c.port pi).ldev ix = some (.sourceGuard rule) →
      rule.pclId = AclConf.portIpclId pi)
    (ht : t.Divided c pi) : t.AllDivided c := by
  intro pi' hg'
  by_cases hpi : pi' = pi
  · rw [hpi]
    exact ht
  · -- the entry is not, and was not, that of a rule of another port
    have hown : t.ownIx c pi' = s.ownIx c pi' := by
      funext ix'
      unfold ownIx
      apply if_congr _ rfl rfl
      by_cases hat : (c.port pi').ldev = (c.port pi).ldev ∧ ix' = ix
      · obtain ⟨hd, rfl⟩ := hat
        apply iff_of_false
        · rintro ⟨rule, hrule, hid⟩
          rw [hd] at hrule
          exact hpi (portIpclId_inj hg'.valid.1 hg.valid.1 (hid.symm.trans (hentry rule hrule)))
        · intro hinst
          exact hpi (((h pi' hg').pool_of_installed hinst).unique hix hd)
      · exact installed_congr (htcam _ _ hat)
    unfold Divided
    rw [hown, hixs pi' hpi]
    exact h pi' hg'

/-! ### Requests -/

/-- A rule is set at the index on top of the stack. -/
theorem AllDivided.take (h : s.AllDivided c) (hg : Guards c pi) {rule_ixs : List ℕ} (rule : SgRule)
    (hixs : s.sg_rule_ixs pi = ix :: rule_ixs) (hid : rule.pclId = AclConf.portIpclId pi)
    {t : SourceGuard}
    (ht : t = (s.setIxs pi rule_ixs).setTcam (c.port pi).ldev ix (some (.sourceGuard rule))) :
    t.AllDivided c ∧ Pool c pi ix ∧ ¬s.Installed c pi ix ∧ t.Installed c pi ix := by
  have hmem : ix ∈ s.sg_rule_ixs pi := by
    rw [hixs]
    exact List.mem_cons_self
  have hpool : Pool c pi ix := ((h pi hg).cover ix).mpr (.inl hmem)
  have hfree := (h pi hg).not_installed_of_mem hmem
  have htcam (d' ix' : ℕ) : t.tcam d' ix' =
      if d' = (c.port pi).ldev ∧ ix' = ix then some (.sourceGuard rule) else s.tcam d' ix' := by
    rw [ht, setTcam_tcam]
    rfl
  have hat : t.tcam (c.port pi).ldev ix =
      some (.sourceGuard rule) := by rw [htcam, if_pos ⟨rfl, rfl⟩]
  have hinst : t.Installed c pi ix := ⟨rule, hat, hid⟩
  have hown : t.ownIx c pi = update (s.ownIx c pi) ix (some ix) := by
    funext ix'
    by_cases hix : ix' = ix
    · rw [hix, update_self, ownIx_eq_some]
      exact ⟨hinst, rfl⟩
    · rw [update_of_ne hix]
      apply if_congr _ rfl rfl
      exact installed_congr (by rw [htcam, if_neg fun h => hix h.2])
  have hdivided : t.Divided c pi := by
    have hold := h pi hg
    unfold Divided at hold ⊢
    rw [hixs] at hold
    rw [hown, show t.sg_rule_ixs pi = rule_ixs by rw [ht]; exact update_self ..]
    exact hold.take (if_neg hfree)
  refine ⟨h.write hg hpool (fun pi' hpi => ?_) (fun d' ix' hno => ?_)
    (fun rule' hrule' => ?_) hdivided,
    hpool, hfree, hinst⟩
  · rw [ht]
    exact update_of_ne hpi ..
  · rw [htcam, if_neg hno]
  · rw [hat] at hrule'
    rw [← SgEntry.sourceGuard.inj (Option.some_inj.mp hrule'), hid]

/-- The index of a rule is given back. -/
theorem AllDivided.give (h : s.AllDivided c) (hg : Guards c pi) (hinst : s.Installed c pi ix)
    {t : SourceGuard}
    (ht : t = (s.setIxs pi (ix :: s.sg_rule_ixs pi)).setTcam (c.port pi).ldev ix none) :
    t.AllDivided c := by
  have htcam (d' ix' : ℕ) : t.tcam d' ix' =
      if d' = (c.port pi).ldev ∧ ix' = ix then none else s.tcam d' ix' := by
    rw [ht, setTcam_tcam]
    rfl
  have hat : t.tcam (c.port pi).ldev ix = none := by rw [htcam, if_pos ⟨rfl, rfl⟩]
  have hno : ¬t.Installed c pi ix := by
    rintro ⟨rule, hrule, -⟩
    rw [hat] at hrule
    exact absurd hrule (Option.some_ne_none _).symm
  have hown : t.ownIx c pi = update (s.ownIx c pi) ix none := by
    funext ix'
    by_cases hix : ix' = ix
    · rw [hix, update_self]
      exact if_neg hno
    · rw [update_of_ne hix]
      apply if_congr _ rfl rfl
      exact installed_congr (by rw [htcam, if_neg fun h => hix h.2])
  have hdivided : t.Divided c pi := by
    unfold Divided
    rw [hown, show t.sg_rule_ixs pi = ix :: s.sg_rule_ixs pi by rw [ht]; exact update_self ..]
    exact Divides.give (h pi hg) (ownIx_eq_some.mpr ⟨hinst, rfl⟩)
  refine h.write hg ((h pi hg).pool_of_installed hinst) (fun pi' hpi => ?_) (fun d' ix' hno' => ?_)
    (fun rule hrule => ?_) hdivided
  · rw [ht]
    exact update_of_ne hpi ..
  · rw [htcam, if_neg hno']
  · rw [hat] at hrule
    exact absurd hrule (Option.some_ne_none _).symm

/-- A rule is set properly if and only if an index is left. -/
theorem proper_set_iff (h : s.AllDivided c) (hg : Guards c pi) {port : Port} {a : SgRuleArgs}
    (hport : c.portPtr pi = some port) : s.Proper c pi (s.pclSourceGuardRuleSet port pi a) ↔
      s.sg_rule_ixs pi ≠ [] := by
  obtain ⟨port', hport', hstack⟩ := guards_iff.mp hg
  obtain rfl := Option.some_inj.mp (hport'.symm.trans hport)
  obtain rfl := portPtr_eq hport
  unfold pclSourceGuardRuleSet
  rw [if_neg (by rw [hstack]; decide)]
  cases hixs : s.sg_rule_ixs pi with
  | nil =>
    -- the reply is that of a rule at index 0
    apply iff_of_false _ (not_not_intro rfl)
    intro hp
    obtain ⟨hno, hyes⟩ := hp.fresh 0 rfl
    exact hno hyes
  | cons ix rule_ixs =>
    apply iff_of_true _ (List.cons_ne_nil _ _)
    obtain ⟨hall, hpool, hfree, hinst⟩ := h.take hg (a.rule pi) hixs rfl rfl
    refine ⟨hall, fun x hx => ?_, fun ix' hix' => ?_⟩
    · obtain rfl := List.mem_singleton.mp hx
      exact ⟨rfl, hpool⟩
    · obtain rfl := Option.some_inj.mp hix'
      exact ⟨hfree, hinst⟩

/-- An index is given back properly if and only if it is that of a rule. -/
theorem proper_unset_iff (h : s.AllDivided c) (hg : Guards c pi) {port : Port}
    (hport : c.portPtr pi = some port) : s.Proper c pi (s.pclSourceGuardRuleUnset port pi ix) ↔
      s.Installed c pi ix := by
  obtain ⟨port', hport', hstack⟩ := guards_iff.mp hg
  obtain rfl := Option.some_inj.mp (hport'.symm.trans hport)
  obtain rfl := portPtr_eq hport
  unfold pclSourceGuardRuleUnset
  rw [if_neg (by rw [hstack]; decide)]
  constructor
  · intro hp
    by_contra hno
    refine (h pi hg).not_divided_cons hno ?_ (hp.divided pi hg)
    exact update_self ..
  · intro hinst
    refine ⟨h.give hg hinst rfl, fun x hx => ?_, fun ix' hix' => ?_⟩
    · obtain rfl := List.mem_singleton.mp hx
      exact ⟨rfl, (h pi hg).pool_of_installed hinst⟩
    · exact absurd hix' (Option.some_ne_none _).symm

variable {localId : ℕ → Option ℕ} {req : SgRequest} {o : SgOutcome}

/-- A request on a port with source guard is answered properly if and only if it is fair. -/
theorem request_proper_iff (h : s.AllDivided c) (hreq : s.request c localId req = some o)
    (hpi : req.vifid.bind localId = some pi) (hg : Guards c pi) :
    s.Proper c pi o ↔ s.Fair c pi req := by
  cases req with
  | ruleSet args =>
    cases args with
    | error st => exact absurd hpi (Option.some_ne_none _).symm
    | ok a =>
      obtain ⟨pi', hpi', hreq⟩ := Option.bind_eq_some_iff.mp hreq
      obtain ⟨port, hport, hreq⟩ := Option.bind_eq_some_iff.mp hreq
      obtain rfl := Option.some_inj.mp (hpi'.symm.trans hpi)
      obtain rfl := Option.some_inj.mp hreq
      exact proper_set_iff h hg hport
  | ruleUnset args =>
    cases args with
    | error st => exact absurd hpi (Option.some_ne_none _).symm
    | ok a =>
      obtain ⟨pi', hpi', hreq⟩ := Option.bind_eq_some_iff.mp hreq
      obtain ⟨port, hport, hreq⟩ := Option.bind_eq_some_iff.mp hreq
      obtain rfl := Option.some_inj.mp (hpi'.symm.trans hpi)
      obtain rfl := Option.some_inj.mp hreq
      exact proper_unset_iff h hg hport

/-- Other requests change nothing. -/
theorem request_of_not_guards (hreq : s.request c localId req = some o)
    (hno : ∀ pi, req.vifid.bind localId = some pi → ¬Guards c pi) :
    o.state = s ∧ o.touched = [] := by
  have hstack {pi : ℕ} {port : Port} (hport : c.portPtr pi = some port) (hg : ¬Guards c pi) :
      port.stack = true := by
    by_contra hfalse
    exact hg (guards_iff.mpr ⟨port, hport, Bool.not_eq_true _ ▸ hfalse⟩)
  cases req with
  | ruleSet args =>
    cases args with
    | error st =>
      obtain rfl := Option.some_inj.mp hreq
      exact ⟨rfl, rfl⟩
    | ok a =>
      obtain ⟨pi, hpi, hreq⟩ := Option.bind_eq_some_iff.mp hreq
      obtain ⟨port, hport, hreq⟩ := Option.bind_eq_some_iff.mp hreq
      obtain rfl := Option.some_inj.mp hreq
      unfold pclSourceGuardRuleSet
      rw [if_pos (hstack hport (hno pi hpi))]
      exact ⟨rfl, rfl⟩
  | ruleUnset args =>
    cases args with
    | error st =>
      obtain rfl := Option.some_inj.mp hreq
      exact ⟨rfl, rfl⟩
    | ok a =>
      obtain ⟨pi, hpi, hreq⟩ := Option.bind_eq_some_iff.mp hreq
      obtain ⟨port, hport, hreq⟩ := Option.bind_eq_some_iff.mp hreq
      obtain rfl := Option.some_inj.mp hreq
      unfold pclSourceGuardRuleUnset
      rw [if_pos (hstack hport (hno pi hpi))]
      exact ⟨rfl, rfl⟩

/-- At the start all indices are free. -/
theorem init_allDivided (c : AclConf) (other : ℕ → ℕ → Option ℕ) : (init c other).AllDivided c := by
  intro pi hg
  have hno (ix : ℕ) : ¬(init c other).Installed c pi ix := by
    rintro ⟨rule, hrule, -⟩
    obtain ⟨n, -, hn⟩ := Option.map_eq_some_iff.mp hrule
    cases hn
  have hown (ix : ℕ) : (init c other).ownIx c pi ix = none := if_neg (hno ix)
  refine ⟨List.nodup_range', fun ix ix' a h => ?_, fun ix a h => ?_, fun ix => ?_⟩
  · rw [hown] at h
    exact absurd h (Option.some_ne_none _).symm
  · rw [hown] at h
    exact absurd h (Option.some_ne_none _).symm
  · have hfree : ix ∈ (init c other).sg_rule_ixs pi ↔ Pool c pi ix := by
      rw [pool_iff hg.valid]
      exact List.mem_range'_1
    rw [hfree]
    refine ⟨Or.inl, fun h => ?_⟩
    rcases h with h | ⟨ix', h⟩
    · exact h
    · rw [hown] at h
      exact absurd h (Option.some_ne_none _).symm

/-- A request that is fair keeps the pools divided. -/
theorem AllDivided.request (h : s.AllDivided c) (hok : s.Ok c localId req)
    (hreq : s.request c localId req = some o) : o.state.AllDivided c := by
  by_cases hpi : ∃ pi, req.vifid.bind localId = some pi ∧ Guards c pi
  · obtain ⟨pi, hpi, hg⟩ := hpi
    have hfair := hok pi (Option.mem_toList.mpr hpi) hg
    exact ((request_proper_iff h hreq hpi hg).mpr hfair).divided
  · have hno (pi : ℕ) (hpi' : req.vifid.bind localId = some pi) : ¬Guards c pi :=
      fun hg => hpi ⟨pi, hpi', hg⟩
    rw [(request_of_not_guards hreq hno).1]
    exact h

end

/-- In every run of fair requests the pools are divided, and the next request on a port with source
guard is answered properly if and only if it is fair. -/
theorem proper_iff_fair (c : AclConf) (localId : ℕ → Option ℕ) (other : ℕ → ℕ → Option ℕ)
    (s : SourceGuard) (hr : Guarded.Reach (fun s => s.step c localId) (fun s => s.Ok c localId)
      (init c other) s) :
    s.AllDivided c ∧ ∀ req o pi, s.request c localId req = some o →
      req.vifid.bind localId = some pi → Guards c pi → (s.Proper c pi o ↔ s.Fair c pi req) := by
  have hinv := hr.invariant (fun s => s.AllDivided c) (init_allDivided c other) ?_
  · exact ⟨hinv, fun req o pi hreq hpi hg => request_proper_iff hinv hreq hpi hg⟩
  · intro s req s' h hok hs
    obtain ⟨o, hreq, rfl⟩ := Option.map_eq_some_iff.mp hs
    exact h.request hok hreq

/-- A unit with one port. -/
def onePort : AclConf where
  NDEVS := 1
  NPORTS := 1
  port _ := ⟨0, false⟩
  stack_id := 0
  stack_pri_port := 0
  stack_sec_port := 0
  NPORTS_pos := Nat.one_pos
  ldev_lt _ := Nat.one_pos

/-- A rule is set and removed, and two rules are set. -/
def setAndRemoved : List SgRequest :=
  [.ruleSet (.ok ⟨1, 5, 10, 0x0A000001, true⟩), .ruleUnset (.ok (1, 14)),
    .ruleSet (.ok ⟨1, 6, 10, 0x0A000002, true⟩), .ruleSet (.ok ⟨1, 7, 20, 0x0A000003, false⟩)]

/-- A run on one port, its free indexes and a request that is fair. -/
theorem proper_iff_fair_onePort : ∃ s : SourceGuard, s.AllDivided onePort ∧
    s.sg_rule_ixs 1 = [16, 17, 18, 19, 20, 21, 22, 23] ∧
    ∃ o, s.request onePort some (.ruleUnset (.ok (1, 15))) = some o ∧ s.Proper onePort 1 o := by
  have hlast : (Guarded.run (fun s : SourceGuard => s.step onePort some)
      (fun s => s.Ok onePort some)
      (init onePort fun _ _ => none) setAndRemoved).map (fun s =>
        (s.sg_rule_ixs 1, s.installed onePort 1 15)) =
            some ([16, 17, 18, 19, 20, 21, 22, 23], true) := by
    decide +kernel
  obtain ⟨s, hs, hshown⟩ := Option.map_eq_some_iff.mp hlast
  obtain ⟨hixs, hinst⟩ := Prod.mk.inj hshown
  obtain ⟨hdiv, hiff⟩ := proper_iff_fair onePort some (fun _ _ => none) s
    (Guarded.Reach.init.of_run hs)
  refine ⟨s, hdiv, hixs, _, rfl, ?_⟩
  exact (hiff (.ruleUnset (.ok (1, 15))) _ 1 rfl rfl (by decide)).mpr (installed_iff.mp hinst)

/-- The client names an index twice, and it is free twice. -/
theorem not_proper : ¬∀ (c : AclConf) (localId : ℕ → Option ℕ) (other : ℕ → ℕ → Option ℕ)
    (s : SourceGuard), Guarded.Reach (fun s => s.step c localId) (fun _ _ => True)
      (init c other) s →
      s.AllDivided c := by
  intro h
  have hlast : (Guarded.run (fun s : SourceGuard => s.step onePort some) (fun _ _ => True)
      (init onePort fun _ _ => none) [.ruleSet (.ok ⟨1, 5, 10, 0x0A000001, true⟩),
        .ruleUnset (.ok (1, 14)), .ruleUnset (.ok (1, 14))]).map (fun s =>
          (s.sg_rule_ixs 1).take 2) = some [14, 14] := by
    decide +kernel
  obtain ⟨s, hs, hshown⟩ := Option.map_eq_some_iff.mp hlast
  have hnodup := (h onePort some (fun _ _ => none) s (Guarded.Reach.init.of_run hs) 1
      (by decide)).nodup
  have htwice : ¬[14, 14].Nodup := by decide
  exact htwice (hshown ▸ hnodup.sublist (List.take_sublist 2 _))

end SourceGuard

end Presteramgr
