import Presteramgr.Lib.Guarded
import Presteramgr.Ret.McreInv
import Presteramgr.Types

/-!
# Multicast routes (`route.c`)

`route_mc_add` and `route_mc_del` over the multicast route entries and the multicast entries of the
packet processor's LPM, which know group and source but not the source VLAN.

## Main definitions

* `routeMcAdd` and `routeMcDel`;
* `McRun`: the routes with the record of what was added and not deleted since;
* `Clear`: the calls that stay clear of the ways to lose a resource.

## Main results

* `resources_conserved`: in runs of clear calls every pair and index in use belongs to an entry,
  every entry counts its nodes, and nothing is left once every added route has been deleted.
-/

namespace Presteramgr

open Function (update)
open Guarded

/-- The arguments of the two calls. -/
structure McArgs where
  vid : ℕ
  dst : Ip4
  src : Ip4
  via : ℕ
  src_vid : ℕ
deriving DecidableEq, Repr

/-- The key of the route entry the arguments name. -/
def McArgs.key (t : McArgs) : McreKey := ⟨t.dst, t.src, t.src_vid⟩

/-- The receiver the arguments name. -/
def McArgs.node (t : McArgs) : MllNode := (t.via, t.vid)

/-- Outcomes of the hardware writes of a `route_mc_add`: the pair, the route entry and the LPM
entry. -/
structure McWrites where
  wrOk : Bool
  reOk : Bool
  lpmOk : Bool

/-- The route entries and the multicast entries of the LPM, each by group and source. -/
structure McRoutes where
  mc : McState
  lpm : Ip4 × Ip4 → Option ℤ

/-- `LAST_USER_MCG`. -/
def LAST_USER_MCG : ℕ := 4091

/-- `mcg_valid`. -/
def mcgValid (mcg : ℕ) : Prop := mcg ≤ LAST_USER_MCG

instance (mcg : ℕ) : Decidable (mcgValid mcg) := inferInstanceAs (Decidable (_ ≤ _))

namespace McRoutes

/-- `route_mc_add`. The group `0xFFFF` is not an error of its own, but it does not lead to a route
either. -/
def routeMcAdd (s : McRoutes) (t : McArgs) (w : McWrites) : Option (Status × McRoutes) :=
  if t.via = 0xFFFF then some (.ST_BAD_VALUE, s)
  else if mcgValid t.via then
    if s.mc.mcreFind t.key = -1 then
      (s.mc.mcreCreate t.key t.via t.vid w.wrOk w.reOk).map fun (idx, mc) =>
        if idx = -1 then (.ST_BAD_STATE, { s with mc := mc })
        else if w.lpmOk then (.ST_OK, ⟨mc, update s.lpm (t.dst, t.src) (some idx)⟩)
        else (.ST_HEX, { s with mc := (mc.mcrePut t.key).2 })
    else
      (s.mc.mcreAddNode (s.mc.mcreFind t.key) t.via t.vid w.wrOk).map fun (res, mc) =>
        (if res = 0 then .ST_OK else .ST_BAD_VALUE, { s with mc := mc })
  else some (.ST_BAD_VALUE, s)

/-- `route_mc_del`. -/
def routeMcDel (s : McRoutes) (t : McArgs) : Option (Status × McRoutes) :=
  match s.lpm (t.dst, t.src) with
  | none => some (.ST_HEX, s)
  | some base =>
    if base ≠ DROP_MC_RE_IDX then
      (s.mc.mcreDelNode base t.via t.vid).map fun (res, mc) =>
        (.ST_OK, ⟨mc, if res = 0 then update s.lpm (t.dst, t.src) none else s.lpm⟩)
    else some (.ST_HEX, s)

end McRoutes

/-- The calls. -/
inductive McOp
  | add (t : McArgs) (w : McWrites)
  | del (t : McArgs)

/-- The routes, and the successful additions that no deletion has followed. -/
structure McRun where
  routes : McRoutes
  outstanding : Multiset McArgs

namespace McRun

variable {s s' : McRun} {op : McOp} {P : ℤ → List ℤ} {ts : ℕ} {hw : ℤ → HwPair}

/-- The state before the first route. -/
def start (ts : ℕ) (hw : ℤ → HwPair) : McRun := ⟨⟨.init ts hw, fun _ => none⟩, 0⟩

/-- One call. A deletion settles one addition with the same arguments, whatever it returns. -/
def step (s : McRun) : McOp → Option McRun
  | .add t w => (s.routes.routeMcAdd t w).map fun (st, r) =>
      ⟨r, if st = .ST_OK then t ::ₘ s.outstanding else s.outstanding⟩
  | .del t => (s.routes.routeMcDel t).map fun (_, r) => ⟨r, s.outstanding.erase t⟩

/-- The calls that lose no resource. An addition names a VLAN, does not start a second entry of
another source VLAN for the same group and source, and needs no pair that cannot be created. A
deletion does not mistake an empty slot for the node `(0, 0)` and does not find the pair before
through a stale back link. -/
def Clear (s : McRun) : McOp → Prop
  | .add t w => mcgValid t.via → t.vid ≠ 0 ∧ ∀ re ∈ s.routes.mc.mcret,
      re.key.dst = t.dst → re.key.src = t.src → re.key.src_vid = t.src_vid ∧
        (s.routes.mc.mll.CompleteTail re.mll_idx →
          ¬s.routes.mc.mll.Exhausted ∧ w.wrOk = true)
  | .del t => ∀ re ∈ s.routes.mc.mcret, re.key.dst = t.dst → re.key.src = t.src →
      (t.node = (0, 0) → s.routes.mc.mll.CompleteTail re.mll_idx) ∧
        ¬s.routes.mc.mll.FindsStale re.mll_idx t.via t.vid

instance (s : McRun) (op : McOp) : Decidable (Clear s op) := by
  cases op <;> unfold Clear <;> infer_instance

/-! ### The invariant -/

/-- The receivers that are owed to the entry with the key `k`. -/
def owed (out : Multiset McArgs) (k : McreKey) : Multiset MllNode :=
  (out.filter fun t => t.key = k).map McArgs.node

/-- The entries own all indices in use and all LPM entries, one for each group and source, and
hold no node that is not owed. -/
structure RunInv (s : McRun) (P : ℤ → List ℤ) : Prop where
  mc : s.routes.mc.McInv P
  lpm : ∀ k i, s.routes.lpm k = some i ↔
    ∃ re ∈ s.routes.mc.mcret, (re.key.dst, re.key.src) = k ∧ re.idx = i
  pairUnique : Keyed.Unique (fun re : Mcre => (re.key.dst, re.key.src)) s.routes.mc.mcret
  used : ∀ i ∈ s.routes.mc.ret_indexes_used, ∃ re ∈ s.routes.mc.mcret, re.idx = i
  regular : ∀ re ∈ s.routes.mc.mcret, FIRST_REGULAR_RE_IDX ≤ re.idx ∧ re.idx < 4096
  owed : ∀ re ∈ s.routes.mc.mcret, s.routes.mc.nodes P re ≤ owed s.outstanding re.key

theorem owed_mono {out out' : Multiset McArgs} (hle : out ≤ out') (k : McreKey) :
    owed out k ≤ owed out' k :=
  Multiset.map_le_map (Multiset.filter_le_filter _ hle)

theorem owed_cons (t : McArgs) (out : Multiset McArgs) :
    owed (t ::ₘ out) t.key = t.node ::ₘ owed out t.key := by
  simp [owed]

theorem owed_erase_of_ne {t : McArgs} {out : Multiset McArgs} {k : McreKey} (hne : k ≠ t.key) :
    owed (out.erase t) k = owed out k := by
  by_cases ht : t ∈ out
  · conv_rhs => rw [← Multiset.cons_erase ht]
    simp [owed, hne.symm]
  · rw [Multiset.erase_of_notMem ht]

theorem erase_owed_le (t : McArgs) (out : Multiset McArgs) :
    (owed out t.key).erase t.node ≤ owed (out.erase t) t.key := by
  by_cases ht : t ∈ out
  · conv_lhs => rw [← Multiset.cons_erase ht]
    rw [owed_cons, Multiset.erase_cons_head]
  · rw [Multiset.erase_of_notMem ht]
    exact Multiset.erase_le _ _

namespace RunInv

variable (hinv : RunInv s P) {t : McArgs} {w : McWrites} {re : Mcre}

include hinv

theorem lpm_eq (hre : re ∈ s.routes.mc.mcret) :
    s.routes.lpm (re.key.dst, re.key.src) = some re.idx :=
  (hinv.lpm _ _).mpr ⟨re, hre, rfl, rfl⟩

theorem idx_ne_neg_one (hre : re ∈ s.routes.mc.mcret) : re.idx ≠ -1 := by
  have := (hinv.regular re hre).1
  rw [FIRST_REGULAR_RE_IDX] at this
  omega

/-- Entries that are as they were. -/
theorem untouched {mc : McState} (hu : s.routes.mc.Untouched mc P) {out : Multiset McArgs}
    (howed : ∀ re ∈ s.routes.mc.mcret, s.routes.mc.nodes P re ≤ McRun.owed out re.key) :
    RunInv ⟨⟨mc, s.routes.lpm⟩, out⟩ P := by
  refine ⟨hu.mcInv hinv.mc, ?_, ?_, ?_, ?_, fun re hre => ?_⟩
  · rw [hu.mcret]
    exact hinv.lpm
  · rw [hu.mcret]
    exact hinv.pairUnique
  · rw [hu.mcret, hu.used]
    exact hinv.used
  · rw [hu.mcret]
    exact hinv.regular
  · rw [hu.nodes]
    rw [hu.mcret] at hre
    exact howed re hre

/-- A new entry with its LPM entry. -/
theorem added {mc : McState} {n : MllNode} (ha : s.routes.mc.Added mc P re n)
    (hpair : ∀ r ∈ s.routes.mc.mcret, (r.key.dst, r.key.src) ≠ (re.key.dst, re.key.src))
    {out : Multiset McArgs}
    (howed : ∀ re ∈ s.routes.mc.mcret, s.routes.mc.nodes P re ≤ McRun.owed out re.key)
    (hn : n ∈ McRun.owed out re.key) :
    RunInv ⟨⟨mc, update s.routes.lpm (re.key.dst, re.key.src) (some re.idx)⟩, out⟩
      (Mll.rechain P re.mll_idx re.mll_idx [re.mll_idx]) := by
  have hmem : ∀ r, r ∈ mc.mcret ↔ r = re ∨ r ∈ s.routes.mc.mcret := fun r => by
    rw [ha.mcret, List.mem_cons]
  have hkey : ∀ r ∈ s.routes.mc.mcret, r.key ≠ re.key := fun r hr heq => hpair r hr (by rw [heq])
  refine ⟨ha.mcInv hinv.mc hkey, fun k i => ?_, ?_, fun i hi => ?_, fun r hr => ?_,
    fun r hr => ?_⟩
  · simp only [hmem]
    simp only [Function.update_apply]
    split_ifs with hk
    · rw [Option.some_inj]
      constructor
      · intro heq
        exact ⟨re, .inl rfl, hk.symm, heq⟩
      · rintro ⟨r, rfl | hr, hk', heq⟩
        · exact heq
        · exact absurd (hk'.trans hk) (hpair r hr)
    · rw [hinv.lpm k i]
      constructor
      · rintro ⟨r, hr, hand⟩
        exact ⟨r, .inr hr, hand⟩
      · rintro ⟨r, rfl | hr, hk', heq⟩
        · exact absurd hk'.symm hk
        · exact ⟨r, hr, hk', heq⟩
  · simp only [ha.mcret]
    exact hinv.pairUnique.cons hpair
  · simp only [ha.used, List.mem_append, List.mem_singleton] at hi
    rcases hi with hi | rfl
    · obtain ⟨r, hr, heq⟩ := hinv.used i hi
      exact ⟨r, (hmem r).mpr (.inr hr), heq⟩
    · exact ⟨re, (hmem re).mpr (.inl rfl), rfl⟩
  · rcases (hmem r).mp hr with rfl | hr
    · exact ha.regular
    · exact hinv.regular r hr
  · rcases (hmem r).mp hr with rfl | hr
    · rw [ha.nodes_self]
      exact Multiset.singleton_le.mpr hn
    · rw [ha.nodes_other hinv.mc hr]
      exact howed r hr

/-- An entry whose chain has changed. -/
theorem replaced {mc : McState} {re' : Mcre} {l' : List ℤ}
    (hr : s.routes.mc.Replaced mc P re re' l') (hre : re ∈ s.routes.mc.mcret)
    {out : Multiset McArgs}
    (howed : ∀ r ∈ s.routes.mc.mcret, r.key ≠ re.key →
      s.routes.mc.nodes P r ≤ McRun.owed out r.key)
    (hself : mc.mll.chainNodes l' ≤ McRun.owed out re.key) :
    RunInv ⟨⟨mc, s.routes.lpm⟩, out⟩ (Mll.rechain P re.mll_idx re'.mll_idx l') := by
  have hmem := fun r => (hr.mem_iff hinv.mc (r := r))
  refine ⟨hr.mcInv hinv.mc hre, fun k i => ?_, ?_, fun i hi => ?_, fun r hr' => ?_,
    fun r hr' => ?_⟩
  · rw [hinv.lpm k i]
    constructor
    · rintro ⟨r, hr', hk, heq⟩
      by_cases hkey : r.key = re.key
      · obtain rfl := hinv.mc.unique.eq_of_mem hr' hre hkey
        exact ⟨re', (hmem re').mpr (.inl rfl), by rw [hr.key]; exact hk, hr.idx.trans heq⟩
      · exact ⟨r, (hmem r).mpr (.inr ⟨hr', hkey⟩), hk, heq⟩
    · rintro ⟨r, hr', hk, heq⟩
      rcases (hmem r).mp hr' with rfl | ⟨hr', -⟩
      · exact ⟨re, hre, by rw [← hr.key]; exact hk, hr.idx.symm.trans heq⟩
      · exact ⟨r, hr', hk, heq⟩
  · simp only [hr.mcret]
    refine Keyed.unique_cons.mpr ⟨fun r hr' hk => ?_, hinv.pairUnique.sublist
      (List.Sublist.map _ List.eraseP_sublist)⟩
    rw [hr.key] at hk
    obtain ⟨hr', hne⟩ := hinv.mc.unique.mem_del_iff.mp hr'
    exact hne (congrArg Mcre.key (hinv.pairUnique.eq_of_mem hr' hre hk))
  · rw [hr.used] at hi
    obtain ⟨r, hr', heq⟩ := hinv.used i hi
    by_cases hkey : r.key = re.key
    · obtain rfl := hinv.mc.unique.eq_of_mem hr' hre hkey
      exact ⟨re', (hmem re').mpr (.inl rfl), hr.idx.trans heq⟩
    · exact ⟨r, (hmem r).mpr (.inr ⟨hr', hkey⟩), heq⟩
  · rcases (hmem r).mp hr' with rfl | ⟨hr', -⟩
    · rw [hr.idx]
      exact hinv.regular re hre
    · exact hinv.regular r hr'
  · rcases (hmem r).mp hr' with rfl | ⟨hr', hne⟩
    · rw [hr.key, McState.nodes, McState.Replaced.rechain_self]
      exact hself
    · rw [hr.nodes_other hinv.mc hre hr' hne]
      exact howed r hr' hne

/-- An entry that is gone with its LPM entry. -/
theorem removed {mc : McState} {h' : ℤ} (hr : s.routes.mc.Removed mc P re h')
    (hre : re ∈ s.routes.mc.mcret) {out : Multiset McArgs}
    (howed : ∀ r ∈ s.routes.mc.mcret, r.key ≠ re.key →
      s.routes.mc.nodes P r ≤ McRun.owed out r.key) :
    RunInv ⟨⟨mc, update s.routes.lpm (re.key.dst, re.key.src) none⟩, out⟩
      (Mll.rechain P re.mll_idx h' []) := by
  have hmem := fun r => (hr.mem_iff hinv.mc (r := r))
  refine ⟨hr.mcInv hinv.mc hre, fun k i => ?_, ?_, fun i hi => ?_, fun r hr' => ?_,
    fun r hr' => ?_⟩
  · simp only [Function.update_apply]
    split_ifs with hk
    · refine iff_of_false (by simp) ?_
      rintro ⟨r, hr', hk', -⟩
      obtain ⟨hr', hne⟩ := (hmem r).mp hr'
      exact hne (congrArg Mcre.key (hinv.pairUnique.eq_of_mem hr' hre (hk'.trans hk)))
    · rw [hinv.lpm k i]
      constructor
      · rintro ⟨r, hr', hk', heq⟩
        exact ⟨r, (hmem r).mpr ⟨hr', fun hkey => hk (by rw [← hk', hkey])⟩, hk', heq⟩
      · rintro ⟨r, hr', hk', heq⟩
        exact ⟨r, ((hmem r).mp hr').1, hk', heq⟩
  · simp only [hr.mcret]
    exact hinv.pairUnique.sublist (List.Sublist.map _ List.eraseP_sublist)
  · rw [hr.used, hinv.mc.usedNodup.mem_erase_iff] at hi
    obtain ⟨r, hr', heq⟩ := hinv.used i hi.2
    refine ⟨r, (hmem r).mpr ⟨hr', fun hkey => hi.1 ?_⟩, heq⟩
    rw [← heq, hinv.mc.unique.eq_of_mem hr' hre hkey]
  · exact hinv.regular r ((hmem r).mp hr').1
  · obtain ⟨hr', hne⟩ := (hmem r).mp hr'
    rw [hr.nodes_other hinv.mc hre hr' hne]
    exact howed r hr' hne

/-- `route_mc_add` returns and keeps the invariant. -/
theorem routeMcAdd (hok : Clear s (.add t w)) :
    ∃ s' P', step s (.add t w) = some s' ∧ RunInv s' P' := by
  have hsame : ∀ out, s.outstanding ≤ out → ∀ re ∈ s.routes.mc.mcret,
      s.routes.mc.nodes P re ≤ McRun.owed out re.key := fun out hle re hre =>
    (hinv.owed re hre).trans (owed_mono hle re.key)
  unfold step McRoutes.routeMcAdd
  -- a packet without a receiver, or one with a bad group, changes nothing
  by_cases hvia : t.via = 0xFFFF
  · refine ⟨s, P, ?_, hinv⟩
    simp only [if_pos hvia, Option.map_some, reduceCtorEq, if_false]
  by_cases hvalid : mcgValid t.via
  swap
  · refine ⟨s, P, ?_, hinv⟩
    simp only [if_neg hvia, if_neg hvalid, Option.map_some, reduceCtorEq, if_false]
  obtain ⟨hvid, hsrc⟩ := hok hvalid
  simp only [if_neg hvia, if_pos hvalid]
  rcases hfind : s.routes.mc.hashFind t.key with _ | re
  · -- a new entry
    have hno : s.routes.mc.mcreFind t.key = -1 := by rw [McState.mcreFind, hfind]
    have hpair : ∀ r ∈ s.routes.mc.mcret, (r.key.dst, r.key.src) ≠ (t.dst, t.src) := by
      intro r hr heq
      obtain ⟨hd, hs⟩ := Prod.mk.inj heq
      have hkey : r.key = t.key := by
        rw [McArgs.key, ← hd, ← hs, ← (hsrc r hr hd hs).1]
      exact Keyed.find_eq_none_iff.mp hfind r hr hkey
    simp only [hno, if_true]
    rcases hinv.mc.mcreCreate t.key t.via hvid w.wrOk w.reOk with
      ⟨mc, heq, hu⟩ | ⟨mc, re, heq, hkey, ha⟩
    · refine ⟨_, P, by simp only [heq, Option.map_some, if_true, reduceCtorEq, if_false],
        hinv.untouched hu (hsame _ le_rfl)⟩
    · have hidx : re.idx ≠ -1 := by
        have := ha.regular.1
        rw [FIRST_REGULAR_RE_IDX] at this
        omega
      have hdst : (re.key.dst, re.key.src) = (t.dst, t.src) := by rw [hkey]; rfl
      simp only [heq, Option.map_some, if_neg hidx]
      -- the entry is put back when the prefix cannot be written
      cases hl : w.lpmOk with
      | true =>
        have hadd := hinv.added ha (fun r hr => by rw [hdst]; exact hpair r hr)
          (hsame (t ::ₘ s.outstanding) (Multiset.le_cons_self _ _))
          (by rw [hkey, owed_cons]; exact Multiset.mem_cons_self _ _)
        rw [hdst] at hadd
        exact ⟨_, _, rfl, hadd⟩
      | false =>
        have hput := (hinv.mc.mcrePut_added ha fun r hr heq => hpair r hr (by
          rw [heq]; exact hdst)).2
        rw [hkey] at hput
        exact ⟨_, P, rfl, hinv.untouched hput (hsame _ le_rfl)⟩
  · -- one more receiver
    obtain ⟨hre, hkey⟩ := hinv.mc.hashFind_eq_some_iff.mp hfind
    have hyes : s.routes.mc.mcreFind t.key = re.idx := by rw [McState.mcreFind, hfind]
    have hdst : re.key.dst = t.dst ∧ re.key.src = t.src := by rw [hkey]; exact ⟨rfl, rfl⟩
    obtain ⟨mc, re', l', heq, hr, hnodes⟩ := hinv.mc.mcreAddNode t.via hre hvid
      (hsrc re hre hdst.1 hdst.2).2
    refine ⟨⟨⟨mc, s.routes.lpm⟩, t ::ₘ s.outstanding⟩, _, ?_, hinv.replaced hr hre
      (fun r hr' _ => hsame _ (Multiset.le_cons_self _ _) r hr') ?_⟩
    · simp only [hyes, if_neg (hinv.idx_ne_neg_one hre), heq, Option.map_some, if_true]
    · rw [hnodes, hkey, owed_cons]
      exact (Multiset.cons_le_cons_iff _).mpr (hkey ▸ hinv.owed re hre)

/-- `route_mc_del` returns and keeps the invariant. -/
theorem routeMcDel (hok : Clear s (.del t)) :
    ∃ s' P', step s (.del t) = some s' ∧ RunInv s' P' := by
  -- entries of another key are owed as much as before
  have hother : ∀ r ∈ s.routes.mc.mcret, r.key ≠ t.key →
      s.routes.mc.nodes P r ≤ McRun.owed (s.outstanding.erase t) r.key := fun r hr hne => by
    rw [owed_erase_of_ne hne]
    exact hinv.owed r hr
  rcases hlpm : s.routes.lpm (t.dst, t.src) with _ | base
  · refine ⟨⟨s.routes, s.outstanding.erase t⟩, P,
      by simp only [step, McRoutes.routeMcDel, hlpm, Option.map_some],
      hinv.untouched ⟨rfl, rfl, hinv.mc.mll, fun _ _ _ => rfl, fun _ _ => rfl,
      fun _ _ => rfl⟩ fun r hr => hother r hr fun heq => ?_⟩
    have := hinv.lpm_eq hr
    rw [heq] at this
    simp only [McArgs.key, hlpm] at this
    cases this
  obtain ⟨re, hre, hdst, rfl⟩ := (hinv.lpm _ _).mp hlpm
  obtain ⟨hd, hs⟩ := Prod.mk.inj hdst
  obtain ⟨hnode, hstale⟩ := hok re hre hd hs
  have hdrop : re.idx ≠ DROP_MC_RE_IDX := by
    have := (hinv.regular re hre).1
    rw [FIRST_REGULAR_RE_IDX] at this
    rw [DROP_MC_RE_IDX, DEFAULT_MC_RE_IDX]
    omega
  -- the other entries are of another group or source
  have hrest : ∀ r ∈ s.routes.mc.mcret, r.key ≠ re.key →
      s.routes.mc.nodes P r ≤ McRun.owed (s.outstanding.erase t) r.key := by
    intro r hr hne
    refine hother r hr fun heq => hne ?_
    have hpair : (r.key.dst, r.key.src) = (re.key.dst, re.key.src) := by
      rw [heq, hdst]
      rfl
    exact congrArg Mcre.key (hinv.pairUnique.eq_of_mem hr hre hpair)
  have hle : ∀ ns ≤ s.routes.mc.nodes P re, (re.key = t.key → ns ≤ (s.routes.mc.nodes P re).erase
      t.node) → ns ≤ McRun.owed (s.outstanding.erase t) re.key := by
    intro ns hle herase
    by_cases hkey : re.key = t.key
    · rw [hkey]
      refine ((herase hkey).trans ?_).trans (erase_owed_le t s.outstanding)
      exact Multiset.erase_le_erase _ (hkey ▸ hinv.owed re hre)
    · exact hle.trans (hother re hre hkey)
  simp only [step, McRoutes.routeMcDel, hlpm, if_pos hdrop]
  rcases hinv.mc.mcreDelNode t.via t.vid hre
    (fun h0 => hinv.mc.mll.full_of_completeTail (hinv.mc.chain re hre) (hnode h0))
    (hinv.mc.mll.spliced_of_not_stale hstale) with
    ⟨heq, hno⟩ | ⟨mc, h', heq, hr⟩ | ⟨mc, re', l', heq, hr, hnodes⟩
  · have hne := (hinv.mc.refc_pos hre).ne'
    refine ⟨_, P, by simp only [heq, Option.map_some, if_neg hne]; rfl, hinv.untouched ⟨rfl, rfl,
      hinv.mc.mll, fun _ _ _ => rfl, fun _ _ => rfl, fun _ _ => rfl⟩ fun r hr => ?_⟩
    by_cases hkey : r.key = re.key
    · rw [hinv.mc.unique.eq_of_mem hr hre hkey]
      refine hle _ le_rfl fun _ => ?_
      rw [McArgs.node, Multiset.erase_of_notMem hno]
    · exact hrest r hr hkey
  · have hrem := hinv.removed hr hre hrest
    rw [hdst] at hrem
    exact ⟨_, _, by simp only [heq, Option.map_some, if_true], hrem⟩
  · have hne : re'.refc ≠ 0 := by
      rw [hr.refc]
      obtain ⟨i, l, hl⟩ := List.exists_cons_of_ne_nil hr.ne
      rw [hl, Mll.chainNodes_cons]
      simp only [Mll.pairNodes, Multiset.card_add, Multiset.coe_card, List.length_cons]
      omega
    refine ⟨⟨⟨mc, s.routes.lpm⟩, s.outstanding.erase t⟩, _,
      by simp only [heq, Option.map_some, if_neg hne], hinv.replaced hr hre hrest ?_⟩
    refine hle _ ?_ fun _ => ?_
    · rw [hnodes]
      exact Multiset.le_cons_self _ _
    · rw [hnodes, McArgs.node, Multiset.erase_cons_head]

end RunInv

/-! ### Conservation -/

/-- Pairs and indices are in use exactly for the entries of `mcret`, an entry counts the nodes of
its chain, nothing is in use once every successful addition has been followed by its deletion,
and the calls return. -/
structure Conserved (s : McRun) : Prop where
  pairs : ∀ i : ℤ, 0 ≤ i → i < s.routes.mc.mll.mll_ts → (i ∉ s.routes.mc.mll.free ↔
    ∃ re ∈ s.routes.mc.mcret, ∃ l, s.routes.mc.mll.ChainOk re.mll_idx l ∧ i ∈ l)
  indexes : ∀ i, i ∈ s.routes.mc.ret_indexes_used ↔ ∃ re ∈ s.routes.mc.mcret, re.idx = i
  refc : ∀ re ∈ s.routes.mc.mcret, ∃ w,
    Mll.swWalk s.routes.mc.mll.mll_pt s.routes.mc.mll.mll_ts re.mll_idx = some w ∧
      re.refc = w.length
  settled : s.outstanding = 0 → s.routes.mc.mcret = [] ∧ s.routes.mc.ret_indexes_used = [] ∧
    (∀ i : ℤ, 0 ≤ i → i < s.routes.mc.mll.mll_ts → i ∈ s.routes.mc.mll.free) ∧
      ∀ k, s.routes.lpm k = none
  returns : ∀ op, Clear s op → (step s op).isSome

namespace RunInv

variable (hinv : RunInv s P)

include hinv

omit hinv in
private theorem length_flatMap (m : Mll) (l : List ℤ) :
    (l.flatMap fun i => Mll.pairNodes (m.mll_pt i)).length = Multiset.card (m.chainNodes l) := by
  induction l with
  | nil => rfl
  | cons i l ih => simp [List.flatMap_cons, ih]

/-- Without anything outstanding no entry is left. -/
private theorem mcret_eq_nil (hout : s.outstanding = 0) : s.routes.mc.mcret = [] := by
  rw [List.eq_nil_iff_forall_not_mem]
  intro re hre
  have hle := hinv.owed re hre
  rw [hout] at hle
  have hpos := hinv.mc.refc_pos hre
  rw [hinv.mc.refc re hre] at hpos
  have hzero : s.routes.mc.nodes P re = 0 := Multiset.le_zero.mp hle
  rw [McState.nodes] at hzero
  rw [hzero] at hpos
  simp at hpos

theorem conserved : Conserved s := by
  have hfree : ∀ i : ℤ, (∃ re ∈ s.routes.mc.mcret, i ∈ P re.mll_idx) → i ∉ s.routes.mc.mll.free :=
    fun i ⟨re, _, hi⟩ => hinv.mc.mll.notFree re.mll_idx i hi
  have hcover : ∀ i : ℤ, 0 ≤ i → i < s.routes.mc.mll.mll_ts → i ∉ s.routes.mc.mll.free →
      ∃ re ∈ s.routes.mc.mcret, i ∈ P re.mll_idx := fun i h0 hlt hno => by
    obtain ⟨h, hi⟩ := (hinv.mc.mll.cover i h0 hlt).resolve_left hno
    obtain ⟨re, hre, rfl⟩ := hinv.mc.owner h (List.ne_nil_of_mem hi)
    exact ⟨re, hre, hi⟩
  refine ⟨fun i h0 hlt => ⟨fun hno => ?_, ?_⟩, fun i => ⟨hinv.used i, ?_⟩, fun re hre => ?_,
    fun hout => ?_, fun op hok => ?_⟩
  · obtain ⟨re, hre, hi⟩ := hcover i h0 hlt hno
    exact ⟨re, hre, P re.mll_idx, hinv.mc.mll.chain _ (hinv.mc.chain re hre), hi⟩
  · rintro ⟨re, hre, l, hl, hi⟩
    have hc := hinv.mc.mll.chain _ (hinv.mc.chain re hre)
    rw [hl.path.unique hc.path hl.neg_one_notMem hc.neg_one_notMem] at hi
    exact hfree i ⟨re, hre, hi⟩
  · rintro ⟨re, hre, rfl⟩
    exact hinv.mc.used re hre
  · have hP := hinv.mc.chain re hre
    have hc := hinv.mc.mll.chain _ hP
    refine ⟨_, Mll.swWalk_eq hc.path hP hc.nonneg (hinv.mc.mll.length_le _), ?_⟩
    rw [length_flatMap, hinv.mc.refc re hre]
  · have hnil := hinv.mcret_eq_nil hout
    refine ⟨hnil, ?_, fun i h0 hlt => ?_, fun k => ?_⟩
    · rw [List.eq_nil_iff_forall_not_mem]
      intro i hi
      obtain ⟨re, hre, -⟩ := hinv.used i hi
      simp [hnil] at hre
    · by_contra hno
      obtain ⟨re, hre, -⟩ := hcover i h0 hlt hno
      simp [hnil] at hre
    · rw [Option.eq_none_iff_forall_ne_some]
      intro i hi
      obtain ⟨re, hre, -⟩ := (hinv.lpm k i).mp hi
      simp [hnil] at hre
  · cases op with
    | add t w =>
      obtain ⟨s', -, heq, -⟩ := hinv.routeMcAdd hok
      rw [heq]
      rfl
    | del t =>
      obtain ⟨s', -, heq, -⟩ := hinv.routeMcDel hok
      rw [heq]
      rfl

end RunInv

theorem runInv_start (ts : ℕ) (hw : ℤ → HwPair) : RunInv (start ts hw) fun _ => [] where
  mc := {
    mll := Mll.mllInv_init ts hw
    unique := List.nodup_nil
    idxUnique := List.nodup_nil
    headUnique := List.nodup_nil
    chain := fun re hre => by simp [start, McState.init] at hre
    owner := fun h hne => absurd rfl hne
    refc := fun re hre => by simp [start, McState.init] at hre
    bp := fun re hre => by simp [start, McState.init] at hre
    route := fun re hre => by simp [start, McState.init] at hre
    used := fun re hre => by simp [start, McState.init] at hre
    usedNodup := List.nodup_nil }
  lpm k i := by simp [start, McState.init]
  pairUnique := List.nodup_nil
  used i hi := by simp [start, McState.init] at hi
  regular re hre := by simp [start, McState.init] at hre
  owed re hre := by simp [start, McState.init] at hre

/-- In every state that clear calls reach, the resources of multicast routes are conserved. -/
theorem resources_conserved (hr : Reach step Clear (start ts hw) s) : Conserved s := by
  have hinv : ∃ P, RunInv s P := by
    refine hr.invariant (fun s => ∃ P, RunInv s P) ⟨_, runInv_start ts hw⟩ ?_
    rintro s op s' ⟨P, hi⟩ hok hstep
    cases op with
    | add t w =>
      obtain ⟨s₁, P', heq, hi'⟩ := hi.routeMcAdd hok
      obtain rfl := Option.some_inj.mp (heq.symm.trans hstep)
      exact ⟨P', hi'⟩
    | del t =>
      obtain ⟨s₁, P', heq, hi'⟩ := hi.routeMcDel hok
      obtain rfl := Option.some_inj.mp (heq.symm.trans hstep)
      exact ⟨P', hi'⟩
  obtain ⟨P, hi⟩ := hinv
  exact hi.conserved

/-- Outcomes of writes that all succeed. -/
private def written : McWrites := ⟨true, true, true⟩

/-- One group and source, entered for two source VLANs and deleted again for both. -/
private def twoVlans : List McOp :=
  [.add ⟨10, 1, 2, 7, 5⟩ written, .add ⟨11, 1, 2, 8, 6⟩ written, .del ⟨11, 1, 2, 8, 6⟩,
    .del ⟨10, 1, 2, 7, 5⟩]

/-- The second entry takes over the LPM entry, and the first one is never found again. -/
theorem not_conserved :
    ∃ s, Reach step (fun _ _ => True) (start 8 fun _ => ⟨⟨0, 0, false⟩, ⟨0, 0, false⟩, 0⟩) s ∧
      ¬Conserved s := by
  have hrun : (run step (fun _ _ => True) (start 8 fun _ => ⟨⟨0, 0, false⟩, ⟨0, 0, false⟩, 0⟩)
      twoVlans).map (fun s => (s.outstanding, s.routes.mc.mcret)) =
        some (0, [⟨⟨1, 2, 5⟩, 1, 5, 0⟩]) := by
    decide
  obtain ⟨s, hs, hprobe⟩ := Option.map_eq_some_iff.mp hrun
  simp only [Prod.mk.injEq] at hprobe
  refine ⟨s, Reach.init.of_run hs, fun hc => ?_⟩
  have hnil := (hc.settled hprobe.1).1
  rw [hprobe.2] at hnil
  exact List.cons_ne_nil _ _ hnil

/-- Two receivers of one route, deleted in the other order. -/
theorem conserved_twoReceivers : ∃ s : McRun, s.outstanding = 0 ∧ Conserved s := by
  have hrun : (run step Clear (start 8 fun _ => ⟨⟨0, 0, false⟩, ⟨0, 0, false⟩, 0⟩)
      [.add ⟨10, 1, 2, 7, 5⟩ written, .add ⟨11, 1, 2, 8, 5⟩ written, .del ⟨11, 1, 2, 8, 5⟩,
        .del ⟨10, 1, 2, 7, 5⟩]).map (·.outstanding) = some 0 := by
    decide
  obtain ⟨s, hs, hprobe⟩ := Option.map_eq_some_iff.mp hrun
  exact ⟨s, hprobe, resources_conserved (Reach.init.of_run hs)⟩

end McRun

end Presteramgr
