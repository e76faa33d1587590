import Presteramgr.Mll.Step

/-!
# Adding a node

The effects of `add_node` on a chain: `create_pair` takes a pair from the free stack (`Created`),
`insert_second_node` completes the tail (`Filled`), and a new pair is linked behind a complete
tail (`Extended`).

## Main results

* `createPair_spec`: `create_pair` fails without a trace or takes a free pair;
* `Filled.chainOk` and `Extended.chainOk`: the result is a chain again; `.backOk`, `.nodes` and
  `.hwOk`: with right back links, one node more, and shown by the hardware table.
-/

namespace Presteramgr

open Function (update)
open Linked

namespace Mll

variable {m m' m₁ : Mll} {h last idx : ℤ} {a l : List ℤ} {n : MllNode} {mcg vid : ℕ}

/-! ### Taking a pair -/

/-- `mll_get` has no pair to give. -/
def Exhausted (m : Mll) : Prop := m.mll_ts - 1 ≤ m.mll_sp

instance (m : Mll) : Decidable m.Exhausted := inferInstanceAs (Decidable (_ ≤ _))

/-- Taking a free index changes no pair. -/
@[simp] theorem mllGet_pt (m : Mll) : m.mllGet.2.mll_pt = m.mll_pt := by
  unfold mllGet; split_ifs <;> rfl

/-- Taking a free index writes nothing to the device. -/
@[simp] theorem mllGet_hw (m : Mll) : m.mllGet.2.hw = m.hw := by
  unfold mllGet; split_ifs <;> rfl

/-- Taking a free index leaves the table of tails alone. -/
@[simp] theorem mllGet_ts (m : Mll) : m.mllGet.2.mll_ts = m.mll_ts := by
  unfold mllGet; split_ifs <;> rfl

/-- With no index left the call fails and changes nothing. -/
theorem mllGet_exhausted (hget : m.Exhausted) : m.mllGet = (-1, m) := if_pos hget

/-- `mll_get` pops the free stack. -/
theorem free_mllGet (hget : ¬m.Exhausted) :
    m.free = m.mllGet.1 :: m.mllGet.2.free ∧ m.mllGet.2.mll_sp ≤ m.mll_ts := by
  have hsp : ¬m.mll_ts - 1 ≤ m.mll_sp := hget
  have hlen : m.mll_ts - m.mll_sp = m.mll_ts - (m.mll_sp + 1) + 1 := by omega
  unfold mllGet free
  rw [if_neg hsp]
  refine ⟨?_, by simp only; omega⟩
  simp only [hlen, List.range_succ_eq_map, List.map_cons, List.map_map, Nat.add_zero]
  refine congrArg (m.mll_st m.mll_sp :: ·) (List.map_congr_left fun k _ => ?_)
  rw [Function.comp_apply]
  congr 1
  omega

/-- A pair that is taken and put back leaves no trace. -/
theorem mllPut_mllGet (hget : ¬m.Exhausted) : (m.mllGet.2.mllPut m.mllGet.1).2 = m := by
  have hsp : ¬m.mll_ts - 1 ≤ m.mll_sp := hget
  unfold mllGet mllPut
  simp [hsp]

/-- The shadow and the hardware pair that `create_pair` writes. -/
structure Created (m m' : Mll) (idx pred : ℤ) (n : MllNode) : Prop where
  ret : idx ≠ -1
  stack : m.free = idx :: m'.free
  sp : m'.mll_sp ≤ m.mll_ts
  ts : m'.mll_ts = m.mll_ts
  pt : ∀ j, m'.mll_pt j = if j = idx then ⟨pred, -1, n.2, n.1, 0, 0⟩ else m.mll_pt j
  hwNode : (m'.hw idx).firstMllNode.node = n
  hwLast : (m'.hw idx).firstMllNode.last = true
  hw : ∀ j, j ≠ idx → m'.hw j = m.hw j

/-- `create_pair` fails and changes nothing, or takes a free pair. -/
theorem createPair_spec (hfree : ∀ i ∈ m.free, 0 ≤ i ∧ i < m.mll_ts) (pred : ℤ) (mcg vid : ℕ)
    (wrOk : Bool) :
    m.createPair pred mcg vid wrOk = (-1, m) ∧ (m.Exhausted ∨ wrOk = false) ∨
      ∃ idx m', m.createPair pred mcg vid wrOk = (idx, m') ∧
        Created m m' idx pred (mcg, vid) := by
  by_cases hget : m.Exhausted
  · left
    refine ⟨?_, .inl hget⟩
    simp only [createPair, mllGet_exhausted hget, if_true]
  · obtain ⟨hstack, hsp⟩ := free_mllGet hget
    have hne : m.mllGet.1 ≠ -1 := by
      have := hfree m.mllGet.1 (hstack ▸ List.mem_cons_self)
      omega
    cases wrOk with
    | false =>
      left
      refine ⟨?_, .inr rfl⟩
      simp only [createPair, if_neg hne, Bool.false_eq_true, if_false, mllPut_mllGet hget]
    | true =>
      right
      simp only [createPair, if_neg hne, if_true, Prod.mk.injEq]
      refine ⟨_, _, ⟨rfl, rfl⟩, hne, hstack, hsp, by simp, fun j => ?_, ?_, ?_, fun j hj => ?_⟩
      · rw [setPair_pt, pairWrite_pt, mllGet_pt]
      · rw [setPair_hw, pairWrite_hw, if_pos rfl]
        rfl
      · rw [setPair_hw, pairWrite_hw, if_pos rfl]
      · rw [setPair_hw, pairWrite_hw, if_neg hj, mllGet_hw]

/-- The second node that `insert_second_node` writes to the tail. -/
structure Filled (m m' : Mll) (last : ℤ) (n : MllNode) : Prop where
  stack : SameStack m m'
  succ : ∀ j, (m'.mll_pt j).succ = (m.mll_pt j).succ
  pred : ∀ j, (m'.mll_pt j).pred = (m.mll_pt j).pred
  slots : (m'.mll_pt last).slots = ((m.mll_pt last).slots.1, n)
  frame : ∀ j, j ≠ last → m'.mll_pt j = m.mll_pt j
  hwFirst : (m'.hw last).firstMllNode = { (m.hw last).firstMllNode with last := false }
  hwNode : (m'.hw last).secondMllNode.node = n
  hwLast : (m'.hw last).secondMllNode.last = true
  hw : ∀ j, j ≠ last → m'.hw j = m.hw j

/-- `insert_second_node` fills the free slot of the tail. -/
theorem insertSecondNode_filled (m : Mll) (last : ℤ) (mcg vid : ℕ) :
    Filled m (m.insertSecondNode last mcg vid) last (mcg, vid) := by
  refine ⟨⟨rfl, rfl, rfl⟩, fun j => ?_, fun j => ?_, ?_, fun j hj => ?_, ?_, ?_, ?_, fun j hj => ?_⟩
  · rw [insertSecondNode, setSecond_succ, pairWrite_pt]
  · rw [insertSecondNode, setSecond_pred, pairWrite_pt]
  · rw [insertSecondNode, setSecond_slots, if_pos rfl, pairWrite_pt]
  · rw [insertSecondNode, setSecond_pt, if_neg hj, pairWrite_pt]
  · rw [insertSecondNode, setSecond_hw, pairWrite_hw, if_pos rfl]
  · rw [insertSecondNode, setSecond_hw, pairWrite_hw, if_pos rfl]
    rfl
  · rw [insertSecondNode, setSecond_hw, pairWrite_hw, if_pos rfl]
  · rw [insertSecondNode, setSecond_hw, pairWrite_hw, if_neg hj]

namespace Filled

variable (hf : Filled m m' last n) (hc : ChainOk m h (a ++ [last]))

include hf

/-- The pairs before the tail are as they were. -/
theorem frame_of_mem (hc : ChainOk m h (a ++ [last])) {j : ℤ} (hj : j ∈ a) :
    m'.mll_pt j = m.mll_pt j :=
  hf.frame j (hc.unlinked_ne (by simpa using hj))

include hc

/-- A chain stays well formed when the free slot of its tail is filled. -/
theorem chainOk (hn : n.2 ≠ 0) : ChainOk m' h (a ++ [last]) := by
  have hsvid : (m'.mll_pt last).svid ≠ 0 := by rw [svid_of_slots hf.slots]; exact hn
  refine ⟨hc.path.congr fun i _ => hf.succ i, hc.ne, hc.nodup, hc.nonneg, ?_, ?_, ?_, ?_, ?_⟩
  · rw [hf.pred]
    exact hc.head
  · intro i hi hne
    rw [hf.pred]
    exact hc.pred i hi hne
  · intro i hi hne
    rw [hf.succ] at hne
    by_cases hil : i = last
    · rw [hil]
      exact hsvid
    · rw [hf.frame i hil]
      exact hc.full i hi hne
  · intro i hi
    by_cases hil : i = last
    · rw [hil, fvid_of_slots hf.slots]
      exact hc.fvid last (by simp)
    · rw [hf.frame i hil]
      exact hc.fvid i hi
  · intro i hi h0
    by_cases hil : i = last
    · rw [hil] at h0
      exact absurd h0 hsvid
    · rw [hf.frame i hil] at h0 ⊢
      exact hc.empty i hi h0

omit hc in
/-- Its back links stay right. -/
theorem backOk (hb : BackOk m h l) : BackOk m' h l := by
  unfold BackOk
  rw [hf.pred h]
  exact hb.congr fun i _ => hf.pred i

/-- It holds the new node besides the old ones. -/
theorem nodes (hn : n.2 ≠ 0) (hs : (m.mll_pt last).svid = 0) :
    chainNodes m' (a ++ [last]) = n ::ₘ chainNodes m (a ++ [last]) := by
  have ha : chainNodes m' a = chainNodes m a := chainNodes_congr fun j hj => hf.frame_of_mem hc hj
  have hold : pairNodes (m.mll_pt last) = [(m.mll_pt last).slots.1] := by
    rw [pairNodes, if_pos hs]
    rfl
  have hnew : pairNodes (m'.mll_pt last) = [(m.mll_pt last).slots.1, n] := by
    rw [pairNodes_of_slots hf.slots, if_neg hn]
  rw [chainNodes_append, chainNodes_append, ha]
  simp only [chainNodes_cons, chainNodes_nil, hold, hnew, ← Multiset.cons_coe,
    ← Multiset.singleton_add, Multiset.coe_nil]
  abel

/-- The device still shows the chain as the shadow does. -/
theorem hwOk (hn : n.2 ≠ 0) (hok : HwOk m (a ++ [last])) : HwOk m' (a ++ [last]) := by
  intro j hj
  by_cases hjl : j = last
  · rw [hjl]
    have hsucc : (m'.mll_pt last).succ = -1 :=
      (hf.succ last).trans (path_concat.mp hc.path).2
    exact (hok last (by simp)).fill hf.slots hn hsucc hf.hwFirst hf.hwNode hf.hwLast
  · rw [hf.frame j hjl, hf.hw j hjl]
    exact hok j hj

end Filled

/-- The pair `idx`, holding the node `n` only, linked behind the complete tail `last`. -/
structure Extended (m m' : Mll) (last idx : ℤ) (n : MllNode) : Prop where
  stack : m.free = idx :: m'.free
  sp : m'.mll_sp ≤ m.mll_ts
  ts : m'.mll_ts = m.mll_ts
  self : m'.mll_pt idx = ⟨last, -1, n.2, n.1, 0, 0⟩
  succ : ∀ j, j ≠ idx → (m'.mll_pt j).succ = if j = last then idx else (m.mll_pt j).succ
  pred : ∀ j, j ≠ idx → (m'.mll_pt j).pred = (m.mll_pt j).pred
  slots : ∀ j, j ≠ idx → (m'.mll_pt j).slots = (m.mll_pt j).slots
  hwNode : (m'.hw idx).firstMllNode.node = n
  hwFlag : (m'.hw idx).firstMllNode.last = true
  hwLast : m'.hw last = { m.hw last with secondMllNode.last := false, nextPointer := idx }
  hw : ∀ j, j ≠ idx → j ≠ last → m'.hw j = m.hw j

/-- Linking a created pair behind the tail. -/
theorem Created.extended (hcr : Created m m₁ idx last n) (hne : idx ≠ last) :
    Extended m (m₁.pairSetNextPair last idx) last idx n := by
  have hpt : ∀ j, ((m₁.pairSetNextPair last idx).mll_pt j) =
      if j = last then { m₁.mll_pt j with succ := idx } else m₁.mll_pt j := fun j => by
    rw [pairSetNextPair, pairWrite_pt, setSucc_pt]
  have hhw : ∀ j, (m₁.pairSetNextPair last idx).hw j = if j = last then
      { m₁.hw last with secondMllNode.last := false, nextPointer := idx } else m₁.hw j :=
    fun j => by rw [pairSetNextPair, pairWrite_hw, setSucc_hw]
  refine ⟨hcr.stack, hcr.sp, hcr.ts, ?_, fun j hj => ?_, fun j hj => ?_, fun j hj => ?_, ?_, ?_,
    ?_, fun j hj hjl => ?_⟩
  · rw [hpt, if_neg hne, hcr.pt, if_pos rfl]
  · rw [hpt, hcr.pt, if_neg hj]
    split_ifs <;> rfl
  · rw [hpt, hcr.pt, if_neg hj]
    split_ifs <;> rfl
  · rw [hpt, hcr.pt, if_neg hj]
    split_ifs <;> rfl
  · rw [hhw, if_neg hne]
    exact hcr.hwNode
  · rw [hhw, if_neg hne]
    exact hcr.hwLast
  · rw [hhw, if_pos rfl, hcr.hw last hne.symm]
  · rw [hhw, if_neg hjl, hcr.hw j hj]

namespace Extended

variable (he : Extended m m' last idx n) (hc : ChainOk m h (a ++ [last]))
  (hidx : idx ∉ a ++ [last])

include he

/-- A pair that is neither new nor the old tail has not changed. -/
theorem frame {j : ℤ} (hj : j ≠ idx) (hjl : j ≠ last) : m'.mll_pt j = m.mll_pt j :=
  MllPair.ext_slots (he.pred j hj) ((he.succ j hj).trans (if_neg hjl)) (he.slots j hj)

include hc hidx

omit hc in
/-- The new pair is not one of the chain. -/
private theorem ne_of_mem {j : ℤ} (hj : j ∈ a ++ [last]) : j ≠ idx := by
  rintro rfl
  exact hidx hj

/-- A chain stays well formed when a pair is put behind its complete tail. -/
theorem chainOk (h0 : 0 ≤ idx) (hn : n.2 ≠ 0) (hs : (m.mll_pt last).svid ≠ 0) :
    ChainOk m' h (a ++ [last] ++ [idx]) := by
  have hne : ∀ j ∈ a ++ [last], j ≠ idx := fun j hj => he.ne_of_mem hidx hj
  have hlast := (path_concat.mp hc.path).2
  have hhead := hc.head_mem
  -- field by field: the chain, and the new pair behind it
  refine ⟨?_, by simp, ?_, ?_, ?_, ?_, ?_, ?_, ?_⟩
  · refine hc.path.append_cell hc.ne hc.nodup hc.neg_one_notMem (fun j hj => ?_) (by rw [he.self])
    rw [he.succ j (hne j hj)]
    have hiff : (m.mll_pt j).succ = -1 ↔ j = last := by
      constructor
      · intro h1
        exact hc.path.succ_inj hc.nodup hc.neg_one_notMem hj (by simp) (h1.trans hlast.symm)
      · rintro rfl
        exact hlast
    simp only [hiff]
  · exact List.nodup_append.mpr ⟨hc.nodup, List.nodup_singleton _, fun j hj i hi => by
      rw [List.mem_singleton.mp hi]
      exact hne j hj⟩
  · intro i hi
    rcases List.mem_append.mp hi with hi | hi
    · exact hc.nonneg i hi
    · rw [List.mem_singleton.mp hi]
      exact h0
  · rw [he.pred h (hne h hhead)]
    exact hc.head
  · -- the new pair leads back to the old tail
    intro i hi hih
    rcases List.mem_append.mp hi with hi | hi
    · rw [he.pred i (hne i hi)]
      exact hc.pred i hi hih
    · rw [List.mem_singleton.mp hi, he.self]
      exact hc.nonneg last (by simp)
  · -- the old tail is complete
    intro i hi h1
    rcases List.mem_append.mp hi with hi | hi
    · rw [svid_of_slots (he.slots i (hne i hi))]
      by_cases hil : i = last
      · rw [hil]
        exact hs
      · rw [he.succ i (hne i hi), if_neg hil] at h1
        exact hc.full i hi h1
    · rw [List.mem_singleton.mp hi, he.self] at h1
      exact absurd rfl h1
  · intro i hi
    rcases List.mem_append.mp hi with hi | hi
    · rw [fvid_of_slots (he.slots i (hne i hi))]
      exact hc.fvid i hi
    · rw [List.mem_singleton.mp hi, he.self]
      exact hn
  · intro i hi
    rcases List.mem_append.mp hi with hi | hi
    · rw [svid_of_slots (he.slots i (hne i hi)), smcg_of_slots (he.slots i (hne i hi))]
      exact hc.empty i hi
    · rw [List.mem_singleton.mp hi, he.self]
      exact fun _ => rfl

/-- The back links are right, that of the new pair included. -/
theorem backOk (hb : BackOk m h (a ++ [last])) : BackOk m' h (a ++ [last] ++ [idx]) := by
  unfold BackOk
  rw [he.pred h (he.ne_of_mem hidx hc.head_mem)]
  refine hb.append_cell (fun j hj => he.pred j (he.ne_of_mem hidx hj)) ?_
  rw [List.getLastD_concat, he.self]

omit hc in
/-- It holds the new node besides the old ones. -/
theorem nodes : chainNodes m' (a ++ [last] ++ [idx]) = n ::ₘ chainNodes m (a ++ [last]) := by
  have hold : chainNodes m' (a ++ [last]) = chainNodes m (a ++ [last]) :=
    chainNodes_of_slots fun j hj => he.slots j (he.ne_of_mem hidx hj)
  have hself : pairNodes (m'.mll_pt idx) = [n] := by rw [he.self]; rfl
  rw [chainNodes_append m', hold, chainNodes_cons, chainNodes_nil, hself,
    ← Multiset.singleton_add, Multiset.coe_singleton]
  abel

omit hc in
/-- The device shows the new pair and the link to it. -/
theorem hwOk (h0 : 0 ≤ idx) (hok : HwOk m (a ++ [last])) : HwOk m' (a ++ [last] ++ [idx]) := by
  intro j hj
  rcases List.mem_append.mp hj with hj | hj
  · have hne := he.ne_of_mem hidx hj
    by_cases hjl : j = last
    · have hsucc : (m'.mll_pt j).succ = idx := (he.succ j hne).trans (if_pos hjl)
      refine (hok j hj).link (he.slots j hne) (by rw [hsucc]; omega) ?_
      rw [hsucc, hjl]
      exact he.hwLast
    · rw [he.frame hne hjl, he.hw j hne hjl]
      exact hok j hj
  · rw [List.mem_singleton.mp hj]
    exact .single (by rw [he.self]; rfl) (by rw [he.self]) he.hwNode he.hwFlag

end Extended

end Mll

end Presteramgr
