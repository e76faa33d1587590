import Mathlib.Data.Multiset.Basic
import Mathlib.Algebra.Order.Group.Multiset
import Mathlib.Algebra.BigOperators.Group.List.Basic
import Presteramgr.Lib.Linked
import Presteramgr.Mll.Model

/-!
# The representation of multicast chains

What it means that the pairs of a list represent a chain of `mll_pt`, that the whole table is
divided into chains and the free stack, and that the hardware table holds the same chains.

## Main definitions

* `ChainOk m h l`: `l` are the pairs of the chain with head `h`, read along `succ`;
* `BackOk m l`: the back links of these pairs are right;
* `chainNodes m l`: the nodes the pairs hold;
* `MllInv m P`: the table is divided into the chains `P h` and the free stack;
* `HwAgree p q`: the hardware pair `q` shows the walker what the shadow pair `p` holds.

`ChainOk` constrains only the sign of the back links. The code reads a back link in two ways,
its sign to recognise the head and its value to find the pair before, and the two are kept apart
because one deletion case leaves a back link with the right sign and the wrong value.

## Main results

* `findLastPair_eq` and `findPair_spec`: the two loops end, at the last pair and at the first
  pair that holds the node;
* `swWalk_eq` and `hwWalk_eq`: the walks of the two tables give the nodes of the chain.
-/

namespace Presteramgr

open Function (update)
open Linked

namespace Mll

variable {m m' : Mll} {h i j r : ℤ} {l a b : List ℤ} {mcg vid : ℕ}

/-! ### What the single assignments change -/

section Setters

variable (m : Mll) (i j v : ℤ) (mcg vid : ℕ) (p : MllPair) (q : HwPair)

@[simp] theorem setPair_hw : (m.setPair i p).hw = m.hw := rfl
@[simp] theorem setPair_sp : (m.setPair i p).mll_sp = m.mll_sp := rfl
@[simp] theorem setPair_st : (m.setPair i p).mll_st = m.mll_st := rfl
@[simp] theorem setPair_ts : (m.setPair i p).mll_ts = m.mll_ts := rfl
@[simp] theorem pairWrite_pt : (m.pairWrite i q).mll_pt = m.mll_pt := rfl
@[simp] theorem pairWrite_sp : (m.pairWrite i q).mll_sp = m.mll_sp := rfl
@[simp] theorem pairWrite_st : (m.pairWrite i q).mll_st = m.mll_st := rfl
@[simp] theorem pairWrite_ts : (m.pairWrite i q).mll_ts = m.mll_ts := rfl

/-- A write changes the shadow of one pair. -/
theorem setPair_pt : (m.setPair i p).mll_pt j = if j = i then p else m.mll_pt j :=
  Function.update_apply _ _ _ _

/-- A write to the device changes one pair of it. -/
theorem pairWrite_hw : (m.pairWrite i q).hw j = if j = i then q else m.hw j :=
  Function.update_apply _ _ _ _

@[simp] theorem setSucc_hw : (m.setSucc i v).hw = m.hw := rfl
@[simp] theorem setSucc_sp : (m.setSucc i v).mll_sp = m.mll_sp := rfl
@[simp] theorem setSucc_st : (m.setSucc i v).mll_st = m.mll_st := rfl
@[simp] theorem setSucc_ts : (m.setSucc i v).mll_ts = m.mll_ts := rfl
@[simp] theorem setPred_hw : (m.setPred i v).hw = m.hw := rfl
@[simp] theorem setPred_sp : (m.setPred i v).mll_sp = m.mll_sp := rfl
@[simp] theorem setPred_st : (m.setPred i v).mll_st = m.mll_st := rfl
@[simp] theorem setPred_ts : (m.setPred i v).mll_ts = m.mll_ts := rfl
@[simp] theorem setFirst_hw : (m.setFirst i mcg vid).hw = m.hw := rfl
@[simp] theorem setFirst_sp : (m.setFirst i mcg vid).mll_sp = m.mll_sp := rfl
@[simp] theorem setFirst_st : (m.setFirst i mcg vid).mll_st = m.mll_st := rfl
@[simp] theorem setFirst_ts : (m.setFirst i mcg vid).mll_ts = m.mll_ts := rfl
@[simp] theorem setSecond_hw : (m.setSecond i mcg vid).hw = m.hw := rfl
@[simp] theorem setSecond_sp : (m.setSecond i mcg vid).mll_sp = m.mll_sp := rfl
@[simp] theorem setSecond_st : (m.setSecond i mcg vid).mll_st = m.mll_st := rfl
@[simp] theorem setSecond_ts : (m.setSecond i mcg vid).mll_ts = m.mll_ts := rfl

/-- `setSucc` writes the successor of one pair and nothing else of it. -/
@[simp]
theorem setSucc_pt : (m.setSucc i v).mll_pt j =
    if j = i then { m.mll_pt j with succ := v } else m.mll_pt j := by
  rw [setSucc, setPair_pt]
  split_ifs with hj
  · rw [hj]
  · rfl

/-- `setPred` writes the predecessor of one pair and nothing else of it. -/
@[simp]
theorem setPred_pt : (m.setPred i v).mll_pt j =
    if j = i then { m.mll_pt j with pred := v } else m.mll_pt j := by
  rw [setPred, setPair_pt]
  split_ifs with hj
  · rw [hj]
  · rfl

/-- `setFirst` writes the first slot of one pair. -/
@[simp]
theorem setFirst_pt : (m.setFirst i mcg vid).mll_pt j =
    if j = i then { m.mll_pt j with fvid := vid, fmcg := mcg } else m.mll_pt j := by
  rw [setFirst, setPair_pt]
  split_ifs with hj
  · rw [hj]
  · rfl

/-- `setSecond` writes the second slot of one pair. -/
@[simp]
theorem setSecond_pt : (m.setSecond i mcg vid).mll_pt j =
    if j = i then { m.mll_pt j with svid := vid, smcg := mcg } else m.mll_pt j := by
  rw [setSecond, setPair_pt]
  split_ifs with hj
  · rw [hj]
  · rfl

end Setters

/-! ### Chains -/

/-- The free entries of the stack. -/
def free (m : Mll) : List ℤ :=
  (List.range (m.mll_ts - m.mll_sp)).map fun k => m.mll_st (m.mll_sp + k)

/-- `l` are the pairs of the chain with head `h`: following `succ` from `h` visits them and ends
in `-1`, the head is the only pair with a negative back link, and every pair but the last holds
two nodes. -/
structure ChainOk (m : Mll) (h : ℤ) (l : List ℤ) : Prop where
  path : Path (fun i => (m.mll_pt i).succ) h l (-1)
  ne : l ≠ []
  nodup : l.Nodup
  nonneg : ∀ i ∈ l, 0 ≤ i
  head : (m.mll_pt h).pred < 0
  pred : ∀ i ∈ l, i ≠ h → 0 ≤ (m.mll_pt i).pred
  full : ∀ i ∈ l, (m.mll_pt i).succ ≠ -1 → (m.mll_pt i).svid ≠ 0
  fvid : ∀ i ∈ l, (m.mll_pt i).fvid ≠ 0
  empty : ∀ i ∈ l, (m.mll_pt i).svid = 0 → (m.mll_pt i).smcg = 0

/-- Each pair of `l` points back to the pair before it; the head keeps its own negative value. -/
def BackOk (m : Mll) (h : ℤ) (l : List ℤ) : Prop :=
  Back (fun i => (m.mll_pt i).pred) (m.mll_pt h).pred l

/-- The nodes of a list of pairs. -/
def chainNodes (m : Mll) (l : List ℤ) : Multiset MllNode :=
  (l.map fun i => (pairNodes (m.mll_pt i) : Multiset MllNode)).sum

/-- The table is divided into chains, `P h` being the pairs of the chain with head `h` or empty
when there is none, and the free stack. -/
structure MllInv (m : Mll) (P : ℤ → List ℤ) : Prop where
  chain : ∀ h, P h ≠ [] → ChainOk m h (P h)
  disjoint : ∀ h h', h ≠ h' → List.Disjoint (P h) (P h')
  range : ∀ h, ∀ i ∈ P h, i < m.mll_ts
  notFree : ∀ h, ∀ i ∈ P h, i ∉ m.free
  cover : ∀ i : ℤ, 0 ≤ i → i < m.mll_ts → i ∈ m.free ∨ ∃ h, i ∈ P h
  freeNodup : m.free.Nodup
  freeRange : ∀ i ∈ m.free, 0 ≤ i ∧ i < m.mll_ts
  idle : ∀ i, (∀ h, i ∉ P h) → (m.mll_pt i).succ = -1
  sp_le : m.mll_sp ≤ m.mll_ts

/-- The hardware pair `q` shows the walker the nodes and the link of the shadow pair `p`. -/
structure HwAgree (p : MllPair) (q : HwPair) : Prop where
  first : q.firstMllNode.node = (p.fmcg, p.fvid)
  last : q.firstMllNode.last = true ↔ p.svid = 0
  second : p.svid ≠ 0 → q.secondMllNode.node = (p.smcg, p.svid)
  stop : p.svid ≠ 0 → (q.secondMllNode.last = true ↔ p.succ = -1)
  next : p.succ ≠ -1 → q.nextPointer = p.succ

/-- The hardware table holds the chain. -/
def HwOk (m : Mll) (l : List ℤ) : Prop := ∀ i ∈ l, HwAgree (m.mll_pt i) (m.hw i)

/-- No pairs hold no nodes. -/
@[simp]
theorem chainNodes_nil (m : Mll) : chainNodes m [] = 0 := rfl

/-- The nodes of a chain are those of its first pair and of the rest. -/
@[simp]
theorem chainNodes_cons (m : Mll) (i : ℤ) (l : List ℤ) :
    chainNodes m (i :: l) = pairNodes (m.mll_pt i) + chainNodes m l := by
  simp [chainNodes]

/-- The nodes of two parts of a chain are the nodes of the whole. -/
@[simp]
theorem chainNodes_append (m : Mll) (a b : List ℤ) :
    chainNodes m (a ++ b) = chainNodes m a + chainNodes m b := by
  simp [chainNodes]

/-- The nodes depend on the pairs of the list only. -/
theorem chainNodes_congr (heq : ∀ i ∈ l, m'.mll_pt i = m.mll_pt i) :
    chainNodes m' l = chainNodes m l := by
  unfold chainNodes
  congr 1
  exact List.map_congr_left fun i hi => by rw [heq i hi]

/-- The nodes of a chain are those of its pairs. -/
theorem mem_chainNodes {n : MllNode} :
    n ∈ chainNodes m l ↔ ∃ i ∈ l, n ∈ pairNodes (m.mll_pt i) := by
  induction l with
  | nil => simp
  | cons x l ih => simp [ih]

namespace ChainOk

variable (hc : ChainOk m h l)

include hc

/-- The null index is on no chain. -/
theorem neg_one_notMem : (-1 : ℤ) ∉ l := fun hm => absurd (hc.nonneg _ hm) (by decide)

/-- The head is on its chain. -/
theorem head_mem : h ∈ l := hc.path.start_mem hc.ne

/-- The head is not the null index. -/
theorem head_nonneg : 0 ≤ h := hc.nonneg h hc.head_mem

/-- Only the head has a negative back link. -/
theorem pred_neg_iff (hi : i ∈ l) : (m.mll_pt i).pred < 0 ↔ i = h := by
  constructor
  · intro hneg
    by_contra hne
    exact absurd (hc.pred i hi hne) (by omega)
  · rintro rfl
    exact hc.head

/-- A link of the chain is negative only when it ends the chain. -/
theorem succ_neg_iff (hi : i ∈ l) : (m.mll_pt i).succ < 0 ↔ (m.mll_pt i).succ = -1 := by
  rcases hc.path.succ_mem hi with hm | hm
  · have := hc.nonneg _ hm
    constructor <;> intro <;> omega
  · simp only [hm]
    decide

/-- The chain depends on its own pairs only. -/
theorem congr (heq : ∀ i ∈ l, m'.mll_pt i = m.mll_pt i) : ChainOk m' h l where
  path := hc.path.congr fun i hi => by rw [heq i hi]
  ne := hc.ne
  nodup := hc.nodup
  nonneg := hc.nonneg
  head := by rw [heq h hc.head_mem]; exact hc.head
  pred i hi hne := by rw [heq i hi]; exact hc.pred i hi hne
  full i hi hne := by rw [heq i hi] at hne ⊢; exact hc.full i hi hne
  fvid i hi := by rw [heq i hi]; exact hc.fvid i hi
  empty i hi h0 := by rw [heq i hi] at h0 ⊢; exact hc.empty i hi h0

end ChainOk

/-- A node is found in the slots that are filled, unless it is `(0, 0)` and looks like an empty
slot. -/
theorem mem_pairNodes_iff {p : MllPair} (hempty : p.svid = 0 → p.smcg = 0)
    (hn : (mcg, vid) = (0, 0) → p.svid ≠ 0) :
    (mcg, vid) ∈ pairNodes p ↔
      ¬((p.fmcg ≠ mcg ∨ p.fvid ≠ vid) ∧ (p.smcg ≠ mcg ∨ p.svid ≠ vid)) := by
  unfold pairNodes
  by_cases h0 : p.svid = 0
  · have := hempty h0
    simp only [ne_eq, Prod.mk.injEq] at hn
    simp only [h0, this, if_true, List.mem_singleton, Prod.mk.injEq]
    omega
  · simp only [h0, if_false, List.mem_cons, Prod.mk.injEq, List.not_mem_nil, or_false]
    omega

/-! ### The loops -/

/-- `find_last_pair` ends at the last pair of a path that is not longer than the bound. -/
theorem findLastPair_eq {pt : ℤ → MllPair} {fuel : ℕ} {x : ℤ}
    (hp : Path (fun i => (pt i).succ) h (l ++ [x]) (-1)) (hnn : ∀ i ∈ l ++ [x], 0 ≤ i)
    (hlen : l.length < fuel) : findLastPair pt fuel h = some x := by
  induction l generalizing h fuel with
  | nil =>
    obtain ⟨rfl, hx⟩ := hp
    obtain ⟨fuel, rfl⟩ := Nat.exists_eq_succ_of_ne_zero (Nat.ne_of_gt hlen)
    rw [findLastPair, if_pos (path_nil.mp hx)]
  | cons y l ih =>
    obtain ⟨rfl, hp⟩ := hp
    obtain ⟨fuel, rfl⟩ := Nat.exists_eq_succ_of_ne_zero (by omega : fuel ≠ 0)
    have hmem := hp.start_mem (by simp)
    have hne : (pt h).succ ≠ -1 := by
      have hnonneg : 0 ≤ (pt h).succ := hnn _ (List.mem_cons_of_mem _ hmem)
      omega
    rw [findLastPair, if_neg hne]
    exact ih hp (fun i hi => hnn i (List.mem_cons_of_mem _ hi)) (by simpa using hlen)

/-- `find_pair` returns the first pair that matches the node, or `-1` when none does. -/
theorem findPair_spec {pt : ℤ → MllPair} {fuel : ℕ}
    (hp : Path (fun i => (pt i).succ) h l (-1)) (hne : l ≠ []) (hnn : ∀ i ∈ l, 0 ≤ i)
    (hempty : ∀ i ∈ l, (pt i).svid = 0 → (pt i).smcg = 0)
    (hn : (mcg, vid) = (0, 0) → ∀ i ∈ l, (pt i).svid ≠ 0)
    (hlen : l.length ≤ fuel) :
    (findPair pt mcg vid fuel h = some (-1) ∧ ∀ i ∈ l, (mcg, vid) ∉ pairNodes (pt i)) ∨
      ∃ i ∈ l, findPair pt mcg vid fuel h = some i ∧ (mcg, vid) ∈ pairNodes (pt i) := by
  induction l generalizing h fuel with
  | nil => exact absurd rfl hne
  | cons x l ih =>
    obtain ⟨rfl, hp⟩ := hp
    obtain ⟨fuel, rfl⟩ := Nat.exists_eq_succ_of_ne_zero
      (by simp at hlen; omega : fuel ≠ 0)
    have hiff := mem_pairNodes_iff (hempty h List.mem_cons_self)
      fun h0 => hn h0 h List.mem_cons_self
    rw [findPair]
    by_cases hmem : (mcg, vid) ∈ pairNodes (pt h)
    · right
      exact ⟨h, List.mem_cons_self, by rw [if_neg (hiff.mp hmem)], hmem⟩
    · rw [if_pos (not_not.mp (mt hiff.mpr hmem))]
      cases l with
      | nil =>
        left
        refine ⟨if_pos (path_nil.mp hp), fun i hi => ?_⟩
        rw [List.mem_singleton.mp hi]
        exact hmem
      | cons y l =>
        have hy : (pt h).succ = y := hp.1
        have hyne : (pt h).succ ≠ -1 := by
          have := hnn y (by simp)
          omega
        rw [if_neg hyne]
        rcases ih hp (by simp) (fun i hi => hnn i (List.mem_cons_of_mem _ hi))
            (fun i hi => hempty i (List.mem_cons_of_mem _ hi))
            (fun h0 i hi => hn h0 i (List.mem_cons_of_mem _ hi)) (by simpa using hlen) with
          ⟨heq, hno⟩ | ⟨i, hi, heq, hyes⟩
        · left
          refine ⟨heq, fun i hi => ?_⟩
          rcases List.mem_cons.mp hi with rfl | hi
          · exact hmem
          · exact hno i hi
        · exact .inr ⟨i, List.mem_cons_of_mem _ hi, heq, hyes⟩

/-- The shadow walk of a path gives the nodes of its pairs in order. -/
theorem swWalk_eq {pt : ℤ → MllPair} {fuel : ℕ}
    (hp : Path (fun i => (pt i).succ) h l (-1)) (hne : l ≠ []) (hnn : ∀ i ∈ l, 0 ≤ i)
    (hlen : l.length ≤ fuel) :
    swWalk pt fuel h = some (l.flatMap fun i => pairNodes (pt i)) := by
  induction l generalizing h fuel with
  | nil => exact absurd rfl hne
  | cons x l ih =>
    obtain ⟨rfl, hp⟩ := hp
    obtain ⟨fuel, rfl⟩ := Nat.exists_eq_succ_of_ne_zero
      (by simp at hlen; omega : fuel ≠ 0)
    rw [swWalk]
    cases l with
    | nil => rw [if_pos (path_nil.mp hp)]; simp
    | cons y l =>
      have hy : (pt h).succ = y := hp.1
      have hyne : (pt h).succ ≠ -1 := by
        have := hnn y (by simp)
        omega
      rw [if_neg hyne, ih hp (by simp) (fun i hi => hnn i (List.mem_cons_of_mem _ hi))
        (by simpa using hlen)]
      simp

/-- The hardware walk of a chain the hardware table holds gives the nodes of its pairs. -/
theorem hwWalk_eq {pt : ℤ → MllPair} {hw : ℤ → HwPair} {fuel : ℕ}
    (hp : Path (fun i => (pt i).succ) h l (-1)) (hne : l ≠ []) (hnn : ∀ i ∈ l, 0 ≤ i)
    (hfull : ∀ i ∈ l, (pt i).succ ≠ -1 → (pt i).svid ≠ 0)
    (hagree : ∀ i ∈ l, HwAgree (pt i) (hw i)) (hlen : l.length ≤ fuel) :
    hwWalk hw fuel h = some (l.flatMap fun i => pairNodes (pt i)) := by
  induction l generalizing h fuel with
  | nil => exact absurd rfl hne
  | cons x l ih =>
    obtain ⟨rfl, hp⟩ := hp
    obtain ⟨fuel, rfl⟩ := Nat.exists_eq_succ_of_ne_zero
      (by simp at hlen; omega : fuel ≠ 0)
    have hag := hagree h List.mem_cons_self
    rw [hwWalk]
    by_cases hs : (pt h).svid = 0
    · -- a single node: the pair is the last one
      cases l with
      | nil =>
        rw [if_pos (hag.last.mpr hs), hag.first]
        simp [pairNodes, hs]
      | cons y l =>
        have hy : (pt h).succ = y := hp.1
        have hyne : (pt h).succ ≠ -1 := by
          have := hnn y (by simp)
          omega
        exact absurd hs (hfull h List.mem_cons_self hyne)
    · rw [if_neg (by simpa using mt hag.last.mp hs), hag.first, hag.second hs]
      cases l with
      | nil =>
        rw [if_pos ((hag.stop hs).mpr (path_nil.mp hp))]
        simp [pairNodes, hs]
      | cons y l =>
        have hy : (pt h).succ = y := hp.1
        have hyne : (pt h).succ ≠ -1 := by
          have := hnn y (by simp)
          omega
        rw [if_neg (by simpa using mt (hag.stop hs).mp hyne), hag.next hyne,
          ih hp (by simp) (fun i hi => hnn i (List.mem_cons_of_mem _ hi))
            (fun i hi => hfull i (List.mem_cons_of_mem _ hi))
            (fun i hi => hagree i (List.mem_cons_of_mem _ hi)) (by simpa using hlen)]
        simp [pairNodes, hs]

end Mll

end Presteramgr
