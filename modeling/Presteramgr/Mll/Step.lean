import Mathlib.Order.Interval.Finset.Nat
import Mathlib.Data.Int.Interval
import Presteramgr.Mll.Hardware

/-!
# Deleting a node

`do_del_node` as a whole: whichever of its cases it takes, the chain is replaced by the chain it
leaves behind, the freed pairs go to the free stack and nothing else changes. The cases are told
apart by what they need and what they break:

* `ReadsPred`: the deletion follows the back link of the pair;
* `TakesCase8`: it takes the case that leaves a stale back link;
* `TakesCase10`: it takes the case that writes the link of the new head.

## Main results

* `doDelNode_spec`: the effect of `do_del_node` on the shadow table;
* `doDelNode_back` and `doDelNode_hw`: what it keeps of the back links and of the hardware table.
-/

namespace Presteramgr

open Function (update)
open Linked

namespace Mll

variable {m m' m₁ : Mll} {h idx last : ℤ} {a b l : List ℤ} {k n : MllNode} {mcg vid : ℕ}

/-! ### The free stack -/

/-- Both states have the same free stack. -/
structure SameStack (m m' : Mll) : Prop where
  st : m'.mll_st = m.mll_st
  sp : m'.mll_sp = m.mll_sp
  ts : m'.mll_ts = m.mll_ts

theorem SameStack.free (hs : SameStack m m') : m'.free = m.free := by
  unfold Mll.free
  rw [hs.st, hs.sp, hs.ts]

/-- `mll_put` pushes the pair on the free stack. -/
theorem free_mllPut (i : ℤ) (hsp : 0 < m.mll_sp) (hle : m.mll_sp ≤ m.mll_ts) :
    (m.mllPut i).2.free = i :: m.free := by
  have hlen : m.mll_ts - (m.mll_sp - 1) = m.mll_ts - m.mll_sp + 1 := by omega
  unfold mllPut free
  rw [if_neg (by omega)]
  simp only [hlen, List.range_succ_eq_map, List.map_cons, List.map_map, Nat.add_zero,
    Function.update_self]
  refine congrArg (i :: ·) (List.map_congr_left fun k _ => ?_)
  rw [Function.comp_apply, Function.update_of_ne (by omega)]
  congr 1
  omega

theorem mllPut_sp (i : ℤ) : (m.mllPut i).2.mll_sp = m.mll_sp - 1 := by
  unfold mllPut
  split_ifs with h0
  · rw [h0]
  · rfl

theorem mllPut_ts (i : ℤ) : (m.mllPut i).2.mll_ts = m.mll_ts := by
  unfold mllPut
  split_ifs <;> rfl

/-- A pair that is in use shows that the stack pointer is positive. -/
theorem sp_pos (hnd : m.free.Nodup) (hrange : ∀ i ∈ m.free, 0 ≤ i ∧ i < m.mll_ts) {i : ℤ}
    (hi : i ∉ m.free) (h0 : 0 ≤ i) (hts : i < m.mll_ts) : 0 < m.mll_sp := by
  by_contra hsp
  have hsp : m.mll_sp = 0 := by omega
  -- the `mll_ts` free entries would be all of the table
  have hlen : m.free.length = m.mll_ts := by simp [free, hsp]
  have hsub : m.free.toFinset ⊆ Finset.Ico 0 (m.mll_ts : ℤ) := fun j hj => by
    have := hrange j (List.mem_toFinset.mp hj)
    exact Finset.mem_Ico.mpr this
  have hcard : (Finset.Ico 0 (m.mll_ts : ℤ)).card ≤ m.free.toFinset.card := by
    rw [List.toFinset_card_of_nodup hnd, hlen]
    simp
  have heq := Finset.eq_of_subset_of_card_le hsub hcard
  refine hi (List.mem_toFinset.mp ?_)
  rw [heq]
  exact Finset.mem_Ico.mpr ⟨h0, hts⟩

/-- The stack after the pair `idx` was freed and other writes were made to the tables. -/
structure Freed (m m' : Mll) (idx : ℤ) : Prop where
  free : m'.free = idx :: m.free
  sp : m'.mll_sp + 1 = m.mll_sp
  ts : m'.mll_ts = m.mll_ts

theorem SameStack.freePair (hs : SameStack m m₁) (hsp : 0 < m.mll_sp) (hle : m.mll_sp ≤ m.mll_ts) :
    Freed m (m₁.freePair idx) idx := by
  have hset : SameStack m (m₁.setPair idx .nullnode) := ⟨hs.st, hs.sp, hs.ts⟩
  refine ⟨?_, ?_, ?_⟩
  · have hsp' : 0 < (m₁.setPair idx .nullnode).mll_sp := hset.sp ▸ hsp
    have hle' : (m₁.setPair idx .nullnode).mll_sp ≤ (m₁.setPair idx .nullnode).mll_ts := by
      rw [hset.sp, hset.ts]
      exact hle
    rw [Mll.freePair, free_mllPut idx hsp' hle', hset.free]
  · rw [Mll.freePair, mllPut_sp, hset.sp]
    omega
  · rw [Mll.freePair, mllPut_ts, hset.ts]

theorem Freed.sameStack (hf : Freed m m₁ idx) (hs : SameStack m₁ m') : Freed m m' idx :=
  ⟨hs.free.trans hf.free, by rw [hs.sp]; exact hf.sp, hs.ts.trans hf.ts⟩

/-! ### The outcome of a deletion -/

/-- The chain `l` with head `h` has become the chain `l'` with head `h'`, or is gone when `l'` is
empty; the pairs `freed` are back on the free stack and nothing else has changed. -/
structure Relinked (m m' : Mll) (h h' : ℤ) (l l' freed : List ℤ) : Prop where
  chain : l' ≠ [] → ChainOk m' h' l'
  head : h' = h ∨ h' ∈ l
  mem : ∀ j, j ∈ l ↔ j ∈ l' ∨ j ∈ freed
  keep : ∀ j ∈ l', j ∉ freed
  nodup : freed.Nodup
  frame : ∀ j, j ∉ l → m'.mll_pt j = m.mll_pt j
  null : ∀ j ∈ freed, (m'.mll_pt j).succ = -1
  stack : m'.free = freed ++ m.free
  sp : m'.mll_sp + freed.length = m.mll_sp
  ts : m'.mll_ts = m.mll_ts

/-- A deletion of the node `n` from the chain `l`. It keeps right back links unless `untold`, and
the hardware table unless `misled`. -/
structure Deleted (m m' : Mll) (h h' : ℤ) (l l' freed : List ℤ) (n : MllNode)
    (untold misled : Prop) : Prop extends Relinked m m' h h' l l' freed where
  nodes : chainNodes m l = n ::ₘ chainNodes m' l'
  back : BackOk m h l → ¬untold → BackOk m' h' l'
  hw : HwOk m l → ¬misled → HwOk m' l' ∧ ∀ j, j ∉ l → m'.hw j = m.hw j

theorem Deleted.mono {h' : ℤ} {l' freed : List ℤ} {untold untold' misled misled' : Prop}
    (hd : Deleted m m' h h' l l' freed n untold misled) (hu : untold → untold')
    (hm : misled → misled') : Deleted m m' h h' l l' freed n untold' misled' :=
  ⟨hd.toRelinked, hd.nodes, fun hb hn => hd.back hb (mt hu hn), fun ho hn => hd.hw ho (mt hm hn)⟩

theorem Shrunk.deleted (hs : Shrunk m m' idx k) (hst : SameStack m m')
    (hc : ChainOk m h (a ++ [idx])) (hk : k.2 ≠ 0)
    (hpair : (pairNodes (m.mll_pt idx) : Multiset MllNode) = {n, k})
    (hhw : HwOk m (a ++ [idx]) → HwShrunk m m' idx k) :
    Deleted m m' h h (a ++ [idx]) (a ++ [idx]) [] n False False := by
  have hidx : (m.mll_pt idx).succ = -1 := (path_concat.mp hc.path).2
  refine ⟨⟨fun _ => hs.chainOk hc hk hidx, .inl rfl, fun j => by simp, fun j _ => by simp,
    List.nodup_nil, fun j hj => hs.frame j (by rintro rfl; simp at hj), by simp, hst.free,
    hst.sp, hst.ts⟩, hs.nodes hc.nodup hpair, fun hb _ => hs.backOk hb, fun hok _ => ⟨?_, ?_⟩⟩
  · exact hs.hwOk (hhw hok) hok hidx
  · exact fun j hj => (hhw hok).frame j (by rintro rfl; simp at hj)

theorem Cut.deleted (hs : Cut m m' idx (a ++ [idx])) (hst : Freed m m' idx)
    (hc : ChainOk m h (a ++ [idx])) (ha : a ≠ []) (hpair : pairNodes (m.mll_pt idx) = [n])
    (hhw : HwCut m m' idx (a ++ [idx])) :
    Deleted m m' h h (a ++ [idx]) a [idx] n False False := by
  have hne : ∀ j ∈ a, j ≠ idx := fun j hj => hc.unlinked_ne (by simpa using hj)
  refine ⟨⟨fun _ => hs.chainOk hc ha, .inl rfl, fun j => by simp, fun j hj => ?_,
    List.nodup_singleton _, hs.frame, fun j hj => ?_, hst.free, hst.sp, hst.ts⟩, hs.nodes hc hpair,
    fun hb _ => hs.backOk hc ha hb, fun hok _ => ⟨hs.hwOk hhw hc hok, hhw.frame⟩⟩
  · simpa using hne j hj
  · rw [List.mem_singleton.mp hj, hs.self]
    rfl

section Inner

variable (hc : ChainOk m h (a ++ idx :: b)) (hb : b ≠ []) (hk : k.2 ≠ 0)
  (hpair : (pairNodes (m.mll_pt idx) : Multiset MllNode) = {n, k})

include hc hb hk hpair

theorem MovedToTail.deleted (misled : Prop)
    (hs : MovedToTail m m' idx last k (a ++ idx :: b)) (hst : SameStack m m')
    (hlast : last ∈ a ++ b) (hlast1 : (m.mll_pt last).succ = -1)
    (hcomplete : (m.mll_pt last).svid ≠ 0)
    (hhw : HwOk m (a ++ idx :: b) → ¬misled → HwMoved m m' idx k (a ++ idx :: b)) :
    Deleted m m' h (if a = [] then (m.mll_pt idx).succ else h) (a ++ idx :: b) (a ++ b ++ [idx])
      [] n False misled := by
  have hcomplete' : ∀ j ∈ a ++ b, (m.mll_pt j).succ = -1 → (m.mll_pt j).svid ≠ 0 :=
    fun j hj h1 => by
      rw [hc.path.succ_inj hc.nodup hc.neg_one_notMem (mem_of_mem_unlinked hj)
        (mem_of_mem_unlinked hlast) (h1.trans hlast1.symm)]
      exact hcomplete
  refine ⟨⟨fun _ => hs.chainOk hc hb hk hlast hcomplete', ?_, fun j => ?_, fun j _ => by simp,
    List.nodup_nil, hs.frame, by simp, hst.free, hst.sp, hst.ts⟩, hs.nodes hc hpair,
    fun hback _ => hs.backOk hc hb hlast hlast1 hback, fun hok hm => ⟨?_, (hhw hok hm).frame⟩⟩
  · split_ifs
    · exact .inr (mem_of_mem_unlinked (List.mem_append_right a (hc.succ_idx_mem hb)))
    · exact .inl rfl
  · simp only [List.mem_append, List.mem_cons, List.not_mem_nil, or_false]
    tauto
  · exact hs.hwOk (hhw hok hm) hc hb hok

theorem Dropped.deleted {told : Prop} (hs : Dropped m m' idx k told (a ++ idx :: b))
    (hst : Freed m m' idx) (htold : a = [] → told) (hlast : last ∈ a ++ b)
    (hlast1 : (m.mll_pt last).succ = -1) (hincomplete : (m.mll_pt last).svid = 0)
    (hhw : HwOk m (a ++ idx :: b) → HwDropped m m' idx k (a ++ idx :: b)) :
    Deleted m m' h (if a = [] then (m.mll_pt idx).succ else h) (a ++ idx :: b) (a ++ b) [idx] n
      (¬told) False := by
  have hincomplete' : ∀ j ∈ a ++ b, (m.mll_pt j).succ = -1 → (m.mll_pt j).svid = 0 :=
    fun j hj h1 => by
      rw [hc.path.succ_inj hc.nodup hc.neg_one_notMem (mem_of_mem_unlinked hj)
        (mem_of_mem_unlinked hlast) (h1.trans hlast1.symm)]
      exact hincomplete
  refine ⟨⟨fun _ => hs.chainOk hc hb hk htold, ?_, fun j => ?_, fun j hj => ?_,
    List.nodup_singleton _, hs.frame, fun j hj => ?_, hst.free, hst.sp, hst.ts⟩,
    hs.nodes hc hb hpair hk hincomplete', fun hback hn => hs.backOk hc (not_not.mp hn) hback,
    fun hok _ => ⟨hs.hwOk (hhw hok) hc hb hk hok, (hhw hok).frame⟩⟩
  · split_ifs
    · exact .inr (mem_of_mem_unlinked (List.mem_append_right a (hc.succ_idx_mem hb)))
    · exact .inl rfl
  · simp only [List.mem_append, List.mem_cons, List.not_mem_nil, or_false]
    tauto
  · simpa using hc.unlinked_ne hj
  · rw [List.mem_singleton.mp hj, hs.self]
    rfl

end Inner

/-- Deleting the only node of a chain. -/
theorem delCase1_deleted (hsp : 0 < m.mll_sp) (hle : m.mll_sp ≤ m.mll_ts)
    (hpair : pairNodes (m.mll_pt idx) = [n]) :
    Deleted m (m.delCase1 idx).2 h h [idx] [] [idx] n False False := by
  have hst : Freed m (m.delCase1 idx).2 idx := SameStack.freePair ⟨rfl, rfl, rfl⟩ hsp hle
  refine ⟨⟨fun hne => absurd rfl hne, .inl rfl, fun j => by simp, by simp, List.nodup_singleton _,
    fun j hj => ?_, fun j hj => ?_, hst.free, hst.sp, hst.ts⟩, ?_, fun _ _ => trivial,
    fun _ _ => ⟨by simp [HwOk], fun j _ => ?_⟩⟩
  · rw [delCase1, freePair_pt, if_neg (by simpa using hj)]
  · rw [List.mem_singleton.mp hj, delCase1, freePair_pt, if_pos rfl]
    rfl
  · simp [hpair]
  · rw [delCase1, freePair_hw]

/-! ### The conditions of the cases -/

/-- The deletion of the pair `idx` follows its back link: it is not the head, and it is not a
tail that keeps one of its two nodes. -/
def ReadsPred (m : Mll) (idx : ℤ) : Prop :=
  0 ≤ (m.mll_pt idx).pred ∧ ((m.mll_pt idx).svid = 0 ∨ 0 ≤ (m.mll_pt idx).succ)

instance (m : Mll) (idx : ℤ) : Decidable (ReadsPred m idx) :=
  inferInstanceAs (Decidable (_ ∧ _))

/-- The tail of the chain from `idx` on has a second node. -/
def CompleteTail (m : Mll) (idx : ℤ) : Prop :=
  ∃ last, findLastPair m.mll_pt m.mll_ts idx = some last ∧ (m.mll_pt last).svid ≠ 0

instance (m : Mll) (idx : ℤ) : Decidable (CompleteTail m idx) :=
  match h : findLastPair m.mll_pt m.mll_ts idx with
  | none => .isFalse (by simp [CompleteTail, h])
  | some last =>
    if hs : (m.mll_pt last).svid ≠ 0 then .isTrue ⟨last, h, hs⟩
    else .isFalse (by simpa [CompleteTail, h] using hs)

/-- `do_del_node` takes case 8. -/
def TakesCase8 (m : Mll) (idx : ℤ) (mcg vid : ℕ) : Prop :=
  (m.mll_pt idx).fvid = vid ∧ (m.mll_pt idx).fmcg = mcg ∧ (m.mll_pt idx).svid ≠ 0 ∧
    0 ≤ (m.mll_pt idx).pred ∧ 0 ≤ (m.mll_pt idx).succ ∧ ¬CompleteTail m idx

/-- `do_del_node` takes case 10 in a chain of more than two pairs. -/
def TakesCase10 (m : Mll) (idx : ℤ) (mcg vid : ℕ) : Prop :=
  ¬((m.mll_pt idx).fvid = vid ∧ (m.mll_pt idx).fmcg = mcg) ∧ 0 ≤ (m.mll_pt idx).succ ∧
    (m.mll_pt idx).pred < 0 ∧ CompleteTail m idx ∧ (m.mll_pt (m.mll_pt idx).succ).succ ≠ -1

instance (m : Mll) (idx : ℤ) (mcg vid : ℕ) : Decidable (TakesCase8 m idx mcg vid) :=
  inferInstanceAs (Decidable (_ ∧ _))

instance (m : Mll) (idx : ℤ) (mcg vid : ℕ) : Decidable (TakesCase10 m idx mcg vid) :=
  inferInstanceAs (Decidable (_ ∧ _))

/-- `del_node` finds the pair before through a back link that names a pair not linked to it. -/
def FindsStale (m : Mll) (head : ℤ) (mcg vid : ℕ) : Prop :=
  ∃ idx, findPair m.mll_pt mcg vid m.mll_ts head = some idx ∧ idx ≠ -1 ∧ m.ReadsPred idx ∧
    (m.mll_pt (m.mll_pt idx).pred).succ ≠ idx

instance (m : Mll) (head : ℤ) (mcg vid : ℕ) : Decidable (FindsStale m head mcg vid) :=
  inferInstanceAs (Decidable (∃ idx ∈ findPair m.mll_pt mcg vid m.mll_ts head,
    idx ≠ -1 ∧ m.ReadsPred idx ∧ (m.mll_pt (m.mll_pt idx).pred).succ ≠ idx))

/-- The two nodes of a full pair, one of them deleted. -/
theorem pairNodes_pair {p : MllPair} (hs : p.svid ≠ 0) (hn : (mcg, vid) ∈ pairNodes p) :
    (pairNodes p : Multiset MllNode) = {(mcg, vid),
      if p.fvid = vid ∧ p.fmcg = mcg then p.slots.2 else p.slots.1} := by
  unfold pairNodes at hn ⊢
  simp only [if_neg hs, List.mem_cons, Prod.mk.injEq, List.not_mem_nil, or_false] at hn ⊢
  split_ifs with hf
  · rw [← hf.1, ← hf.2]
    rfl
  · have hsnd : mcg = p.smcg ∧ vid = p.svid := by
      refine hn.resolve_left fun hand => hf ?_
      exact ⟨hand.2.symm, hand.1.symm⟩
    rw [hsnd.1, hsnd.2, Multiset.pair_comm]
    rfl

/-! ### `do_del_node` -/

section DoDelNode

variable (hn : (mcg, vid) ∈ pairNodes (m.mll_pt idx)) (hsp : 0 < m.mll_sp)
  (hle : m.mll_sp ≤ m.mll_ts)

/-- The loop of `find_last_pair` from the pair `idx` of a chain ends at the tail. -/
private theorem ChainOk.findLastPair_idx (hc : ChainOk m h (a ++ idx :: (b ++ [last])))
    (hlen : (a ++ idx :: (b ++ [last])).length ≤ m.mll_ts) :
    findLastPair m.mll_pt m.mll_ts idx = some last := by
  have hp := (path_append_cons.mp hc.path).2
  have hp' : Path (fun i => (m.mll_pt i).succ) idx ((idx :: b) ++ [last]) (-1) := ⟨rfl, hp⟩
  refine findLastPair_eq hp' (fun i hi => hc.nonneg i ?_) ?_
  · simp only [List.cons_append] at hi
    exact List.mem_append_right a hi
  · simp only [List.length_append, List.length_cons, List.length_nil] at hlen ⊢
    omega

include hn hsp hle

/-- Deleting a node of the tail. -/
private theorem doDelNode_tail (hc : ChainOk m h (a ++ [idx]))
    (hlen : (a ++ [idx]).length ≤ m.mll_ts)
    (hsplice : ReadsPred m idx → Spliced m h idx (a ++ [idx])) :
    ∃ m' h' l' freed, m.doDelNode idx mcg vid h = some (if l' = [] then -2 else h', m') ∧
      Deleted m m' h h' (a ++ [idx]) l' freed (mcg, vid) False False := by
  have hsucc : (m.mll_pt idx).succ = -1 := (path_concat.mp hc.path).2
  have hfind : findLastPair m.mll_pt m.mll_ts idx = some idx :=
    findLastPair_eq (l := []) ⟨rfl, hsucc⟩
      (fun i hi => hc.nonneg i (List.mem_append_right a hi)) (by simp at hlen ⊢; omega)
  have htail : (m.mll_pt idx).succ < 0 := by omega
  have hhead : (m.mll_pt idx).pred < 0 ↔ a = [] :=
    (hc.pred_neg_iff (by simp)).trans hc.idx_eq_head_iff
  by_cases hs : (m.mll_pt idx).svid = 0
  · -- the pair holds one node, so it is the one deleted
    have hfirst : (m.mll_pt idx).fvid = vid ∧ (m.mll_pt idx).fmcg = mcg := by
      simp only [pairNodes, if_pos hs, List.mem_singleton, Prod.mk.injEq] at hn
      exact ⟨hn.2.symm, hn.1.symm⟩
    have hpair : pairNodes (m.mll_pt idx) = [(mcg, vid)] := by
      rw [pairNodes, if_pos hs, hfirst.1, hfirst.2]
    -- case 1, when the pair is the head as well, and case 2
    by_cases ha : a = []
    · subst ha
      have hh : idx = h := hc.idx_eq_head_iff.mpr rfl
      refine ⟨_, h, [], [idx], ?_, delCase1_deleted hsp hle hpair⟩
      simp only [doDelNode, hfind, Option.map_some, hfirst, hs, hhead.mpr rfl, and_self, if_true]
      rfl
    · have hpred : ¬(m.mll_pt idx).pred < 0 := mt hhead.mp ha
      have hw := hsplice ⟨not_lt.mp hpred, .inl hs⟩
      have hsame : SameStack m
          (m.pairModifyChain (m.mll_pt idx).pred .skip .set .skip SKIP SKIP .skip) :=
        ⟨by simp, by simp, by simp⟩
      have hfreed : Freed m (Mll.freePair _ idx) idx := hsame.freePair hsp hle
      have hst : Freed m (m.delCase2 idx h).2 idx := hfreed.sameStack ⟨rfl, rfl, rfl⟩
      refine ⟨_, h, a, [idx], ?_, (delCase2_cut hw).deleted hst hc ha hpair (delCase2_hw hw)⟩
      simp only [doDelNode, hfind, Option.map_some, hfirst, hs, hpred, and_self, if_true, if_false,
        if_neg ha]
      rfl
  · -- the pair holds two nodes: cases 3 and 6 for the first, case 9 for the second
    have hpair := pairNodes_pair hs hn
    by_cases hfirst : (m.mll_pt idx).fvid = vid ∧ (m.mll_pt idx).fmcg = mcg
    · rw [if_pos hfirst] at hpair
      refine ⟨_, h, a ++ [idx], [], ?_, (delCase36_shrunk m idx h).deleted ⟨?_, ?_, ?_⟩ hc hs hpair
        fun hok => delCase36_hw (hok idx (by simp)) hs⟩
      · simp only [doDelNode, hfind, Option.map_some, hfirst, hs, htail, and_self, if_true,
          if_false, ite_self, List.append_eq_nil_iff, List.cons_ne_self, and_false]
        rfl
      · simp [delCase36, secondToFirst]
      · simp [delCase36, secondToFirst]
      · simp [delCase36, secondToFirst]
    · rw [if_neg hfirst] at hpair
      refine ⟨_, h, a ++ [idx], [], ?_, (delCase9_shrunk m idx h).deleted ⟨?_, ?_, ?_⟩ hc
        (hc.fvid idx (by simp)) hpair fun hok => delCase9_hw (hok idx (by simp))⟩
      · simp only [doDelNode, hfind, Option.map_some, hfirst, htail, if_true,
          if_false, List.append_eq_nil_iff, List.cons_ne_self, and_false]
        rfl
      · simp [delCase9]
      · simp [delCase9]
      · simp [delCase9]

/-- Deleting a node of the head of a longer chain. -/
private theorem doDelNode_head (hc : ChainOk m idx ([] ++ idx :: (b ++ [last])))
    (hlen : ([] ++ idx :: (b ++ [last])).length ≤ m.mll_ts) :
    ∃ m' h' l' freed, m.doDelNode idx mcg vid idx = some (if l' = [] then -2 else h', m') ∧
      Deleted m m' idx h' ([] ++ idx :: (b ++ [last])) l' freed (mcg, vid) False
        (TakesCase10 m idx mcg vid) := by
  have hlast1 : (m.mll_pt last).succ = -1 := by
    have hp := (path_append_cons.mp hc.path).2
    exact (path_concat.mp hp).2
  have hb : b ++ [last] ≠ [] := by simp
  have hmem : last ∈ [] ++ (b ++ [last]) := by simp
  have hfind := hc.findLastPair_idx hlen
  have hsite : Site m idx idx last [] (b ++ [last]) := ⟨hc, hb, hmem, hlast1⟩
  have hsucc := hc.succ_idx_ne hb
  have htail : ¬(m.mll_pt idx).succ < 0 := mt (hc.succ_neg_iff ChainOk.idx_mem).mp hsucc
  have hhead : (m.mll_pt idx).pred < 0 := hc.head
  have hs : (m.mll_pt idx).svid ≠ 0 := hc.full idx ChainOk.idx_mem hsucc
  have hpair := pairNodes_pair hs hn
  have hfvid := hc.fvid idx ChainOk.idx_mem
  -- is it the first or the second node, and is the tail complete?
  by_cases hfirst : (m.mll_pt idx).fvid = vid ∧ (m.mll_pt idx).fmcg = mcg
  · rw [if_pos hfirst] at hpair
    by_cases hcomp : (m.mll_pt last).svid = 0
    · -- case 5
      have hst : Freed m (m.delCase5 idx last).2 idx :=
        SameStack.freePair ⟨by simp, by simp, by simp⟩ hsp hle
      have hdel := (delCase5_dropped hsite).deleted hc hb hs hpair hst (fun _ => trivial) hmem
        hlast1 hcomp fun hok => delCase5_hw hsite hok hs
      refine ⟨_, _, _, _, ?_, hdel.mono (fun hu => hu trivial) False.elim⟩
      simp only [doDelNode, hfind, Option.map_some, hfirst, hs, hhead, htail, hcomp, and_self,
        ne_eq, not_true, if_true, if_false, List.nil_append, hb]
      exact congrArg some (Prod.ext (delCase5_head m idx last) rfl)
    · -- case 4
      have hst : SameStack m (m.delCase4 idx last).2 :=
        ⟨by simp [delCase4, secondToFirst], by simp [delCase4, secondToFirst],
          by simp [delCase4, secondToFirst]⟩
      have hdel := (delCase4_moved hsite).deleted hc hb hs hpair False hst hmem hlast1
        hcomp fun hok _ => delCase4_hw hsite hok hs
      refine ⟨_, _, _, _, ?_, hdel.mono id False.elim⟩
      simp only [doDelNode, hfind, Option.map_some, hfirst, hs, hhead, htail, hcomp, and_self,
        ne_eq, not_false_iff, if_true, if_false, List.nil_append, List.append_eq_nil_iff,
        List.cons_ne_self, and_false]
      exact congrArg some (Prod.ext (delCase4_head m idx last) rfl)
  · rw [if_neg hfirst] at hpair
    by_cases hcomp : (m.mll_pt last).svid = 0
    · -- case 11
      have hst : Freed m (m.delCase11 idx last).2 idx :=
        SameStack.freePair ⟨by simp, by simp, by simp⟩ hsp hle
      have hdel := (delCase11_dropped hsite).deleted hc hb hfvid hpair hst (fun _ => trivial) hmem
        hlast1 hcomp fun hok => delCase11_hw hsite hok
      refine ⟨_, _, _, _, ?_, hdel.mono (fun hu => hu trivial) False.elim⟩
      simp only [doDelNode, hfind, Option.map_some, hfirst, hhead, htail, hcomp, ne_eq, not_true,
        if_true, if_false, List.nil_append, hb]
      exact congrArg some (Prod.ext (delCase11_head m idx last) rfl)
    · -- case 10
      have hst : SameStack m (m.delCase10 idx last).2 :=
        ⟨by simp [delCase10], by simp [delCase10], by simp [delCase10]⟩
      have hdel := (delCase10_moved hsite).deleted hc hb
        hfvid hpair ((m.mll_pt idx).succ ≠ last) hst hmem hlast1 hcomp
        fun hok htwo => delCase10_hw hsite hok (not_not.mp htwo)
      refine ⟨_, _, _, _, ?_, hdel.mono id fun hne => ⟨hfirst, not_lt.mp htail, hhead,
        ⟨last, hfind, hcomp⟩, ?_⟩⟩
      · simp only [doDelNode, hfind, Option.map_some, hfirst, hhead, htail, hcomp, ne_eq,
          not_false_iff, if_true, if_false, List.nil_append, List.append_eq_nil_iff,
          List.cons_ne_self, and_false]
        rfl
      · exact mt (hsite.succ_eq_neg_one_iff hsite.succ_mem).mp hne

/-- Deleting a node of a regular pair. -/
private theorem doDelNode_regular (hc : ChainOk m h (a ++ idx :: (b ++ [last]))) (ha : a ≠ [])
    (hlen : (a ++ idx :: (b ++ [last])).length ≤ m.mll_ts)
    (hw : Spliced m h idx (a ++ idx :: (b ++ [last]))) :
    ∃ m' h' l' freed, m.doDelNode idx mcg vid h = some (if l' = [] then -2 else h', m') ∧
      Deleted m m' h h' (a ++ idx :: (b ++ [last])) l' freed (mcg, vid)
        (TakesCase8 m idx mcg vid) False := by
  have hlast1 : (m.mll_pt last).succ = -1 := by
    have hp := (path_append_cons.mp hc.path).2
    exact (path_concat.mp hp).2
  have hb : b ++ [last] ≠ [] := by simp
  have hmem : last ∈ a ++ (b ++ [last]) := by simp
  have hfind := hc.findLastPair_idx hlen
  have hsite : Site m h idx last a (b ++ [last]) := ⟨hc, hb, hmem, hlast1⟩
  have hsucc := hc.succ_idx_ne hb
  have htail : ¬(m.mll_pt idx).succ < 0 := mt (hc.succ_neg_iff ChainOk.idx_mem).mp hsucc
  have hhead : ¬(m.mll_pt idx).pred < 0 := fun hlt =>
    ha (hc.idx_eq_head_iff.mp ((hc.pred_neg_iff ChainOk.idx_mem).mp hlt))
  have hs : (m.mll_pt idx).svid ≠ 0 := hc.full idx ChainOk.idx_mem hsucc
  have hpair := pairNodes_pair hs hn
  have hfvid := hc.fvid idx ChainOk.idx_mem
  -- is it the first or the second node, and is the tail complete?
  by_cases hfirst : (m.mll_pt idx).fvid = vid ∧ (m.mll_pt idx).fmcg = mcg
  · rw [if_pos hfirst] at hpair
    by_cases hcomp : (m.mll_pt last).svid = 0
    · -- case 8
      have hst : Freed m (m.delCase8 idx last h).2 idx :=
        SameStack.freePair ⟨by simp, by simp, by simp⟩ hsp hle
      have hdel := (delCase8_dropped hsite hw).deleted hc hb hs hpair hst (fun h0 => absurd h0 ha)
        hmem hlast1 hcomp fun hok => delCase8_hw hsite hw hok hs
      refine ⟨_, _, _, _, ?_, hdel.mono (fun _ => ⟨hfirst.1, hfirst.2, hs, not_lt.mp hhead,
        not_lt.mp htail, ?_⟩) id⟩
      · simp only [doDelNode, hfind, Option.map_some, hfirst, hs, hhead, htail, hcomp, and_self,
          ne_eq, not_true, if_true, if_false, ha, List.append_eq_nil_iff, false_and]
        rfl
      · rintro ⟨last', hlast', hne⟩
        rw [hfind, Option.some_inj] at hlast'
        exact hne (hlast' ▸ hcomp)
    · -- case 7
      have hst : SameStack m (m.delCase7 idx last h).2 :=
        ⟨by simp [delCase7, secondToFirst], by simp [delCase7, secondToFirst],
          by simp [delCase7, secondToFirst]⟩
      have hdel := (delCase7_moved hsite hw).deleted hc hb hs hpair False hst hmem
        hlast1 hcomp fun hok _ => delCase7_hw hsite hw hok hs
      refine ⟨_, _, _, _, ?_, hdel.mono False.elim id⟩
      simp only [doDelNode, hfind, Option.map_some, hfirst, hs, hhead, htail, hcomp, and_self,
        ne_eq, not_false_iff, if_true, if_false, ha, List.append_eq_nil_iff, false_and]
      rfl
  · rw [if_neg hfirst] at hpair
    by_cases hcomp : (m.mll_pt last).svid = 0
    · -- case 13
      have hst : Freed m (m.delCase13 idx last h).2 idx :=
        SameStack.freePair ⟨by simp, by simp, by simp⟩ hsp hle
      have hdel := (delCase13_dropped hsite hw).deleted hc hb hfvid hpair hst (fun _ => trivial)
        hmem hlast1 hcomp fun hok => delCase13_hw hsite hw hok
      refine ⟨_, _, _, _, ?_, hdel.mono (fun hu => absurd trivial hu) id⟩
      simp only [doDelNode, hfind, Option.map_some, hfirst, hhead, htail, hcomp, ne_eq, not_true,
        if_false, ha, List.append_eq_nil_iff, false_and]
      rfl
    · -- case 12
      have hst : SameStack m (m.delCase12 idx last h).2 :=
        ⟨by simp [delCase12], by simp [delCase12], by simp [delCase12]⟩
      have hdel := (delCase12_moved hsite hw).deleted hc hb hfvid hpair False hst hmem
        hlast1 hcomp fun hok _ => delCase12_hw hsite hw hok
      refine ⟨_, _, _, _, ?_, hdel.mono False.elim id⟩
      simp only [doDelNode, hfind, Option.map_some, hfirst, hhead, htail, hcomp, ne_eq,
        not_false_iff, if_true, if_false, ha, List.append_eq_nil_iff, false_and]
      rfl

/-- `do_del_node` returns, and deletes the node from the chain. -/
theorem doDelNode_spec (hc : ChainOk m h l) (hidx : idx ∈ l) (hlen : l.length ≤ m.mll_ts)
    (hsplice : ReadsPred m idx → Spliced m h idx l) :
    ∃ m' h' l' freed, m.doDelNode idx mcg vid h = some (if l' = [] then -2 else h', m') ∧
      Deleted m m' h h' l l' freed (mcg, vid) (TakesCase8 m idx mcg vid)
        (TakesCase10 m idx mcg vid) := by
  obtain ⟨a, b, rfl⟩ := List.append_of_mem hidx
  rcases List.eq_nil_or_concat b with rfl | ⟨b, last, rfl⟩
  · obtain ⟨m', h', l', freed, hret, hdel⟩ := doDelNode_tail hn hsp hle hc hlen hsplice
    exact ⟨m', h', l', freed, hret, hdel.mono False.elim False.elim⟩
  · rw [List.concat_eq_append] at *
    have hsucc := hc.succ_idx_ne (b := b ++ [last]) (by simp)
    have htail : ¬(m.mll_pt idx).succ < 0 := mt (hc.succ_neg_iff ChainOk.idx_mem).mp hsucc
    by_cases ha : a = []
    · subst ha
      obtain rfl : idx = h := hc.idx_eq_head_iff.mpr rfl
      obtain ⟨m', h', l', freed, hret, hdel⟩ := doDelNode_head hn hsp hle hc hlen
      exact ⟨m', h', l', freed, hret, hdel.mono False.elim id⟩
    · have hpred := hc.pred idx ChainOk.idx_mem (mt hc.idx_eq_head_iff.mp ha)
      obtain ⟨m', h', l', freed, hret, hdel⟩ := doDelNode_regular hn hsp hle hc ha hlen
        (hsplice ⟨hpred, .inr (not_lt.mp htail)⟩)
      exact ⟨m', h', l', freed, hret, hdel.mono id False.elim⟩

end DoDelNode

end Mll

end Presteramgr
