import Mathlib.Tactic.Abel
import Presteramgr.Mll.Chain

/-!
# What deleting a node does to a chain

The thirteen cases of `do_del_node` leave four kinds of chain behind: the pair loses one of its
two nodes and stays the tail (`Shrunk`), the incomplete tail goes (`Cut`), the pair becomes the
new tail with one node (`MovedToTail`), or it goes and its other node completes the old tail
(`Dropped`). The kind is stated for every pair of the chain at once, without regard to which of
them are neighbours, and what it means for the chain is proved once for each kind.

## Main results

* `Shrunk.chainOk`, `Cut.chainOk`, `MovedToTail.chainOk`, `Dropped.chainOk`: the result is a
  chain again; `.nodes`: it has lost exactly the deleted node; `.backOk`: its back links are
  right again, for `Dropped` only if the successor of the dropped pair was told.
-/

namespace Presteramgr

open Function (update)
open Linked

namespace Mll

variable {m m' : Mll} {h idx : ℤ} {a b l : List ℤ} {k n : MllNode}

/-- The pair `idx`, the tail of the chain, has kept the node `k` only. -/
structure Shrunk (m m' : Mll) (idx : ℤ) (k : MllNode) : Prop where
  succ : ∀ j, (m'.mll_pt j).succ = (m.mll_pt j).succ
  pred : ∀ j, (m'.mll_pt j).pred = (m.mll_pt j).pred
  self : (m'.mll_pt idx).slots = (k, (0, 0))
  frame : ∀ j, j ≠ idx → m'.mll_pt j = m.mll_pt j

/-- The pair `idx`, the tail of the chain, has been freed. -/
structure Cut (m m' : Mll) (idx : ℤ) (l : List ℤ) : Prop where
  succ : ∀ j ∈ l, j ≠ idx → (m'.mll_pt j).succ =
    if (m.mll_pt j).succ = idx then -1 else (m.mll_pt j).succ
  pred : ∀ j ∈ l, j ≠ idx → (m'.mll_pt j).pred = (m.mll_pt j).pred
  slots : ∀ j ∈ l, j ≠ idx → (m'.mll_pt j).slots = (m.mll_pt j).slots
  self : m'.mll_pt idx = .nullnode
  frame : ∀ j, j ∉ l → m'.mll_pt j = m.mll_pt j

/-- The pair `idx` has become the tail of the chain, behind `last`, and has kept the node `k`. -/
structure MovedToTail (m m' : Mll) (idx last : ℤ) (k : MllNode) (l : List ℤ) : Prop where
  succ : ∀ j ∈ l, j ≠ idx → (m'.mll_pt j).succ =
    if (m.mll_pt j).succ = idx then (m.mll_pt idx).succ
    else if (m.mll_pt j).succ = -1 then idx else (m.mll_pt j).succ
  pred : ∀ j ∈ l, j ≠ idx → (m'.mll_pt j).pred =
    if j = (m.mll_pt idx).succ then (m.mll_pt idx).pred else (m.mll_pt j).pred
  slots : ∀ j ∈ l, j ≠ idx → (m'.mll_pt j).slots = (m.mll_pt j).slots
  self : m'.mll_pt idx = ⟨last, -1, k.2, k.1, 0, 0⟩
  frame : ∀ j, j ∉ l → m'.mll_pt j = m.mll_pt j

/-- The pair `idx` has been freed and the old tail has received its node `k`; `told` is whether
the back link of the successor has been redirected. -/
structure Dropped (m m' : Mll) (idx : ℤ) (k : MllNode) (told : Prop) (l : List ℤ) : Prop where
  succ : ∀ j ∈ l, j ≠ idx → (m'.mll_pt j).succ =
    if (m.mll_pt j).succ = idx then (m.mll_pt idx).succ else (m.mll_pt j).succ
  pred : ∀ j ∈ l, j ≠ idx → (j ≠ (m.mll_pt idx).succ ∨ ¬told) →
    (m'.mll_pt j).pred = (m.mll_pt j).pred
  predSucc : told → (m'.mll_pt (m.mll_pt idx).succ).pred = (m.mll_pt idx).pred
  slots : ∀ j ∈ l, j ≠ idx → (m.mll_pt j).succ ≠ -1 → (m'.mll_pt j).slots = (m.mll_pt j).slots
  slotsLast : ∀ j ∈ l, j ≠ idx → (m.mll_pt j).succ = -1 →
    (m'.mll_pt j).slots = ((m.mll_pt j).slots.1, k)
  self : m'.mll_pt idx = .nullnode
  frame : ∀ j, j ∉ l → m'.mll_pt j = m.mll_pt j

/-! ### Reading slots -/

theorem fvid_of_slots {p : MllPair} {x y : MllNode} (h : p.slots = (x, y)) : p.fvid = x.2 := by
  cases p; cases h; rfl

theorem svid_of_slots {p : MllPair} {x y : MllNode} (h : p.slots = (x, y)) : p.svid = y.2 := by
  cases p; cases h; rfl

theorem smcg_of_slots {p : MllPair} {x y : MllNode} (h : p.slots = (x, y)) : p.smcg = y.1 := by
  cases p; cases h; rfl

/-- The nodes of a pair are its first slot, and its second one when it is in use. -/
theorem pairNodes_of_slots {p : MllPair} {x y : MllNode} (h : p.slots = (x, y)) :
    pairNodes p = x :: if y.2 = 0 then [] else [y] := by
  cases p; cases h; rfl

/-- Chains with the same slots hold the same nodes. -/
theorem chainNodes_of_slots (heq : ∀ i ∈ l, (m'.mll_pt i).slots = (m.mll_pt i).slots) :
    chainNodes m' l = chainNodes m l := by
  unfold chainNodes
  congr 1
  refine List.map_congr_left fun i hi => ?_
  rw [pairNodes_of_slots (heq i hi)]
  rfl

namespace Shrunk

variable (hs : Shrunk m m' idx k)

include hs

/-- A chain stays well formed when a tail loses one of two nodes. -/
theorem chainOk (hc : ChainOk m h l) (hk : k.2 ≠ 0) (hidx : (m.mll_pt idx).succ = -1) :
    ChainOk m' h l := by
  refine ⟨hc.path.congr fun i _ => hs.succ i, hc.ne, hc.nodup, hc.nonneg, ?_, ?_, ?_, ?_, ?_⟩
  · rw [hs.pred]; exact hc.head
  · intro i hi hne
    rw [hs.pred]
    exact hc.pred i hi hne
  · intro i hi hne
    rw [hs.succ] at hne
    rw [hs.frame i (by rintro rfl; exact hne hidx)]
    exact hc.full i hi hne
  · intro i hi
    by_cases hi' : i = idx
    · rw [hi', fvid_of_slots hs.self]; exact hk
    · rw [hs.frame i hi']; exact hc.fvid i hi
  · intro i hi
    by_cases hi' : i = idx
    · rw [hi', smcg_of_slots hs.self]; exact fun _ => rfl
    · rw [hs.frame i hi']; exact hc.empty i hi

/-- The back links of such a chain stay right. -/
theorem backOk (hb : BackOk m h l) : BackOk m' h l := by
  unfold BackOk
  rw [hs.pred h]
  exact hb.congr fun i _ => hs.pred i

/-- The chain holds one node less. -/
theorem nodes (hnd : (a ++ idx :: b).Nodup)
    (hpair : (pairNodes (m.mll_pt idx) : Multiset MllNode) = {n, k}) :
    chainNodes m (a ++ idx :: b) = n ::ₘ chainNodes m' (a ++ idx :: b) := by
  have hx := (List.nodup_cons.mp (List.nodup_middle.mp hnd)).1
  have ha : chainNodes m' a = chainNodes m a := chainNodes_congr fun i hi =>
    hs.frame i (by rintro rfl; exact hx (by simp [hi]))
  have hb : chainNodes m' b = chainNodes m b := chainNodes_congr fun i hi =>
    hs.frame i (by rintro rfl; exact hx (by simp [hi]))
  have hself : (pairNodes (m'.mll_pt idx) : Multiset MllNode) = {k} := by
    rw [pairNodes_of_slots hs.self]; rfl
  rw [chainNodes_append, chainNodes_cons, chainNodes_append, chainNodes_cons, ha, hb, hself,
    hpair, ← Multiset.singleton_add n, Multiset.insert_eq_cons, ← Multiset.singleton_add n]
  abel

end Shrunk

/-! ### The chain without the pair `idx` -/

/-- A pair of the chain without `idx` is a pair of the chain. -/
theorem mem_of_mem_unlinked {j : ℤ} (hj : j ∈ a ++ b) : j ∈ a ++ idx :: b := by
  rcases List.mem_append.mp hj with h | h <;> simp [h]

namespace ChainOk

variable (hc : ChainOk m h (a ++ idx :: b))

include hc

/-- The chain without `idx` has no pair twice. -/
theorem unlinked_nodup : (a ++ b).Nodup := (List.nodup_cons.mp (List.nodup_middle.mp hc.nodup)).2

/-- A pair of the chain without `idx` is another pair. -/
theorem unlinked_ne {j : ℤ} (hj : j ∈ a ++ b) : j ≠ idx := by
  rintro rfl
  exact (List.nodup_cons.mp (List.nodup_middle.mp hc.nodup)).1 hj

omit hc in
/-- The pair `idx` itself is on the chain. -/
theorem idx_mem : idx ∈ a ++ idx :: b := by simp

/-- The deleted pair is the head exactly when no pair comes before it. -/
theorem idx_eq_head_iff : idx = h ↔ a = [] := by
  constructor
  · rintro rfl
    by_contra ha
    have hp := (path_append_cons.mp hc.path).1
    exact hc.unlinked_ne (List.mem_append_left b (hp.start_mem ha)) rfl
  · rintro rfl
    exact hc.path.1.symm

/-- The head once the pair `idx` is out. -/
theorem unlinked_head_mem (hab : a ++ b ≠ []) :
    (if a = [] then (m.mll_pt idx).succ else h) ∈ a ++ b := by
  split_ifs with ha
  · subst ha
    exact hc.path.2.start_mem (by simpa using hab)
  · have hp := (path_append_cons.mp hc.path).1
    exact List.mem_append_left _ (hp.start_mem ha)

/-- The pair after `idx`, when there is one. -/
theorem succ_idx_mem (hb : b ≠ []) : (m.mll_pt idx).succ ∈ b :=
  (path_append_cons.mp hc.path).2.start_mem hb

/-- A pair with others behind it has a successor. -/
theorem succ_idx_ne (hb : b ≠ []) : (m.mll_pt idx).succ ≠ -1 := fun heq =>
  hc.neg_one_notMem (by simp [← heq, hc.succ_idx_mem hb])

/-- The head is not the pair after `idx`. -/
theorem head_ne_succ_idx : h ≠ (m.mll_pt idx).succ := fun heq =>
  hc.path.succ_ne_start hc.nodup hc.neg_one_notMem ChainOk.idx_mem heq.symm

/-- With right back links, exactly the pair after `idx` points back to `idx`. -/
theorem pred_eq_idx_iff (hback : BackOk m h (a ++ idx :: b)) {j : ℤ} (hj : j ∈ a ++ b) :
    (m.mll_pt j).pred = idx ↔ j = (m.mll_pt idx).succ := by
  have hneg := hc.head
  have hidx := hc.nonneg idx ChainOk.idx_mem
  exact hback.pred_eq_iff hc.path hc.nodup hc.neg_one_notMem (by omega) ChainOk.idx_mem
    (mem_of_mem_unlinked hj)

end ChainOk

namespace Cut

variable (hs : Cut m m' idx (a ++ [idx])) (hc : ChainOk m h (a ++ [idx]))

include hs hc

/-- A chain that loses its tail stays well formed. -/
theorem chainOk (ha : a ≠ []) : ChainOk m' h a := by
  have hmem : ∀ j ∈ a, j ∈ a ++ [idx] := fun j hj => by simp [hj]
  have hne : ∀ j ∈ a, j ≠ idx := fun j hj => hc.unlinked_ne (by simpa using hj)
  have hpath : Path (fun i => (m'.mll_pt i).succ) (if a = [] then (m.mll_pt idx).succ else h)
      (a ++ []) (-1) :=
    hc.path.unlink hc.nodup hc.neg_one_notMem fun j hj => by
      rw [List.append_nil] at hj
      simp only [hs.succ j (hmem j hj) (hne j hj), (path_concat.mp hc.path).2]
  rw [if_neg ha, List.append_nil] at hpath
  have hhead := hpath.start_mem ha
  refine ⟨hpath, ha, hc.nodup.of_append_left, fun i hi => hc.nonneg i (hmem i hi), ?_, ?_, ?_,
    ?_, ?_⟩
  · rw [hs.pred h (hmem h hhead) (hne h hhead)]
    exact hc.head
  · intro i hi hih
    rw [hs.pred i (hmem i hi) (hne i hi)]
    exact hc.pred i (hmem i hi) hih
  · intro i hi hi1
    rw [hs.succ i (hmem i hi) (hne i hi)] at hi1
    rw [svid_of_slots (hs.slots i (hmem i hi) (hne i hi))]
    refine hc.full i (hmem i hi) fun heq => hi1 ?_
    split_ifs
    · rfl
    · exact heq
  · intro i hi
    rw [fvid_of_slots (hs.slots i (hmem i hi) (hne i hi))]
    exact hc.fvid i (hmem i hi)
  · intro i hi
    rw [svid_of_slots (hs.slots i (hmem i hi) (hne i hi)),
      smcg_of_slots (hs.slots i (hmem i hi) (hne i hi))]
    exact hc.empty i (hmem i hi)

/-- The back links of such a chain stay right. -/
theorem backOk (ha : a ≠ []) (hb : BackOk m h (a ++ [idx])) : BackOk m' h a := by
  have hpred : ∀ j ∈ a, (m'.mll_pt j).pred = (m.mll_pt j).pred := fun j hj =>
    hs.pred j (by simp [hj]) (hc.unlinked_ne (by simpa using hj))
  unfold BackOk
  rw [hpred h ((hs.chainOk hc ha).head_mem)]
  exact (back_append.mp hb).1.congr hpred

/-- The chain holds one node less: that of its tail. -/
theorem nodes (hpair : pairNodes (m.mll_pt idx) = [n]) :
    chainNodes m (a ++ [idx]) = n ::ₘ chainNodes m' a := by
  have ha : chainNodes m' a = chainNodes m a := chainNodes_of_slots fun j hj =>
    hs.slots j (by simp [hj]) (hc.unlinked_ne (by simpa using hj))
  rw [chainNodes_append, chainNodes_cons, chainNodes_nil, hpair, ha, ← Multiset.singleton_add,
    add_comm]
  rfl

end Cut

namespace MovedToTail

variable {last : ℤ} (hs : MovedToTail m m' idx last k (a ++ idx :: b))
  (hc : ChainOk m h (a ++ idx :: b)) (hb : b ≠ [])

include hs hc hb

/-- A chain stays well formed when a pair moves behind its complete tail. -/
theorem chainOk (hk : k.2 ≠ 0) (hlast : last ∈ a ++ b)
    (hcomplete : ∀ j ∈ a ++ b, (m.mll_pt j).succ = -1 → (m.mll_pt j).svid ≠ 0) :
    ChainOk m' (if a = [] then (m.mll_pt idx).succ else h) (a ++ b ++ [idx]) := by
  have hmem : ∀ j ∈ a ++ b, j ∈ a ++ idx :: b := fun j => mem_of_mem_unlinked
  have hne : ∀ j ∈ a ++ b, j ≠ idx := fun j => hc.unlinked_ne
  have hab : a ++ b ≠ [] := by simp [hb]
  have hhead := hc.unlinked_head_mem hab
  -- field by field: the chain without `idx`, and `idx` behind it
  refine ⟨?_, by simp, ?_, ?_, ?_, ?_, ?_, ?_, ?_⟩
  · refine (hc.path.unlink hc.nodup hc.neg_one_notMem (fun j _ => rfl)).append_cell hab
      hc.unlinked_nodup (fun hm => hc.neg_one_notMem (hmem _ hm)) (fun j hj => ?_)
      (by rw [hs.self])
    simp only [hs.succ j (hmem j hj) (hne j hj)]
    by_cases hji : (m.mll_pt j).succ = idx
    · simp only [hji, if_true, if_neg (hc.succ_idx_ne hb)]
    · simp only [hji, if_false]
  · exact List.nodup_append.mpr ⟨hc.unlinked_nodup, List.nodup_singleton _, fun j hj i hi => by
      rw [List.mem_singleton.mp hi]
      exact hne j hj⟩
  · intro i hi
    rcases List.mem_append.mp hi with hi | hi
    · exact hc.nonneg i (hmem i hi)
    · rw [List.mem_singleton.mp hi]
      exact hc.nonneg idx ChainOk.idx_mem
  · -- the new head has the predecessor of the old one
    rw [hs.pred _ (hmem _ hhead) (hne _ hhead)]
    by_cases ha : a = []
    · rw [if_pos ha, if_pos rfl, hc.idx_eq_head_iff.mpr ha]
      exact hc.head
    · rw [if_neg ha, if_neg hc.head_ne_succ_idx]
      exact hc.head
  · -- the successor of `idx` gets the predecessor of `idx`
    intro i hi hih
    rcases List.mem_append.mp hi with hi | hi
    · rw [hs.pred i (hmem i hi) (hne i hi)]
      by_cases ha : a = []
      · rw [if_pos ha] at hih
        rw [if_neg hih]
        refine hc.pred i (hmem i hi) ?_
        rw [← hc.idx_eq_head_iff.mpr ha]
        exact hne i hi
      · rw [if_neg ha] at hih
        split_ifs
        · exact hc.pred idx ChainOk.idx_mem (mt hc.idx_eq_head_iff.mp ha)
        · exact hc.pred i (hmem i hi) hih
    · rw [List.mem_singleton.mp hi, hs.self]
      exact hc.nonneg last (hmem last hlast)
  · -- the old tail is complete, and `idx` is the tail now
    intro i hi hi1
    rcases List.mem_append.mp hi with hi | hi
    · rw [svid_of_slots (hs.slots i (hmem i hi) (hne i hi))]
      by_cases h1 : (m.mll_pt i).succ = -1
      · exact hcomplete i hi h1
      · exact hc.full i (hmem i hi) h1
    · rw [List.mem_singleton.mp hi, hs.self] at hi1
      exact absurd rfl hi1
  · intro i hi
    rcases List.mem_append.mp hi with hi | hi
    · rw [fvid_of_slots (hs.slots i (hmem i hi) (hne i hi))]
      exact hc.fvid i (hmem i hi)
    · rw [List.mem_singleton.mp hi, hs.self]
      exact hk
  · intro i hi
    rcases List.mem_append.mp hi with hi | hi
    · rw [svid_of_slots (hs.slots i (hmem i hi) (hne i hi)),
        smcg_of_slots (hs.slots i (hmem i hi) (hne i hi))]
      exact hc.empty i (hmem i hi)
    · rw [List.mem_singleton.mp hi, hs.self]
      exact fun _ => rfl

/-- The back links of such a chain stay right. -/
theorem backOk (hlast : last ∈ a ++ b) (hlast1 : (m.mll_pt last).succ = -1)
    (hback : BackOk m h (a ++ idx :: b)) :
    BackOk m' (if a = [] then (m.mll_pt idx).succ else h) (a ++ b ++ [idx]) := by
  have hmem : ∀ j ∈ a ++ b, j ∈ a ++ idx :: b := fun j => mem_of_mem_unlinked
  have hne : ∀ j ∈ a ++ b, j ≠ idx := fun j => hc.unlinked_ne
  have hhead := hc.unlinked_head_mem (by simp [hb] : a ++ b ≠ [])
  have hpredh : (m'.mll_pt (if a = [] then (m.mll_pt idx).succ else h)).pred =
      (m.mll_pt h).pred := by
    rw [hs.pred _ (hmem _ hhead) (hne _ hhead)]
    by_cases ha : a = []
    · rw [if_pos ha, if_pos rfl, hc.idx_eq_head_iff.mpr ha]
    · rw [if_neg ha, if_neg hc.head_ne_succ_idx]
  have hneg := hc.head
  have hidx := hc.nonneg idx ChainOk.idx_mem
  unfold BackOk
  rw [hpredh]
  have hunlink : Back (fun j => (m'.mll_pt j).pred) (m.mll_pt h).pred (a ++ b) :=
    hback.unlink hc.nodup (by omega) fun j hj => by
      simp only [hs.pred j (hmem j hj) (hne j hj), hc.pred_eq_idx_iff hback hj]
  refine hunlink.append_cell (fun _ _ => rfl) ?_
  · -- the new tail points back to the old one
    obtain ⟨b', y, rfl⟩ := (List.eq_nil_or_concat b).resolve_left hb
    rw [List.concat_eq_append] at *
    have hy : (m.mll_pt y).succ = -1 := by
      have hp := hc.path
      rw [← List.cons_append, ← List.append_assoc] at hp
      exact (path_concat.mp hp).2
    rw [← List.append_assoc, List.getLastD_concat, hs.self]
    exact hc.path.succ_inj hc.nodup hc.neg_one_notMem (hmem last hlast)
      (hmem y (by simp)) (hlast1.trans hy.symm)

omit hb in
/-- The chain holds one node less: the pair has moved with the other one. -/
theorem nodes (hpair : (pairNodes (m.mll_pt idx) : Multiset MllNode) = {n, k}) :
    chainNodes m (a ++ idx :: b) = n ::ₘ chainNodes m' (a ++ b ++ [idx]) := by
  have hab : chainNodes m' (a ++ b) = chainNodes m (a ++ b) := chainNodes_of_slots fun j hj =>
    hs.slots j (mem_of_mem_unlinked hj) (hc.unlinked_ne hj)
  have hself : pairNodes (m'.mll_pt idx) = [k] := by rw [hs.self]; rfl
  rw [chainNodes_append _ (a ++ b), hab, chainNodes_append, chainNodes_append, chainNodes_cons,
    chainNodes_cons, hself, hpair, chainNodes_nil, ← Multiset.singleton_add,
    Multiset.insert_eq_cons, ← Multiset.singleton_add, Multiset.coe_singleton]
  abel

end MovedToTail

namespace Dropped

variable {told : Prop} (hs : Dropped m m' idx k told (a ++ idx :: b))
  (hc : ChainOk m h (a ++ idx :: b)) (hb : b ≠ [])

include hs hc hb

omit hb in
/-- The new head has the predecessor of the old one, when it is told. -/
private theorem pred_head (htold : a = [] → told) :
    (m'.mll_pt (if a = [] then (m.mll_pt idx).succ else h)).pred = (m.mll_pt h).pred := by
  by_cases ha : a = []
  · rw [if_pos ha, hs.predSucc (htold ha), hc.idx_eq_head_iff.mpr ha]
  · rw [if_neg ha]
    exact hs.pred h hc.head_mem (fun heq => ha (hc.idx_eq_head_iff.mp heq.symm))
      (.inl hc.head_ne_succ_idx)

/-- A chain stays well formed when a pair goes and its other node fills the tail. -/
theorem chainOk (hk : k.2 ≠ 0) (htold : a = [] → told) :
    ChainOk m' (if a = [] then (m.mll_pt idx).succ else h) (a ++ b) := by
  have hmem : ∀ j ∈ a ++ b, j ∈ a ++ idx :: b := fun j => mem_of_mem_unlinked
  have hne : ∀ j ∈ a ++ b, j ≠ idx := fun j => hc.unlinked_ne
  have hab : a ++ b ≠ [] := by simp [hb]
  have hpath : Path (fun i => (m'.mll_pt i).succ) (if a = [] then (m.mll_pt idx).succ else h)
      (a ++ b) (-1) :=
    hc.path.unlink hc.nodup hc.neg_one_notMem fun j hj => hs.succ j (hmem j hj) (hne j hj)
  refine ⟨hpath, hab, hc.unlinked_nodup, fun i hi => hc.nonneg i (hmem i hi), ?_, ?_, ?_, ?_, ?_⟩
  · rw [hs.pred_head hc htold]
    exact hc.head
  · intro i hi hih
    by_cases hsucc : i = (m.mll_pt idx).succ ∧ told
    · -- the successor of a pair that is not the head points to the pair before it
      have ha : a ≠ [] := by
        rintro rfl
        exact hih (by simpa using hsucc.1)
      rw [hsucc.1, hs.predSucc hsucc.2]
      exact hc.pred idx ChainOk.idx_mem (mt hc.idx_eq_head_iff.mp ha)
    · rw [hs.pred i (hmem i hi) (hne i hi) (by tauto)]
      refine hc.pred i (hmem i hi) ?_
      rintro rfl
      by_cases ha : a = []
      · exact hne i hi (hc.idx_eq_head_iff.mpr ha).symm
      · exact hih (if_neg ha).symm
  · intro i hi hi1
    by_cases h1 : (m.mll_pt i).succ = -1
    · rw [svid_of_slots (hs.slotsLast i (hmem i hi) (hne i hi) h1)]
      exact hk
    · rw [svid_of_slots (hs.slots i (hmem i hi) (hne i hi) h1)]
      exact hc.full i (hmem i hi) h1
  · intro i hi
    by_cases h1 : (m.mll_pt i).succ = -1
    · rw [fvid_of_slots (hs.slotsLast i (hmem i hi) (hne i hi) h1)]
      exact hc.fvid i (hmem i hi)
    · rw [fvid_of_slots (hs.slots i (hmem i hi) (hne i hi) h1)]
      exact hc.fvid i (hmem i hi)
  · intro i hi h0
    by_cases h1 : (m.mll_pt i).succ = -1
    · rw [svid_of_slots (hs.slotsLast i (hmem i hi) (hne i hi) h1)] at h0
      exact absurd h0 hk
    · rw [svid_of_slots (hs.slots i (hmem i hi) (hne i hi) h1)] at h0
      rw [smcg_of_slots (hs.slots i (hmem i hi) (hne i hi) h1)]
      exact hc.empty i (hmem i hi) h0

omit hb in
/-- The back links of such a chain stay right when the successor is told. -/
theorem backOk (htold : told) (hback : BackOk m h (a ++ idx :: b)) :
    BackOk m' (if a = [] then (m.mll_pt idx).succ else h) (a ++ b) := by
  have hneg := hc.head
  have hidx := hc.nonneg idx ChainOk.idx_mem
  unfold BackOk
  rw [hs.pred_head hc fun _ => htold]
  refine hback.unlink hc.nodup (by omega) fun j hj => ?_
  by_cases hj' : j = (m.mll_pt idx).succ
  · rw [if_pos ((hc.pred_eq_idx_iff hback hj).mpr hj'), hj']
    exact hs.predSucc htold
  · rw [if_neg (mt (hc.pred_eq_idx_iff hback hj).mp hj')]
    exact hs.pred j (mem_of_mem_unlinked hj) (hc.unlinked_ne hj) (.inl hj')

/-- The chain holds one node less: the other one is in the tail now. -/
theorem nodes (hpair : (pairNodes (m.mll_pt idx) : Multiset MllNode) = {n, k}) (hk : k.2 ≠ 0)
    (hincomplete : ∀ j ∈ a ++ b, (m.mll_pt j).succ = -1 → (m.mll_pt j).svid = 0) :
    chainNodes m (a ++ idx :: b) = n ::ₘ chainNodes m' (a ++ b) := by
  -- only the last pair differs, by the node `k`
  obtain ⟨b', y, rfl⟩ := (List.eq_nil_or_concat b).resolve_left hb
  rw [List.concat_eq_append] at *
  have hy : (m.mll_pt y).succ = -1 := by
    have hp := hc.path
    rw [← List.cons_append, ← List.append_assoc] at hp
    exact (path_concat.mp hp).2
  have hrest : chainNodes m' (a ++ b') = chainNodes m (a ++ b') := by
    refine chainNodes_of_slots fun j hj => ?_
    have hj' : j ∈ a ++ (b' ++ [y]) := by
      rw [← List.append_assoc]; exact List.mem_append_left _ hj
    refine hs.slots j (mem_of_mem_unlinked hj') (hc.unlinked_ne hj') fun hj1 => ?_
    have hjy := hc.path.succ_inj hc.nodup hc.neg_one_notMem (mem_of_mem_unlinked hj')
      (by simp) (hj1.trans hy.symm)
    have hnd := hc.unlinked_nodup
    rw [← List.append_assoc] at hnd
    exact (List.nodup_append.mp hnd).2.2 j hj y (by simp) hjy
  have hy0 := hincomplete y (by simp) hy
  have hnode : pairNodes (m.mll_pt y) = [(m.mll_pt y).slots.1] := by
    rw [pairNodes, if_pos hy0]
    rfl
  have hnode' : pairNodes (m'.mll_pt y) = [(m.mll_pt y).slots.1, k] := by
    rw [pairNodes_of_slots (hs.slotsLast y (by simp) (hc.unlinked_ne (by simp)) hy), if_neg hk]
  rw [← List.append_assoc, chainNodes_append m' (a ++ b'), hrest]
  simp only [chainNodes_append, chainNodes_cons, chainNodes_nil, hpair, hnode, hnode',
    ← Multiset.cons_coe, ← Multiset.singleton_add, Multiset.insert_eq_cons, Multiset.coe_nil]
  abel

end Dropped

end Mll

end Presteramgr
