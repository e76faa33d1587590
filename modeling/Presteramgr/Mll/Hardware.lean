import Presteramgr.Mll.Cases

/-!
# The hardware table during a deletion

What the thirteen cases of `do_del_node` write to the pair table of the packet processor, by the
same four kinds of effect as in the shadow table, and that the hardware table still holds the
chain afterwards. `delCase10` writes the link of the new head, which is right only if the new
head is also the old tail.

## Main results

* `MovedToTail.hwOk`, `Dropped.hwOk`, `Cut.hwOk`, `Shrunk.hwOk`: the two effects fit together.
-/

namespace Presteramgr

open Function (update)
open Linked

namespace Mll

variable {m m' : Mll} {h idx last : ℤ} {a b l : List ℤ} {k : MllNode}

/-! ### Single pairs -/

namespace HwAgree

variable {p p' : MllPair} {q q' : HwPair}

/-- A pair that keeps its nodes still agrees when the link is written rightly. -/
theorem of_link (hpq : HwAgree p q) (hslots : p'.slots = p.slots)
    (hfst : q'.firstMllNode = q.firstMllNode)
    (hnode : q'.secondMllNode.node = q.secondMllNode.node)
    (hstop : p.svid ≠ 0 → (q'.secondMllNode.last = true ↔ p'.succ = -1))
    (hnext : p'.succ ≠ -1 → q'.nextPointer = p'.succ) : HwAgree p' q' := by
  have hf : (p'.fmcg, p'.fvid) = (p.fmcg, p.fvid) := congrArg Prod.fst hslots
  have hs : (p'.smcg, p'.svid) = (p.smcg, p.svid) := congrArg Prod.snd hslots
  have hsvid : p'.svid = p.svid := congrArg Prod.snd hs
  refine ⟨?_, ?_, ?_, ?_, hnext⟩
  · rw [hfst, hf]; exact hpq.first
  · rw [hfst, hsvid]; exact hpq.last
  · rw [hnode, hs, hsvid]; exact hpq.second
  · rw [hsvid]; exact hstop

/-- Agreement depends on the slots and the link of the shadow pair. -/
theorem congr (hpq : HwAgree p q) (hslots : p'.slots = p.slots) (hsucc : p'.succ = p.succ) :
    HwAgree p' q :=
  hpq.of_link hslots rfl rfl (by rw [hsucc]; exact hpq.stop) (by rw [hsucc]; exact hpq.next)

/-- The link of an inner pair is redirected. -/
theorem relink (hpq : HwAgree p q) (hslots : p'.slots = p.slots) (hsucc : p.succ ≠ -1)
    (hsucc' : p'.succ ≠ -1) (hnext : q' = { q with nextPointer := p'.succ }) : HwAgree p' q' := by
  subst hnext
  exact hpq.of_link hslots rfl rfl (fun h0 => (hpq.stop h0).trans (iff_of_false hsucc hsucc'))
    fun _ => rfl

/-- A tail of two nodes is linked to a further pair. -/
theorem link (hpq : HwAgree p q) (hslots : p'.slots = p.slots) (hsucc' : p'.succ ≠ -1)
    (hnext : q' = { q with secondMllNode.last := false, nextPointer := p'.succ }) :
    HwAgree p' q' := by
  subst hnext
  exact hpq.of_link hslots rfl rfl (fun _ => iff_of_false Bool.false_ne_true hsucc') fun _ => rfl

/-- An inner pair becomes the tail. -/
theorem cut (hpq : HwAgree p q) (hslots : p'.slots = p.slots) (hsucc' : p'.succ = -1)
    (hstop : q' = { q with secondMllNode.last := true }) : HwAgree p' q' := by
  subst hstop
  exact hpq.of_link hslots rfl rfl (fun _ => iff_of_true rfl hsucc') fun hne => absurd hsucc' hne

/-- A pair of one node is shown by its first node. -/
theorem single (hslots : p.slots = (k, (0, 0))) (hsucc : p.succ = -1)
    (hnode : q.firstMllNode.node = k) (hlast : q.firstMllNode.last = true) : HwAgree p q := by
  have h0 : p.svid = 0 := svid_of_slots hslots
  refine ⟨?_, iff_of_true hlast h0, fun hne => absurd h0 hne, fun hne => absurd h0 hne,
    fun hne => absurd hsucc hne⟩
  rw [hnode]
  exact (congrArg Prod.fst hslots).symm

/-- The empty slot of a tail is filled. -/
theorem fill (hpq : HwAgree p q) (hslots : p'.slots = (p.slots.1, k)) (hk : k.2 ≠ 0)
    (hsucc' : p'.succ = -1) (hfst : q'.firstMllNode = { q.firstMllNode with last := false })
    (hnode : q'.secondMllNode.node = k) (hlast : q'.secondMllNode.last = true) :
    HwAgree p' q' := by
  have hne : p'.svid ≠ 0 := by rw [svid_of_slots hslots]; exact hk
  refine ⟨?_, ?_, fun _ => ?_, fun _ => iff_of_true hlast hsucc', fun hs => absurd hsucc' hs⟩
  · rw [hfst]
    exact hpq.first.trans (congrArg Prod.fst hslots).symm
  · rw [hfst]
    exact iff_of_false Bool.false_ne_true hne
  · rw [hnode]
    exact (congrArg Prod.snd hslots).symm

end HwAgree

/-! ### Effects on the hardware table -/

/-- The pair `idx` has become the tail in the hardware table, with the node `k` only. -/
structure HwMoved (m m' : Mll) (idx : ℤ) (k : MllNode) (l : List ℤ) : Prop where
  others : ∀ j ∈ l, j ≠ idx → m'.hw j =
    if (m.mll_pt j).succ = idx then { m.hw j with nextPointer := (m.mll_pt idx).succ }
    else if (m.mll_pt j).succ = -1 then
      { m.hw j with secondMllNode.last := false, nextPointer := idx }
    else m.hw j
  node : (m'.hw idx).firstMllNode.node = k
  last : (m'.hw idx).firstMllNode.last = true
  frame : ∀ j, j ∉ l → m'.hw j = m.hw j

/-- The pair `idx` is out of the chain in the hardware table, its node `k` in the old tail. -/
structure HwDropped (m m' : Mll) (idx : ℤ) (k : MllNode) (l : List ℤ) : Prop where
  inner : ∀ j ∈ l, j ≠ idx → (m.mll_pt j).succ ≠ -1 → m'.hw j =
    if (m.mll_pt j).succ = idx then { m.hw j with nextPointer := (m.mll_pt idx).succ } else m.hw j
  tailFirst : ∀ j ∈ l, j ≠ idx → (m.mll_pt j).succ = -1 →
    (m'.hw j).firstMllNode = { (m.hw j).firstMllNode with last := false }
  tailNode : ∀ j ∈ l, j ≠ idx → (m.mll_pt j).succ = -1 → (m'.hw j).secondMllNode.node = k
  tailLast : ∀ j ∈ l, j ≠ idx → (m.mll_pt j).succ = -1 → (m'.hw j).secondMllNode.last = true
  frame : ∀ j, j ∉ l → m'.hw j = m.hw j

/-- The tail `idx` is out of the chain in the hardware table. -/
structure HwCut (m m' : Mll) (idx : ℤ) (l : List ℤ) : Prop where
  others : ∀ j ∈ l, j ≠ idx → m'.hw j =
    if (m.mll_pt j).succ = idx then { m.hw j with secondMllNode.last := true } else m.hw j
  frame : ∀ j, j ∉ l → m'.hw j = m.hw j

/-- The tail `idx` shows the node `k` only. -/
structure HwShrunk (m m' : Mll) (idx : ℤ) (k : MllNode) : Prop where
  node : (m'.hw idx).firstMllNode.node = k
  last : (m'.hw idx).firstMllNode.last = true
  frame : ∀ j, j ≠ idx → m'.hw j = m.hw j

/-- The device still shows a chain whose tail loses one of two nodes. -/
theorem Shrunk.hwOk (hs : Shrunk m m' idx k) (hh : HwShrunk m m' idx k) (hok : HwOk m l)
    (hidx : (m.mll_pt idx).succ = -1) : HwOk m' l := by
  intro j hj
  by_cases hne : j = idx
  · rw [hne]
    exact .single hs.self ((hs.succ idx).trans hidx) hh.node hh.last
  · rw [hs.frame j hne, hh.frame j hne]
    exact hok j hj

/-- The device still shows a chain that loses its tail. -/
theorem Cut.hwOk (hs : Cut m m' idx (a ++ [idx])) (hh : HwCut m m' idx (a ++ [idx]))
    (hc : ChainOk m h (a ++ [idx])) (hok : HwOk m (a ++ [idx])) : HwOk m' a := by
  intro j hj
  have hmem : j ∈ a ++ [idx] := by simp [hj]
  have hne : j ≠ idx := hc.unlinked_ne (by simpa using hj)
  have hsucc := hs.succ j hmem hne
  have hhw := hh.others j hmem hne
  have hslots := hs.slots j hmem hne
  by_cases hji : (m.mll_pt j).succ = idx
  · rw [if_pos hji] at hsucc hhw
    exact (hok j hmem).cut hslots hsucc hhw
  · rw [if_neg hji] at hsucc hhw
    rw [hhw]
    exact (hok j hmem).congr hslots hsucc

/-- The device still shows a chain in which a pair moves behind the tail. -/
theorem MovedToTail.hwOk (hs : MovedToTail m m' idx last k (a ++ idx :: b))
    (hh : HwMoved m m' idx k (a ++ idx :: b)) (hc : ChainOk m h (a ++ idx :: b)) (hb : b ≠ [])
    (hok : HwOk m (a ++ idx :: b)) : HwOk m' (a ++ b ++ [idx]) := by
  have hidx : idx ≠ -1 := by
    have := hc.nonneg idx ChainOk.idx_mem
    omega
  intro j hj
  rcases List.mem_append.mp hj with hj | hj
  · have hmem : j ∈ a ++ idx :: b := mem_of_mem_unlinked hj
    have hne : j ≠ idx := hc.unlinked_ne hj
    have hsucc := hs.succ j hmem hne
    have hhw := hh.others j hmem hne
    have hslots := hs.slots j hmem hne
    by_cases hji : (m.mll_pt j).succ = idx
    · rw [if_pos hji] at hsucc hhw
      refine (hok j hmem).relink hslots (by rw [hji]; exact hidx) ?_ (by rw [hsucc]; exact hhw)
      rw [hsucc]
      exact hc.succ_idx_ne hb
    · rw [if_neg hji] at hsucc hhw
      by_cases hj1 : (m.mll_pt j).succ = -1
      · rw [if_pos hj1] at hsucc hhw
        exact (hok j hmem).link hslots (by rw [hsucc]; exact hidx) (by rw [hsucc]; exact hhw)
      · rw [if_neg hj1] at hsucc hhw
        rw [hhw]
        exact (hok j hmem).congr hslots hsucc
  · rw [List.mem_singleton.mp hj]
    exact .single (by rw [hs.self]; rfl) (by rw [hs.self]) hh.node hh.last

/-- The device still shows a chain in which a pair goes and its other node fills the tail. -/
theorem Dropped.hwOk {told : Prop} (hs : Dropped m m' idx k told (a ++ idx :: b))
    (hh : HwDropped m m' idx k (a ++ idx :: b)) (hc : ChainOk m h (a ++ idx :: b)) (hb : b ≠ [])
    (hk : k.2 ≠ 0) (hok : HwOk m (a ++ idx :: b)) : HwOk m' (a ++ b) := by
  have hidx : idx ≠ -1 := by
    have := hc.nonneg idx ChainOk.idx_mem
    omega
  intro j hj
  have hmem : j ∈ a ++ idx :: b := mem_of_mem_unlinked hj
  have hne : j ≠ idx := hc.unlinked_ne hj
  have hsucc := hs.succ j hmem hne
  by_cases hj1 : (m.mll_pt j).succ = -1
  · rw [if_neg (by rw [hj1]; exact hidx.symm)] at hsucc
    exact (hok j hmem).fill (hs.slotsLast j hmem hne hj1) hk (hsucc.trans hj1)
      (hh.tailFirst j hmem hne hj1) (hh.tailNode j hmem hne hj1) (hh.tailLast j hmem hne hj1)
  · have hhw := hh.inner j hmem hne hj1
    have hslots := hs.slots j hmem hne hj1
    by_cases hji : (m.mll_pt j).succ = idx
    · rw [if_pos hji] at hsucc hhw
      refine (hok j hmem).relink hslots hj1 ?_ (by rw [hsucc]; exact hhw)
      rw [hsucc]
      exact hc.succ_idx_ne hb
    · rw [if_neg hji] at hsucc hhw
      rw [hhw]
      exact (hok j hmem).congr hslots hsucc

/-! ### What the cases write -/

/-- Moving a node inside the shadow writes nothing to the device. -/
@[simp]
theorem secondToFirst_hw (m : Mll) (i : ℤ) : (m.secondToFirst i).hw = m.hw := rfl

/-- Freeing a pair writes nothing to the device. -/
@[simp]
theorem freePair_hw (m : Mll) (i : ℤ) : (m.freePair i).hw = m.hw := by
  unfold freePair mllPut
  split_ifs <;> rfl

section Effects

variable (hs : Site m h idx last a b) (before : ℤ → Prop) [DecidablePred before]
  (hmem : ∀ j, before j → j ∈ a ++ idx :: b)
  (hbefore : ∀ j ∈ a ++ idx :: b, (m.mll_pt j).succ = idx ↔ before j)

include hs hmem hbefore

/-- The effect `HwMoved` read off the writes, `before` being the pair linked to `idx`. -/
private theorem Site.hwMoved
    (hwrite : ∀ j, j ≠ idx → m'.hw j =
      if j = last then { m.hw j with secondMllNode.last := false, nextPointer := idx }
      else if before j then { m.hw j with nextPointer := (m.mll_pt idx).succ } else m.hw j)
    (hnode : (m'.hw idx).firstMllNode.node = k) (hlast : (m'.hw idx).firstMllNode.last = true) :
    HwMoved m m' idx k (a ++ idx :: b) := by
  refine ⟨fun j hj hne => ?_, hnode, hlast, fun j hj => ?_⟩
  · rw [hwrite j hne]
    simp only [hbefore j hj, hs.succ_eq_neg_one_iff hj]
    by_cases hjl : j = last
    · have hnot : ¬before j := fun hb => by
        have h1 := (hbefore j hj).mpr hb
        rw [hjl, hs.last_succ] at h1
        have h2 := hs.idx_nonneg
        omega
      rw [if_pos hjl, if_neg hnot, if_pos hjl]
    · simp only [if_neg hjl]
  · rw [hwrite j (by rintro rfl; exact hj ChainOk.idx_mem),
      if_neg (by rintro rfl; exact hj hs.last_mem'), if_neg (mt (hmem j) hj)]

/-- The effect `HwDropped` read off the writes, `before` being the pair linked to `idx`. -/
private theorem Site.hwDropped {n : HwNode}
    (hwrite : ∀ j, m'.hw j =
      if j = last then { m.hw j with
        firstMllNode.last := false
        secondMllNode := { n with last := true } }
      else if before j then { m.hw j with nextPointer := (m.mll_pt idx).succ } else m.hw j)
    (hnode : n.node = k) :
    HwDropped m m' idx k (a ++ idx :: b) := by
  have hlast : ∀ j ∈ a ++ idx :: b, (m.mll_pt j).succ = -1 → j = last := fun j hj =>
    (hs.succ_eq_neg_one_iff hj).mp
  refine ⟨fun j hj hne h1 => ?_, fun j hj hne h1 => ?_, fun j hj hne h1 => ?_,
    fun j hj hne h1 => ?_, fun j hj => ?_⟩
  · rw [hwrite j, if_neg (mt (hs.succ_eq_neg_one_iff hj).mpr h1)]
    simp only [hbefore j hj]
  · rw [hwrite j, if_pos (hlast j hj h1)]
  · rw [hwrite j, if_pos (hlast j hj h1)]
    exact hnode
  · rw [hwrite j, if_pos (hlast j hj h1)]
  · rw [hwrite j, if_neg (by rintro rfl; exact hj hs.last_mem'), if_neg (mt (hmem j) hj)]

end Effects

section Regular

variable (hs : Site m h idx last a b) (hw : Spliced m h idx (a ++ idx :: b))
  (hok : HwOk m (a ++ idx :: b)) (hsvid : (m.mll_pt idx).svid ≠ 0)

include hs hw hok hsvid

/-- What case 7 writes to the device. -/
theorem delCase7_hw : HwMoved m (m.delCase7 idx last h).2 idx (m.mll_pt idx).slots.2
    (a ++ idx :: b) := by
  have h1 := hs.chain.succ_idx_ne hs.ne
  have h2 : idx ≠ -1 := by have := hs.idx_nonneg; omega
  have h3 := hs.pred_ne_last hw
  have h4 := hs.pred_ne_idx hw
  have h5 := hs.last_ne
  have hidx : (m.delCase7 idx last h).2.hw idx =
      { m.hw idx with firstMllNode := { (m.hw idx).secondMllNode with last := true } } := by
    simp only [delCase7, pairModifyChain, pairWrite_hw, FlagCmd.apply, SKIP, setPred_hw,
      setSucc_hw, secondToFirst_hw, h1, h2, ne_eq, not_false_iff, not_true, if_true, if_false,
      if_neg h3.symm, if_neg h4.symm, if_neg h5, if_neg h5.symm]
  refine hs.hwMoved (fun j => j = (m.mll_pt idx).pred) (fun j hj => hj ▸ hw.mem)
    (fun j hj => hw.succ_eq_iff hj) (fun j hne => ?_) ?_ ?_
  · simp only [delCase7, pairModifyChain, pairWrite_hw, FlagCmd.apply, SKIP, setPred_hw,
      setSucc_hw, secondToFirst_hw, h1, h2, ne_eq, not_false_iff, if_true, if_neg h3.symm,
      if_neg h5, if_neg hne]
    split_ifs with hj hj
    · rw [hj]
    · rw [hj]
    · rfl
  · rw [hidx]
    exact (hok idx ChainOk.idx_mem).second hsvid
  · rw [hidx]

omit hsvid in
/-- What case 12 writes to the device. -/
theorem delCase12_hw : HwMoved m (m.delCase12 idx last h).2 idx (m.mll_pt idx).slots.1
    (a ++ idx :: b) := by
  have h1 := hs.chain.succ_idx_ne hs.ne
  have h2 : idx ≠ -1 := by have := hs.idx_nonneg; omega
  have h3 := hs.pred_ne_last hw
  have h4 := hs.pred_ne_idx hw
  have h5 := hs.last_ne
  have hidx : (m.delCase12 idx last h).2.hw idx =
      { m.hw idx with firstMllNode.last := true } := by
    simp only [delCase12, pairModifyChain, pairWrite_hw, FlagCmd.apply, SKIP, setPred_hw,
      setSucc_hw, setSecond_hw, h1, h2, ne_eq, not_false_iff, not_true, if_true, if_false,
      if_neg h3.symm, if_neg h4.symm, if_neg h5, if_neg h5.symm]
  refine hs.hwMoved (fun j => j = (m.mll_pt idx).pred) (fun j hj => hj ▸ hw.mem)
    (fun j hj => hw.succ_eq_iff hj) (fun j hne => ?_) ?_ ?_
  · simp only [delCase12, pairModifyChain, pairWrite_hw, FlagCmd.apply, SKIP, setPred_hw,
      setSucc_hw, setSecond_hw, h1, h2, ne_eq, not_false_iff, if_true, if_neg h3.symm,
      if_neg h5, if_neg hne]
    split_ifs with hj hj
    · rw [hj]
    · rw [hj]
    · rfl
  · rw [hidx]
    exact (hok idx ChainOk.idx_mem).first
  · rw [hidx]

/-- What case 8 writes to the device. -/
theorem delCase8_hw : HwDropped m (m.delCase8 idx last h).2 idx (m.mll_pt idx).slots.2
    (a ++ idx :: b) := by
  have h1 := hs.chain.succ_idx_ne hs.ne
  have h3 := hs.pred_ne_last hw
  have h4 := hs.pred_ne_idx hw
  refine hs.hwDropped (fun j => j = (m.mll_pt idx).pred) (fun j hj => hj ▸ hw.mem)
    (fun j hj => hw.succ_eq_iff hj) (n := (m.hw idx).secondMllNode) (fun j => ?_)
    ((hok idx ChainOk.idx_mem).second hsvid)
  simp only [delCase8, pairModifyChain, pairWrite_hw, FlagCmd.apply, SKIP, freePair_hw,
    setSucc_hw, setSecond_hw, h1, ne_eq, not_false_iff, not_true, if_true, if_false,
    if_neg h3.symm, if_neg h4.symm]
  split_ifs with hj hj
  · rw [hj]
  · rw [hj]
  · rfl

omit hsvid in
/-- What case 13 writes to the device. -/
theorem delCase13_hw : HwDropped m (m.delCase13 idx last h).2 idx (m.mll_pt idx).slots.1
    (a ++ idx :: b) := by
  have h1 := hs.chain.succ_idx_ne hs.ne
  have h3 := hs.pred_ne_last hw
  have h4 := hs.pred_ne_idx hw
  refine hs.hwDropped (fun j => j = (m.mll_pt idx).pred) (fun j hj => hj ▸ hw.mem)
    (fun j hj => hw.succ_eq_iff hj) (n := (m.hw idx).firstMllNode) (fun j => ?_)
    (hok idx ChainOk.idx_mem).first
  simp only [delCase13, pairModifyChain, pairWrite_hw, FlagCmd.apply, SKIP, freePair_hw,
    setSucc_hw, setPred_hw, setSecond_hw, h1, ne_eq, not_false_iff, not_true, if_true, if_false,
    if_neg h3.symm, if_neg h4.symm]
  split_ifs with hj hj
  · rw [hj]
  · rw [hj]
  · rfl

end Regular

section Head

variable (hs : Site m h h last [] b) (hok : HwOk m ([] ++ h :: b))

include hs hok

/-- What case 4 writes to the device. -/
theorem delCase4_hw (hsvid : (m.mll_pt h).svid ≠ 0) :
    HwMoved m (m.delCase4 h last).2 h (m.mll_pt h).slots.2 ([] ++ h :: b) := by
  have h5 := hs.last_ne
  have hidx : (m.delCase4 h last).2.hw h =
      { m.hw h with firstMllNode := { (m.hw h).secondMllNode with last := true } } := by
    simp only [delCase4, pairModifyChain, pairWrite_hw, FlagCmd.apply, SKIP, setPred_hw,
      setSucc_hw, secondToFirst_hw, ne_eq, not_true, if_true, if_false, if_neg h5.symm]
  refine hs.hwMoved (fun _ => False) (fun _ => False.elim) (fun j hj => hs.no_before hj)
    (fun j hne => ?_) ?_ ?_
  · simp only [delCase4, pairModifyChain, pairWrite_hw, FlagCmd.apply, SKIP, setPred_hw,
      setSucc_hw, secondToFirst_hw, if_neg hne, if_false]
    split_ifs with hj
    · rw [hj]
    · rfl
  · rw [hidx]
    exact (hok h ChainOk.idx_mem).second hsvid
  · rw [hidx]

/-- With two pairs the new head, whose link is overwritten, is the old tail as well. -/
theorem delCase10_hw (htwo : (m.mll_pt h).succ = last) :
    HwMoved m (m.delCase10 h last).2 h (m.mll_pt h).slots.1 ([] ++ h :: b) := by
  have h2 : h ≠ -1 := by have := hs.idx_nonneg; omega
  have h5 := hs.last_ne
  have hidx : (m.delCase10 h last).2.hw h = { m.hw h with firstMllNode.last := true } := by
    simp only [delCase10, pairModifyChain, pairWrite_hw, FlagCmd.apply, SKIP, setPred_hw,
      setSucc_hw, setSecond_hw, h2, htwo, ne_eq, not_true, not_false_iff, if_true, if_false,
      if_neg h5, if_neg h5.symm]
  refine hs.hwMoved (fun _ => False) (fun _ => False.elim) (fun j hj => hs.no_before hj)
    (fun j hne => ?_) ?_ ?_
  · simp only [delCase10, pairModifyChain, pairWrite_hw, FlagCmd.apply, SKIP, setPred_hw,
      setSucc_hw, setSecond_hw, h2, htwo, ne_eq, not_true, not_false_iff, if_true, if_false,
      if_neg h5, if_neg hne]
    split_ifs with hj
    · rw [hj]
    · rfl
  · rw [hidx]
    exact (hok h ChainOk.idx_mem).first
  · rw [hidx]

/-- What case 5 writes to the device. -/
theorem delCase5_hw (hsvid : (m.mll_pt h).svid ≠ 0) :
    HwDropped m (m.delCase5 h last).2 h (m.mll_pt h).slots.2 ([] ++ h :: b) := by
  refine hs.hwDropped (fun _ => False) (fun _ => False.elim) (fun j hj => hs.no_before hj)
    (n := (m.hw h).secondMllNode) (fun j => ?_) ((hok h ChainOk.idx_mem).second hsvid)
  simp only [delCase5, pairModifyChain, pairWrite_hw, FlagCmd.apply, SKIP, freePair_hw,
    setPred_hw, setSecond_hw, ne_eq, not_true, if_false]
  split_ifs with hj
  · rw [hj]
  · rfl

/-- What case 11 writes to the device. -/
theorem delCase11_hw :
    HwDropped m (m.delCase11 h last).2 h (m.mll_pt h).slots.1 ([] ++ h :: b) := by
  refine hs.hwDropped (fun _ => False) (fun _ => False.elim) (fun j hj => hs.no_before hj)
    (n := (m.hw h).firstMllNode) (fun j => ?_) (hok h ChainOk.idx_mem).first
  simp only [delCase11, pairModifyChain, pairWrite_hw, FlagCmd.apply, SKIP, freePair_hw,
    setPred_hw, setSecond_hw, ne_eq, not_true, if_false]
  split_ifs with hj
  · rw [hj]
  · rfl

end Head

/-- What case 2 writes to the device. -/
theorem delCase2_hw (hw : Spliced m h idx (a ++ [idx])) :
    HwCut m (m.delCase2 idx h).2 idx (a ++ [idx]) := by
  have hhw : ∀ j, (m.delCase2 idx h).2.hw j =
      if j = (m.mll_pt idx).pred then { m.hw j with secondMllNode.last := true } else m.hw j := by
    intro j
    simp only [delCase2, pairModifyChain, pairWrite_hw, FlagCmd.apply, SKIP, freePair_hw,
      setSucc_hw, ne_eq, not_true, if_false]
    split_ifs with hj
    · rw [hj]
    · rfl
  refine ⟨fun j hj _ => ?_, fun j hj => ?_⟩
  · rw [hhw j]
    simp only [hw.succ_eq_iff hj]
  · rw [hhw j, if_neg (by rintro rfl; exact hj hw.mem)]

/-- What cases 3 and 6 write to the device. -/
theorem delCase36_hw (hag : HwAgree (m.mll_pt idx) (m.hw idx)) (hsvid : (m.mll_pt idx).svid ≠ 0) :
    HwShrunk m (m.delCase36 idx h).2 idx (m.mll_pt idx).slots.2 := by
  have hhw : ∀ j, (m.delCase36 idx h).2.hw j =
      if j = idx then { m.hw idx with
        firstMllNode := { (m.hw idx).secondMllNode with last := true } } else m.hw j := by
    intro j
    simp only [delCase36, pairModifyChain, pairWrite_hw, FlagCmd.apply, SKIP, secondToFirst_hw,
      ne_eq, not_true, if_false]
  refine ⟨?_, ?_, fun j hne => by rw [hhw j, if_neg hne]⟩
  · rw [hhw idx, if_pos rfl]
    exact hag.second hsvid
  · rw [hhw idx, if_pos rfl]

/-- What case 9 writes to the device. -/
theorem delCase9_hw (hag : HwAgree (m.mll_pt idx) (m.hw idx)) :
    HwShrunk m (m.delCase9 idx h).2 idx (m.mll_pt idx).slots.1 := by
  have hhw : ∀ j, (m.delCase9 idx h).2.hw j =
      if j = idx then { m.hw idx with firstMllNode.last := true } else m.hw j := by
    intro j
    simp only [delCase9, pairModifyChain, pairWrite_hw, FlagCmd.apply, SKIP, setSecond_hw,
      ne_eq, not_true, if_false]
  refine ⟨?_, ?_, fun j hne => by rw [hhw j, if_neg hne]⟩
  · rw [hhw idx, if_pos rfl]
    exact hag.first
  · rw [hhw idx, if_pos rfl]

end Mll

end Presteramgr
