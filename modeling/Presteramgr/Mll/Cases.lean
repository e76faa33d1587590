import Presteramgr.Mll.Delete

/-!
# The thirteen cases of `do_del_node`

Which kind of effect each case has on the shadow chain. A case that splices the pair `idx` out
finds the pair before it through the back link, so the cases of regular pairs ask that this back
link be right (`Spliced`); the cases of the head ask nothing.

## Main results

* `delCase2_cut`, `delCase36_shrunk`, `delCase9_shrunk`;
* `delCase4_moved`, `delCase7_moved`, `delCase10_moved`, `delCase12_moved`;
* `delCase5_dropped`, `delCase8_dropped`, `delCase11_dropped`, `delCase13_dropped`, where only
  `delCase8` does not tell the successor.
-/

namespace Presteramgr

open Function (update)
open Linked

namespace Mll

variable {m m' : Mll} {h idx last : ℤ} {a b l : List ℤ}

/-! ### Links and slots after the single assignments -/

section Fields

variable (m : Mll) (i j v next last : ℤ) (mcg vid : ℕ) (f1 f2 : FlagCmd) (cp : SecdCmd)
  (cmd : LastCmd)

/-- Commands to the device leave the shadow entries alone. -/
@[simp]
theorem pairModifyChain_pt : (m.pairModifyChain i f1 f2 cp next last cmd).mll_pt = m.mll_pt := by
  cases cmd <;> rfl

/-- Commands to the device leave the stack of free indexes alone. -/
@[simp]
theorem pairModifyChain_st : (m.pairModifyChain i f1 f2 cp next last cmd).mll_st = m.mll_st := by
  cases cmd <;> rfl

/-- Commands to the device leave the stack pointer alone. -/
@[simp]
theorem pairModifyChain_sp : (m.pairModifyChain i f1 f2 cp next last cmd).mll_sp = m.mll_sp := by
  cases cmd <;> rfl

/-- Commands to the device leave the table of tails alone. -/
@[simp]
theorem pairModifyChain_ts : (m.pairModifyChain i f1 f2 cp next last cmd).mll_ts = m.mll_ts := by
  cases cmd <;> rfl

/-- `setSucc` writes the successor of one pair. -/
theorem setSucc_succ :
    ((m.setSucc i v).mll_pt j).succ = if j = i then v else (m.mll_pt j).succ := by
  rw [setSucc_pt]; split_ifs <;> rfl

/-- `setSucc` leaves the predecessors alone. -/
theorem setSucc_pred : ((m.setSucc i v).mll_pt j).pred = (m.mll_pt j).pred := by
  rw [setSucc_pt]; split_ifs <;> rfl

/-- `setSucc` leaves the slots alone. -/
theorem setSucc_slots : ((m.setSucc i v).mll_pt j).slots = (m.mll_pt j).slots := by
  rw [setSucc_pt]; split_ifs <;> rfl

/-- `setPred` leaves the successors alone. -/
theorem setPred_succ : ((m.setPred i v).mll_pt j).succ = (m.mll_pt j).succ := by
  rw [setPred_pt]; split_ifs <;> rfl

/-- `setPred` writes the predecessor of one pair. -/
theorem setPred_pred :
    ((m.setPred i v).mll_pt j).pred = if j = i then v else (m.mll_pt j).pred := by
  rw [setPred_pt]; split_ifs <;> rfl

/-- `setPred` leaves the slots alone. -/
theorem setPred_slots : ((m.setPred i v).mll_pt j).slots = (m.mll_pt j).slots := by
  rw [setPred_pt]; split_ifs <;> rfl

theorem setSucc_fmcg : ((m.setSucc i v).mll_pt j).fmcg = (m.mll_pt j).fmcg :=
  congrArg (·.1.1) (setSucc_slots m i j v)

theorem setSucc_fvid : ((m.setSucc i v).mll_pt j).fvid = (m.mll_pt j).fvid :=
  congrArg (·.1.2) (setSucc_slots m i j v)

theorem setSucc_smcg : ((m.setSucc i v).mll_pt j).smcg = (m.mll_pt j).smcg :=
  congrArg (·.2.1) (setSucc_slots m i j v)

theorem setSucc_svid : ((m.setSucc i v).mll_pt j).svid = (m.mll_pt j).svid :=
  congrArg (·.2.2) (setSucc_slots m i j v)

theorem setPred_fmcg : ((m.setPred i v).mll_pt j).fmcg = (m.mll_pt j).fmcg :=
  congrArg (·.1.1) (setPred_slots m i j v)

theorem setPred_fvid : ((m.setPred i v).mll_pt j).fvid = (m.mll_pt j).fvid :=
  congrArg (·.1.2) (setPred_slots m i j v)

/-- Writing a second slot leaves the successors alone. -/
theorem setSecond_succ : ((m.setSecond i mcg vid).mll_pt j).succ = (m.mll_pt j).succ := by
  rw [setSecond_pt]; split_ifs <;> rfl

/-- Writing a second slot leaves the predecessors alone. -/
theorem setSecond_pred : ((m.setSecond i mcg vid).mll_pt j).pred = (m.mll_pt j).pred := by
  rw [setSecond_pt]; split_ifs <;> rfl

/-- Writing a second slot leaves the first slot of the pair alone. -/
theorem setSecond_slots : ((m.setSecond i mcg vid).mll_pt j).slots =
    if j = i then ((m.mll_pt j).slots.1, (mcg, vid)) else (m.mll_pt j).slots := by
  rw [setSecond_pt]; split_ifs <;> rfl

/-- Moving the second node to the first slot leaves the successors alone. -/
theorem secondToFirst_succ : ((m.secondToFirst i).mll_pt j).succ = (m.mll_pt j).succ := by
  rw [secondToFirst, setSecond_succ, setFirst_pt]; split_ifs <;> rfl

/-- Moving the second node to the first slot leaves the predecessors alone. -/
theorem secondToFirst_pred : ((m.secondToFirst i).mll_pt j).pred = (m.mll_pt j).pred := by
  rw [secondToFirst, setSecond_pred, setFirst_pt]; split_ifs <;> rfl

/-- Moving the second node to the first slot empties the second one. -/
theorem secondToFirst_slots : ((m.secondToFirst i).mll_pt j).slots =
    if j = i then ((m.mll_pt i).slots.2, (0, 0)) else (m.mll_pt j).slots := by
  rw [secondToFirst, setSecond_slots, setFirst_pt]; split_ifs <;> rfl

/-- A freed pair is the null node, whether or not its index goes back to the stack. -/
theorem freePair_pt :
    (m.freePair i).mll_pt j = if j = i then .nullnode else m.mll_pt j := by
  unfold freePair mllPut
  split_ifs with h1 h2 h2
  · rw [setPair_pt, if_pos h2]
  · rw [setPair_pt, if_neg h2]
  · exact (setPair_pt m i j _).trans (if_pos h2)
  · exact (setPair_pt m i j _).trans (if_neg h2)

end Fields

/-- A pair is its links and its slots. -/
theorem MllPair.ext_slots {p q : MllPair} (hp : p.pred = q.pred) (hs : p.succ = q.succ)
    (hslots : p.slots = q.slots) : p = q := by
  cases p
  cases q
  simp only [MllPair.slots, Prod.mk.injEq] at hp hs hslots
  simp [hp, hs, hslots]

/-! ### The site of a deletion -/

/-- A pair `idx` of a chain that is not its tail, which is `last`. -/
structure Site (m : Mll) (h idx last : ℤ) (a b : List ℤ) : Prop where
  chain : ChainOk m h (a ++ idx :: b)
  ne : b ≠ []
  last_mem : last ∈ a ++ b
  last_succ : (m.mll_pt last).succ = -1

/-- The back link of the regular pair `idx` names the pair linked to it. -/
structure Spliced (m : Mll) (h idx : ℤ) (l : List ℤ) : Prop where
  chain : ChainOk m h l
  mem : (m.mll_pt idx).pred ∈ l
  link : (m.mll_pt (m.mll_pt idx).pred).succ = idx

namespace Spliced

variable (hw : Spliced m h idx l)

include hw

/-- In a chain the pair linked to `idx` is the one its back link names. -/
theorem succ_eq_iff {j : ℤ} (hj : j ∈ l) :
    (m.mll_pt j).succ = idx ↔ j = (m.mll_pt idx).pred := by
  constructor
  · intro heq
    exact hw.chain.path.succ_inj hw.chain.nodup hw.chain.neg_one_notMem hj hw.mem
      (heq.trans hw.link.symm)
  · rintro rfl
    exact hw.link

end Spliced

namespace Site

variable (hs : Site m h idx last a b)

include hs

/-- The tail is another pair than the one deleted. -/
theorem last_ne : last ≠ idx := hs.chain.unlinked_ne hs.last_mem

/-- A pair that is not the tail is not its own successor. -/
theorem succ_ne_idx : (m.mll_pt idx).succ ≠ idx :=
  hs.chain.unlinked_ne (List.mem_append_right a (hs.chain.succ_idx_mem hs.ne))

/-- The tail is a pair of the chain. -/
theorem last_mem' : last ∈ a ++ idx :: b := mem_of_mem_unlinked hs.last_mem

/-- The successor of a pair that is not the tail is a pair of the chain. -/
theorem succ_mem : (m.mll_pt idx).succ ∈ a ++ idx :: b :=
  mem_of_mem_unlinked (List.mem_append_right a (hs.chain.succ_idx_mem hs.ne))

/-- The index of the deleted pair is not a null index. -/
theorem idx_nonneg : 0 ≤ idx := hs.chain.nonneg idx ChainOk.idx_mem

/-- The tail is the only pair without a successor. -/
theorem succ_eq_neg_one_iff {j : ℤ} (hj : j ∈ a ++ idx :: b) :
    (m.mll_pt j).succ = -1 ↔ j = last := by
  constructor
  · intro heq
    exact hs.chain.path.succ_inj hs.chain.nodup hs.chain.neg_one_notMem hj hs.last_mem'
      (heq.trans hs.last_succ.symm)
  · rintro rfl
    exact hs.last_succ

variable (hw : Spliced m h idx (a ++ idx :: b))

include hw

/-- The pair before `idx` is not the tail, which is linked to nothing. -/
theorem pred_ne_last : (m.mll_pt idx).pred ≠ last := fun heq => by
  have h1 := hw.link
  rw [heq, hs.last_succ] at h1
  have h2 := hs.idx_nonneg
  omega

/-- The pair before `idx` is another pair. -/
theorem pred_ne_idx : (m.mll_pt idx).pred ≠ idx := fun heq => by
  have h1 := hw.link
  rw [heq] at h1
  exact hs.succ_ne_idx h1

end Site

section Effects

variable (hs : Site m h idx last a b) {k : MllNode} (before : ℤ → Prop) [DecidablePred before]
  (hmem : ∀ j, before j → j ∈ a ++ idx :: b)
  (hbefore : ∀ j ∈ a ++ idx :: b, (m.mll_pt j).succ = idx ↔ before j)

include hs hmem hbefore

/-- The effect `MovedToTail` read off the fields, `before` being the pair linked to `idx`. -/
private theorem Site.moved
    (hself : m'.mll_pt idx = ⟨last, -1, k.2, k.1, 0, 0⟩)
    (hsucc : ∀ j, j ≠ idx → (m'.mll_pt j).succ = if j = last then idx
      else if before j then (m.mll_pt idx).succ else (m.mll_pt j).succ)
    (hpred : ∀ j, j ≠ idx → (m'.mll_pt j).pred =
      if j = (m.mll_pt idx).succ then (m.mll_pt idx).pred else (m.mll_pt j).pred)
    (hslots : ∀ j, j ≠ idx → (m'.mll_pt j).slots = (m.mll_pt j).slots) :
    MovedToTail m m' idx last k (a ++ idx :: b) := by
  refine ⟨fun j hj hne => ?_, fun j _ => hpred j, fun j _ => hslots j, hself, fun j hj => ?_⟩
  · rw [hsucc j hne]
    simp only [hbefore j hj, hs.succ_eq_neg_one_iff hj]
    by_cases hjl : j = last
    · have hnot : ¬before j := fun hb => by
        have h1 := (hbefore j hj).mpr hb
        rw [hjl, hs.last_succ] at h1
        have h2 := hs.idx_nonneg
        omega
      rw [if_pos hjl, if_neg hnot, if_pos hjl]
    · simp only [if_neg hjl]
  · -- none of the pairs that are written lies outside the chain
    have hne : j ≠ idx := by rintro rfl; exact hj ChainOk.idx_mem
    have hjl : j ≠ last := by rintro rfl; exact hj hs.last_mem'
    have hjs : j ≠ (m.mll_pt idx).succ := by rintro rfl; exact hj hs.succ_mem
    refine MllPair.ext_slots ?_ ?_ (hslots j hne)
    · rw [hpred j hne, if_neg hjs]
    · rw [hsucc j hne, if_neg hjl, if_neg (mt (hmem j) hj)]

/-- The effect `Dropped` read off the fields, `before` being the pair linked to `idx`. -/
private theorem Site.dropped {told : Prop} [Decidable told]
    (hself : m'.mll_pt idx = .nullnode)
    (hsucc : ∀ j, j ≠ idx → (m'.mll_pt j).succ =
      if before j then (m.mll_pt idx).succ else (m.mll_pt j).succ)
    (hpred : ∀ j, j ≠ idx → (m'.mll_pt j).pred =
      if j = (m.mll_pt idx).succ ∧ told then (m.mll_pt idx).pred else (m.mll_pt j).pred)
    (hslots : ∀ j, j ≠ idx → (m'.mll_pt j).slots =
      if j = last then ((m.mll_pt j).slots.1, k) else (m.mll_pt j).slots) :
    Dropped m m' idx k told (a ++ idx :: b) := by
  refine ⟨fun j hj hne => ?_, fun j _ hne hor => ?_, fun htold => ?_, fun j hj hne h1 => ?_,
    fun j hj hne h1 => ?_, hself, fun j hj => ?_⟩
  · rw [hsucc j hne]
    simp only [hbefore j hj]
  · rw [hpred j hne, if_neg (by tauto)]
  · rw [hpred _ hs.succ_ne_idx, if_pos ⟨rfl, htold⟩]
  · rw [hslots j hne, if_neg (mt (hs.succ_eq_neg_one_iff hj).mpr h1)]
  · rw [hslots j hne, if_pos ((hs.succ_eq_neg_one_iff hj).mp h1)]
  · have hne : j ≠ idx := by rintro rfl; exact hj ChainOk.idx_mem
    have hjl : j ≠ last := by rintro rfl; exact hj hs.last_mem'
    have hjs : j ≠ (m.mll_pt idx).succ := by rintro rfl; exact hj hs.succ_mem
    refine MllPair.ext_slots ?_ ?_ ?_
    · rw [hpred j hne, if_neg (fun hand => hjs hand.1)]
    · rw [hsucc j hne, if_neg (mt (hmem j) hj)]
    · rw [hslots j hne, if_neg hjl]

end Effects

/-! ### Cases of regular pairs -/

section Regular

variable (hs : Site m h idx last a b) (hw : Spliced m h idx (a ++ idx :: b))

include hs hw

/-- Case 7: the pair moves behind the tail with its second node. -/
theorem delCase7_moved : MovedToTail m (m.delCase7 idx last h).2 idx last (m.mll_pt idx).slots.2
    (a ++ idx :: b) := by
  refine hs.moved (fun j => j = (m.mll_pt idx).pred) (fun j hj => hj ▸ hw.mem)
    (fun j hj => hw.succ_eq_iff hj) (MllPair.ext_slots ?_ ?_ ?_) (fun j hne => ?_)
    (fun j hne => ?_) fun j hne => ?_
  · simp only [delCase7, setSucc_pred, setPred_pred, secondToFirst_pred, pairModifyChain_pt,
      if_true]
  · simp only [delCase7, setSucc_succ, setPred_succ, secondToFirst_succ, pairModifyChain_pt,
      if_neg hs.last_ne.symm, if_true]
  · simp only [delCase7, setSucc_slots, setPred_slots, secondToFirst_slots, pairModifyChain_pt,
      if_true]
    rfl
  · simp only [delCase7, setSucc_succ, setPred_succ, secondToFirst_succ, pairModifyChain_pt,
      if_neg hne]
  · simp only [delCase7, setSucc_pred, setPred_pred, secondToFirst_pred, pairModifyChain_pt,
      if_neg hne]
  · simp only [delCase7, setSucc_slots, setPred_slots, secondToFirst_slots, pairModifyChain_pt,
      if_neg hne]

/-- Case 12: the pair moves behind the tail with its first node. -/
theorem delCase12_moved : MovedToTail m (m.delCase12 idx last h).2 idx last
    (m.mll_pt idx).slots.1 (a ++ idx :: b) := by
  refine hs.moved (fun j => j = (m.mll_pt idx).pred) (fun j hj => hj ▸ hw.mem)
    (fun j hj => hw.succ_eq_iff hj) (MllPair.ext_slots ?_ ?_ ?_) (fun j hne => ?_)
    (fun j hne => ?_) fun j hne => ?_
  · simp only [delCase12, setSucc_pred, setPred_pred, setSecond_pred, pairModifyChain_pt, if_true]
  · simp only [delCase12, setSucc_succ, setPred_succ, setSecond_succ, pairModifyChain_pt,
      if_neg hs.last_ne.symm, if_true]
  · simp only [delCase12, setSucc_slots, setPred_slots, setSecond_slots, pairModifyChain_pt,
      if_true]
    rfl
  · simp only [delCase12, setSucc_succ, setPred_succ, setSecond_succ, pairModifyChain_pt,
      if_neg hne]
  · simp only [delCase12, setSucc_pred, setPred_pred, setSecond_pred, pairModifyChain_pt,
      if_neg hne]
  · simp only [delCase12, setSucc_slots, setPred_slots, setSecond_slots, pairModifyChain_pt,
      if_neg hne]

/-- Case 8 drops the pair and does not tell the successor its new predecessor. -/
theorem delCase8_dropped : Dropped m (m.delCase8 idx last h).2 idx (m.mll_pt idx).slots.2 False
    (a ++ idx :: b) := by
  refine hs.dropped (fun j => j = (m.mll_pt idx).pred) (fun j hj => hj ▸ hw.mem)
    (fun j hj => hw.succ_eq_iff hj) ?_ (fun j hne => ?_) (fun j hne => ?_) fun j hne => ?_
  · simp only [delCase8, freePair_pt, if_true]
  · simp only [delCase8, freePair_pt, if_neg hne, setSecond_succ, pairModifyChain_pt, setSucc_succ]
  · simp only [delCase8, freePair_pt, if_neg hne, setSecond_pred, pairModifyChain_pt, setSucc_pred,
      and_false, if_false]
  · simp only [delCase8, freePair_pt, if_neg hne, setSecond_slots, pairModifyChain_pt,
      setSucc_slots, setSucc_smcg, setSucc_svid]
    rfl

/-- Case 13 drops the pair and tells the successor. -/
theorem delCase13_dropped : Dropped m (m.delCase13 idx last h).2 idx (m.mll_pt idx).slots.1 True
    (a ++ idx :: b) := by
  refine hs.dropped (fun j => j = (m.mll_pt idx).pred) (fun j hj => hj ▸ hw.mem)
    (fun j hj => hw.succ_eq_iff hj) ?_ (fun j hne => ?_) (fun j hne => ?_) fun j hne => ?_
  · simp only [delCase13, freePair_pt, if_true]
  · simp only [delCase13, freePair_pt, if_neg hne, setSecond_succ, pairModifyChain_pt,
      setPred_succ, setSucc_succ]
  · simp only [delCase13, freePair_pt, if_neg hne, setSecond_pred, pairModifyChain_pt,
      setPred_pred, setSucc_pred, and_true]
  · simp only [delCase13, freePair_pt, if_neg hne, setSecond_slots, pairModifyChain_pt,
      setPred_slots, setSucc_slots, setPred_fmcg, setSucc_fmcg, setPred_fvid, setSucc_fvid]
    rfl

end Regular

/-! ### Cases of the head -/

section Head

/-- Case 4 makes the successor the head. -/
theorem delCase4_head (m : Mll) (idx last : ℤ) :
    (m.delCase4 idx last).1 = (m.mll_pt idx).succ := by
  simp only [delCase4, setPred_succ, secondToFirst_succ, pairModifyChain_pt]

/-- Case 5 makes the successor the head. -/
theorem delCase5_head (m : Mll) (idx last : ℤ) :
    (m.delCase5 idx last).1 = (m.mll_pt idx).succ := by
  simp only [delCase5, setPred_succ, setSecond_succ, pairModifyChain_pt]

/-- Case 11 makes the successor the head. -/
theorem delCase11_head (m : Mll) (idx last : ℤ) :
    (m.delCase11 idx last).1 = (m.mll_pt idx).succ := by
  simp only [delCase11, setPred_succ, setSecond_succ, pairModifyChain_pt]

variable (hs : Site m h h last [] b)

include hs

/-- No pair of a chain is linked to its head. -/
theorem Site.no_before {j : ℤ} (hj : j ∈ [] ++ h :: b) : (m.mll_pt j).succ = h ↔ False :=
  iff_of_false (hs.chain.path.succ_ne_start hs.chain.nodup hs.chain.neg_one_notMem hj) id

/-- Case 4: the head moves behind the tail with its second node. -/
theorem delCase4_moved : MovedToTail m (m.delCase4 h last).2 h last (m.mll_pt h).slots.2
    ([] ++ h :: b) := by
  refine hs.moved (fun _ => False) (fun _ => False.elim) (fun j hj => hs.no_before hj)
    (MllPair.ext_slots ?_ ?_ ?_) (fun j hne => ?_) (fun j hne => ?_) fun j hne => ?_
  · simp only [delCase4, setSucc_pred, setPred_pred, secondToFirst_pred, pairModifyChain_pt,
      if_true]
  · simp only [delCase4, setSucc_succ, setPred_succ, secondToFirst_succ, pairModifyChain_pt,
      if_neg hs.last_ne.symm, if_true]
  · simp only [delCase4, setSucc_slots, setPred_slots, secondToFirst_slots, pairModifyChain_pt,
      if_true]
    rfl
  · simp only [delCase4, setSucc_succ, setPred_succ, secondToFirst_succ, pairModifyChain_pt,
      if_neg hne, if_false]
  · simp only [delCase4, setSucc_pred, setPred_pred, secondToFirst_pred, secondToFirst_succ,
      pairModifyChain_pt, if_neg hne]
  · simp only [delCase4, setSucc_slots, setPred_slots, secondToFirst_slots, pairModifyChain_pt,
      if_neg hne]

/-- Case 10: the head moves behind the tail with its first node. -/
theorem delCase10_moved : MovedToTail m (m.delCase10 h last).2 h last (m.mll_pt h).slots.1
    ([] ++ h :: b) := by
  refine hs.moved (fun _ => False) (fun _ => False.elim) (fun j hj => hs.no_before hj)
    (MllPair.ext_slots ?_ ?_ ?_) (fun j hne => ?_) (fun j hne => ?_) fun j hne => ?_
  · simp only [delCase10, setSucc_pred, setPred_pred, setSecond_pred, pairModifyChain_pt, if_true]
  · simp only [delCase10, setSucc_succ, if_true]
  · simp only [delCase10, setSucc_slots, setPred_slots, setSecond_slots, pairModifyChain_pt,
      if_true]
    rfl
  · simp only [delCase10, setSucc_succ, setPred_succ, setSecond_succ, pairModifyChain_pt,
      if_neg hne, if_false]
  · simp only [delCase10, setSucc_pred, setPred_pred, setSecond_pred, pairModifyChain_pt,
      if_neg hne]
  · simp only [delCase10, setSucc_slots, setPred_slots, setSecond_slots, pairModifyChain_pt,
      if_neg hne]

/-- Case 5 drops the head and tells the successor. -/
theorem delCase5_dropped : Dropped m (m.delCase5 h last).2 h (m.mll_pt h).slots.2 True
    ([] ++ h :: b) := by
  refine hs.dropped (fun _ => False) (fun _ => False.elim) (fun j hj => hs.no_before hj) ?_
    (fun j hne => ?_) (fun j hne => ?_) fun j hne => ?_
  · simp only [delCase5, freePair_pt, if_true]
  · simp only [delCase5, freePair_pt, if_neg hne, setPred_succ, setSecond_succ,
      pairModifyChain_pt, if_false]
  · simp only [delCase5, freePair_pt, if_neg hne, setPred_pred, setSecond_pred, setSecond_succ,
      pairModifyChain_pt, and_true]
  · simp only [delCase5, freePair_pt, if_neg hne, setPred_slots, setSecond_slots,
      pairModifyChain_pt]
    rfl

/-- Case 11 drops the head and tells the successor. -/
theorem delCase11_dropped : Dropped m (m.delCase11 h last).2 h (m.mll_pt h).slots.1 True
    ([] ++ h :: b) := by
  refine hs.dropped (fun _ => False) (fun _ => False.elim) (fun j hj => hs.no_before hj) ?_
    (fun j hne => ?_) (fun j hne => ?_) fun j hne => ?_
  · simp only [delCase11, freePair_pt, if_true]
  · simp only [delCase11, freePair_pt, if_neg hne, setPred_succ, setSecond_succ,
      pairModifyChain_pt, if_false]
  · simp only [delCase11, freePair_pt, if_neg hne, setPred_pred, setSecond_pred, setSecond_succ,
      pairModifyChain_pt, and_true]
  · simp only [delCase11, freePair_pt, if_neg hne, setPred_slots, setSecond_slots,
      pairModifyChain_pt]
    rfl

end Head

/-! ### Cases of the tail -/

/-- Case 2 cuts off a tail with one node. -/
theorem delCase2_cut (hw : Spliced m h idx (a ++ [idx])) :
    Cut m (m.delCase2 idx h).2 idx (a ++ [idx]) := by
  have hsucc : ∀ j, j ≠ idx → ((m.delCase2 idx h).2.mll_pt j).succ =
      if j = (m.mll_pt idx).pred then -1 else (m.mll_pt j).succ := fun j hne => by
    simp only [delCase2, setSucc_succ, freePair_pt, if_neg hne, pairModifyChain_pt]
  have hpred : ∀ j, j ≠ idx → ((m.delCase2 idx h).2.mll_pt j).pred = (m.mll_pt j).pred :=
    fun j hne => by simp only [delCase2, setSucc_pred, freePair_pt, if_neg hne, pairModifyChain_pt]
  have hslots : ∀ j, j ≠ idx → ((m.delCase2 idx h).2.mll_pt j).slots = (m.mll_pt j).slots :=
    fun j hne => by simp only [delCase2, setSucc_slots, freePair_pt, if_neg hne, pairModifyChain_pt]
  have hidx : (m.mll_pt idx).succ = -1 := (path_concat.mp hw.chain.path).2
  have hpi : (m.mll_pt idx).pred ≠ idx := fun heq => by
    have hlink := hw.link
    rw [heq, hidx] at hlink
    have hnn := hw.chain.nonneg idx (by simp)
    omega
  refine ⟨fun j hj hne => ?_, fun j _ => hpred j, fun j _ => hslots j, ?_, fun j hj => ?_⟩
  · rw [hsucc j hne]
    simp only [hw.succ_eq_iff hj]
  · simp only [delCase2, setSucc_pt, if_neg hpi.symm, freePair_pt, if_true]
  · have hne : j ≠ idx := by rintro rfl; simp at hj
    have hjw : j ≠ (m.mll_pt idx).pred := by rintro rfl; exact hj hw.mem
    exact MllPair.ext_slots (hpred j hne) ((hsucc j hne).trans (if_neg hjw)) (hslots j hne)

/-- Cases 3 and 6 keep the second node of the tail, in the first slot. -/
theorem delCase36_shrunk (m : Mll) (idx h : ℤ) :
    Shrunk m (m.delCase36 idx h).2 idx (m.mll_pt idx).slots.2 := by
  refine ⟨fun j => ?_, fun j => ?_, ?_, fun j hne => MllPair.ext_slots ?_ ?_ ?_⟩
  · simp only [delCase36, secondToFirst_succ, pairModifyChain_pt]
  · simp only [delCase36, secondToFirst_pred, pairModifyChain_pt]
  · simp only [delCase36, secondToFirst_slots, pairModifyChain_pt, if_true]
  · simp only [delCase36, secondToFirst_pred, pairModifyChain_pt]
  · simp only [delCase36, secondToFirst_succ, pairModifyChain_pt]
  · simp only [delCase36, secondToFirst_slots, pairModifyChain_pt, if_neg hne]

/-- Case 9 keeps the first node of the tail. -/
theorem delCase9_shrunk (m : Mll) (idx h : ℤ) :
    Shrunk m (m.delCase9 idx h).2 idx (m.mll_pt idx).slots.1 := by
  refine ⟨fun j => ?_, fun j => ?_, ?_, fun j hne => MllPair.ext_slots ?_ ?_ ?_⟩
  · simp only [delCase9, setSecond_succ, pairModifyChain_pt]
  · simp only [delCase9, setSecond_pred, pairModifyChain_pt]
  · simp only [delCase9, setSecond_slots, pairModifyChain_pt, if_true]
  · simp only [delCase9, setSecond_pred, pairModifyChain_pt]
  · simp only [delCase9, setSecond_succ, pairModifyChain_pt]
  · simp only [delCase9, setSecond_slots, pairModifyChain_pt, if_neg hne]

end Mll

end Presteramgr
