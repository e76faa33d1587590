import Mathlib.Data.List.Sort

/-!
# Bottom-up merging of sorted runs

A list is cut into runs, each of them sorted, and a pass merges the runs in pairs. `List.merge` is
stable, so that a pass over sorted runs leaves the longer runs sorted by `List.mergeSort`, and the
last run is the whole list sorted. The comparison has to order the elements of the list only.

## Main definitions

* `Ordered`: a comparison orders the elements of a list;
* `mergePairs`: one pass over the runs;
* `joinPairs`: the lists that the runs of a pass come from;
* `Runs`: the lengths of the runs before a pass.

## Main results

* `merge_mergeSort`: two sorted lists merge to their sorted concatenation;
* `mergePairs_mergeSort`: a pass over sorted runs;
* `Runs.mergePairs`: a pass doubles the lengths of the runs.
-/

namespace MergeRuns

open List (zipIdxLE)

variable {α : Type*} {le : α → α → Bool} {w : ℕ} {run : List α} {runs : List (List α)}

/-! ## Stability -/

/-- The positions break the ties of a comparison. -/
private theorem eq_of_zipIdxLE {l : List α} {a b : α × ℕ} (ha : a ∈ l.zipIdx) (hb : b ∈ l.zipIdx)
    (hab : zipIdxLE le a b) (hba : zipIdxLE le b a) : a = b := by
  obtain ⟨x, i⟩ := a
  obtain ⟨y, j⟩ := b
  have hij : i = j := by
    simp only [zipIdxLE] at hab hba
    grind
  subst hij
  rw [List.mk_mem_zipIdx_iff_getElem?] at ha hb
  rw [Option.some_inj.mp (ha.symm.trans hb)]

private theorem map_fst_mergeSort_zipIdx (l : List α) (k : ℕ) :
    ((l.zipIdx k).mergeSort (zipIdxLE le)).map Prod.fst = l.mergeSort le := by
  have hshift : l.zipIdx k = l.zipIdx.map fun p => (p.1, p.2 + k) := by
    rw [List.zipIdx_eq_map_add]
    apply List.map_congr_left
    simp [Nat.add_comm]
  have hmap : (l.zipIdx.mergeSort (zipIdxLE le)).map (fun p => (p.1, p.2 + k)) =
      (l.zipIdx.map fun p => (p.1, p.2 + k)).mergeSort (zipIdxLE le) := by
    apply List.map_mergeSort
    simp [zipIdxLE]
  rw [hshift, ← hmap, List.map_map]
  exact List.mergeSort_zipIdx

private theorem merge_mergeSort_of_total (htrans : ∀ a b c, le a b → le b c → le a c)
    (htotal : ∀ a b, le a b || le b a) (xs ys : List α) :
    (xs.mergeSort le).merge (ys.mergeSort le) le = (xs ++ ys).mergeSort le := by
  have htrans' := List.zipIdxLE_trans htrans
  have htotal' := List.zipIdxLE_total htotal
  -- with positions the order has no ties, so that there is only one way to sort
  have hzip : (xs.zipIdx.mergeSort (zipIdxLE le)).merge
      ((ys.zipIdx xs.length).mergeSort (zipIdxLE le)) (zipIdxLE le) =
        (xs ++ ys).zipIdx.mergeSort (zipIdxLE le) := by
    have hperm : ((xs.zipIdx.mergeSort (zipIdxLE le)).merge
        ((ys.zipIdx xs.length).mergeSort (zipIdxLE le)) (zipIdxLE le)).Perm (xs ++ ys).zipIdx := by
      rw [List.zipIdx_append, Nat.zero_add]
      exact (List.merge_perm_append _).trans
        ((List.mergeSort_perm _ _).append (List.mergeSort_perm _ _))
    have hpair := List.pairwise_merge htrans' htotal' _ _
      (List.pairwise_mergeSort htrans' htotal' xs.zipIdx)
      (List.pairwise_mergeSort htrans' htotal' (ys.zipIdx xs.length))
    refine List.Perm.eq_of_pairwise ?_ hpair (List.pairwise_mergeSort htrans' htotal' _)
      (hperm.trans (List.mergeSort_perm _ _).symm)
    intro a b ha hb
    exact eq_of_zipIdxLE (hperm.mem_iff.mp ha) (List.mem_mergeSort.mp hb)
  have hfst := congrArg (List.map Prod.fst) hzip
  rw [List.merge_stable] at hfst
  · simpa only [map_fst_mergeSort_zipIdx] using hfst
  · intro a b ha hb
    have hlt := (List.mem_zipIdx (List.mem_mergeSort.mp ha)).2.1
    have hge := (List.mem_zipIdx (List.mem_mergeSort.mp hb)).1
    omega

/-- The comparison orders the elements of the list: it is transitive, and any two of them are
comparable. -/
structure Ordered (le : α → α → Bool) (l : List α) : Prop where
  trans : ∀ a ∈ l, ∀ b ∈ l, ∀ c ∈ l, le a b → le b c → le a c
  total : ∀ a ∈ l, ∀ b ∈ l, le a b || le b a

theorem Ordered.mono {l l' : List α} (h : Ordered le l) (hsub : ∀ a ∈ l', a ∈ l) : Ordered le l' :=
  ⟨fun a ha b hb c hc => h.trans a (hsub a ha) b (hsub b hb) c (hsub c hc),
    fun a ha b hb => h.total a (hsub a ha) b (hsub b hb)⟩

/-- The order of the elements of a list goes on to all elements: the others come last. -/
private theorem Ordered.exists_total {l : List α} (h : Ordered le l) : ∃ le' : α → α → Bool,
    (∀ a ∈ l, ∀ b ∈ l, le a b = le' a b) ∧ (∀ a b c, le' a b → le' b c → le' a c) ∧
      ∀ a b, le' a b || le' b a := by
  classical
  refine ⟨fun a b => if a ∈ l ∧ b ∈ l then le a b else decide (b ∉ l), ?_, ?_, ?_⟩
  · intro a ha b hb
    simp [ha, hb]
  · intro a b c hab hbc
    have := h.trans a
    grind
  · intro a b
    have := h.total a
    grind

/-- Two sorted lists merge to their sorted concatenation. -/
theorem merge_mergeSort {xs ys : List α} (h : Ordered le (xs ++ ys)) :
    (xs.mergeSort le).merge (ys.mergeSort le) le = (xs ++ ys).mergeSort le := by
  obtain ⟨le', hle, htrans, htotal⟩ := h.exists_total
  -- on the elements of the lists, nothing depends on which of the two orders it is
  have hsort : ∀ l : List α, (∀ a ∈ l, a ∈ xs ++ ys) → l.mergeSort le = l.mergeSort le' := by
    intro l hl
    have hmap : (l.mergeSort le).map id = (l.map id).mergeSort le' :=
      List.map_mergeSort fun a ha b hb => hle a (hl a ha) b (hl b hb)
    simpa using hmap
  have hxs := hsort xs fun a => List.mem_append_left ys
  have hys := hsort ys fun a => List.mem_append_right xs
  have hmerge : (xs.mergeSort le').merge (ys.mergeSort le') le =
      (xs.mergeSort le').merge (ys.mergeSort le') le' := by
    have hmap : ((xs.mergeSort le').merge (ys.mergeSort le') le).map id =
        ((xs.mergeSort le').map id).merge ((ys.mergeSort le').map id) le' :=
      List.map_merge fun a ha b hb => hle a (List.mem_append_left _ (List.mem_mergeSort.mp ha)) b
        (List.mem_append_right _ (List.mem_mergeSort.mp hb))
    simpa using hmap
  rw [hxs, hys, hmerge, merge_mergeSort_of_total htrans htotal, hsort _ fun _ h => h]

/-! ## Passes -/

/-- One pass: the runs are merged in pairs, and the last one stays where their number is odd. -/
def mergePairs (le : α → α → Bool) : List (List α) → List (List α)
  | a :: b :: runs => a.merge b le :: mergePairs le runs
  | runs => runs

/-- The lists are joined in pairs. -/
def joinPairs : List (List α) → List (List α)
  | a :: b :: runs => (a ++ b) :: joinPairs runs
  | runs => runs

/-- All runs but the last one have length `w`, and the last one is not longer and not empty. -/
def Runs (w : ℕ) : List (List α) → Prop
  | [] => True
  | run :: runs => run ≠ [] ∧ run.length ≤ w ∧ (runs ≠ [] → run.length = w) ∧ Runs w runs

theorem Runs.tail (h : Runs w runs) : Runs w runs.tail := by
  cases runs with
  | nil => trivial
  | cons run runs => exact h.2.2.2

/-- The first `w` elements are the first run. -/
theorem Runs.take_flatten (h : Runs w runs) : runs.flatten.take w = runs.headD [] := by
  cases runs with
  | nil => simp
  | cons run runs =>
    obtain ⟨-, hle, hlen, -⟩ := h
    rw [List.flatten_cons, List.headD_cons]
    cases runs with
    | nil => simp [List.take_of_length_le hle]
    | cons run' runs => exact List.take_left' (hlen (List.cons_ne_nil _ _))

/-- The other elements are those of the other runs. -/
theorem Runs.drop_flatten (h : Runs w runs) : runs.flatten.drop w = runs.tail.flatten := by
  cases runs with
  | nil => simp
  | cons run runs =>
    obtain ⟨-, hle, hlen, -⟩ := h
    rw [List.flatten_cons, List.tail_cons]
    cases runs with
    | nil => simpa using hle
    | cons run' runs => exact List.drop_left' (hlen (List.cons_ne_nil _ _))

/-- Single elements are runs of length one. -/
theorem runs_singletons (l : List α) : Runs 1 (l.map fun a => [a]) := by
  induction l with
  | nil => trivial
  | cons a l ih => exact ⟨List.cons_ne_nil _ _, Nat.le_refl 1, fun _ => rfl, ih⟩

/-- A pass merges the first run with the second one. -/
theorem mergePairs_cons (le : α → α → Bool) (run : List α) (runs : List (List α)) :
    mergePairs le (run :: runs) = run.merge (runs.headD []) le :: mergePairs le runs.tail := by
  cases runs with
  | nil => simp [mergePairs]
  | cons run' runs => rfl

theorem flatten_joinPairs (runs : List (List α)) : (joinPairs runs).flatten = runs.flatten := by
  fun_induction joinPairs runs with
  | case1 a b runs ih => simp [ih]
  | case2 runs h => rfl

/-- A pass keeps the elements. -/
theorem mergePairs_perm (le : α → α → Bool) (runs : List (List α)) :
    (mergePairs le runs).flatten.Perm runs.flatten := by
  fun_induction mergePairs le runs with
  | case1 a b runs ih =>
    rw [List.flatten_cons, List.flatten_cons, List.flatten_cons, ← List.append_assoc]
    exact (List.merge_perm_append le).append ih
  | case2 runs h => exact List.Perm.refl _

/-- A pass halves the number of runs. -/
theorem length_mergePairs (le : α → α → Bool) (runs : List (List α)) :
    (mergePairs le runs).length = (runs.length + 1) / 2 := by
  fun_induction mergePairs le runs with
  | case1 a b runs ih =>
    simp only [List.length_cons, ih]
    omega
  | case2 runs h =>
    match runs with
    | [] => simp
    | [run] => simp
    | a :: b :: runs => exact absurd rfl (h a b runs)

/-- A pass over sorted runs sorts the lists that are twice as long. -/
theorem mergePairs_mergeSort {lists : List (List α)} (h : Ordered le lists.flatten) :
    mergePairs le (lists.map fun l => l.mergeSort le) =
      (joinPairs lists).map fun l => l.mergeSort le := by
  fun_induction joinPairs lists with
  | case1 a b lists ih =>
    rw [List.flatten_cons, List.flatten_cons, ← List.append_assoc] at h
    rw [List.map_cons, List.map_cons, mergePairs, ih (h.mono fun c => List.mem_append_right _),
      merge_mergeSort (h.mono fun c => List.mem_append_left _), List.map_cons]
  | case2 lists hpair =>
    match lists with
    | [] => rfl
    | [l] => rfl
    | a :: b :: lists => exact absurd rfl (hpair a b lists)

/-- A pass doubles the lengths of the runs. -/
theorem Runs.mergePairs (le : α → α → Bool) (h : Runs w runs) :
    Runs (2 * w) (mergePairs le runs) := by
  fun_induction MergeRuns.mergePairs le runs with
  | case1 a b runs ih =>
    obtain ⟨hane, hale, ha, hbne, hble, hb, hruns⟩ := h
    have hlen : (a.merge b le).length = a.length + b.length := List.length_merge ..
    have haw := ha (List.cons_ne_nil _ _)
    refine ⟨?_, by omega, fun hne => ?_, ih hruns⟩
    · rw [← List.length_pos_iff, hlen]
      exact Nat.add_pos_left (List.length_pos_iff.mpr hane) _
    · have hbw : b.length = w := hb fun hnil => hne (by rw [hnil]; rfl)
      omega
  | case2 runs hruns =>
    match runs with
    | [] => trivial
    | [run] => exact ⟨h.1, by have := h.2.1; omega, fun hne => absurd rfl hne, trivial⟩
    | a :: b :: runs => exact absurd rfl (hruns a b runs)

end MergeRuns
