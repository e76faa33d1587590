import Mathlib.Data.Set.Insert
import Mathlib.Logic.Function.Basic

/-!
# Flags that say which values are used

Keys are mapped to values, and each value has a flag. To move a key is to lower the flag of its old
value, unless another key with a raised flag has that value, and to raise the flag of the new one.
The flags say which values the keys of a set have: all keys, or those that a sweep has come to.

## Main results

* `Used.move`: a key outside the set joins it, or the set is that of all keys;
* `Used.foldl`: a sweep from lowered flags ends with flags that are right for all keys.
-/

namespace Usage

open Function (update update_self update_of_ne)

variable {ι κ : Type*} [DecidableEq ι]

/-- A map, and the flags of the values. -/
@[ext]
structure Flagged (ι κ : Type*) where
  map : ι → κ
  active : κ → Prop

/-- Another key has the value of `i`, and its flag is raised. -/
def Shared (s : Flagged ι κ) (i : ι) : Prop := ∃ j ≠ i, s.map j = s.map i ∧ s.active (s.map j)

/-- The key `i` moves to the value `k`. -/
def move (s : Flagged ι κ) (i : ι) (k : κ) : Flagged ι κ where
  map := update s.map i k
  active k' := k' = k ∨ s.active k' ∧ (k' = s.map i → Shared s i)

/-- The flags say which values the keys in `P` have. -/
def Used (P : Set ι) (s : Flagged ι κ) : Prop := ∀ k, s.active k ↔ ∃ i ∈ P, s.map i = k

variable {P : Set ι} {s : Flagged ι κ}

theorem Used.move (h : Used P s) {i : ι} (hi : i ∈ P → P = Set.univ) (k : κ) :
    Used (insert i P) (move s i k) := by
  intro k'
  by_cases hk : k' = k
  · exact ⟨fun _ => ⟨i, Set.mem_insert i P, (update_self ..).trans hk.symm⟩, fun _ => .inl hk⟩
  constructor
  · rintro (heq | ⟨hactive, hold⟩)
    · exact absurd heq hk
    · obtain ⟨j, hj, hjk⟩ := (h k').mp hactive
      by_cases hji : j = i
      · -- the value of the key that moves is used by another one
        subst hji
        obtain ⟨j', hne, heq, -⟩ := hold hjk.symm
        rw [hi hj]
        exact ⟨j', Set.mem_insert_of_mem j (Set.mem_univ j'),
          (update_of_ne hne ..).trans (heq.trans hjk)⟩
      · exact ⟨j, Set.mem_insert_of_mem i hj, (update_of_ne hji ..).trans hjk⟩
  · rintro ⟨j, hj, hjk⟩
    have hji : j ≠ i := by
      rintro rfl
      exact hk (hjk.symm.trans (update_self ..))
    have hin : j ∈ P := (Set.mem_insert_iff.mp hj).resolve_left hji
    have hjk : s.map j = k' := (update_of_ne hji ..).symm.trans hjk
    have hactive : s.active k' := (h k').mpr ⟨j, hin, hjk⟩
    exact .inr ⟨hactive, fun hold => ⟨j, hji, hjk.trans hold, hjk.symm ▸ hactive⟩⟩

/-- A move from flags that are right for all keys. -/
theorem Used.move_univ (h : Used Set.univ s) (i : ι) (k : κ) :
    Used Set.univ (Usage.move s i k) := by
  have hmove := h.move (i := i) (fun _ => rfl) k
  rwa [Set.insert_eq_of_mem (Set.mem_univ i)] at hmove

/-- A sweep over keys that are not in the set. -/
theorem Used.foldl {l : List ι} (hl : l.Nodup) (h : Used P s) (hP : ∀ i ∈ l, i ∉ P) (f : ι → κ) :
    Used (P ∪ {i | i ∈ l}) (l.foldl (fun s i => Usage.move s i (f i)) s) := by
  induction l generalizing s P with
  | nil => simpa using h
  | cons i l ih =>
    obtain ⟨hil, hl⟩ := List.nodup_cons.mp hl
    have hstep : Used (insert i P) (Usage.move s i (f i)) :=
      h.move (fun hin => absurd hin (hP i List.mem_cons_self)) (f i)
    have hrest := ih hl hstep fun j hj hin => by
      rcases Set.mem_insert_iff.mp hin with rfl | hin
      · exact hil hj
      · exact hP j (List.mem_cons_of_mem i hj) hin
    have hset : P ∪ {j | j ∈ i :: l} = insert i P ∪ {j | j ∈ l} := by
      ext j
      simp only [Set.mem_union, Set.mem_ofPred_eq, List.mem_cons, Set.mem_insert_iff, or_assoc]
      exact or_left_comm
    rw [hset]
    exact hrest

theorem foldl_move_map (l : List ι) (f : ι → κ) (s : Flagged ι κ) (j : ι) :
    (l.foldl (fun s i => move s i (f i)) s).map j = if j ∈ l then f j else s.map j := by
  induction l generalizing s with
  | nil => rfl
  | cons i l ih =>
    rw [List.foldl_cons, ih]
    by_cases hj : j ∈ l
    · rw [if_pos hj, if_pos (List.mem_cons_of_mem i hj)]
    · rw [if_neg hj]
      by_cases hji : j = i
      · subst hji
        rw [if_pos List.mem_cons_self]
        exact update_self ..
      · rw [if_neg fun h => (List.mem_cons.mp h).elim hji hj]
        exact update_of_ne hji ..

end Usage
