import Mathlib.Data.List.Basic
import Mathlib.Logic.Function.Basic

/-!
# Arrays that a list fills from the front

An array holds the elements of a list in its first slots and a default value in all others, as a
`NULL`-terminated array does. Deleting an element by moving those behind it, writing a slot, and
writing the first free slot keep this.

## Main definitions

* `Filled d a l`: the array `a` holds `l`, and `d` behind it;
* `removeAt`: the elements behind a slot are moved, and the last slot is cleared.
-/

namespace Slots

open Function (update update_self update_of_ne)

variable {β : Type*} {d x : β} {a : ℕ → β} {l : List β} {i n : ℕ}

/-- The array holds the list, and the default value behind it. -/
def Filled (d : β) (a : ℕ → β) (l : List β) : Prop := ∀ i, a i = l.getD i d

/-- The slots from `i` to `n - 2` take what the next slot has, one after the other. -/
def shift (a : ℕ → β) (i n : ℕ) : ℕ → β :=
  (List.range' i (n - 1 - i)).foldl (fun a j => update a j (a (j + 1))) a

/-- The slot `i` of `n` is removed. -/
def removeAt (d : β) (a : ℕ → β) (i n : ℕ) : ℕ → β := update (shift a i n) (n - 1) d

/-- The loop moves each of the slots it passes down by one. -/
private theorem foldl_shift (a : ℕ → β) (i k j : ℕ) :
    (List.range' i k).foldl (fun a j => update a j (a (j + 1))) a j =
      if i ≤ j ∧ j < i + k then a (j + 1) else a j := by
  induction k with
  | zero => exact (if_neg (by omega)).symm
  | succ k ih =>
    have hnext : (List.range' i k).foldl (fun a j => update a j (a (j + 1))) a (i + k + 1) =
        a (i + k + 1) := by
      -- slots that the loop has not come to are as before
      have hlate : ∀ m j, i + m ≤ j →
          (List.range' i m).foldl (fun a j => update a j (a (j + 1))) a j = a j := by
        intro m
        induction m with
        | zero => exact fun j _ => rfl
        | succ m ihm =>
          intro j hj
          rw [List.range'_concat, List.foldl_append, List.foldl_cons, List.foldl_nil, Nat.one_mul,
            update_of_ne (by omega)]
          exact ihm j (by omega)
      exact hlate k _ (by omega)
    rw [List.range'_concat, List.foldl_append, List.foldl_cons, List.foldl_nil, Nat.one_mul]
    by_cases hj : j = i + k
    · rw [hj, update_self, hnext, if_pos (by omega)]
    · rw [update_of_ne hj, ih]
      exact if_congr (by omega) rfl rfl

/-- The slots behind `i` have moved down by one, up to the last in use. -/
theorem shift_apply (a : ℕ → β) (i n j : ℕ) :
    shift a i n j = if i ≤ j ∧ j + 1 < n then a (j + 1) else a j := by
  unfold shift
  rw [foldl_shift]
  exact if_congr (by omega) rfl rfl

namespace Filled

variable (h : Filled d a l)

include h

/-- A slot in use holds its element. -/
theorem get (hi : i < l.length) : a i = l[i] := by
  rw [h i, List.getD_eq_getElem?_getD, List.getElem?_eq_getElem hi, Option.getD_some]

/-- A slot behind the last element holds the default. -/
theorem free (hi : l.length ≤ i) : a i = d := by
  rw [h i, List.getD_eq_getElem?_getD, List.getElem?_eq_none hi, Option.getD_none]

/-- Removing a slot removes the element of the list. -/
theorem removeAt (hi : i < l.length) : Filled d (removeAt d a i l.length) (l.eraseIdx i) := by
  intro j
  unfold Slots.removeAt
  rw [List.getD_eq_getElem?_getD, List.getElem?_eraseIdx]
  by_cases hj : j = l.length - 1
  · -- the last slot is cleared, and the list has become shorter
    rw [hj, update_self, if_neg (by omega), List.getElem?_eq_none (by omega), Option.getD_none]
  · rw [update_of_ne hj, shift_apply]
    by_cases hlt : j < i
    · rw [if_neg (by omega), if_pos hlt, h j, List.getD_eq_getElem?_getD]
    · rw [if_neg hlt]
      by_cases hin : j + 1 < l.length
      · rw [if_pos (by omega), h (j + 1), List.getD_eq_getElem?_getD]
      · rw [if_neg (by omega), h j, List.getD_eq_getElem?_getD, List.getElem?_eq_none (by omega),
          List.getElem?_eq_none (by omega)]

/-- The first free slot is written. -/
theorem push (x : β) : Filled d (update a l.length x) (l ++ [x]) := by
  intro j
  rw [List.getD_eq_getElem?_getD]
  by_cases hj : j = l.length
  · rw [hj, update_self, List.getElem?_concat_length, Option.getD_some]
  · rw [update_of_ne hj, h j, List.getD_eq_getElem?_getD]
    by_cases hlt : j < l.length
    · rw [List.getElem?_append_left hlt]
    · rw [List.getElem?_eq_none (by omega), List.getElem?_eq_none]
      rw [List.length_append, List.length_singleton]
      omega

/-- A slot of the list is written. -/
theorem set (hi : i < l.length) (x : β) : Filled d (update a i x) (l.set i x) := by
  intro j
  rw [List.getD_eq_getElem?_getD]
  by_cases hj : j = i
  · rw [hj, update_self, List.getElem?_set_self hi, Option.getD_some]
  · rw [update_of_ne hj, h j, List.getD_eq_getElem?_getD, List.getElem?_set_ne (Ne.symm hj)]

end Filled

end Slots
