import Mathlib.Data.Fintype.Card
import Mathlib.Data.Finset.Card
import Mathlib.Logic.Function.Basic

/-!
# Tallies

Each of finitely many places points to a key or to none. The tally of a key is the number of places
that point to it. When one place changes, the tallies of at most two keys change, each by one.

## Main results

* `tally_update`: what changes when a place points elsewhere;
* `Exact.update`: counters of the tallies that are adjusted with the place stay exact.
-/

namespace Tally

open Function (update update_self update_of_ne)

variable {ι κ : Type*} [Fintype ι] [DecidableEq κ]

/-- The number of places that point to the key. -/
def tally (g : ι → Option κ) (k : κ) : ℕ :=
  (Finset.univ.filter fun i => g i = some k).card

variable {g : ι → Option κ} {i : ι} {k : κ}

theorem tally_eq_zero (h : ∀ i, g i ≠ some k) : tally g k = 0 := by
  simp [tally, h]

theorem tally_none : tally (fun _ : ι => (none : Option κ)) k = 0 :=
  tally_eq_zero fun _ => (Option.some_ne_none k).symm

theorem tally_pos (h : g i = some k) : 0 < tally g k :=
  Finset.card_pos.mpr ⟨i, by simp [h]⟩

theorem tally_le_card : tally g k ≤ Fintype.card ι := Finset.card_le_univ _

/-- A place that points elsewhere is not counted. -/
theorem tally_lt_card (h : g i ≠ some k) : tally g k < Fintype.card ι :=
  Finset.card_lt_univ_of_notMem (x := i) (by simp [h])

variable [DecidableEq ι]

/-- The places other than `i` that point to the key, and `i` itself if it does. -/
theorem tally_eq (g : ι → Option κ) (i : ι) (k : κ) :
    tally g k = (Finset.univ.filter fun j => j ≠ i ∧ g j = some k).card +
      if g i = some k then 1 else 0 := by
  unfold tally
  by_cases h : g i = some k
  · have hmem : i ∉ Finset.univ.filter fun j => j ≠ i ∧ g j = some k := by simp
    rw [if_pos h, ← Finset.card_insert_of_notMem hmem]
    congr 1
    ext j
    by_cases hj : j = i
    · subst hj
      simp [h]
    · simp [hj]
  · rw [if_neg h, Nat.add_zero]
    congr 1
    ext j
    by_cases hj : j = i
    · subst hj
      simp [h]
    · simp [hj]

/-- A place that points to `x` now. -/
theorem tally_update (g : ι → Option κ) (i : ι) (x : Option κ) (k : κ) :
    tally (update g i x) k + (if g i = some k then 1 else 0) =
      tally g k + if x = some k then 1 else 0 := by
  have hsame : (Finset.univ.filter fun j => j ≠ i ∧ update g i x j = some k) =
      Finset.univ.filter fun j => j ≠ i ∧ g j = some k := by
    ext j
    by_cases hj : j = i
    · simp [hj]
    · simp [hj]
  rw [tally_eq (update g i x) i, tally_eq g i, hsame, update_self]
  omega

/-- Counters that hold the tallies. -/
def Exact (g : ι → Option κ) (n : κ → ℤ) : Prop :=
  ∀ k, n k = tally g k

namespace Exact

variable {n n' : κ → ℤ}

omit [DecidableEq ι] in
theorem nonneg (h : Exact g n) (k : κ) : 0 ≤ n k := by
  rw [h k]
  exact Int.natCast_nonneg _

omit [DecidableEq ι] in
/-- The counter of a key that a place points to is positive. -/
theorem pos (h : Exact g n) (hi : g i = some k) : 0 < n k := by
  rw [h k]
  exact_mod_cast tally_pos hi

/-- The counters are adjusted for the key that the place pointed to and the one it points to. -/
theorem update (h : Exact g n) (i : ι) (x : Option κ)
    (hn : ∀ k, (n' k + if g i = some k then 1 else 0) = n k + if x = some k then 1 else 0) :
    Exact (Function.update g i x) n' := by
  intro k
  have htally := tally_update g i x k
  have hk := hn k
  rw [h k] at hk
  split_ifs at htally hk <;> omega

end Exact

end Tally
