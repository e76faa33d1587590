import Mathlib.Data.Nat.Bitwise

/-!
# Ternary matching

A key is compared with a value in the bits of a mask, as a TCAM does it.

## Main definitions

* `Ternary.Agree`: a key and a value are the same in the bits of a mask.

## Main results

* `Ternary.agree_split`: a comparison is one of the upper and one of the lower bits;
* `Ternary.agree_self`: a mask that is its own value asks for bits that are set.
-/

namespace Ternary

/-- `x` and `v` are the same in the bits of `m`. -/
def Agree (x v m : ℕ) : Prop := x &&& m = v &&& m

instance (x v m : ℕ) : Decidable (Agree x v m) := inferInstanceAs (Decidable (_ = _))

variable {x v m : ℕ}

/-- Without a mask everything agrees. -/
@[simp] theorem agree_zero : Agree x v 0 := (Nat.and_zero x).trans (Nat.and_zero v).symm

/-- A mask of all bits asks for the value. -/
theorem agree_full (n : ℕ) (hx : x < 2 ^ n) (hv : v < 2 ^ n) : Agree x v (2 ^ n - 1) ↔ x = v := by
  unfold Agree
  rw [Nat.and_two_pow_sub_one_of_lt_two_pow hx, Nat.and_two_pow_sub_one_of_lt_two_pow hv]

/-- The bits from `n` on are compared, and the bits below. -/
theorem agree_split (n : ℕ) : Agree x v m ↔
    Agree (x / 2 ^ n) (v / 2 ^ n) (m / 2 ^ n) ∧ Agree (x % 2 ^ n) (v % 2 ^ n) (m % 2 ^ n) := by
  unfold Agree
  rw [← Nat.and_div_two_pow, ← Nat.and_div_two_pow, ← Nat.and_mod_two_pow, ← Nat.and_mod_two_pow]
  constructor
  · intro h
    rw [h]
    exact ⟨rfl, rfl⟩
  · rintro ⟨hdiv, hmod⟩
    rw [← Nat.div_add_mod (x &&& m) (2 ^ n), hdiv, hmod, Nat.div_add_mod]

/-- A mask that is its own value asks for its bits to be set. -/
theorem agree_self : Agree x m m ↔ ∀ j, m.testBit j = true → x.testBit j = true := by
  unfold Agree
  rw [Nat.and_self]
  constructor
  · intro h j hj
    rw [← h, Nat.testBit_and, Bool.and_eq_true] at hj
    exact hj.1
  · intro h
    apply Nat.eq_of_testBit_eq
    intro j
    rw [Nat.testBit_and]
    cases hj : m.testBit j with
    | false => rw [Bool.and_false]
    | true => rw [h j hj, Bool.and_true]

theorem agree_or_self {b c : ℕ} : Agree x (b ||| c) (b ||| c) ↔ Agree x b b ∧ Agree x c c := by
  simp only [agree_self, Nat.testBit_or, Bool.or_eq_true, or_imp, forall_and]

end Ternary
