import Mathlib.Data.Option.Basic
import Mathlib.Order.Nat

/-!
# Longest-prefix match

A table has entries for prefixes, which are a length and an address masked to this length. An
address is looked up by masking it to one length after the other, from the longest on.

Addresses are values of any type, `mask n` keeps the first `n` digits.

## Main definitions

* `select`: the entry found for an address;
* `Covers`: an address lies in a prefix;
* `Longest`: the longest prefix of an address that a table has.

## Main results

* `select_eq_some_iff` and `select_eq_none_iff`: what is found, length by length;
* `select_eq_some_iff_longest` and `select_eq_none_iff_covers`: the same in terms of prefixes.
-/

namespace Prefixes

variable {α β : Type*}

/-- The entry for the longest prefix of `a`, of length `n` at most, that the table has. -/
def select (mask : ℕ → α → α) (t : ℕ × α → Option β) (a : α) : ℕ → Option β
  | 0 => t (0, mask 0 a)
  | n + 1 =>
    match t (n + 1, mask (n + 1) a) with
    | some b => some b
    | none => select mask t a n

/-- An address lies in a prefix. -/
def Covers (mask : ℕ → α → α) (k : ℕ × α) (a : α) : Prop := mask k.1 a = k.2

variable {mask : ℕ → α → α} {t : ℕ × α → Option β} {a : α} {n : ℕ} {b : β}

/-- Nothing is selected when no length has an entry for the address. -/
theorem select_eq_none_iff :
    select mask t a n = none ↔ ∀ j ≤ n, t (j, mask j a) = none := by
  induction n with
  | zero => exact ⟨fun h j hj => by rwa [Nat.le_zero.mp hj], fun h => h 0 le_rfl⟩
  | succ n ih =>
    rw [select]
    cases hn : t (n + 1, mask (n + 1) a) with
    | some b => exact ⟨nofun, fun h => absurd (h (n + 1) le_rfl) (by rw [hn]; nofun)⟩
    | none =>
      dsimp only
      rw [ih]
      constructor
      · intro h j hj
        rcases Nat.le_succ_iff.mp hj with hlt | rfl
        · exact h j hlt
        · exact hn
      · exact fun h j hj => h j (hj.trans (Nat.le_succ n))

/-- The entry found is that of a prefix, and the table has no longer prefix of the address. -/
theorem select_eq_some_iff : select mask t a n = some b ↔
    ∃ i ≤ n, t (i, mask i a) = some b ∧ ∀ j, i < j → j ≤ n → t (j, mask j a) = none := by
  induction n with
  | zero =>
    constructor
    · exact fun h => ⟨0, le_rfl, h, fun j hj hle => by omega⟩
    · rintro ⟨i, hi, hb, -⟩
      rwa [Nat.le_zero.mp hi] at hb
  | succ n ih =>
    rw [select]
    cases hn : t (n + 1, mask (n + 1) a) with
    | some c =>
      constructor
      · intro hc
        exact ⟨n + 1, le_rfl, hn.trans hc, fun j hj hle => absurd hj (Nat.not_lt.mpr hle)⟩
      · rintro ⟨i, hi, hb, hlonger⟩
        rcases Nat.le_succ_iff.mp hi with hlt | rfl
        · -- the longest prefix of all is in the table
          exact absurd (hlonger (n + 1) (Nat.lt_succ_of_le hlt) le_rfl) (by rw [hn]; nofun)
        · exact hn.symm.trans hb
    | none =>
      dsimp only
      rw [ih]
      constructor
      · rintro ⟨i, hi, hb, hlonger⟩
        refine ⟨i, hi.trans (Nat.le_succ n), hb, fun j hj hle => ?_⟩
        rcases Nat.le_succ_iff.mp hle with hlt | rfl
        · exact hlonger j hj hlt
        · exact hn
      · rintro ⟨i, hi, hb, hlonger⟩
        rcases Nat.le_succ_iff.mp hi with hlt | rfl
        · exact ⟨i, hlt, hb, fun j hj hle => hlonger j hj (hle.trans (Nat.le_succ n))⟩
        · exact absurd (hn.symm.trans hb) nofun

/-- The longest prefix of `a` that a table has. -/
structure Longest (mask : ℕ → α → α) (t : ℕ × α → Option β) (a : α) (k : ℕ × α) : Prop where
  stored : (t k).isSome
  covers : Covers mask k a
  longest : ∀ k', (t k').isSome → Covers mask k' a → k'.1 ≤ k.1

/-- There is one longest prefix at most. -/
theorem Longest.eq {k k' : ℕ × α} (h : Longest mask t a k) (h' : Longest mask t a k') : k = k' := by
  have hlen : k.1 = k'.1 := le_antisymm (h'.longest k h.stored h.covers)
    (h.longest k' h'.stored h'.covers)
  refine Prod.ext hlen ?_
  have hcov : mask k.1 a = k.2 := h.covers
  have hcov' : mask k'.1 a = k'.2 := h'.covers
  rw [← hcov, ← hcov', hlen]

/-- The longest prefix depends on which prefixes are stored, not on what is stored. -/
theorem Longest.congr {γ : Type*} {t' : ℕ × α → Option γ} {k : ℕ × α} (h : Longest mask t a k)
    (ht : ∀ k, (t k).isSome = (t' k).isSome) : Longest mask t' a k where
  stored := ht k ▸ h.stored
  covers := h.covers
  longest := fun k' hk' => h.longest k' ((ht k').trans hk')

/-- The selected entry is that of the longest prefix that covers the address. -/
theorem select_eq_some_iff_longest (hlen : ∀ k, (t k).isSome → k.1 ≤ n) :
    select mask t a n = some b ↔ ∃ k, Longest mask t a k ∧ t k = some b := by
  rw [select_eq_some_iff]
  constructor
  · rintro ⟨i, -, hb, hlonger⟩
    refine ⟨(i, mask i a), ⟨hb ▸ rfl, rfl, fun k' hk' hcov => ?_⟩, hb⟩
    by_contra hlt
    have hnone := hlonger k'.1 (not_le.mp hlt) (hlen k' hk')
    have hcov : mask k'.1 a = k'.2 := hcov
    rw [hcov] at hnone
    rw [hnone] at hk'
    exact absurd hk' Bool.false_ne_true
  · rintro ⟨k, hk, hb⟩
    have hcov : mask k.1 a = k.2 := hk.covers
    refine ⟨k.1, hlen k hk.stored, hcov ▸ hb, fun j hj _ => ?_⟩
    by_contra hsome
    exact absurd (hk.longest _ (Option.isSome_iff_ne_none.mpr hsome) rfl) (Nat.not_le.mpr hj)

/-- Nothing is selected when no stored prefix covers the address. -/
theorem select_eq_none_iff_covers (hlen : ∀ k, (t k).isSome → k.1 ≤ n) :
    select mask t a n = none ↔ ∀ k, (t k).isSome → ¬Covers mask k a := by
  rw [select_eq_none_iff]
  constructor
  · intro h k hk hcov
    have hcov : mask k.1 a = k.2 := hcov
    have hnone := h k.1 (hlen k hk)
    rw [hcov] at hnone
    rw [hnone] at hk
    exact absurd hk Bool.false_ne_true
  · intro h j _
    by_contra hsome
    exact h _ (Option.isSome_iff_ne_none.mpr hsome) rfl

/-- An address in a prefix lies in the shorter prefixes around it. -/
theorem Covers.trans (hmask : ∀ m n a, m ≤ n → mask m (mask n a) = mask m a) {k k' : ℕ × α}
    (h : Covers mask k k'.2) (h' : Covers mask k' a) (hle : k.1 ≤ k'.1) : Covers mask k a := by
  unfold Covers at *
  rw [← h, ← h', hmask _ _ _ hle]

end Prefixes
