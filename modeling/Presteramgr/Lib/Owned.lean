import Mathlib.Data.List.Nodup
import Mathlib.Logic.Function.Basic

/-!
# A stack of free ids

The ids of a set are handed out from a stack, each owner having one at most. The free ids and those
that are owned divide the set among them as long as what comes back was owned.

## Main definitions

* `Divides`: the free ids and the owned ones divide a set.

## Main results

* `Divides.take`: the first free id is handed out;
* `Divides.give`: the id of an owner comes back;
* `not_divides_cons`: what is no id of the set does not come back.
-/

namespace Owned

open Function (update update_self update_of_ne)

variable {α κ : Type*}

/-- The ids in `free` and those that are owned divide the set `pool` among them, without
repetition. -/
structure Divides (pool : α → Prop) (free : List α) (own : κ → Option α) : Prop where
  nodup : free.Nodup
  inj : ∀ k k' a, own k = some a → own k' = some a → k = k'
  apart : ∀ k a, own k = some a → a ∉ free
  cover : ∀ a, pool a ↔ a ∈ free ∨ ∃ k, own k = some a

variable {pool : α → Prop} {free : List α} {own : κ → Option α} {k : κ} {a : α}

/-- A stack with something that is no id of the set. -/
theorem not_divides_cons (ha : ¬pool a) : ¬Divides pool (a :: free) own :=
  fun h => ha ((h.cover a).mpr (.inl List.mem_cons_self))

variable [DecidableEq κ]

namespace Divides

/-- The id on top of the stack goes to an owner without one. -/
theorem take (h : Divides pool (a :: free) own) (hk : own k = none) :
    Divides pool free (update own k (some a)) := by
  obtain ⟨ha, hnodup⟩ := List.nodup_cons.mp h.nodup
  have hne : ∀ k' b, own k' = some b → k' ≠ k := by
    rintro k' b hb rfl
    exact absurd (hk.symm.trans hb) (Option.some_ne_none b).symm
  have hcases : ∀ k' b, update own k (some a) k' = some b → k' = k ∧ b = a ∨ own k' = some b := by
    intro k' b hb
    by_cases hk' : k' = k
    · rw [hk', update_self] at hb
      exact .inl ⟨hk', (Option.some_inj.mp hb).symm⟩
    · rw [update_of_ne hk'] at hb
      exact .inr hb
  refine ⟨hnodup, fun k₁ k₂ b h₁ h₂ => ?_, fun k' b hb hfree => ?_, fun b => ?_⟩
  · obtain ⟨hk₁, rfl⟩ | hold₁ := hcases k₁ b h₁
    · obtain ⟨hk₂, -⟩ | hold₂ := hcases k₂ b h₂
      · exact hk₁.trans hk₂.symm
      · exact absurd List.mem_cons_self (h.apart k₂ b hold₂)
    · obtain ⟨-, rfl⟩ | hold₂ := hcases k₂ b h₂
      · exact absurd List.mem_cons_self (h.apart k₁ b hold₁)
      · exact h.inj k₁ k₂ b hold₁ hold₂
  · obtain ⟨rfl, rfl⟩ | hb := hcases k' b hb
    · exact ha hfree
    · exact h.apart k' b hb (List.mem_cons_of_mem a hfree)
  · rw [h.cover, List.mem_cons]
    constructor
    · rintro ((rfl | hfree) | ⟨k', hb⟩)
      · exact .inr ⟨k, update_self ..⟩
      · exact .inl hfree
      · exact .inr ⟨k', (update_of_ne (hne k' b hb) ..).trans hb⟩
    · rintro (hfree | ⟨k', hb⟩)
      · exact .inl (.inr hfree)
      · obtain ⟨-, rfl⟩ | hb := hcases k' b hb
        · exact .inl (.inl rfl)
        · exact .inr ⟨k', hb⟩

/-- The id of an owner goes on top of the stack. -/
theorem give (h : Divides pool free own) (hk : own k = some a) :
    Divides pool (a :: free) (update own k none) := by
  have hcases : ∀ k' b, update own k none k' = some b → k' ≠ k ∧ own k' = some b := by
    intro k' b hb
    by_cases hk' : k' = k
    · rw [hk', update_self] at hb
      exact absurd hb (Option.some_ne_none b).symm
    · rw [update_of_ne hk'] at hb
      exact ⟨hk', hb⟩
  refine ⟨List.nodup_cons.mpr ⟨h.apart k a hk, h.nodup⟩, fun k₁ k₂ b h₁ h₂ => ?_,
    fun k' b hb hfree => ?_, fun b => ?_⟩
  · exact h.inj k₁ k₂ b (hcases k₁ b h₁).2 (hcases k₂ b h₂).2
  · obtain ⟨hk', hb⟩ := hcases k' b hb
    obtain rfl | hfree := List.mem_cons.mp hfree
    · exact hk' (h.inj k' k b hb hk)
    · exact h.apart k' b hb hfree
  · rw [h.cover, List.mem_cons]
    constructor
    · rintro (hfree | ⟨k', hb⟩)
      · exact .inl (.inr hfree)
      · by_cases hk' : k' = k
        · rw [hk', hk] at hb
          exact .inl (.inl (Option.some_inj.mp hb).symm)
        · exact .inr ⟨k', (update_of_ne hk' ..).trans hb⟩
    · rintro ((rfl | hfree) | ⟨k', hb⟩)
      · exact .inr ⟨k, hk⟩
      · exact .inl hfree
      · exact .inr ⟨k', (hcases k' b hb).2⟩

end Divides

end Owned
