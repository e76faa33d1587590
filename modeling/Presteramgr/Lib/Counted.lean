import Mathlib.Algebra.Order.Group.Int
import Mathlib.Data.Multiset.Count
import Mathlib.Data.Multiset.AddSub
import Presteramgr.Lib.Keyed

/-!
# Tables of counted entries

A table of keyed entries, each with a count of the references to it. The users are a multiset of
keys, one for every reference. The table is right when each entry counts the users of its key and
each user has an entry.

## Main definitions

* `count`: what the table counts for a key;
* `Counts`: the table counts the users.

## Main results

* `Counts.bump` and `Counts.insert`: a new user of a key with or without an entry;
* `Counts.drop` and `Counts.remove`: a user that goes, and the last one.
-/

namespace Counted

variable {α κ : Type*} [DecidableEq κ]

/-- What the table counts for the key `k`, zero without an entry. -/
def count (key : α → κ) (refc : α → ℤ) (t : List α) (k : κ) : ℤ :=
  ((Keyed.find key t k).map refc).getD 0

/-- Each entry counts the users of its key, and each user has an entry. -/
structure Counts (key : α → κ) (refc : α → ℤ) (t : List α) (users : Multiset κ) : Prop where
  unique : Keyed.Unique key t
  pos : ∀ x ∈ t, 0 < refc x
  eq : ∀ k, count key refc t k = users.count k

variable {key : α → κ} {refc : α → ℤ} {t : List α} {users : Multiset κ} {x : α} {k : κ}
  {f : α → α}

/-- The empty table counts no users. -/
theorem counts_nil : Counts key refc [] 0 :=
  ⟨Keyed.unique_nil, fun _ hx => absurd hx List.not_mem_nil, fun _ => rfl⟩

/-- The count of a key that is found is that of its element. -/
theorem count_of_find (hf : Keyed.find key t k = some x) : count key refc t k = refc x := by
  simp [count, hf]

/-- The count of a key that is missing is zero. -/
theorem count_of_find_none (hf : Keyed.find key t k = none) : count key refc t k = 0 := by
  simp [count, hf]

namespace Counts

variable (hc : Counts key refc t users)

include hc

/-- Each user is found. -/
theorem find_isSome (hk : k ∈ users) : ∃ x, Keyed.find key t k = some x := by
  cases hf : Keyed.find key t k with
  | some x => exact ⟨x, rfl⟩
  | none =>
    have heq := hc.eq k
    rw [count_of_find_none hf] at heq
    have hpos := Multiset.count_pos.mpr hk
    omega

/-- An element counts the users of its key. -/
theorem refc_eq (hx : x ∈ t) : refc x = users.count (key x) := by
  rw [← hc.eq, count_of_find (hc.unique.find_eq_some_iff.mpr ⟨hx, rfl⟩)]

/-- An element that is in the table has a user. -/
theorem mem_users (hx : x ∈ t) : key x ∈ users := by
  have hpos := hc.pos x hx
  rw [hc.refc_eq hx] at hpos
  exact Multiset.count_pos.mp (by omega)

/-- One more user of a key that has an entry. -/
theorem bump (hf : Keyed.find key t k = some x) (hkey : ∀ y, key (f y) = key y)
    (hrefc : ∀ y, refc (f y) = refc y + 1) :
    Counts key refc (Keyed.modify key t k f) (k ::ₘ users) := by
  refine ⟨hc.unique.modify hkey, fun y hy => ?_, fun k' => ?_⟩
  · rcases Keyed.mem_modify_iff.mp hy with ⟨z, hz, -, rfl⟩ | ⟨hy, -⟩
    · rw [hrefc]
      have := hc.pos z hz
      omega
    · exact hc.pos y hy
  · have heq := hc.eq k'
    rw [count, Keyed.find_modify hkey]
    by_cases hk : k' = k
    · subst hk
      rw [count_of_find hf] at heq
      simp [hf, Keyed.key_of_find hf, hrefc, heq]
    · rw [Multiset.count_cons_of_ne hk, ← heq, count, Option.map_map]
      cases hf' : Keyed.find key t k' with
      | none => rfl
      | some y =>
        have hky : key y ≠ k := fun h => hk ((Keyed.key_of_find hf').symm.trans h)
        simp [hky]

/-- The first user of a key. -/
theorem insert (hf : Keyed.find key t k = none) (hkey : key x = k) (hrefc : refc x = 1) :
    Counts key refc (x :: t) (k ::ₘ users) := by
  have hne := Keyed.find_eq_none_iff.mp hf
  refine ⟨hc.unique.cons fun y hy => by rw [hkey]; exact hne y hy, fun y hy => ?_, fun k' => ?_⟩
  · rcases List.mem_cons.mp hy with rfl | hy
    · omega
    · exact hc.pos y hy
  · have heq := hc.eq k'
    by_cases hk : k' = k
    · subst hk
      rw [count_of_find_none hf] at heq
      simp [count, Keyed.find, hkey, hrefc, ← heq]
    · have hkx : key x ≠ k' := fun h => hk (h ▸ hkey)
      rw [Multiset.count_cons_of_ne hk, ← heq]
      simp [count, Keyed.find, hkx]

/-- One user less of a key that keeps its entry. -/
theorem drop (hf : Keyed.find key t k = some x) (hlast : refc x ≠ 1)
    (hkey : ∀ y, key (f y) = key y) (hrefc : ∀ y, refc (f y) = refc y - 1) :
    Counts key refc (Keyed.modify key t k f) (users.erase k) := by
  have hx := Keyed.mem_of_find hf
  refine ⟨hc.unique.modify hkey, fun y hy => ?_, fun k' => ?_⟩
  · rcases Keyed.mem_modify_iff.mp hy with ⟨z, hz, hzk, rfl⟩ | ⟨hy, -⟩
    · have hzx : z = x := hc.unique.eq_of_mem hz hx (hzk.trans (Keyed.key_of_find hf).symm)
      rw [hrefc, hzx]
      have := hc.pos x hx
      omega
    · exact hc.pos y hy
  · have heq := hc.eq k'
    rw [count, Keyed.find_modify hkey]
    by_cases hk : k' = k
    · subst hk
      have hpos := hc.pos x hx
      rw [count_of_find hf] at heq
      simp only [hf, Keyed.key_of_find hf, Option.map_some, if_true, Option.getD_some, hrefc,
        Multiset.count_erase_self]
      omega
    · rw [Multiset.count_erase_of_ne hk, ← heq, count, Option.map_map]
      cases hf' : Keyed.find key t k' with
      | none => rfl
      | some y =>
        have hky : key y ≠ k := fun h => hk ((Keyed.key_of_find hf').symm.trans h)
        simp [hky]

/-- The last user of a key goes with the entry. -/
theorem remove (hf : Keyed.find key t k = some x) (hlast : refc x = 1) :
    Counts key refc (Keyed.del key t k) (users.erase k) := by
  refine ⟨hc.unique.del, fun y hy => hc.pos y (Keyed.mem_of_mem_del hy), fun k' => ?_⟩
  have heq := hc.eq k'
  by_cases hk : k' = k
  · subst hk
    have hnone : Keyed.find key (Keyed.del key t k') k' = none :=
      Keyed.find_eq_none_iff.mpr fun y hy => (hc.unique.mem_del_iff.mp hy).2
    rw [count_of_find hf, hlast] at heq
    rw [count_of_find_none hnone, Multiset.count_erase_self]
    omega
  · rw [Multiset.count_erase_of_ne hk, ← heq, count, count, Keyed.find_del_of_ne hk]

end Counts

end Counted
