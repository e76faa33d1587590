import Mathlib.Algebra.Order.BigOperators.Group.List
import Mathlib.Algebra.Order.Group.Nat
import Mathlib.Data.List.Count
import Mathlib.Data.Nat.Find

/-!
# Numbers within groups

The elements of a list belong to groups, which have numbers. Within a group the elements are
numbered from 1 on. In a list that is ordered by groups the place of an element follows from the
sizes of the groups.

## Main definitions

* `before`: the number of elements in lower groups;
* `rank`: the number of an element within its group.

## Main results

* `place` and `place_rank`: group and number give the place of an element, and the other way round;
* `places_iff`: each group and number are found at their place if and only if the list is ordered by
  groups and the elements of each group are numbered in order.
-/

namespace Grouped

/-- The sum of the sizes of the groups lower than `t`. -/
def before (size : ℕ → ℕ) : ℕ → ℕ
  | 0 => 0
  | t + 1 => before size t + size t

/-- The number of element `i` within its group. -/
def rank (l : List ℕ) (i : ℕ) : ℕ := (l.take (i + 1)).count (l.getD i 0)

variable {l : List ℕ} {o t n : ℕ}

theorem getD_eq (ho : o < l.length) : l.getD o 0 = l[o] := by
  rw [List.getD_eq_getElem?_getD, List.getElem?_eq_getElem ho, Option.getD_some]

theorem countP_lt_succ (l : List ℕ) (t : ℕ) :
    l.countP (· < t + 1) = l.countP (· < t) + l.count t := by
  induction l with
  | nil => rfl
  | cons x l ih =>
    simp only [List.countP_cons, List.count_cons, decide_eq_true_eq, beq_iff_eq, ih]
    split_ifs <;> omega

/-- The sizes of the lower groups count the elements in them. -/
theorem before_count (l : List ℕ) (t : ℕ) : before (l.count ·) t = l.countP (· < t) := by
  induction t with
  | zero => simp [before]
  | succ t ih => rw [before, ih, countP_lt_succ]

theorem before_le_length (l : List ℕ) (t : ℕ) : before (l.count ·) t ≤ l.length := by
  rw [before_count]
  exact List.countP_le_length

theorem before_mono (l : List ℕ) {t t' : ℕ} (h : t ≤ t') :
    before (l.count ·) t ≤ before (l.count ·) t' := by
  induction h with
  | refl => exact Nat.le_refl _
  | step _ ih => exact Nat.le_trans ih (Nat.le_add_right _ _)

/-- The elements of lower groups come first. -/
theorem getElem_lt_iff (hl : l.Pairwise (· ≤ ·)) (ho : o < l.length) :
    l[o] < t ↔ o < before (l.count ·) t := by
  rw [before_count]
  induction l generalizing o with
  | nil => exact absurd ho (Nat.not_lt_zero _)
  | cons x l ih =>
    obtain ⟨hx, hl⟩ := List.pairwise_cons.mp hl
    rw [List.countP_cons]
    simp only [decide_eq_true_eq]
    -- nothing is lower than the first one
    have hnone : ¬x < t → l.countP (· < t) = 0 := by
      intro hxt
      refine List.countP_eq_zero.mpr fun y hy => ?_
      have hxy := hx y hy
      simp only [decide_eq_true_eq]
      omega
    cases o with
    | zero =>
      rw [List.getElem_cons_zero]
      split_ifs with hxt
      · exact iff_of_true hxt (Nat.succ_pos _)
      · exact iff_of_false hxt (by rw [hnone hxt]; omega)
    | succ o =>
      rw [List.getElem_cons_succ, ih hl (Nat.lt_of_succ_lt_succ ho)]
      split_ifs with hxt
      · omega
      · rw [hnone hxt]
        omega

theorem getElem_eq_iff (hl : l.Pairwise (· ≤ ·)) (ho : o < l.length) :
    l[o] = t ↔ before (l.count ·) t ≤ o ∧ o < before (l.count ·) t + l.count t := by
  have hlt := getElem_lt_iff (t := t) hl ho
  have hle := getElem_lt_iff (t := t + 1) hl ho
  have hsucc : before (l.count ·) (t + 1) = before (l.count ·) t + l.count t := rfl
  rw [hsucc] at hle
  omega

/-- In a list that is ordered by groups an element is as far behind the lower groups as its number
says. -/
theorem before_add_rank (hl : l.Pairwise (· ≤ ·)) (ho : o < l.length) :
    before (l.count ·) l[o] + rank l o = o + 1 := by
  have hget := getD_eq ho
  have hpair := List.pairwise_iff_getElem.mp hl
  -- up to the element all are in its group or a lower one
  have hall : (l.take (o + 1)).countP (· < l[o] + 1) = o + 1 := by
    have hlen : (l.take (o + 1)).length = o + 1 := List.length_take_of_le ho
    refine (List.countP_eq_length.mpr fun y hy => ?_).trans hlen
    obtain ⟨i, hi, rfl⟩ := List.mem_iff_getElem.mp hy
    rw [List.getElem_take, decide_eq_true_eq, Nat.lt_succ_iff]
    rcases Nat.lt_or_eq_of_le (Nat.lt_succ_iff.mp (hlen ▸ hi)) with hlt | heq
    · exact hpair i o _ ho hlt
    · exact Nat.le_of_eq (by congr 1)
  -- and behind it none is in a lower one
  have hbehind : (l.drop (o + 1)).countP (· < l[o]) = 0 := by
    refine List.countP_eq_zero.mpr fun y hy => ?_
    obtain ⟨i, hi, rfl⟩ := List.mem_iff_getElem.mp hy
    rw [List.length_drop] at hi
    have hle := hpair o (o + 1 + i) ho (by omega) (by omega)
    rw [List.getElem_drop, decide_eq_true_eq]
    omega
  have hsplit : l.countP (· < l[o]) = (l.take (o + 1)).countP (· < l[o]) := by
    have happend : (l.take (o + 1) ++ l.drop (o + 1)).countP (· < l[o]) = _ := List.countP_append
    rwa [List.take_append_drop, hbehind, Nat.add_zero] at happend
  rw [before_count, hsplit, rank, hget, ← countP_lt_succ, hall]

/-- An element comes after those of its group before it. -/
theorem rank_eq (l : List ℕ) (ho : o < l.length) : rank l o = (l.take o).count l[o] + 1 := by
  have hget := getD_eq ho
  rw [rank, hget, List.take_succ_eq_append_getElem ho, List.count_append, List.count_singleton_self]

theorem rank_pos (l : List ℕ) (ho : o < l.length) : 1 ≤ rank l o := by
  rw [rank_eq l ho]
  exact Nat.le_add_left ..

theorem rank_le (l : List ℕ) (ho : o < l.length) : rank l o ≤ l.count l[o] := by
  have hget := getD_eq ho
  rw [rank, hget]
  exact (List.take_sublist _ _).count_le _

/-- Where number `n` of group `t` is. -/
theorem place (hl : l.Pairwise (· ≤ ·)) (hpos : 1 ≤ n) (hn : n ≤ l.count t) :
    ∃ ho : before (l.count ·) t + n - 1 < l.length,
      l[before (l.count ·) t + n - 1] = t ∧ rank l (before (l.count ·) t + n - 1) = n := by
  have ho : before (l.count ·) t + n - 1 < l.length := by
    have hle := before_le_length l (t + 1)
    have hsucc : before (l.count ·) (t + 1) = before (l.count ·) t + l.count t := rfl
    omega
  have ht : l[before (l.count ·) t + n - 1] = t := (getElem_eq_iff hl ho).mpr ⟨by omega, by omega⟩
  refine ⟨ho, ht, ?_⟩
  have hrank := before_add_rank hl ho
  rw [ht] at hrank
  omega

/-- The place of an element, from its group and its number. -/
theorem place_rank (hl : l.Pairwise (· ≤ ·)) (ho : o < l.length) :
    before (l.count ·) l[o] + rank l o - 1 = o := by
  have hrank := before_add_rank hl ho
  omega

/-- Each place belongs to a group. -/
theorem exists_group (l : List ℕ) (ho : o < l.length) :
    ∃ t, before (l.count ·) t ≤ o ∧ o < before (l.count ·) t + l.count t := by
  have hex : ∃ t, o < before (l.count ·) (t + 1) := by
    refine ⟨l.sum, ?_⟩
    rw [before_count]
    refine ho.trans_eq (List.countP_eq_length.mpr fun x hx => ?_).symm
    rw [decide_eq_true_eq, Nat.lt_succ_iff]
    exact List.single_le_sum (fun _ _ => Nat.zero_le _) x hx
  refine ⟨Nat.find hex, ?_, Nat.find_spec hex⟩
  cases hfind : Nat.find hex with
  | zero => exact Nat.zero_le _
  | succ t => exact not_lt.mp (Nat.find_min hex (hfind ▸ Nat.lt_succ_self t))

/-- Each group and number are found at their place if and only if the list is ordered by groups and
the elements of each group are numbered in order. -/
theorem places_iff (d : List (ℕ × ℕ)) :
    (∀ t n, 1 ≤ n → n ≤ (d.map Prod.fst).count t →
      d[before ((d.map Prod.fst).count ·) t + n - 1]? = some (t, n)) ↔
      (d.map Prod.fst).Pairwise (· ≤ ·) ∧ ∀ (o : ℕ) (ho : o < d.length),
        d[o].2 = rank (d.map Prod.fst) o := by
  have hlen : (d.map Prod.fst).length = d.length := List.length_map ..
  constructor
  · intro hall
    have hgroup : ∀ (o : ℕ) (ho : o < d.length), ∃ t n, d[o] = (t, n) ∧
        before ((d.map Prod.fst).count ·) t ≤ o ∧
        o < before ((d.map Prod.fst).count ·) t + (d.map Prod.fst).count t := by
      intro o ho
      obtain ⟨t, hlo, hhi⟩ := exists_group (d.map Prod.fst) (hlen ▸ ho)
      have hget := hall t (o - before ((d.map Prod.fst).count ·) t + 1) (by omega) (by omega)
      have hplace : before ((d.map Prod.fst).count ·) t +
          (o - before ((d.map Prod.fst).count ·) t + 1) - 1 = o := by
        omega
      rw [hplace, List.getElem?_eq_getElem ho] at hget
      exact ⟨t, _, Option.some_inj.mp hget, hlo, hhi⟩
    have hsorted : (d.map Prod.fst).Pairwise (· ≤ ·) := by
      refine List.pairwise_iff_getElem.mpr fun i j hi hj hij => ?_
      obtain ⟨t, n, hti, hlo, -⟩ := hgroup i (hlen ▸ hi)
      obtain ⟨t', n', htj, -, hhi⟩ := hgroup j (hlen ▸ hj)
      rw [List.getElem_map, List.getElem_map, hti, htj]
      by_contra hlt
      have hlow : t' + 1 ≤ t := Nat.lt_of_not_le hlt
      have hmono := before_mono (d.map Prod.fst) hlow
      have hsucc : before ((d.map Prod.fst).count ·) (t' + 1) =
        before ((d.map Prod.fst).count ·) t' + (d.map Prod.fst).count t' := rfl
      omega
    refine ⟨hsorted, fun o ho => ?_⟩
    have ho' := hlen ▸ ho
    have hfst : (d.map Prod.fst)[o] = d[o].1 := List.getElem_map ..
    have hrank := before_add_rank hsorted ho'
    have hget := hall d[o].1 (rank (d.map Prod.fst) o) (rank_pos _ ho')
      (hfst ▸ rank_le (d.map Prod.fst) ho')
    rw [hfst] at hrank
    have hplace : before
        ((d.map Prod.fst).count ·) d[o].1 + rank (d.map Prod.fst) o - 1 = o := by omega
    rw [hplace, List.getElem?_eq_getElem ho] at hget
    exact congrArg Prod.snd (Option.some_inj.mp hget)
  · rintro ⟨hsorted, hnum⟩ t n hpos hn
    obtain ⟨ho, ht, hrank⟩ := place hsorted hpos hn
    have ho' : before ((d.map Prod.fst).count ·) t + n - 1 < d.length := hlen ▸ ho
    rw [List.getElem?_eq_getElem ho']
    refine congrArg some (Prod.ext ?_ ((hnum _ ho').trans hrank))
    exact (List.getElem_map ..).symm.trans ht

end Grouped
