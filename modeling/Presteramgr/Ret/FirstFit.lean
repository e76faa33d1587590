import Presteramgr.Ret.Indexes

/-!
# First fit of route-entry indices (`ret.c`)

`res_pop` searches upwards for a run of consecutive free indices. It finds one whenever there is
one, and the lowest; releasing the run leaves the list of indices in use as it was before.

## Main definitions

* `FreeRun`: a run of free regular indices;
* `resPopUsed`: the indices in use after a call of `res_pop`.

## Main results

* `resPop_first_fit`.
-/

namespace Presteramgr

namespace Ret

/-- The `count` indices from `first` on are regular and free. -/
structure FreeRun (used : List ℤ) (first count : ℤ) : Prop where
  ge : FIRST_REGULAR_RE_IDX ≤ first
  le : first + count ≤ 4096
  free : ∀ i, first ≤ i → i < first + count → i ∉ used

/-- The indices in use after `res_pop`. -/
def resPopUsed (used : List ℤ) (count : ℤ) : List ℤ :=
  match resPop used count with
  | some (_, used') => used'
  | none => used

variable {used ids : List ℤ} {first i : ℤ} {count fuel : ℕ}

theorem idxRun_left_inj {first' : ℤ} (hpos : 0 < count)
    (heq : idxRun first count = idxRun first' count) :
    first = first' := by
  obtain ⟨n, rfl⟩ := Nat.exists_eq_succ_of_ne_zero hpos.ne'
  have hcons (f : ℤ) : (idxRun f (n + 1)).head? = some f := by
    simp [idxRun, List.range_succ_eq_map]
  apply Option.some_inj.mp
  rw [← hcons first, ← hcons first', heq]

/-- The scan that holds the run `ids` before `i` stops at no later than a free run that is left of
its range. -/
private theorem resScan_le (ids : List ℤ) (hids : ids = idxRun (i - ids.length) ids.length)
    (hlen : ids.length < count) (hge : i - ids.length ≤ first) (hle : first + count ≤ i + fuel)
    (hfree : ∀ j, first ≤ j → j < first + count → j ∉ used) :
    ∃ low ≤ first, resScan used count fuel i ids = some (idxRun low count) := by
  induction fuel generalizing i ids with
  | zero =>
    push_cast at hle
    omega
  | succ fuel ih =>
    rw [resScan]
    push_cast at hle
    by_cases hused : i ∈ used
    · -- a run that is free starts after the index in use
      have hlt : i < first := by
        by_contra hno
        exact hfree i (by omega) (by omega) hused
      rw [if_pos hused]
      apply ih [] rfl
      · exact lt_of_le_of_lt (Nat.zero_le _) hlen
      · rw [List.length_nil]
        push_cast
        omega
      · omega
    · have hrun : ids ++ [i] = idxRun (i - ids.length) (ids.length + 1) := by
        rw [idxRun_concat, ← hids, sub_add_cancel]
      have hlength : (ids ++ [i]).length = ids.length + 1 := List.length_append
      rw [if_neg hused]
      by_cases hcount : (ids ++ [i]).length = count
      · refine ⟨i - ids.length, hge, ?_⟩
        rw [if_pos hcount, hrun, ← hcount, hlength]
      · have hstart : i + 1 - ((ids ++ [i]).length : ℤ) = i - ids.length := by
          rw [hlength]
          push_cast
          ring
        rw [if_neg hcount]
        apply ih
        · rw [hstart, hlength]
          exact hrun
        · omega
        · rw [hstart]
          exact hge
        · omega

/-- Where there is a free run, `res_pop` returns one that does not start after it. -/
theorem FreeRun.resPop_le {n : ℤ} (hn : 1 ≤ n ∧ n ≤ 8) (h : FreeRun used first n) :
    ∃ low ≤ first, resPop used n = some (idxRun low n.toNat, used ++ idxRun low n.toNat) := by
  obtain ⟨hge, hle, hfree⟩ := h
  have htoNat : (n.toNat : ℤ) = n := Int.toNat_of_nonneg (by omega)
  have hfuel : ((4096 - FIRST_REGULAR_RE_IDX).toNat : ℤ) = 4096 - FIRST_REGULAR_RE_IDX := rfl
  have hscan : ∃ low ≤ first, resScan used n.toNat (4096 - FIRST_REGULAR_RE_IDX).toNat
      FIRST_REGULAR_RE_IDX [] = some (idxRun low n.toNat) := by
    apply resScan_le [] rfl
    · rw [List.length_nil]
      omega
    · simpa using hge
    · omega
    · rwa [htoNat]
  obtain ⟨low, hlow, hscan⟩ := hscan
  refine ⟨low, hlow, ?_⟩
  rw [resPop, if_pos (by omega), hscan]
  rfl

theorem resPop_freeRun {n : ℤ} {used' : List ℤ} (hpop : resPop used n = some (ids, used')) :
    ∃ first, ids = idxRun first n.toNat ∧ FreeRun used first n := by
  obtain ⟨hpos, -, -, first, rfl, hge, hle, hno⟩ := resPop_spec hpop
  refine ⟨first, rfl, hge, hle, fun i hi hlt => hno i (mem_idxRun.mpr ⟨hi, ?_⟩)⟩
  rwa [Int.toNat_of_nonneg hpos.le]

theorem FreeRun.resPushCountFirst_append {n : ℤ} (hn : 1 ≤ n ∧ n ≤ 8) (h : FreeRun used first n) :
    resPushCountFirst (used ++ idxRun first n.toNat) n first = used := by
  have hno (j : ℤ) (hj : j ∈ idxRun first n.toNat) : j ∉ used := by
    rw [mem_idxRun, Int.toNat_of_nonneg (by omega)] at hj
    exact h.free j hj.1 hj.2
  have herase : (idxRun first n.toNat).foldl List.erase (used ++ (idxRun first n.toNat ++ [])) =
      used ++ [] := foldl_erase_append hno
  rw [List.append_nil, List.append_nil] at herase
  rw [resPushCountFirst, resPush, if_pos (by omega), herase]

/-- `res_pop` succeeds exactly where there is a free run. It puts the lowest one in use, which
`res_push_count_first` takes out of use again; a call that fails changes nothing. -/
theorem resPop_first_fit (used : List ℤ) (count : ℤ) (hcount : 1 ≤ count ∧ count ≤ 8) :
    ((resPop used count).isSome ↔ ∃ first, FreeRun used first count) ∧
    (∀ ids used', resPop used count = some (ids, used') →
      ∃ first, FreeRun used first count ∧ (∀ other, FreeRun used other count → first ≤ other) ∧
        ids = idxRun first count.toNat ∧ used' = used ++ ids ∧ resPopUsed used count = used' ∧
        resPushCountFirst used' count first = used) ∧
    (resPop used count = none → resPopUsed used count = used) := by
  refine ⟨⟨fun h => ?_, ?_⟩, fun ids used' hpop => ?_, fun hpop => by rw [resPopUsed, hpop]⟩
  · obtain ⟨⟨ids, used'⟩, hpop⟩ := Option.isSome_iff_exists.mp h
    obtain ⟨first, -, hfree⟩ := resPop_freeRun hpop
    exact ⟨first, hfree⟩
  · rintro ⟨first, hfree⟩
    obtain ⟨low, -, hpop⟩ := hfree.resPop_le hcount
    rw [hpop]
    rfl
  · obtain ⟨first, rfl, hfree⟩ := resPop_freeRun hpop
    obtain ⟨-, -, rfl, -⟩ := resPop_spec hpop
    refine ⟨first, hfree, fun other hother => ?_, rfl, rfl, by rw [resPopUsed, hpop],
      hfree.resPushCountFirst_append hcount⟩
    obtain ⟨low, hlow, hpop'⟩ := hother.resPop_le hcount
    have heq := (Prod.mk.inj (Option.some_inj.mp (hpop.symm.trans hpop'))).1
    rwa [idxRun_left_inj (by omega) heq]

/-- Two indices after 5 and 7. -/
theorem resPop_two : 1 ≤ (2 : ℤ) ∧ (2 : ℤ) ≤ 8 ∧ resPop [7, 5] 2 = some ([8, 9], [7, 5, 8, 9]) ∧
    resPushCountFirst [7, 5, 8, 9] 2 8 = [7, 5] := by
  have hpop : resPop [7, 5] 2 = some ([8, 9], [7, 5, 8, 9]) := by decide +kernel
  obtain ⟨first, -, -, hids, -, -, hpush⟩ :=
    (resPop_first_fit [7, 5] 2 ⟨by decide, by decide⟩).2.1 _ _ hpop
  obtain rfl : (8 : ℤ) = first := @idxRun_left_inj 8 2 first (by decide) hids
  exact ⟨by decide, by decide, hpop, hpush⟩

end Ret

end Presteramgr
