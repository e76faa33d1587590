import Mathlib.Algebra.Order.Group.Int
import Mathlib.Algebra.Order.Group.Multiset
import Mathlib.Data.List.Nodup
import Mathlib.Tactic.Ring

/-!
# Route-entry indices (`ret.c`, `route-p.h`)

The allocator of route-entry indices that unicast groups, multicast routes and IPv6 gateways
share: a list of the indices in use, searched for a free run on every allocation.

## Main definitions

* `resPop`, `resPush` and `resPushCountFirst`.

## Main results

* `resPop_spec`: an allocation returns a run of free regular indices;
* `mem_resPushCountFirst`: releasing a run takes exactly its indices out of use.
-/

namespace Presteramgr

/-- The reserved route-entry indices. -/
def DEFAULT_UC_RE_IDX : ℤ := 0

@[inherit_doc DEFAULT_UC_RE_IDX]
def DEFAULT_MC_RE_IDX : ℤ := 1

@[inherit_doc DEFAULT_UC_RE_IDX]
def TRAP_RE_IDX : ℤ := 2

@[inherit_doc DEFAULT_UC_RE_IDX]
def DROP_RE_IDX : ℤ := 3

@[inherit_doc DEFAULT_UC_RE_IDX]
def MGMT_IP_RE_IDX : ℤ := 4

/-- The first index that is allocated. -/
def FIRST_REGULAR_RE_IDX : ℤ := 5

/-- The index of multicast routes that drop, the same as the default. -/
def DROP_MC_RE_IDX : ℤ := DEFAULT_MC_RE_IDX

namespace Ret

/-- The loop of `res_pop` from the index `i` on, for `fuel` indices; `ids` is the run of free
indices that ends before `i`. -/
def resScan (used : List ℤ) (count : ℕ) : ℕ → ℤ → List ℤ → Option (List ℤ)
  | 0, _, _ => none
  | fuel + 1, i, ids =>
    if i ∈ used then resScan used count fuel (i + 1) []
    else if (ids ++ [i]).length = count then some (ids ++ [i])
    else resScan used count fuel (i + 1) (ids ++ [i])

/-- `res_pop`: the indices popped, `none` when it fails. -/
def resPop (used : List ℤ) (count : ℤ) : Option (List ℤ × List ℤ) :=
  if 0 < count ∧ count < 9 then
    (resScan used count.toNat (4096 - FIRST_REGULAR_RE_IDX).toNat FIRST_REGULAR_RE_IDX []).map
      fun ids => (ids, used ++ ids)
  else none

/-- `res_push` of a list of `count` indices. -/
def resPush (used : List ℤ) (count : ℤ) (ids : List ℤ) : List ℤ :=
  if 0 < count ∧ count < 9 then ids.foldl List.erase used else used

/-- The run of `count` indices from `first` on. -/
def idxRun (first : ℤ) (count : ℕ) : List ℤ := (List.range count).map fun k : ℕ => first + k

/-- `res_push_count_first`. -/
def resPushCountFirst (used : List ℤ) (count first : ℤ) : List ℤ :=
  resPush used count (idxRun first count.toNat)

variable {used ids : List ℤ} {first i : ℤ} {count fuel : ℕ}

@[simp]
theorem mem_idxRun : i ∈ idxRun first count ↔ first ≤ i ∧ i < first + count := by
  simp only [idxRun, List.mem_map, List.mem_range]
  constructor
  · rintro ⟨k, hk, rfl⟩
    omega
  · intro hi
    exact ⟨(i - first).toNat, by omega, by omega⟩

theorem nodup_idxRun : (idxRun first count).Nodup := by
  refine List.Nodup.map_on (fun k _ k' _ heq => ?_) List.nodup_range
  omega

theorem idxRun_concat : idxRun first (count + 1) = idxRun first count ++ [first + count] := by
  simp [idxRun, List.range_succ]

/-- The scan keeps `ids` a run of free indices that ends before `i`. -/
private theorem resScan_spec (ids : List ℤ) (hids : ids = idxRun (i - ids.length) ids.length)
    (hfree : ∀ j ∈ ids, j ∉ used) (hlen : ids.length < count) {out : List ℤ}
    (hscan : resScan used count fuel i ids = some out) :
    ∃ first, out = idxRun first count ∧ (∀ j ∈ out, j ∉ used) ∧ i - ids.length ≤ first ∧
      first + count ≤ i + fuel := by
  induction fuel generalizing i ids with
  | zero => simp [resScan] at hscan
  | succ fuel ih =>
    rw [resScan] at hscan
    split_ifs at hscan with hused hcount
    · obtain ⟨first, hout, hno, hle, hge⟩ := ih [] rfl (by simp)
        (lt_of_le_of_lt (Nat.zero_le _) hlen) hscan
      simp only [List.length_nil] at hle
      exact ⟨first, hout, hno, by omega, by push_cast; omega⟩
    · obtain rfl := Option.some_inj.mp hscan
      have hrun : ids ++ [i] = idxRun (i - ids.length) (ids.length + 1) := by
        rw [idxRun_concat, ← hids, sub_add_cancel]
      rw [List.length_append, List.length_singleton] at hcount
      refine ⟨i - ids.length, by rw [hrun, hcount], fun j hj => ?_, le_refl _, ?_⟩
      · rcases List.mem_append.mp hj with hj | hj
        · exact hfree j hj
        · rw [List.mem_singleton.mp hj]
          exact hused
      · push_cast [← hcount]
        omega
    · rw [List.length_append, List.length_singleton] at hcount
      have hrun : ids ++ [i] = idxRun (i + 1 - (ids ++ [i]).length) (ids ++ [i]).length := by
        rw [List.length_append, List.length_singleton, idxRun_concat]
        push_cast
        rw [show i + 1 - ((ids.length : ℤ) + 1) = i - ids.length by ring, ← hids, sub_add_cancel]
      have hall : ∀ j ∈ ids ++ [i], j ∉ used := fun j hj => by
        rcases List.mem_append.mp hj with hj | hj
        · exact hfree j hj
        · rw [List.mem_singleton.mp hj]
          exact hused
      obtain ⟨first, hout, hno, hle, hge⟩ := ih _ hrun hall
        (by rw [List.length_append, List.length_singleton]; omega) hscan
      rw [List.length_append, List.length_singleton] at hle
      push_cast at hle
      exact ⟨first, hout, hno, by omega, by push_cast; omega⟩

/-- `res_pop` returns a run of regular indices that were not in use. -/
theorem resPop_spec {n : ℤ} {used' : List ℤ} (hpop : resPop used n = some (ids, used')) :
    0 < n ∧ n < 9 ∧ used' = used ++ ids ∧ ∃ first, ids = idxRun first n.toNat ∧
      FIRST_REGULAR_RE_IDX ≤ first ∧ first + n ≤ 4096 ∧ ∀ j ∈ ids, j ∉ used := by
  unfold resPop at hpop
  split_ifs at hpop with hn
  obtain ⟨out, hscan, heq⟩ := Option.map_eq_some_iff.mp hpop
  obtain ⟨rfl, rfl⟩ := Prod.mk.inj heq
  obtain ⟨first, hout, hno, hle, hge⟩ :=
    resScan_spec [] rfl (by simp) (by simp; omega) hscan
  simp only [List.length_nil, FIRST_REGULAR_RE_IDX] at hle hge
  refine ⟨hn.1, hn.2, rfl, first, hout, ?_, ?_, hno⟩
  · rw [FIRST_REGULAR_RE_IDX]
    omega
  · omega

theorem mem_foldl_erase {used ids : List ℤ} (hnd : used.Nodup) :
    i ∈ ids.foldl List.erase used ↔ i ∈ used ∧ i ∉ ids := by
  induction ids generalizing used with
  | nil => simp
  | cons x ids ih =>
    rw [List.foldl_cons, ih (hnd.erase x), hnd.mem_erase_iff, List.mem_cons]
    tauto

theorem nodup_foldl_erase {used ids : List ℤ} (hnd : used.Nodup) :
    (ids.foldl List.erase used).Nodup := by
  induction ids generalizing used with
  | nil => exact hnd
  | cons x ids ih => exact ih (hnd.erase x)

/-- Indices between others that they are different from can be taken out. -/
theorem foldl_erase_append {used ids rest : List ℤ} (h : ∀ i ∈ ids, i ∉ used) :
    ids.foldl List.erase (used ++ (ids ++ rest)) = used ++ rest := by
  induction ids with
  | nil => rfl
  | cons i ids ih =>
    have hi : i ∉ used := h i List.mem_cons_self
    rw [List.foldl_cons, List.erase_append_right _ hi, List.cons_append, List.erase_cons_head]
    exact ih fun j hj => h j (List.mem_cons_of_mem i hj)

/-- Releasing indices takes exactly these out of use. -/
theorem mem_resPush {n : ℤ} (hnd : used.Nodup) (hn : 0 < n ∧ n < 9) :
    i ∈ resPush used n ids ↔ i ∈ used ∧ i ∉ ids := by
  rw [resPush, if_pos hn, mem_foldl_erase hnd]

theorem mem_of_mem_resPush {n : ℤ} (hi : i ∈ resPush used n ids) : i ∈ used := by
  unfold resPush at hi
  split_ifs at hi
  · induction ids generalizing used with
    | nil => exact hi
    | cons x ids ih => exact List.mem_of_mem_erase (ih hi)
  · exact hi

/-- As multisets, released indices are subtracted. -/
theorem coe_resPush {n : ℤ} (hn : 0 < n ∧ n < 9) :
    (resPush used n ids : Multiset ℤ) = (used : Multiset ℤ) - ids := by
  rw [resPush, if_pos hn, Multiset.coe_sub, List.diff_eq_foldl]

theorem nodup_resPush {n : ℤ} (hnd : used.Nodup) : (resPush used n ids).Nodup := by
  unfold resPush
  split_ifs
  · exact nodup_foldl_erase hnd
  · exact hnd

/-- As multisets, a released run is subtracted; releasing no index changes nothing. -/
theorem coe_resPushCountFirst (used : List ℤ) (first : ℤ) {n : ℤ} (hn : 0 ≤ n ∧ n < 9) :
    (resPushCountFirst used n first : Multiset ℤ) =
      (used : Multiset ℤ) - idxRun first n.toNat := by
  rw [resPushCountFirst]
  rcases hn.1.eq_or_lt with hzero | hpos
  · subst hzero
    exact (tsub_zero _).symm
  · exact coe_resPush ⟨hpos, hn.2⟩

/-- Releasing a run takes exactly its indices out of use. -/
theorem mem_resPushCountFirst {n : ℤ} (hnd : used.Nodup) (hn : 0 < n ∧ n < 9) :
    i ∈ resPushCountFirst used n first ↔ i ∈ used ∧ ¬(first ≤ i ∧ i < first + n) := by
  rw [resPushCountFirst, mem_resPush hnd hn, mem_idxRun, Int.toNat_of_nonneg (by omega)]

/-- An allocation puts exactly the returned run in use. -/
theorem nodup_resPop {n : ℤ} {used' : List ℤ} (hnd : used.Nodup)
    (hpop : resPop used n = some (ids, used')) : used'.Nodup := by
  obtain ⟨-, -, rfl, first, rfl, -, -, hno⟩ := resPop_spec hpop
  exact List.nodup_append.mpr ⟨hnd, nodup_idxRun, fun j hj j' hj' heq => hno j' hj' (heq ▸ hj)⟩

end Ret

end Presteramgr
