import Mathlib.Data.Finset.Card
import Mathlib.Data.Finset.Image
import Presteramgr.Lib.Dlist
import Presteramgr.Ret.Router

/-!
# The rows of policy routing (`lttindex.c`)

The rows of the LTT that policies use are kept in a list, and a new policy gets the first row from
`firstIndex` on that is not in it.

## Main definitions

* `LttRows.lttIndexGet` and `LttRows.lttIndexDel`;
* `LttRows.Holds`: the rows that are taken.

## Main results

* `LttRows.Holds.get`: the lowest free row is handed out, `LttRows.Holds.get_none`: if there is one;
* `LttRows.Holds.del`: a row is given back.
-/

namespace Presteramgr

open Dlist (Heap NULL addrs Stored)
open Function (update update_self update_of_ne)

/-- `firstIndex`. -/
def firstIndex : ℕ := 1205

/-- The number of values of `row`. -/
abbrev ROWS : ℕ := 2 ^ 32

/-- `cmp`. -/
def lttCmp (a b : RowColum) : ℤ :=
  if a.row = b.row ∧ a.colum = b.colum then 0
  else if a.row > b.row then 1
  else if a.row < b.row then -1
  else if a.row = b.row ∧ a.colum > b.colum then 1
  else -1

/-- `next`. -/
def RowColum.next (ix : RowColum) : RowColum := { ix with row := (ix.row + 1) % ROWS }

/-- The list `db_ltt_index`. -/
structure LttRows where
  heap : Heap RowColum
  db_ltt_index : ℕ

namespace LttRows

variable (s : LttRows)

/-- `DL_SEARCH` for a row. The list has no more elements than there are rows. -/
def find (ix : RowColum) : Option ℕ :=
  Dlist.search s.heap (fun out => decide (lttCmp out ix = 0)) (ROWS + 1) s.db_ltt_index

/-- The loop of `ltt_index_get`, in at most `n` rounds. The new element gets the memory at `add`. -/
def getLoop (add : ℕ) : ℕ → RowColum → Option (RowColum × LttRows)
  | 0, _ => none
  | n + 1, etmp => do
    if (← s.find etmp) = NULL then
      let (heap, db_ltt_index) ← Dlist.append (s.heap.alloc add etmp) s.db_ltt_index add
      some (etmp, ⟨heap, db_ltt_index⟩)
    else getLoop add n etmp.next

/-- `ltt_index_get`. -/
def lttIndexGet (add : ℕ) : Option (RowColum × LttRows) := s.getLoop add ROWS ⟨firstIndex, 0⟩

/-- `ltt_index_del`. -/
def lttIndexDel (index : RowColum) : Option LttRows := do
  let el ← s.find index
  if el = NULL then some s
  else
    let (heap, db_ltt_index) ← Dlist.delete s.heap s.db_ltt_index el
    some ⟨heap.free el, db_ltt_index⟩

/-- No row is taken. -/
def start : LttRows := ⟨⟨fun _ => NULL, fun _ => NULL, fun _ => none⟩, NULL⟩

end LttRows

@[simp]
theorem lttCmp_eq_zero_iff {a b : RowColum} : lttCmp a b = 0 ↔ a = b := by
  unfold lttCmp
  rcases a with ⟨r, c⟩
  rcases b with ⟨r', c'⟩
  simp only [RowColum.mk.injEq]
  by_cases hrow : r = r'
  · by_cases hcol : c = c'
    · simp [hrow, hcol]
    · by_cases hgt : c > c' <;> simp [hrow, hcol, hgt]
  · by_cases hgt : r > r'
    · simp [hrow, hgt]
    · have hlt : r < r' := by omega
      simp [hrow, hgt, hlt]

/-- The row that is tried in a round. -/
def rowAt (k : ℕ) : RowColum := ⟨(firstIndex + k) % ROWS, 0⟩

theorem next_rowAt (k : ℕ) : (rowAt k).next = rowAt (k + 1) := by
  simp [rowAt, RowColum.next, Nat.mod_add_mod, Nat.add_assoc]

/-- The rows of the rounds are different. -/
theorem rowAt_inj {j k : ℕ} (hj : j < ROWS) (hk : k < ROWS) (h : rowAt j = rowAt k) : j = k := by
  have hmod : (firstIndex + j) ≡ (firstIndex + k) [MOD ROWS] := congrArg RowColum.row h
  exact (Nat.ModEq.add_left_cancel' _ hmod).eq_of_lt_of_lt hj hk

/-- Of more rows than are taken one is free, and the first such is found. -/
theorem exists_free {taken : List RowColum} (hlt : taken.length < ROWS) :
    ∃ k < ROWS, rowAt k ∉ taken ∧ ∀ j < k, rowAt j ∈ taken := by
  have hex : ∃ k, k < ROWS ∧ rowAt k ∉ taken := by
    by_contra hall
    push Not at hall
    have hsub : (Finset.range ROWS).image rowAt ⊆ taken.toFinset := by
      intro ix hix
      obtain ⟨k, hk, rfl⟩ := Finset.mem_image.mp hix
      exact List.mem_toFinset.mpr (hall k (Finset.mem_range.mp hk))
    have hcard : ((Finset.range ROWS).image rowAt).card = ROWS := by
      rw [Finset.card_image_of_injOn, Finset.card_range]
      exact fun j hj k hk h => rowAt_inj (Finset.mem_range.mp hj) (Finset.mem_range.mp hk) h
    have hle := (Finset.card_le_card hsub).trans (List.toFinset_card_le taken)
    omega
  classical
  refine ⟨Nat.find hex, (Nat.find_spec hex).1, (Nat.find_spec hex).2, fun j hj => ?_⟩
  by_contra hfree
  exact Nat.find_min hex hj ⟨hj.trans (Nat.find_spec hex).1, hfree⟩

namespace LttRows

/-- The list consists of the rows that are taken, each once, and nothing else is allocated. -/
structure Holds (s : LttRows) (taken : List RowColum) (cells : List (ℕ × RowColum)) : Prop where
  list : Dlist.Holds s.heap s.db_ltt_index cells
  rows : cells.map Prod.snd = taken
  nodup : taken.Nodup
  low : ∀ ix ∈ taken, ∃ k < ROWS, ix = rowAt k
  owned : ∀ p, s.heap.data p ≠ none → p ∈ addrs cells

namespace Holds

variable {s : LttRows} {taken : List RowColum} {cells : List (ℕ × RowColum)}

theorem start : start.Holds [] [] where
  list := Dlist.Holds.nil _
  rows := rfl
  nodup := List.nodup_nil
  low _ h := absurd h List.not_mem_nil
  owned _ hp := absurd rfl hp

variable (h : s.Holds taken cells)

include h

theorem length_cells : cells.length = taken.length := by rw [← h.rows, List.length_map]

theorem toFinset_subset : taken.toFinset ⊆ (Finset.range ROWS).image rowAt := by
  intro ix hix
  obtain ⟨k, hk, rfl⟩ := h.low ix (List.mem_toFinset.mp hix)
  exact Finset.mem_image_of_mem _ (Finset.mem_range.mpr hk)

/-- There are no more elements than rows, so that every search ends. -/
theorem length_le : taken.length ≤ ROWS := by
  rw [← List.toFinset_card_of_nodup h.nodup]
  exact (Finset.card_le_card h.toFinset_subset).trans
    (Finset.card_image_le.trans (Finset.card_range ROWS).le)

theorem find_eq (ix : RowColum) :
    s.find ix = some (((cells.find? fun c => decide (c.2 = ix)).map Prod.fst).getD NULL) := by
  rw [find, h.list.search _ (Nat.lt_succ_of_le (h.length_cells.trans_le h.length_le))]
  simp only [lttCmp_eq_zero_iff]

/-- A row that is free is not found. -/
theorem find_free {ix : RowColum} (hix : ix ∉ taken) : s.find ix = some NULL := by
  have hnone : cells.find? (fun c => decide (c.2 = ix)) = none := by
    rw [List.find?_eq_none]
    intro c hc heq
    exact hix (h.rows ▸ of_decide_eq_true heq ▸ List.mem_map_of_mem hc)
  rw [h.find_eq, hnone]
  rfl

/-- The element of a row that is taken is found. -/
theorem find_taken {ix : RowColum} (hix : ix ∈ taken) :
    ∃ p xs ys, cells = xs ++ (p, ix) :: ys ∧ p ≠ NULL ∧ s.find ix = some p := by
  rw [← h.rows] at hix
  obtain ⟨c, hc, rfl⟩ := List.mem_map.mp hix
  obtain ⟨d, hd⟩ := Option.isSome_iff_exists.mp
    (List.find?_isSome (p := fun d : ℕ × RowColum => decide (d.2 = c.2)) |>.mpr ⟨c, hc, by simp⟩)
  have hrow : d.2 = c.2 :=
    of_decide_eq_true (List.find?_some (p := fun d : ℕ × RowColum => decide (d.2 = c.2)) hd)
  have hmem : d ∈ cells := List.mem_of_find?_eq_some hd
  obtain ⟨xs, ys, hcells⟩ := List.append_of_mem hmem
  refine ⟨d.1, xs, ys, ?_, ?_, ?_⟩
  · rw [hcells, ← hrow]
  · exact fun heq => h.list.ne_null (heq ▸ List.mem_map_of_mem hmem)
  · rw [h.find_eq, hd]
    rfl

/-- A free row is put at the end of the list. -/
theorem getLoop_free {add n k : ℕ} (hfree : rowAt k ∉ taken) (hk : k < ROWS)
    (hadd : s.heap.data add = none) (hnull : add ≠ NULL) :
    ∃ s', s.getLoop add (n + 1) (rowAt k) = some (rowAt k, s') ∧
      s'.Holds (taken ++ [rowAt k]) (cells ++ [(add, rowAt k)]) := by
  have hsameAdd : s.heap.SameOff (s.heap.alloc add (rowAt k)) {add} :=
    Heap.sameOff_alloc (Set.mem_singleton add) _
  have hlist : Dlist.Holds (s.heap.alloc add (rowAt k)) s.db_ltt_index cells :=
    h.list.frame hsameAdd fun p hp heq => h.list.not_mem hadd (Set.mem_singleton_iff.mp heq ▸ hp)
  have hstored := (h.list.toStored.alloc hadd hnull (rowAt k)).perm
    (List.perm_append_singleton (add, rowAt k) cells)
  obtain ⟨heap, head, happend, hholds, hsame⟩ := hlist.append hstored
  refine ⟨⟨heap, head⟩, ?_, hholds, ?_, ?_, ?_, fun p hp => ?_⟩
  · simp [getLoop, h.find_free hfree, happend]
  · rw [List.map_append, h.rows]
    rfl
  · rw [List.nodup_append]
    exact ⟨h.nodup, List.nodup_singleton _, fun a ha b hb heq =>
      hfree (List.mem_singleton.mp hb ▸ heq ▸ ha)⟩
  · intro ix hix
    rcases List.mem_append.mp hix with hix | hix
    · exact h.low ix hix
    · exact ⟨k, hk, List.mem_singleton.mp hix⟩
  · by_contra hmem
    have hpne : p ≠ add := fun heq => hmem (by rw [heq, addrs, List.map_append]; simp)
    have hpold : p ∉ addrs cells := fun hp' =>
      hmem (List.map_subset _ (List.subset_append_left _ _) hp')
    exact hp ((hsame p hmem).2.2.trans ((hsameAdd p hpne).2.2.trans
      (not_not.mp fun hne => hpold (h.owned p hne))))

/-- The lowest free row is handed out. -/
theorem get {add : ℕ} (hlt : taken.length < ROWS) (hadd : s.heap.data add = none)
    (hnull : add ≠ NULL) :
    ∃ k < ROWS, rowAt k ∉ taken ∧ (∀ j < k, rowAt j ∈ taken) ∧ ∃ s',
      s.lttIndexGet add = some (rowAt k, s') ∧
        s'.Holds (taken ++ [rowAt k]) (cells ++ [(add, rowAt k)]) := by
  obtain ⟨k, hk, hfree, hbelow⟩ := exists_free hlt
  refine ⟨k, hk, hfree, hbelow, ?_⟩
  -- the rounds before come to rows that are taken
  have hloop : ∀ m j n, j + m = k → m < n → ∃ s', s.getLoop add n (rowAt j) = some (rowAt k, s') ∧
      s'.Holds (taken ++ [rowAt k]) (cells ++ [(add, rowAt k)]) := by
    intro m
    induction m with
    | zero =>
      rintro j n rfl hn
      obtain ⟨n, rfl⟩ := Nat.exists_eq_succ_of_ne_zero (Nat.ne_of_gt hn)
      exact h.getLoop_free hfree hk hadd hnull
    | succ m ih =>
      intro j n hj hn
      obtain ⟨n, rfl⟩ := Nat.exists_eq_succ_of_ne_zero (Nat.ne_of_gt (Nat.zero_lt_of_lt hn))
      obtain ⟨p, -, -, -, hp, hfind⟩ := h.find_taken (hbelow j (by omega))
      obtain ⟨s', hs', hholds⟩ := ih (j + 1) n (by omega) (by omega)
      refine ⟨s', ?_, hholds⟩
      simp [getLoop, hfind, hp, next_rowAt, hs']
  exact hloop k 0 ROWS (Nat.zero_add k) hk

/-- Where all rows are taken, the loop does not end. -/
theorem get_none {add : ℕ} (hfull : ROWS ≤ taken.length) : s.lttIndexGet add = none := by
  have heq : taken.toFinset = (Finset.range ROWS).image rowAt := by
    refine Finset.eq_of_subset_of_card_le h.toFinset_subset ?_
    rw [List.toFinset_card_of_nodup h.nodup]
    exact Finset.card_image_le.trans ((Finset.card_range ROWS).trans_le hfull)
  have hall : ∀ j, rowAt j ∈ taken := by
    intro j
    have hmod : rowAt j = rowAt (j % ROWS) := by simp [rowAt]
    rw [hmod, ← List.mem_toFinset, heq]
    exact Finset.mem_image_of_mem _ (Finset.mem_range.mpr (Nat.mod_lt _ (by norm_num)))
  have hloop : ∀ n j, s.getLoop add n (rowAt j) = none := by
    intro n
    induction n with
    | zero => exact fun j => rfl
    | succ n ih =>
      intro j
      obtain ⟨p, -, -, -, hp, hfind⟩ := h.find_taken (hall j)
      simp [getLoop, hfind, hp, next_rowAt, ih]
  exact hloop ROWS 0

/-- A row that is taken is given back. -/
theorem del {ix : RowColum} (hix : ix ∈ taken) :
    ∃ s' cells', s.lttIndexDel ix = some s' ∧ s'.Holds (taken.erase ix) cells' := by
  obtain ⟨p, xs, ys, hcells, hp, hfind⟩ := h.find_taken hix
  have hlist := h.list
  rw [hcells] at hlist
  obtain ⟨heap, head, hdelete, hholds, hsame⟩ := hlist.delete
  have hpnot : p ∉ addrs (xs ++ ys) := by
    have hnd := (hlist.toStored.perm List.perm_middle.symm).nodup
    exact (List.nodup_cons.mp hnd).1
  have hrows : (xs ++ ys).map Prod.snd = taken.erase ix := by
    have hnot : ix ∉ xs.map Prod.snd := by
      intro hmem
      have hnd := h.nodup
      rw [← h.rows, hcells, List.map_append, List.map_cons, List.nodup_append] at hnd
      exact hnd.2.2 ix hmem ix List.mem_cons_self rfl
    have hmap : taken = xs.map Prod.snd ++ ix :: ys.map Prod.snd := by
      rw [← h.rows, hcells, List.map_append, List.map_cons]
    rw [hmap, List.erase_append_right _ hnot, List.erase_cons_head, List.map_append]
  refine ⟨⟨heap.free p, head⟩, xs ++ ys, ?_, ?_, hrows, h.nodup.erase ix, ?_, fun q hq => ?_⟩
  · simp [lttIndexDel, hfind, hp, hdelete]
  · exact hholds.frame (Heap.sameOff_free (Set.mem_singleton p)) fun q hq hqp =>
      hpnot (Set.mem_singleton_iff.mp hqp ▸ hq)
  · exact fun ix' hix' => h.low ix' (List.mem_of_mem_erase hix')
  · by_contra hmem
    have hqp : q ≠ p := fun heq => hq (heq ▸ Heap.free_data)
    have hold : s.heap.data q ≠ none := by
      rwa [← (hsame q hmem).2.2, ← (Heap.sameOff_free (Set.mem_singleton p) (h := heap) q hqp).2.2]
    have hqc := h.owned q hold
    rw [hcells, addrs, List.map_append, List.map_cons, List.mem_append, List.mem_cons] at hqc
    rw [addrs, List.map_append, List.mem_append] at hmem
    exact hqc.elim (fun hq => hmem (Or.inl hq))
      fun hq => hq.elim (fun heq => hqp heq) fun hq => hmem (Or.inr hq)

end Holds

end LttRows

end Presteramgr
