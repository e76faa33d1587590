import Mathlib.Data.List.Nodup
import Mathlib.Data.List.Range
import Mathlib.Logic.Function.Basic

/-!
# Rows with zones

Elements with ranks stand in a row of slots, those of a lower rank first, and those of one rank in
the order in which they came. A new element takes the slot after the last one of its rank, and the
elements behind it move up by one; where one is taken out, the elements behind it move down.

## Main definitions

* `layout rank n l`: the elements of `l` of a rank below `n` in the order of the row;
* `openGap`, `closeGap`: the moves that make room and that take it away;
* `up`, `down`: the slot numbers after these moves;
* `Holds`: what a row contains, `Numbers`: who knows which slot.

## Main results

* `layout_snoc`: where a new element goes, `layout_filter`: elements that are taken out;
* `rank_lt_iff`: the ranks of a row are zones of it;
* `Holds.openGap`, `Holds.closeGap`, `Numbers.up` and `Numbers.down`.
-/

namespace Zones

open Function (update update_apply update_self update_of_ne)

variable {α β κ : Type*} {rank : α → ℕ} {n r : ℕ} {l : List α} {x : α}

/-! ### The order of a row -/

/-- The elements of rank below `n`, those of a lower rank first. -/
def layout (rank : α → ℕ) : ℕ → List α → List α
  | 0, _ => []
  | n + 1, l => layout rank n l ++ l.filter fun x => rank x = n

/-- The layout of the ranks below `n` holds the elements of those ranks. -/
theorem mem_layout_iff : x ∈ layout rank n l ↔ x ∈ l ∧ rank x < n := by
  induction n with
  | zero => simp [layout]
  | succ n ih =>
    rw [layout, List.mem_append, ih, List.mem_filter, decide_eq_true_iff, Nat.lt_succ_iff_lt_or_eq]
    exact and_or_left.symm

/-- Elements that are filtered out are missing in the layout, and the others keep their order. -/
theorem layout_filter (p : α → Bool) : layout rank n (l.filter p) = (layout rank n l).filter p := by
  induction n with
  | zero => rfl
  | succ n ih =>
    rw [layout, layout, ih, List.filter_append, List.filter_filter, List.filter_filter]
    simp only [Bool.and_comm]

variable (rank l) in
/-- The lower zones come first. -/
theorem layout_split (h : r ≤ n) :
    ∃ rest, layout rank n l = layout rank r l ++ rest ∧ ∀ x ∈ rest, r ≤ rank x := by
  induction n, h using Nat.le_induction with
  | base => exact ⟨[], (List.append_nil _).symm, fun x hx => absurd hx List.not_mem_nil⟩
  | succ n h ih =>
    obtain ⟨rest, heq, hrest⟩ := ih
    refine ⟨rest ++ l.filter fun x => rank x = n, ?_, fun x hx => ?_⟩
    · rw [layout, heq, List.append_assoc]
    · rcases List.mem_append.mp hx with hx | hx
      · exact hrest x hx
      · have hx : rank x = n := of_decide_eq_true (List.mem_filter.mp hx).2
        omega

variable (rank l) in
/-- More ranks take at least as many slots. -/
theorem length_layout_le (h : r ≤ n) : (layout rank r l).length ≤ (layout rank n l).length := by
  obtain ⟨rest, heq, -⟩ := layout_split rank l h
  rw [heq, List.length_append]
  exact Nat.le_add_right _ _

/-- An element stands in the zone of its rank. -/
theorem rank_lt_iff (h : r ≤ n) {i : ℕ} (hi : (layout rank n l)[i]? = some x) :
    rank x < r ↔ i < (layout rank r l).length := by
  obtain ⟨rest, heq, hrest⟩ := layout_split rank l h
  rw [heq] at hi
  constructor
  · intro hx
    by_contra hlt
    rw [List.getElem?_append_right (Nat.le_of_not_lt hlt)] at hi
    have := hrest x (List.mem_of_getElem? hi)
    omega
  · intro hlt
    rw [List.getElem?_append_left hlt] at hi
    exact (mem_layout_iff.mp (List.mem_of_getElem? hi)).2

/-- The elements of one rank stand in the order in which they came. -/
theorem filter_sublist_layout (h : r < n) :
    (l.filter fun x => rank x = r).Sublist (layout rank n l) := by
  obtain ⟨rest, heq, -⟩ := layout_split rank l (Nat.succ_le_of_lt h)
  rw [heq, Nat.succ_eq_add_one, layout, List.append_assoc]
  exact (List.sublist_append_left _ _).trans (List.sublist_append_right _ _)

/-- An element of a higher rank is not seen in the lower zones. -/
theorem layout_snoc_of_le (h : n ≤ rank x) : layout rank n (l ++ [x]) = layout rank n l := by
  induction n with
  | zero => rfl
  | succ n ih =>
    rw [layout, layout, ih (by omega), List.filter_append,
      List.filter_cons_of_neg (by simpa using by omega), List.filter_nil, List.append_nil]

variable (rank l) in
/-- A new element goes to the end of its zone. -/
theorem layout_snoc (h : r < n) : ∃ rest, layout rank n l = layout rank (r + 1) l ++ rest ∧
    ∀ x, rank x = r → layout rank n (l ++ [x]) = layout rank (r + 1) l ++ x :: rest := by
  induction n, Nat.succ_le_of_lt h using Nat.le_induction with
  | base =>
    refine ⟨[], (List.append_nil _).symm, fun x hx => ?_⟩
    rw [Nat.succ_eq_add_one, layout, layout_snoc_of_le hx.ge, List.filter_append,
      List.filter_cons_of_pos (by simpa using hx), List.filter_nil, ← List.append_assoc, layout]
  | succ n hle ih =>
    obtain ⟨rest, heq, heq'⟩ := ih (by omega)
    refine ⟨rest ++ l.filter fun x => rank x = n, ?_, fun x hx => ?_⟩
    · rw [layout, heq, List.append_assoc]
    · rw [layout, heq' x hx, List.filter_append, List.filter_cons_of_neg (by simpa using by omega),
        List.filter_nil, List.append_nil, List.append_assoc, List.cons_append]

/-- How many elements stand before a zone. -/
theorem length_layout : (layout rank n l).length = l.countP fun x => rank x < n := by
  induction n with
  | zero => simp [layout]
  | succ n ih =>
    rw [layout, List.length_append, ih, ← List.countP_eq_length_filter]
    clear ih
    induction l with
    | nil => rfl
    | cons x l ih =>
      rw [List.countP_cons, List.countP_cons, List.countP_cons, ← ih]
      simp only [decide_eq_true_eq]
      split_ifs <;> omega

/-- A new element takes one slot when its rank is among those laid out. -/
theorem length_layout_snoc :
    (layout rank n (l ++ [x])).length = (layout rank n l).length + if rank x < n then 1 else 0 := by
  rw [length_layout, length_layout, List.countP_append, List.countP_singleton]
  simp only [decide_eq_true_eq]

/-- One element less. -/
theorem length_layout_remove {l' : List α} : (layout rank n (l ++ x :: l')).length =
    (layout rank n (l ++ l')).length + if rank x < n then 1 else 0 := by
  rw [length_layout, length_layout, List.countP_append, List.countP_append, List.countP_cons]
  simp only [decide_eq_true_eq]
  omega

/-- The layout has no key twice when the list has none. -/
theorem layout_nodup {key : α → κ} (h : (l.map key).Nodup) :
    ((layout rank n l).map key).Nodup := by
  induction n with
  | zero => exact List.nodup_nil
  | succ n ih =>
    rw [layout, List.map_append, List.nodup_append]
    refine ⟨ih, h.sublist (List.filter_sublist.map key), ?_⟩
    intro a ha b hb hab
    obtain ⟨x, hx, rfl⟩ := List.mem_map.mp ha
    obtain ⟨y, hy, rfl⟩ := List.mem_map.mp hb
    obtain ⟨hx, hlt⟩ := mem_layout_iff.mp hx
    obtain ⟨hy, hy'⟩ := List.mem_filter.mp hy
    have hy' : rank y = n := of_decide_eq_true hy'
    obtain rfl := List.inj_on_of_nodup_map h hx hy hab
    omega

/-! ### Moving the slots of a row -/

/-- What stands in the slot `i` moves to the slot `j`. -/
def move (s : ℕ → Option α) (i j : ℕ) : ℕ → Option α := update (update s j (s i)) i none

/-- The `n` slots from `lo` on move up by one, the last one first. -/
def openGap (lo n : ℕ) (s : ℕ → Option α) : ℕ → Option α :=
  (List.range' lo n).foldr (fun i s => move s i (i + 1)) s

/-- The `n` slots behind `lo` move down by one, the first one first. -/
def closeGap (lo n : ℕ) (s : ℕ → Option α) : ℕ → Option α :=
  (List.range' lo n).foldl (fun s i => move s (i + 1) i) s

/-- The number of a slot after `openGap`. -/
def up (lo n i : ℕ) : ℕ := if lo ≤ i ∧ i < lo + n then i + 1 else i

/-- The number of a slot after `closeGap`. -/
def down (lo n i : ℕ) : ℕ := if lo < i ∧ i ≤ lo + n then i - 1 else i

variable {s : ℕ → Option α} {lo i j : ℕ}

/-- One round of the loop that opens a gap. -/
theorem openGap_succ : openGap lo (n + 1) s = move (openGap (lo + 1) n s) lo (lo + 1) := by
  rw [openGap, List.range'_succ, List.foldr_cons]
  rfl

/-- One round of the loop that closes a gap. -/
theorem closeGap_succ : closeGap lo (n + 1) s = closeGap (lo + 1) n (move s (lo + 1) lo) := by
  rw [closeGap, List.range'_succ, List.foldl_cons]
  rfl

/-- A move empties the slot it starts from and fills the other. -/
theorem move_apply : move s i j r = if r = i then none else if r = j then s i else s r := by
  simp only [move, update_apply]

/-- What a slot holds after the gap has been opened. -/
theorem openGap_apply : openGap lo n s j =
    if lo < j ∧ j ≤ lo + n then s (j - 1) else if j = lo ∧ 0 < n then none else s j := by
  induction n generalizing lo j with
  | zero => rw [if_neg (by omega), if_neg (by omega)]; rfl
  | succ n ih =>
    rw [openGap_succ, move_apply, ih, ih]
    -- the slots above `lo` have moved already, so that `lo + 1` is free for the first element
    by_cases hlo : j = lo
    · rw [if_pos hlo, if_neg (by omega), if_pos (by omega)]
    · rw [if_neg hlo]
      by_cases hlo' : j = lo + 1
      · rw [if_pos hlo', if_neg (by omega), if_neg (by omega), if_pos (by omega), hlo',
          Nat.add_sub_cancel]
      · rw [if_neg hlo', if_neg (show ¬(j = lo + 1 ∧ 0 < n) by omega),
          if_neg (show ¬(j = lo ∧ 0 < n + 1) by omega)]
        exact if_congr (by omega) rfl rfl

/-- What a slot holds after the gap has been closed. -/
theorem closeGap_apply : closeGap lo n s j =
    if lo ≤ j ∧ j < lo + n then s (j + 1) else if j = lo + n ∧ 0 < n then none else s j := by
  induction n generalizing lo s with
  | zero => rw [if_neg (by omega), if_neg (by omega)]; rfl
  | succ n ih =>
    rw [closeGap_succ, ih, move_apply, move_apply]
    by_cases hlo : j = lo
    · rw [if_neg (by omega), if_neg (by omega), if_neg (by omega), if_pos hlo, if_pos (by omega),
        hlo]
    · rw [if_neg (show ¬j + 1 = lo + 1 by omega)]
      by_cases hin : lo + 1 ≤ j ∧ j < lo + 1 + n
      · rw [if_pos hin, if_neg (by omega), if_pos (by omega)]
      · rw [if_neg hin, if_neg hlo, if_neg (show ¬(lo ≤ j ∧ j < lo + (n + 1)) by omega)]
        split_ifs <;> first | rfl | omega

/-- The numbers go through the rounds of opening one by one. -/
theorem up_succ : up lo (n + 1) i = if up (lo + 1) n i = lo then lo + 1 else up (lo + 1) n i := by
  unfold up
  split_ifs <;> omega

/-- The numbers go through the rounds of closing one by one. -/
theorem down_succ : down lo (n + 1) i = down (lo + 1) n (if i = lo + 1 then lo else i) := by
  unfold down
  split_ifs <;> omega

/-- Slots at or before the gap keep their number when it is closed. -/
theorem down_of_le (hi : i ≤ lo) : down lo n i = i :=
  if_neg fun h => absurd hi (Nat.not_le.mpr h.1)

/-- No slot at or after `p` moves in front of it. -/
theorem le_down {p : ℕ} (hlo : p ≤ lo) (hi : p ≤ i) : p ≤ down lo n i := by
  unfold down
  split_ifs <;> omega

/-- Slots before the gap keep their number when it is opened. -/
theorem up_of_lt (hi : i < lo) : up lo n i = i :=
  if_neg fun h => absurd hi (Nat.not_lt.mpr h.1)

/-- Opening a gap moves nothing down. -/
theorem le_up : i ≤ up lo n i := by
  unfold up
  split_ifs <;> omega

/-! ### What a row holds -/

/-- The slots from `start` on hold the elements of a list, and those behind them, up to `stop`,
nothing. -/
def Holds (start stop : ℕ) (l : List (Option α)) (s : ℕ → Option α) : Prop :=
  ∀ i, start + i < stop → s (start + i) = l[i]?.join

variable {start stop : ℕ} {A B : List (Option α)} {a : Option α}

/-- Opening a gap puts an empty slot between two parts of a row. -/
theorem Holds.openGap (h : Holds start stop (A ++ B) s) :
    Holds start stop (A ++ none :: B) (openGap (start + A.length) B.length s) := by
  intro i hi
  rw [openGap_apply]
  rcases lt_trichotomy i A.length with hlt | rfl | hgt
  · rw [if_neg (by omega), if_neg (by omega), h i hi, List.getElem?_append_left hlt,
      List.getElem?_append_left hlt]
  · rw [if_neg (by omega), List.getElem?_append_right le_rfl, Nat.sub_self]
    by_cases hB : 0 < B.length
    · rw [if_pos ⟨rfl, hB⟩]; rfl
    · rw [if_neg (by omega), h _ hi, List.getElem?_eq_none (by rw [List.length_append]; omega)]
      rfl
  · obtain ⟨k, rfl⟩ : ∃ k, i = A.length + 1 + k := ⟨i - (A.length + 1), by omega⟩
    rw [List.getElem?_append_right (by omega),
      show A.length + 1 + k - A.length = k + 1 by omega, List.getElem?_cons_succ]
    have hk : s (start + (A.length + k)) = B[k]?.join := by
      rw [h _ (by omega), List.getElem?_append_right (by omega), Nat.add_sub_cancel_left]
    by_cases hB : k < B.length
    · rw [if_pos (by omega), ← hk]
      congr 1
      omega
    · -- behind the last element there is nothing, before and after the move
      rw [if_neg (by omega), if_neg (by omega), h _ hi,
        List.getElem?_eq_none (by rw [List.length_append]; omega), List.getElem?_eq_none (by omega)]

/-- Closing the gap joins the two parts. -/
theorem Holds.closeGap (h : Holds start stop (A ++ none :: B) s)
    (hlen : start + A.length + B.length < stop) :
    Holds start stop (A ++ B) (closeGap (start + A.length) B.length s) := by
  intro i hi
  rw [closeGap_apply]
  rcases Nat.lt_or_ge i A.length with hlt | hge
  · rw [if_neg (by omega), if_neg (by omega), h i hi, List.getElem?_append_left hlt,
      List.getElem?_append_left hlt]
  · obtain ⟨k, rfl⟩ := Nat.exists_eq_add_of_le hge
    rw [List.getElem?_append_right (by omega), Nat.add_sub_cancel_left]
    by_cases hB : k < B.length
    · rw [if_pos (by omega), show start + (A.length + k) + 1 = start + (A.length + (k + 1)) by omega,
        h _ (by omega), List.getElem?_append_right (by omega), Nat.add_sub_cancel_left,
        List.getElem?_cons_succ]
    · rw [if_neg (by omega), List.getElem?_eq_none (by omega)]
      split_ifs with hlast
      · rfl
      · rw [h _ hi, List.getElem?_append_right (by omega), Nat.add_sub_cancel_left]
        rcases Nat.eq_zero_or_pos k with rfl | hk
        · rfl
        · rw [List.getElem?_eq_none (by rw [List.length_cons]; omega)]

/-- The element that stands last in its part of the row is put into its slot. -/
theorem Holds.update {b : Option α} (h : Holds start stop (A ++ a :: B) s) :
    Holds start stop (A ++ b :: B) (update s (start + A.length) b) := by
  intro i hi
  rcases lt_trichotomy i A.length with hlt | rfl | hgt
  · rw [update_of_ne (by omega), h i hi, List.getElem?_append_left hlt,
      List.getElem?_append_left hlt]
  · rw [update_self, List.getElem?_append_right le_rfl, Nat.sub_self]; rfl
  · obtain ⟨k, rfl⟩ : ∃ k, i = A.length + 1 + k := ⟨i - (A.length + 1), by omega⟩
    rw [update_of_ne (by omega), h _ hi, List.getElem?_append_right (by omega),
      List.getElem?_append_right (by omega), show A.length + 1 + k - A.length = k + 1 by omega,
      List.getElem?_cons_succ, List.getElem?_cons_succ]

/-! ### Who knows which slot -/

/-- The elements of a list know the numbers of their slots. -/
def Numbers (start : ℕ) (l : List κ) (ix : κ → Option ℕ) : Prop :=
  ∀ i k, l[i]? = some k → ix k = some (start + i)

variable {ix ix' : κ → Option ℕ} {A B : List κ} {k : κ}

/-- The numbers are right again when the new element has that of the gap. -/
theorem Numbers.up (h : Numbers start (A ++ B) ix)
    (hix : ∀ k ∈ A ++ B, ix' k = (ix k).map (up (start + A.length) B.length))
    (hk : ix' k = some (start + A.length)) : Numbers start (A ++ k :: B) ix' := by
  intro i k' hi
  have hold {j : ℕ} (hj : (A ++ B)[j]? = some k') :
      ix' k' = some (Zones.up (start + A.length) B.length (start + j)) := by
    rw [hix k' (List.mem_of_getElem? hj), h j k' hj, Option.map_some]
  rcases lt_trichotomy i A.length with hlt | rfl | hgt
  · rw [List.getElem?_append_left hlt] at hi
    rw [hold (by rwa [List.getElem?_append_left hlt]), Zones.up, if_neg (by omega)]
  · rw [List.getElem?_append_right le_rfl, Nat.sub_self] at hi
    obtain rfl := Option.some_inj.mp hi
    exact hk
  · obtain ⟨m, rfl⟩ : ∃ m, i = A.length + 1 + m := ⟨i - (A.length + 1), by omega⟩
    rw [List.getElem?_append_right (by omega), show A.length + 1 + m - A.length = m + 1 by omega,
      List.getElem?_cons_succ] at hi
    have hm : m < B.length := (List.getElem?_eq_some_iff.mp hi).1
    rw [hold (j := A.length + m) (by
      rwa [List.getElem?_append_right (by omega), Nat.add_sub_cancel_left]), Zones.up,
      if_pos (by omega)]
    congr 1
    omega

/-- The numbers are right again after the slot of an element has been closed. -/
theorem Numbers.down (h : Numbers start (A ++ k :: B) ix)
    (hix : ∀ k ∈ A ++ B, ix' k = (ix k).map (down (start + A.length) B.length)) :
    Numbers start (A ++ B) ix' := by
  intro i k' hi
  have hold {j : ℕ} (hj : (A ++ k :: B)[j]? = some k') :
      ix' k' = some (Zones.down (start + A.length) B.length (start + j)) := by
    rw [hix k' (List.mem_of_getElem? hi), h j k' hj, Option.map_some]
  rcases Nat.lt_or_ge i A.length with hlt | hge
  · rw [List.getElem?_append_left hlt] at hi
    rw [hold (by rwa [List.getElem?_append_left hlt]), Zones.down, if_neg (by omega)]
  · obtain ⟨m, rfl⟩ := Nat.exists_eq_add_of_le hge
    rw [List.getElem?_append_right (by omega), Nat.add_sub_cancel_left] at hi
    have hm : m < B.length := (List.getElem?_eq_some_iff.mp hi).1
    rw [hold (j := A.length + (m + 1)) (by
      rwa [List.getElem?_append_right (by omega), Nat.add_sub_cancel_left,
        List.getElem?_cons_succ]), Zones.down, if_pos (by omega)]
    congr 1

/-- The numbers of different elements are different. -/
theorem Numbers.inj (h : Numbers start A ix) {k k' : κ} (hk : k ∈ A) (hk' : k' ∈ A)
    (heq : ix k = ix k') : k = k' := by
  obtain ⟨i, hi⟩ := List.mem_iff_getElem?.mp hk
  obtain ⟨j, hj⟩ := List.mem_iff_getElem?.mp hk'
  rw [h i k hi, h j k' hj] at heq
  obtain rfl : i = j := by simpa using heq
  exact Option.some_inj.mp (hi.symm.trans hj)

end Zones
