import Mathlib.Data.List.Induction
import Presteramgr.Lib.DlSort

/-!
# Stacks on doubly linked lists (`dstack.c`)

A stack is a doubly linked list of copies of the data pushed on it, with a pointer `sp` to the
element on top, which is the last one of the list, and the number of elements. `malloc` returns an
address at which nothing is allocated; which one it is does not matter.

## Main definitions

* `dstackPush`, `dstackPushBack`, `dstackPop`, `dstackSort`, `dstackRevSort`, `dstackSort2`,
  `dstackRevSort2`, `dstackFree` and `dstackCopy`;
* `Dstack.Holds`: a stack consists of some cells.

## Main results

* `Dstack.Holds.push`, `Dstack.Holds.pushBack`, `Dstack.Holds.pop`, `Dstack.Holds.sortBy`,
  `Dstack.Holds.free` and `Dstack.Holds.copy`: what the functions do to the cells;
* `orders_dstackItemCmp`: data of one size can be sorted by `dstackItemCmp`.
-/

namespace Presteramgr

open Dlist (Heap NULL addrs Stored)
open Function (update update_self update_of_ne)

/-- What is pushed on a stack: `data_sz` bytes. -/
abbrev Bytes := List UInt8

/-- `struct dstack`. -/
structure Dstack where
  head : ℕ
  sp : ℕ
  count : ℕ

/-- `memcmp`, whose result has the sign of the first difference. -/
def memcmp : Bytes → Bytes → ℕ → ℤ
  | a :: as, b :: bs, n + 1 => if a = b then memcmp as bs n else (a.toNat : ℤ) - b.toNat
  | _, _, _ => 0

/-- `min_sz2`. -/
def minSz2 (a b : ℕ) : ℕ := if a < b then a else b

/-- `dstack_item_cmp`. -/
def dstackItemCmp (a b : Bytes) : ℤ := memcmp a b (minSz2 a.length b.length)

theorem memcmp_swap (a b : Bytes) (n : ℕ) : memcmp b a n = -memcmp a b n := by
  induction n generalizing a b with
  | zero => cases a <;> cases b <;> simp [memcmp]
  | succ n ih =>
    cases a with
    | nil => cases b <;> simp [memcmp]
    | cons x a =>
      cases b with
      | nil => simp [memcmp]
      | cons y b =>
        by_cases hxy : x = y
        · simpa [memcmp, hxy] using ih a b
        · simp only [memcmp, if_neg hxy, if_neg (Ne.symm hxy)]
          omega

/-- Among data of one size, `memcmp` is transitive. -/
theorem memcmp_trans {a b c : Bytes} {n : ℕ} (ha : a.length = n) (hb : b.length = n)
    (hc : c.length = n) (hab : memcmp a b n ≤ 0) (hbc : memcmp b c n ≤ 0) : memcmp a c n ≤ 0 := by
  induction n generalizing a b c with
  | zero => cases a <;> simp [memcmp]
  | succ n ih =>
    obtain ⟨x, a, rfl⟩ := List.exists_cons_of_length_eq_add_one ha
    obtain ⟨y, b, rfl⟩ := List.exists_cons_of_length_eq_add_one hb
    obtain ⟨z, c, rfl⟩ := List.exists_cons_of_length_eq_add_one hc
    simp only [List.length_cons, Nat.add_right_cancel_iff] at ha hb hc
    simp only [memcmp] at hab hbc ⊢
    -- the first bytes that differ decide, and a byte is its number
    have hinj : ∀ v w : UInt8, v.toNat = w.toNat → v = w := fun _ _ => UInt8.toNat_inj.mp
    have := ih ha hb hc
    grind

theorem dstackItemCmp_swap (a b : Bytes) : dstackItemCmp b a = -dstackItemCmp a b := by
  have hmin : minSz2 b.length a.length = minSz2 a.length b.length := by
    unfold minSz2
    split <;> split <;> omega
  rw [dstackItemCmp, dstackItemCmp, hmin, memcmp_swap]

/-- `dstack_item_cmp` orders data of one size. -/
theorem orders_dstackItemCmp {l : List Bytes} {n : ℕ} (hl : ∀ a ∈ l, a.length = n) :
    Dlist.Orders dstackItemCmp l where
  total a _ b _ := by
    rw [dstackItemCmp_swap a b]
    omega
  trans a ha b hb c hc hab hbc := by
    simp only [dstackItemCmp, hl a ha, hl b hb, hl c hc, minSz2, ite_self] at hab hbc ⊢
    exact memcmp_trans (hl a ha) (hl b hb) (hl c hc) hab hbc

/-- `DEFINE_INT_CMP (uint8_t)`, for data of one byte. -/
def intCmpUint8 (a b : Bytes) : ℤ :=
  let a := a.headD 0
  let b := b.headD 0
  (if b < a then 1 else 0) - (if a < b then 1 else 0)

/-- `dstack_init`. -/
def dstackInit : Dstack := ⟨NULL, NULL, 0⟩

/-- `dstack_push`; `dstack_item_init` gets the memory at `item`. -/
def dstackPush (h : Heap Bytes) (s : Dstack) (data : Bytes) (item : ℕ) :
    Option (Heap Bytes × Dstack) := do
  let (h, head) ← Dlist.append (h.alloc item data) s.head item
  some (h, ⟨head, item, s.count + 1⟩)

/-- `dstack_push_back`. -/
def dstackPushBack (h : Heap Bytes) (s : Dstack) (data : Bytes) (item : ℕ) :
    Option (Heap Bytes × Dstack) := do
  let (h, head) ← Dlist.prepend (h.alloc item data) s.head item
  some (h, ⟨head, if s.count = 0 then item else s.sp, s.count + 1⟩)

/-- `dstack_pop`, which copies the data on top to the caller, and fails on an empty stack. -/
def dstackPop (h : Heap Bytes) (s : Dstack) : Option (Option Bytes × Heap Bytes × Dstack) := do
  if s.count ≠ 0 then
    let data ← h.data s.sp
    let tmp ← h.getPrev s.sp
    let (h, head) ← Dlist.delete h s.head s.sp
    some (some data, h.free s.sp, ⟨head, tmp, s.count - 1⟩)
  else some (none, h, s)

/-- The loop that follows a list of at most `n + 1` elements to the last one. -/
def dstackLast (h : Heap Bytes) : ℕ → ℕ → Option ℕ
  | 0, sp => do if (← h.getNext sp) ≠ NULL then none else some sp
  | n + 1, sp => do
    let next ← h.getNext sp
    if next ≠ NULL then dstackLast h n next else some sp

/-- `DL_SORT` by a comparison, after which `sp` is set to the last element. -/
def dstackSortBy (cmp : Bytes → Bytes → ℤ) (h : Heap Bytes) (s : Dstack) :
    Option (Heap Bytes × Dstack) := do
  let (h, head) ← Dlist.sort cmp s.count h s.head
  if head ≠ NULL then some (h, ⟨head, ← dstackLast h s.count head, s.count⟩)
  else some (h, ⟨head, head, s.count⟩)

/-- `dstack_sort`. -/
def dstackSort (h : Heap Bytes) (s : Dstack) : Option (Heap Bytes × Dstack) :=
  dstackSortBy dstackItemCmp h s

/-- `dstack_rev_sort`. -/
def dstackRevSort (h : Heap Bytes) (s : Dstack) : Option (Heap Bytes × Dstack) :=
  dstackSortBy (fun a b => -dstackItemCmp a b) h s

/-- `dstack_sort2`. -/
def dstackSort2 (cmp : Bytes → Bytes → ℤ) (h : Heap Bytes) (s : Dstack) :
    Option (Heap Bytes × Dstack) :=
  dstackSortBy cmp h s

/-- `dstack_rev_sort2`. -/
def dstackRevSort2 (cmp : Bytes → Bytes → ℤ) (h : Heap Bytes) (s : Dstack) :
    Option (Heap Bytes × Dstack) :=
  dstackSortBy (fun a b => -cmp a b) h s

/-- The loop of `dstack_free`, which makes at most `n` rounds. -/
def dstackFreeLoop : ℕ → Heap Bytes → Dstack → Option (Heap Bytes)
  | 0, h, s => if s.count ≠ 0 then none else some h
  | n + 1, h, s =>
    if s.count ≠ 0 then do
      let (_, h, s) ← dstackPop h s
      dstackFreeLoop n h s
    else some h

/-- `dstack_free`. -/
def dstackFree (h : Heap Bytes) (s : Dstack) : Option (Heap Bytes) := dstackFreeLoop s.count h s

/-- The loop of `dstack_copy`, whose rounds get memory at the addresses `items`. -/
def dstackCopyLoop : List ℕ → ℕ → Heap Bytes → Dstack → Option (Heap Bytes × Dstack)
  | [], tmp, h, dst => if tmp ≠ NULL then none else some (h, dst)
  | item :: items, tmp, h, dst =>
    if tmp ≠ NULL then do
      let (h, dst) ← dstackPush h dst (← h.data tmp) item
      dstackCopyLoop items (← h.getNext tmp) h dst
    else some (h, dst)

/-- `dstack_copy`. -/
def dstackCopy (h : Heap Bytes) (dst src : Dstack) (items : List ℕ) :
    Option (Heap Bytes × Dstack) := do
  let h ← dstackFree h dst
  dstackCopyLoop items src.head h dstackInit

/-- The data of at most `n` elements that `DL_FOREACH` comes to. -/
def dstackDataFrom (h : Heap Bytes) : ℕ → ℕ → List Bytes
  | 0, _ => []
  | n + 1, tmp => if tmp ≠ NULL then (h.data tmp).getD [] :: dstackDataFrom h n (h.next tmp) else []

/-- The data on a stack, from the bottom to the top. -/
def dstackData (h : Heap Bytes) (s : Dstack) : List Bytes := dstackDataFrom h s.count s.head

namespace Dstack

variable {h h' : Heap Bytes} {s s' : Dstack} {cells : List (ℕ × Bytes)} {data : Bytes} {item : ℕ}

/-- The stack consists of the cells, the last one on top. -/
structure Holds (h : Heap Bytes) (s : Dstack) (cells : List (ℕ × Bytes)) : Prop where
  list : Dlist.Holds h s.head cells
  sp : cells ≠ [] → s.sp = (addrs cells).getLastD NULL
  count : s.count = cells.length

namespace Holds

theorem init (h : Heap Bytes) : Holds h dstackInit [] :=
  ⟨Dlist.Holds.nil h, fun hne => absurd rfl hne, rfl⟩

/-- A stack depends on its own cells only. -/
theorem frame {t : Set ℕ} (hh : Holds h s cells) (hs : h.SameOff h' t)
    (hdisj : ∀ p ∈ addrs cells, p ∉ t) : Holds h' s cells :=
  ⟨hh.list.frame hs hdisj, hh.sp, hh.count⟩

/-- The data on a stack are those of its cells. -/
theorem data_eq (hh : Holds h s cells) : dstackData h s = cells.map Prod.snd := by
  have hwalk : ∀ (rest : List (ℕ × Bytes)) (p : ℕ), (∀ c ∈ rest, c ∈ cells) →
      Linked.Path h.next p (addrs rest) NULL →
        dstackDataFrom h rest.length p = rest.map Prod.snd := by
    intro rest
    induction rest with
    | nil => exact fun _ _ _ => rfl
    | cons c rest ih =>
      rintro p hsub ⟨rfl, hp⟩
      have hc := hsub c List.mem_cons_self
      have hnull : c.1 ≠ NULL := fun heq => hh.list.ne_null (heq ▸ List.mem_map_of_mem hc)
      rw [List.length_cons, dstackDataFrom, if_pos hnull, hh.list.data c hc, Option.getD_some,
        ih _ (fun d hd => hsub d (List.mem_cons_of_mem _ hd)) hp, List.map_cons]
  rw [dstackData, hh.count]
  exact hwalk cells s.head (fun _ hc => hc) hh.list.path

/-- The data goes on top. -/
theorem push (hh : Holds h s cells) (data : Bytes) (hnew : h.data item = none)
    (hnull : item ≠ NULL) :
    ∃ h' s', dstackPush h s data item = some (h', s') ∧ Holds h' s' (cells ++ [(item, data)]) ∧
      h.SameOff h' {p | p ∈ addrs (cells ++ [(item, data)])} := by
  have hmem : item ∈ addrs (cells ++ [(item, data)]) := by simp
  have hsame := Heap.sameOff_alloc (h := h)
      (s := {p | p ∈ addrs (cells ++ [(item, data)])}) hmem data
  have hlist : Dlist.Holds (h.alloc item data) s.head cells :=
    hh.list.frame (Heap.sameOff_alloc (Set.mem_singleton item) data)
      fun p hp hpi => hh.list.not_mem hnew (Set.mem_singleton_iff.mp hpi ▸ hp)
  have hstored : Stored (h.alloc item data) (cells ++ [(item, data)]) :=
    (hh.list.alloc hnew hnull data).perm (List.perm_append_singleton _ _)
  obtain ⟨h', head, happend, hh', hsame'⟩ := hlist.append hstored
  refine ⟨h', ⟨head, item, s.count + 1⟩, by simp [dstackPush, happend], ⟨hh', fun _ => ?_, ?_⟩,
    hsame.trans hsame'⟩
  · rw [addrs, List.map_append, List.map_singleton, List.getLastD_concat]
  · rw [hh.count, List.length_append, List.length_singleton]

/-- The data goes to the bottom. -/
theorem pushBack (hh : Holds h s cells) (data : Bytes) (hnew : h.data item = none)
    (hnull : item ≠ NULL) :
    ∃ h' s', dstackPushBack h s data item = some (h', s') ∧ Holds h' s' ((item, data) :: cells) ∧
      h.SameOff h' {p | p ∈ addrs ((item, data) :: cells)} := by
  have hmem : item ∈ addrs ((item, data) :: cells) := List.mem_cons_self
  have hsame := Heap.sameOff_alloc (h := h) (s := {p | p ∈ addrs ((item, data) :: cells)}) hmem data
  have hlist : Dlist.Holds (h.alloc item data) s.head cells :=
    hh.list.frame (Heap.sameOff_alloc (Set.mem_singleton item) data)
      fun p hp hpi => hh.list.not_mem hnew (Set.mem_singleton_iff.mp hpi ▸ hp)
  obtain ⟨h', hprepend, hh', hsame'⟩ := hlist.prepend (hh.list.alloc hnew hnull data)
  refine ⟨h', ⟨item, if s.count = 0 then item else s.sp, s.count + 1⟩, by simp [dstackPushBack, hprepend],
    ⟨hh', fun _ => ?_, ?_⟩, hsame.trans hsame'⟩
  · cases cells with
    | nil => simp [hh.count]
    | cons c cells =>
      rw [if_neg (by simp [hh.count]), hh.sp (List.cons_ne_nil _ _)]
      simp
  · rw [hh.count, List.length_cons]

/-- The data on top is handed out, and its element is freed. -/
theorem pop {c : ℕ × Bytes} (hh : Holds h s (cells ++ [c])) :
    ∃ h' s', dstackPop h s = some (some c.2, h', s') ∧ Holds h' s' cells ∧
      h.SameOff h' {p | p ∈ addrs (cells ++ [c])} ∧ h'.data c.1 = none := by
  have hc := hh.list.data c (by simp)
  have hsp : s.sp = c.1 := by
    rw [hh.sp (by simp), addrs, List.map_append, List.map_singleton, List.getLastD_concat]
  have hcount : s.count = cells.length + 1 := by simp [hh.count]
  have hprev : cells ≠ [] → h.prev c.1 = (addrs cells).getLastD NULL := by
    intro hne
    have hback := hh.list.back
    rw [addrs, List.map_append, List.map_singleton, List.getLastD_concat] at hback
    rw [(Linked.back_append.mp hback).2.1]
    cases cells with
    | nil => exact absurd rfl hne
    | cons d cells => rw [addrs, List.map_cons, List.getLastD_cons, List.getLastD_cons]
  obtain ⟨h₁, head, hdelete, hh₁, hsame⟩ := hh.list.delete
  rw [List.append_nil] at hh₁ hsame
  have hnd : c.1 ∉ addrs cells := by
    have hnodup := hh.list.nodup
    rw [addrs, List.map_append, List.nodup_append] at hnodup
    exact fun hmem => hnodup.2.2 _ hmem _ (List.mem_singleton_self _) rfl
  have hcmem : c.1 ∈ addrs (cells ++ [c]) := List.mem_map_of_mem (by simp)
  refine ⟨h₁.free c.1, ⟨head, h.prev c.1, s.count - 1⟩, ?_, ⟨?_, hprev, by simp [hcount]⟩, ?_,
    Heap.free_data⟩
  · rw [hsp.symm] at hdelete
    simp [dstackPop, hcount, hsp ▸ hdelete, hsp, hc, Heap.getPrev]
  · refine hh₁.frame (Heap.sameOff_free (Set.mem_singleton c.1)) fun p hp hpc => hnd ?_
    exact Set.mem_singleton_iff.mp hpc ▸ hp
  · refine (hsame.mono fun p hp => ?_).trans (Heap.sameOff_free hcmem)
    exact List.map_subset _ (List.subset_append_left _ _) hp

/-- Nothing is handed out by an empty stack. -/
theorem pop_nil (hh : Holds h s []) : dstackPop h s = some (none, h, s) := by
  have hcount : s.count = 0 := hh.count
  simp [dstackPop, hcount]

/-- The walk along the links ends at the last element. -/
theorem dstackLast_eq {n p : ℕ} (hs : Stored h cells) {rest : List (ℕ × Bytes)}
    (hp : Linked.Path h.next p (addrs rest) NULL) (hsub : ∀ c ∈ rest, c ∈ cells) (hne : rest ≠ [])
    (hn : rest.length ≤ n + 1) : dstackLast h n p = some ((addrs rest).getLastD NULL) := by
  induction n generalizing p rest with
  | zero =>
    obtain ⟨c, rfl⟩ := List.length_eq_one_iff.mp
      (Nat.le_antisymm hn (List.length_pos_iff.mpr hne))
    obtain ⟨rfl, hnext⟩ := hp
    have hnull : h.next c.1 = NULL := hnext
    rw [dstackLast, Heap.getNext_eq (hs.data c (hsub c List.mem_cons_self))]
    simp [hnull]
  | succ n ih =>
    cases rest with
    | nil => exact absurd rfl hne
    | cons c rest =>
      obtain ⟨rfl, hp⟩ := hp
      have hsub' : ∀ d ∈ rest, d ∈ cells := fun d hd => hsub d (List.mem_cons_of_mem _ hd)
      rw [dstackLast, Heap.getNext_eq (hs.data c (hsub c List.mem_cons_self))]
      by_cases hnull : h.next c.1 = NULL
      · obtain rfl : rest = [] := by
          by_contra hrest
          exact (Dlist.Sorting.head_ne_null hs hp hsub').mpr hrest hnull
        simp [hnull]
      · have hrest := (Dlist.Sorting.head_ne_null hs hp hsub').mp hnull
        have hlast := ih hp hsub' hrest (by simpa using hn)
        obtain ⟨d, rest, rfl⟩ := List.exists_cons_of_ne_nil hrest
        simpa [hnull, List.getLast?_cons] using hlast

/-- Sorting keeps the cells, and by a comparison that orders their data it is stable. -/
theorem sortBy (cmp : Bytes → Bytes → ℤ) (hh : Holds h s cells) :
    ∃ h' s' cells', dstackSortBy cmp h s = some (h', s') ∧ Holds h' s' cells' ∧
      h.SameOff h' {p | p ∈ addrs cells} ∧ cells'.Perm cells ∧
      (Dlist.Orders cmp (cells.map Prod.snd) → cells' = cells.mergeSort (Dlist.cellLe cmp)) := by
  obtain ⟨h', head, cells', hsort, hh', hsame, hperm, hsorted⟩ :=
    hh.list.sort cmp (Nat.le_of_eq hh.count.symm)
  have hcount : s.count = cells'.length := hh.count.trans hperm.length_eq.symm
  by_cases hnull : head = NULL
  · have hnil := hh'.head_eq_null_iff.mp hnull
    refine ⟨h', ⟨head, head, s.count⟩, cells', by simp [dstackSortBy, hsort, hnull],
      ⟨hh', fun hne => absurd hnil hne, hcount⟩, hsame, hperm, hsorted⟩
  · have hne : cells' ≠ [] := fun hnil => hnull (hh'.head_eq_null_iff.mpr hnil)
    have hlast := dstackLast_eq hh'.toStored hh'.path (fun _ hc => hc) hne (n := s.count) (by omega)
    refine ⟨h', ⟨head, (addrs cells').getLastD NULL, s.count⟩, cells', ?_,
      ⟨hh', fun _ => rfl, hcount⟩,
      hsame, hperm, hsorted⟩
    simp [dstackSortBy, hsort, hnull, hlast]

/-- The elements of the stack are freed, and nothing else changes. -/
theorem free (hh : Holds h s cells) : ∃ h', dstackFree h s = some h' ∧
    h.SameOff h' {p | p ∈ addrs cells} ∧ ∀ c ∈ cells, h'.data c.1 = none := by
  have hloop : ∀ n, cells.length ≤ n → ∃ h', dstackFreeLoop n h s = some h' ∧
      h.SameOff h' {p | p ∈ addrs cells} ∧ ∀ c ∈ cells, h'.data c.1 = none := by
    induction cells using List.reverseRecOn generalizing h s with
    | nil =>
      have hcount : s.count = 0 := hh.count
      refine fun n _ => ⟨h, ?_, Heap.SameOff.refl _ _, fun _ hc => absurd hc List.not_mem_nil⟩
      cases n <;> simp [dstackFreeLoop, hcount]
    | append_singleton cells c ih =>
      intro n hn
      obtain ⟨h₁, s₁, hpop, hh₁, hsame₁, hc⟩ := hh.pop
      have hcount : s.count ≠ 0 := by simp [hh.count]
      obtain ⟨n, rfl⟩ : ∃ k, n = k + 1 := by
        refine Nat.exists_eq_succ_of_ne_zero fun hzero => ?_
        simp [hzero] at hn
      obtain ⟨h₂, hfree, hsame₂, hcells⟩ := ih hh₁ n (by simpa using hn)
      have hnd : c.1 ∉ addrs cells := fun hmem => by
        have hnodup := hh.list.nodup
        rw [addrs, List.map_append, List.nodup_append] at hnodup
        exact hnodup.2.2 _ hmem _ (List.mem_singleton_self _) rfl
      refine ⟨h₂, by simp [dstackFreeLoop, hcount, hpop, hfree], ?_, ?_⟩
      · exact hsame₁.trans (hsame₂.mono (List.map_subset _ (List.subset_append_left _ _)))
      · intro d hd
        rcases List.mem_append.mp hd with hd | hd
        · exact hcells d hd
        · rw [List.mem_singleton.mp hd]
          exact ((hsame₂ c.1 hnd).2.2).trans hc
  rw [dstackFree, hh.count]
  exact hloop _ (Nat.le_refl _)

/-- The loop of a copy pushes the data of the cells that are left, in their order. -/
theorem copyLoop {src rest : List (ℕ × Bytes)} {items : List ℕ} {tmp : ℕ} (hh : Holds h s cells)
    (hsrc : Stored h src) (hdisj : ∀ p ∈ addrs src, p ∉ addrs cells)
    (hp : Linked.Path h.next tmp (addrs rest) NULL) (hsub : ∀ c ∈ rest, c ∈ src)
    (hitems : items.length = rest.length) (hnd : items.Nodup)
    (hnew : ∀ item ∈ items, h.data item = none ∧ item ≠ NULL) :
    ∃ h' s', dstackCopyLoop items tmp h s = some (h', s') ∧
      Holds h' s' (cells ++ items.zip (rest.map Prod.snd)) ∧
      h.SameOff h' {p | p ∈ addrs cells ∨ p ∈ items} := by
  induction items generalizing h s cells rest tmp with
  | nil =>
    obtain rfl := List.length_eq_zero_iff.mp hitems.symm
    have hnull : tmp = NULL := hp
    exact ⟨h, s, by simp [dstackCopyLoop, hnull], by simpa using hh, Heap.SameOff.refl _ _⟩
  | cons item items ih =>
    cases rest with
    | nil => simp at hitems
    | cons c rest =>
      obtain ⟨rfl, hp⟩ := hp
      have hcsrc := hsub c List.mem_cons_self
      have hc := hsrc.data c hcsrc
      have hcnull : c.1 ≠ NULL := fun heq => hsrc.ne_null (heq ▸ List.mem_map_of_mem hcsrc)
      obtain ⟨hitem, hinull⟩ := hnew item List.mem_cons_self
      obtain ⟨h₁, s₁, hpush, hh₁, hsame⟩ := hh.push c.2 hitem hinull
      have haddrs : ∀ p, p ∈ addrs (cells ++ [(item, c.2)]) ↔ p ∈ addrs cells ∨ p = item := by simp
      -- the source is not touched
      have hout : ∀ p ∈ addrs src, p ∉ {p | p ∈ addrs (cells ++ [(item, c.2)])} := by
        intro p hp hpc
        rcases (haddrs p).mp hpc with hpc | rfl
        · exact hdisj p hp hpc
        · exact hsrc.not_mem hitem hp
      have hsrc₁ : Stored h₁ src :=
        hsrc.congr fun d hd => (hsame d.1 (hout _ (List.mem_map_of_mem hd))).2.2
      have hsub' : ∀ d ∈ rest, d ∈ src := fun d hd => hsub d (List.mem_cons_of_mem _ hd)
      have hnext : h₁.next c.1 = h.next c.1 := (hsame c.1 (hout _ (List.mem_map_of_mem hcsrc))).1
      have hp₁ : Linked.Path h₁.next (h₁.next c.1) (addrs rest) NULL := by
        rw [hnext]
        refine hp.congr fun p hpr => (hsame p (hout p ?_)).1
        exact List.map_subset _ hsub' hpr
      obtain ⟨hni, hnd⟩ := List.nodup_cons.mp hnd
      have hnew₁ : ∀ i ∈ items, h₁.data i = none ∧ i ≠ NULL := by
        intro i hi
        obtain ⟨hi', hnull⟩ := hnew i (List.mem_cons_of_mem _ hi)
        refine ⟨(hsame i fun hmem => ?_).2.2.trans hi', hnull⟩
        rcases (haddrs i).mp hmem with hmem | rfl
        · exact hh.list.not_mem hi' hmem
        · exact hni hi
      obtain ⟨h₂, s₂, hloop, hh₂, hsame₂⟩ :=
        ih hh₁ hsrc₁ hout hp₁ hsub' (by simpa using hitems) hnd hnew₁
      refine ⟨h₂, s₂, ?_, by simpa using hh₂, (hsame.mono ?_).trans (hsame₂.mono ?_)⟩
      · simp [dstackCopyLoop, hcnull, hc, hpush, Heap.getNext_eq (hsrc₁.data c hcsrc), hloop]
      · intro p hp
        simpa using ((haddrs p).mp hp).imp_right Or.inl
      · rintro p (hp | hp)
        · rcases (haddrs p).mp hp with hp | rfl
          · exact Or.inl hp
          · exact Or.inr List.mem_cons_self
        · exact Or.inr (List.mem_cons_of_mem _ hp)

/-- A copy holds the data of its source, in elements of its own, and the old elements are freed. -/
theorem copy {src : Dstack} {scells : List (ℕ × Bytes)} {items : List ℕ} (hh : Holds h s cells)
    (hsrc : Holds h src scells) (hdisj : ∀ p ∈ addrs scells, p ∉ addrs cells)
    (hitems : items.length = scells.length) (hnd : items.Nodup)
    (hnew : ∀ item ∈ items, (h.data item = none ∨ item ∈ addrs cells) ∧ item ≠ NULL) :
    ∃ h' s', dstackCopy h s src items = some (h', s') ∧
      Holds h' s' (items.zip (scells.map Prod.snd)) ∧
      h.SameOff h' {p | p ∈ addrs cells ∨ p ∈ items} ∧
      ∀ c ∈ cells, c.1 ∉ items → h'.data c.1 = none := by
  obtain ⟨h₁, hfree, hsame, hcells⟩ := hh.free
  have hsrc₁ : Holds h₁ src scells := hsrc.frame hsame hdisj
  have hnew₁ : ∀ item ∈ items, h₁.data item = none ∧ item ≠ NULL := by
    intro item hi
    refine ⟨?_, (hnew item hi).2⟩
    by_cases hmem : item ∈ addrs cells
    · obtain ⟨c, hc, rfl⟩ := List.mem_map.mp hmem
      exact hcells c hc
    · exact (hsame item hmem).2.2.trans ((hnew item hi).1.resolve_right hmem)
  obtain ⟨h₂, s₂, hloop, hh₂, hsame₂⟩ := (init h₁).copyLoop hsrc₁.list.toStored
    (fun _ _ => List.not_mem_nil) hsrc₁.list.path (fun _ hc => hc) hitems hnd hnew₁
  refine ⟨h₂, s₂, by simp [dstackCopy, hfree, hloop], by simpa using hh₂,
    (hsame.mono fun _ => Or.inl).trans (hsame₂.mono fun p hp => ?_), fun c hc hi => ?_⟩
  · exact Or.inr (hp.resolve_left List.not_mem_nil)
  · exact (hsame₂ c.1 fun hp => hp.elim (fun h => List.not_mem_nil h) hi).2.2.trans (hcells c hc)

end Holds

end Dstack

end Presteramgr
