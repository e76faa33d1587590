import Mathlib.Logic.Function.Basic
import Presteramgr.Lib.Linked

/-!
# Doubly linked lists in a heap

The elements of a list lie in a heap, by address, and are linked both ways; the last one ends at the
null pointer, and the first one points back to the last one. An access to memory that is not
allocated fails.

## Main definitions

* `Heap`: the links and the data of the elements;
* `Holds`: the list that starts at an address consists of some cells;
* `prepend`, `append`, `delete` and `search`: the operations on a list.

## Main results

* `Holds.prepend`, `Holds.append` and `Holds.delete`: what the operations do to the cells;
* `Holds.search`: what a search finds;
* `Holds.frame`: a list depends on its own cells only.
-/

namespace Dlist

open Function (update update_self update_of_ne)
open Linked (Path Back)

/-- The elements in memory, by address. Nothing is allocated where there is no data. -/
structure Heap (α : Type) where
  next : ℕ → ℕ
  prev : ℕ → ℕ
  data : ℕ → Option α

/-- The null pointer. -/
abbrev NULL : ℕ := 0

variable {α : Type}

namespace Heap

variable (h : Heap α) (p v : ℕ)

/-- `p->next`. -/
def getNext : Option ℕ := (h.data p).map fun _ => h.next p

/-- `p->prev`. -/
def getPrev : Option ℕ := (h.data p).map fun _ => h.prev p

/-- The link to the next element is set. -/
def writeNext : Heap α := { h with next := update h.next p v }

/-- The link to the previous element is set. -/
def writePrev : Heap α := { h with prev := update h.prev p v }

/-- `p->next = v`. -/
def setNext : Option (Heap α) := (h.data p).map fun _ => h.writeNext p v

/-- `p->prev = v`. -/
def setPrev : Option (Heap α) := (h.data p).map fun _ => h.writePrev p v

/-- An element at a new address, whose links are null. -/
def alloc (a : α) : Heap α :=
  { next := update h.next p NULL, prev := update h.prev p NULL, data := update h.data p (some a) }

/-- The element is freed. -/
def free : Heap α := { h with data := update h.data p none }

/-- Nothing of the heap has changed but what lies at the addresses `s`. -/
def SameOff (h h' : Heap α) (s : Set ℕ) : Prop :=
  ∀ p ∉ s, h'.next p = h.next p ∧ h'.prev p = h.prev p ∧ h'.data p = h.data p

variable {h p v}

/-- A cell that is allocated can be read. -/
theorem getNext_eq {a : α} (ha : h.data p = some a) : h.getNext p = some (h.next p) := by
  rw [getNext, ha, Option.map_some]

/-- A cell that is allocated can be linked forward. -/
theorem setNext_eq {a : α} (ha : h.data p = some a) : h.setNext p v = some (h.writeNext p v) := by
  rw [setNext, ha, Option.map_some]

/-- A cell that is allocated can be linked backward. -/
theorem setPrev_eq {a : α} (ha : h.data p = some a) : h.setPrev p v = some (h.writePrev p v) := by
  rw [setPrev, ha, Option.map_some]

@[simp]
theorem writeNext_next : (h.writeNext p v).next = update h.next p v := rfl

@[simp]
theorem writeNext_prev : (h.writeNext p v).prev = h.prev := rfl

@[simp]
theorem writeNext_data : (h.writeNext p v).data = h.data := rfl

@[simp]
theorem writePrev_next : (h.writePrev p v).next = h.next := rfl

@[simp]
theorem writePrev_prev : (h.writePrev p v).prev = update h.prev p v := rfl

@[simp]
theorem writePrev_data : (h.writePrev p v).data = h.data := rfl

/-- Writing a link of a cell changes nothing outside a set that has it. -/
theorem sameOff_writeNext {s : Set ℕ} (hp : p ∈ s) : h.SameOff (h.writeNext p v) s :=
  fun _ hq => ⟨update_of_ne (ne_of_mem_of_not_mem hp hq).symm .., rfl, rfl⟩

/-- Writing a back link of a cell changes nothing outside a set that has it. -/
theorem sameOff_writePrev {s : Set ℕ} (hp : p ∈ s) : h.SameOff (h.writePrev p v) s :=
  fun _ hq => ⟨rfl, update_of_ne (ne_of_mem_of_not_mem hp hq).symm .., rfl⟩

/-- Nothing has changed. -/
theorem SameOff.refl (h : Heap α) (s : Set ℕ) : h.SameOff h s := fun _ _ => ⟨rfl, rfl, rfl⟩

/-- Two changes inside a set are one. -/
theorem SameOff.trans {h h' h'' : Heap α} {s : Set ℕ} (hs : h.SameOff h' s)
    (hs' : h'.SameOff h'' s) :
    h.SameOff h'' s := by
  intro p hp
  obtain ⟨hn, hv, hd⟩ := hs p hp
  obtain ⟨hn', hv', hd'⟩ := hs' p hp
  exact ⟨hn'.trans hn, hv'.trans hv, hd'.trans hd⟩

/-- A change inside a set is one inside a larger set. -/
theorem SameOff.mono {h h' : Heap α} {s t : Set ℕ} (hs : h.SameOff h' s) (hst : s ⊆ t) :
    h.SameOff h' t :=
  fun p hp => hs p fun hps => hp (hst hps)

/-- Allocating a cell changes nothing outside a set that has it. -/
theorem sameOff_alloc {s : Set ℕ} (hp : p ∈ s) (a : α) : h.SameOff (h.alloc p a) s := by
  intro q hq
  have hne : q ≠ p := (ne_of_mem_of_not_mem hp hq).symm
  exact ⟨update_of_ne hne .., update_of_ne hne .., update_of_ne hne ..⟩

/-- Freeing a cell changes nothing outside a set that has it. -/
theorem sameOff_free {s : Set ℕ} (hp : p ∈ s) : h.SameOff (h.free p) s :=
  fun _ hq => ⟨rfl, rfl, update_of_ne (ne_of_mem_of_not_mem hp hq).symm ..⟩

/-- An allocated cell holds its data. -/
@[simp]
theorem alloc_data (a : α) : (h.alloc p a).data p = some a := update_self ..

/-- A freed cell holds nothing. -/
@[simp]
theorem free_data : (h.free p).data p = none := update_self ..

end Heap

/-- The addresses of cells. -/
abbrev addrs (cells : List (ℕ × α)) : List ℕ := cells.map Prod.fst

variable {h h' : Heap α} {head p : ℕ} {a : α} {cells cells' : List (ℕ × α)} {c : ℕ × α}

/-- Cells that are allocated at different addresses, none of them null. -/
structure Stored (h : Heap α) (cells : List (ℕ × α)) : Prop where
  nodup : (addrs cells).Nodup
  ne_null : NULL ∉ addrs cells
  data : ∀ c ∈ cells, h.data c.1 = some c.2

/-- The list that starts at `head` consists of the cells. -/
structure Holds (h : Heap α) (head : ℕ) (cells : List (ℕ × α)) : Prop extends Stored h cells where
  path : Path h.next head (addrs cells) NULL
  back : Back h.prev ((addrs cells).getLastD NULL) (addrs cells)

namespace Stored

/-- No cells are stored in any heap. -/
theorem nil (h : Heap α) : Stored h [] :=
  ⟨List.nodup_nil, List.not_mem_nil, fun _ hc => absurd hc List.not_mem_nil⟩

/-- The order of the cells does not matter. -/
theorem perm (hs : Stored h cells) (hp : cells'.Perm cells) : Stored h cells' where
  nodup := (hp.map Prod.fst).nodup_iff.mpr hs.nodup
  ne_null hnull := hs.ne_null ((hp.map Prod.fst).mem_iff.mp hnull)
  data c hc := hs.data c (hp.mem_iff.mp hc)

/-- A part of the cells is stored as well. -/
theorem of_append_left (hs : Stored h (cells ++ cells')) : Stored h cells where
  nodup := by
    have hnd := hs.nodup
    rw [addrs, List.map_append] at hnd
    exact hnd.of_append_left
  ne_null hnull := hs.ne_null (by rw [addrs, List.map_append]; exact List.mem_append_left _ hnull)
  data c hc := hs.data c (List.mem_append_left _ hc)

/-- The addresses determine the data. -/
theorem eq_of_addrs (hs : Stored h cells) (hs' : Stored h cells')
    (heq : addrs cells = addrs cells') :
    cells = cells' := by
  apply List.ext_getElem
  · simpa using congrArg List.length heq
  · intro i hi hi'
    have haddr : cells[i].1 = cells'[i].1 := by
      have hget := List.getElem_of_eq heq (by simpa using hi)
      simpa using hget
    refine Prod.ext haddr (Option.some_inj.mp ?_)
    rw [← hs.data _ (List.getElem_mem hi), ← hs'.data _ (List.getElem_mem hi'), haddr]

/-- What is not allocated is not the address of a cell. -/
theorem not_mem (hs : Stored h cells) (hp : h.data p = none) : p ∉ addrs cells := by
  intro hmem
  obtain ⟨c, hc, rfl⟩ := List.mem_map.mp hmem
  exact Option.some_ne_none _ ((hs.data c hc).symm.trans hp)

/-- A new element is one more cell. -/
theorem alloc (hs : Stored h cells) (hp : h.data p = none) (hnull : p ≠ NULL) (a : α) :
    Stored (h.alloc p a) ((p, a) :: cells) where
  nodup := List.nodup_cons.mpr ⟨hs.not_mem hp, hs.nodup⟩
  ne_null hmem := (List.mem_cons.mp hmem).elim (fun heq => hnull heq.symm) hs.ne_null
  data c hc := by
    rcases List.mem_cons.mp hc with rfl | hc
    · exact update_self ..
    · have hne : c.1 ≠ p := ne_of_mem_of_not_mem (List.mem_map_of_mem hc) (hs.not_mem hp)
      exact (update_of_ne hne ..).trans (hs.data c hc)

/-- Cells are stored as long as their data are. -/
theorem congr (hs : Stored h cells) (hd : ∀ c ∈ cells, h'.data c.1 = h.data c.1) :
    Stored h' cells :=
  ⟨hs.nodup, hs.ne_null, fun c hc => (hd c hc).trans (hs.data c hc)⟩

end Stored

namespace Holds

/-- The empty list is held by the null pointer. -/
theorem nil (h : Heap α) : Holds h NULL [] := ⟨Stored.nil h, rfl, trivial⟩

/-- A list without cells starts at the null pointer, and only such a list. -/
theorem head_eq_null_iff (hh : Holds h head cells) : head = NULL ↔ cells = [] := by
  constructor
  · rintro rfl
    by_contra hne
    exact hh.ne_null (hh.path.start_mem (by simpa using hne))
  · rintro rfl
    exact hh.path

/-- The cells of a list are determined by its head. -/
theorem unique (hh : Holds h head cells) (hh' : Holds h head cells') : cells = cells' :=
  hh.eq_of_addrs hh'.toStored (hh.path.unique hh'.path hh.ne_null hh'.ne_null)

/-- A list depends on its own cells only. -/
theorem frame {s : Set ℕ} (hh : Holds h head cells) (hs : h.SameOff h' s)
    (hdisj : ∀ p ∈ addrs cells, p ∉ s) : Holds h' head cells where
  toStored := hh.toStored.congr fun c hc => (hs c.1 (hdisj _ (List.mem_map_of_mem hc))).2.2
  path := hh.path.congr fun p hp => (hs p (hdisj p hp)).1
  back := hh.back.congr fun p hp => (hs p (hdisj p hp)).2.1

end Holds


/-! ## The operations -/

/-- `DL_PREPEND`. -/
def prepend (h : Heap α) (head add : ℕ) : Option (Heap α × ℕ) := do
  let h ← h.setNext add head
  if head ≠ NULL then
    let h ← h.setPrev add (← h.getPrev head)
    let h ← h.setPrev head add
    some (h, add)
  else
    let h ← h.setPrev add add
    some (h, add)

/-- `DL_APPEND`. -/
def append (h : Heap α) (head add : ℕ) : Option (Heap α × ℕ) := do
  if head ≠ NULL then
    let h ← h.setPrev add (← h.getPrev head)
    let h ← h.setNext (← h.getPrev head) add
    let h ← h.setPrev head add
    let h ← h.setNext add NULL
    some (h, head)
  else
    let h ← h.setPrev add add
    let h ← h.setNext add NULL
    some (h, add)

/-- `DL_DELETE`, which asserts that the element is linked. -/
def delete (h : Heap α) (head del : ℕ) : Option (Heap α × ℕ) := do
  let prev ← h.getPrev del
  if prev = NULL then none
  else if prev = del then some (h, NULL)
  else if del = head then
    let h ← h.setPrev (← h.getNext del) prev
    some (h, ← h.getNext del)
  else
    let h ← h.setNext prev (← h.getNext del)
    let next ← h.getNext del
    if next ≠ NULL then
      let h ← h.setPrev next prev
      some (h, head)
    else
      let h ← h.setPrev head prev
      some (h, head)

namespace Holds

/-- An element in front of a list. -/
theorem prepend (hh : Holds h head cells) (hs : Stored h (c :: cells)) :
    ∃ h', Dlist.prepend h head c.1 = some (h', c.1) ∧ Holds h' c.1 (c :: cells) ∧
      h.SameOff h' {p | p ∈ addrs (c :: cells)} := by
  have hc := hs.data c List.mem_cons_self
  have hnd : c.1 ∉ addrs cells := (List.nodup_cons.mp hs.nodup).1
  have hcmem : c.1 ∈ addrs (c :: cells) := List.mem_cons_self
  cases cells with
  | nil =>
    obtain rfl : head = NULL := hh.path
    refine ⟨(h.writeNext c.1 NULL).writePrev c.1 c.1, ?_, ?_, ?_⟩
    · simp [Dlist.prepend, Heap.setNext, Heap.setPrev, hc]
    · exact ⟨hs.congr fun _ _ => rfl, ⟨rfl, update_self ..⟩, update_self .., trivial⟩
    · exact (Heap.sameOff_writeNext hcmem).trans (Heap.sameOff_writePrev hcmem)
  | cons d cells =>
    obtain ⟨rfl, hpath⟩ := hh.path
    have hd := hh.data d List.mem_cons_self
    have hdnull : d.1 ≠ NULL := fun heq => hh.ne_null (heq ▸ List.mem_cons_self)
    have hcd : c.1 ≠ d.1 := fun heq => hnd (heq ▸ List.mem_cons_self)
    have hdnd : d.1 ∉ addrs cells := (List.nodup_cons.mp hh.nodup).1
    have hdmem : d.1 ∈ addrs (c :: d :: cells) := List.mem_cons_of_mem _ List.mem_cons_self
    refine ⟨((h.writeNext c.1 d.1).writePrev c.1 (h.prev d.1)).writePrev d.1 c.1, ?_, ?_, ?_⟩
    · simp [Dlist.prepend, Heap.setNext, Heap.setPrev, Heap.getPrev, hc, hd, hdnull]
    · have hlast : (addrs (c :: d :: cells)).getLastD NULL = h.prev d.1 := by
        rw [hh.back.1]
        simp
      refine ⟨hs.congr fun _ _ => rfl, ⟨rfl, ?_⟩, ?_⟩
      · simp only [Heap.writePrev_next, Heap.writeNext_next, update_self]
        exact hh.path.update hnd _
      · rw [hlast]
        simp only [Heap.writePrev_prev, Heap.writeNext_prev]
        refine ⟨?_, update_self ..,
          (hh.back.2.update (List.not_mem_of_not_mem_cons hnd) _).update hdnd _⟩
        rw [update_of_ne hcd, update_self]
    · exact (Heap.sameOff_writeNext hcmem).trans
        ((Heap.sameOff_writePrev hcmem).trans (Heap.sameOff_writePrev hdmem))

/-- An element at the end of a list. -/
theorem append (hh : Holds h head cells) (hs : Stored h (cells ++ [c])) :
    ∃ h' head', Dlist.append h head c.1 = some (h', head') ∧ Holds h' head' (cells ++ [c]) ∧
      h.SameOff h' {p | p ∈ addrs (cells ++ [c])} := by
  have hc := hs.data c (List.mem_append_right _ List.mem_cons_self)
  have hnd : c.1 ∉ addrs cells := by
    have hnodup := hs.nodup
    rw [addrs, List.map_append, List.nodup_append] at hnodup
    exact fun hmem => hnodup.2.2 _ hmem _ (List.mem_singleton_self _) rfl
  have hcmem : c.1 ∈ addrs (cells ++ [c]) := List.mem_map_of_mem (by simp)
  cases cells with
  | nil =>
    -- the first cell leads back to itself
    obtain rfl : head = NULL := hh.path
    refine ⟨(h.writePrev c.1 c.1).writeNext c.1 NULL, c.1, ?_, ?_, ?_⟩
    · simp [Dlist.append, Heap.setNext, Heap.setPrev, hc]
    · exact ⟨hs.congr fun _ _ => rfl, ⟨rfl, update_self ..⟩, update_self .., trivial⟩
    · exact (Heap.sameOff_writePrev hcmem).trans (Heap.sameOff_writeNext hcmem)
  -- the head leads back to the last cell, behind which the new one is put
  | cons d cells =>
    obtain ⟨rfl, -⟩ := hh.path
    obtain ⟨l, y, heq⟩ : ∃ l y, d :: cells = l ++ [y] :=
      ⟨_, _, (List.dropLast_append_getLast (List.cons_ne_nil d cells)).symm⟩
    have hd := hh.data d List.mem_cons_self
    have hy := hh.data y (heq ▸ List.mem_append_right _ List.mem_cons_self)
    have hdnull : d.1 ≠ NULL := fun heq => hh.ne_null (heq ▸ List.mem_cons_self)
    have hcd : c.1 ≠ d.1 := fun heq => hnd (heq ▸ List.mem_cons_self)
    have hdnd : d.1 ∉ addrs cells := (List.nodup_cons.mp hh.nodup).1
    have hlast : h.prev d.1 = y.1 := by
      have hback := hh.back.1
      rw [heq] at hback
      simpa using hback
    have hmem : ∀ e ∈ d :: cells, e.1 ∈ addrs (d :: cells ++ [c]) := fun e he =>
      List.mem_map_of_mem (List.mem_append_left _ he)
    refine ⟨(((h.writePrev c.1 y.1).writeNext y.1 c.1).writePrev d.1 c.1).writeNext c.1 NULL, d.1,
      ?_, ?_, ?_⟩
    · simp [Dlist.append, Heap.setNext, Heap.setPrev, Heap.getPrev, hc, hd, hy, hdnull,
        hlast, hcd.symm]
    · refine ⟨hs.congr fun _ _ => rfl, ?_, ?_⟩
      · have hpath := hh.path
        have hnodup := hh.nodup
        rw [heq, addrs, List.map_append] at hpath hnodup hnd
        obtain ⟨hinit, -⟩ := Linked.path_concat.mp hpath
        obtain ⟨hcl, hcy⟩ := not_or.mp (List.mem_append.not.mp hnd)
        have hyl : y.1 ∉ addrs l := fun hmem =>
          (List.nodup_append.mp hnodup).2.2 _ hmem _ (List.mem_singleton_self _) rfl
        have hyc : y.1 ≠ c.1 := fun heq => hcy (heq ▸ List.mem_singleton_self _)
        rw [heq, addrs, List.map_append, List.map_append]
        refine Linked.path_concat.mpr
          ⟨Linked.path_concat.mpr ⟨(hinit.update hyl _).update hcl _, ?_⟩, ?_⟩
        · simp [hyc]
        · simp
      · -- the head leads back to the new cell now
        have hgetLast : (addrs (d :: cells)).getLastD c.1 = y.1 := by
          rw [← hlast, hh.back.1, addrs, List.map_cons, List.getLastD_cons, List.getLastD_cons]
        rw [addrs, List.map_append, List.map_singleton, List.getLastD_concat]
        refine Linked.back_append.mpr ⟨⟨update_self .., ?_⟩, ?_, trivial⟩
        · exact (hh.back.2.update (List.not_mem_of_not_mem_cons hnd) _).update hdnd _
        · refine Eq.trans ?_ hgetLast.symm
          simp [hcd]
    · refine (((Heap.sameOff_writePrev hcmem).trans (Heap.sameOff_writeNext ?_)).trans
        (Heap.sameOff_writePrev (hmem d List.mem_cons_self))).trans (Heap.sameOff_writeNext hcmem)
      exact hmem y (heq ▸ List.mem_append_right _ List.mem_cons_self)

/-- An element is taken out of a list. -/
theorem delete {xs ys : List (ℕ × α)} (hh : Holds h head (xs ++ c :: ys)) :
    ∃ h' head', Dlist.delete h head c.1 = some (h', head') ∧ Holds h' head' (xs ++ ys) ∧
      h.SameOff h' {p | p ∈ addrs (xs ++ ys)} := by
  have hc := hh.data c (List.mem_append_right _ List.mem_cons_self)
  have hs : Stored h (c :: (xs ++ ys)) := hh.toStored.perm List.perm_middle.symm
  have hs' : Stored h (xs ++ ys) :=
    ⟨hs.nodup.of_cons, List.not_mem_of_not_mem_cons hs.ne_null,
      fun e he => hs.data e (List.mem_cons_of_mem _ he)⟩
  have hcnull : c.1 ≠ NULL := fun heq => hs.ne_null (heq ▸ List.mem_cons_self)
  have hnd : c.1 ∉ addrs (xs ++ ys) := (List.nodup_cons.mp hs.nodup).1
  have hpath := hh.path
  have hback := hh.back
  rw [addrs, List.map_append, List.map_cons] at hpath hback
  obtain ⟨hpxs, hpys⟩ := Linked.path_append_cons.mp hpath
  obtain ⟨hbxs, hprev, hbys⟩ := Linked.back_append.mp hback
  cases xs with
  | nil =>
    obtain rfl : head = c.1 := hpxs
    cases ys with
    | nil =>
      have hself : h.prev c.1 = c.1 := hprev
      refine ⟨h, NULL, ?_, Holds.nil h, Heap.SameOff.refl _ _⟩
      simp [Dlist.delete, Heap.getPrev, hc, hself, hcnull]
    | cons d ys =>
      have hd := hs'.data d List.mem_cons_self
      have hdmem : d.1 ∈ addrs (d :: ys) := List.mem_cons_self
      have hdnd : d.1 ∉ addrs ys := (List.nodup_cons.mp hs'.nodup).1
      have hlast : h.prev c.1 = (addrs (d :: ys)).getLastD NULL := hprev
      have hlastmem : h.prev c.1 ∈ addrs (d :: ys) := by
        rw [hlast, addrs, List.map_cons, List.getLastD_cons]
        exact List.getLastD_mem_cons ..
      have hnull : h.prev c.1 ≠ NULL := fun heq => hs'.ne_null (heq ▸ hlastmem)
      have hne : h.prev c.1 ≠ c.1 := ne_of_mem_of_not_mem hlastmem hnd
      have hnext : h.next c.1 = d.1 := hpys.1
      refine ⟨h.writePrev d.1 (h.prev c.1), d.1, ?_,
        ⟨hs'.congr fun _ _ => rfl, ⟨rfl, hpys.2⟩, ?_, ?_⟩,
        Heap.sameOff_writePrev hdmem⟩
      · simp [Dlist.delete, Heap.getPrev, Heap.getNext, Heap.setPrev, hc, hd, hnull, hne, hnext]
      · rw [List.nil_append, ← hlast]
        exact update_self ..
      · exact hbys.2.update hdnd _
  | cons d xs =>
    obtain ⟨rfl, -⟩ := id hpxs
    obtain ⟨l, x, heq⟩ : ∃ l x, d :: xs = l ++ [x] :=
      ⟨_, _, (List.dropLast_append_getLast (List.cons_ne_nil d xs)).symm⟩
    have hxmem : x ∈ d :: xs := heq ▸ List.mem_append_right _ List.mem_cons_self
    have hd := hs'.data d List.mem_cons_self
    have hx := hs'.data x (List.mem_append_left _ hxmem)
    have hgetLast (p : ℕ) : (addrs (d :: xs)).getLastD p = x.1 := by
      rw [heq, addrs, List.map_append, List.map_singleton, List.getLastD_concat]
    have hlast : h.prev c.1 = x.1 := by
      rw [hprev, hgetLast]
    have hxaddr : x.1 ∈ addrs (d :: xs ++ ys) := List.mem_map_of_mem (List.mem_append_left _ hxmem)
    have hdaddr : d.1 ∈ addrs (d :: xs ++ ys) := List.mem_cons_self
    have hxnull : x.1 ≠ NULL := fun heq => hs'.ne_null (heq ▸ hxaddr)
    have hxc : x.1 ≠ c.1 := ne_of_mem_of_not_mem hxaddr hnd
    have hcd : c.1 ≠ d.1 := (ne_of_mem_of_not_mem hdaddr hnd).symm
    have hnodup := hs'.nodup
    rw [addrs, List.map_append] at hnodup
    have hdnd : d.1 ∉ addrs xs := (List.nodup_cons.mp hnodup.of_append_left).1
    have hxys : x.1 ∉ addrs ys := fun hmem =>
      (List.nodup_append.mp hnodup).2.2 _ (List.mem_map_of_mem hxmem) _ hmem rfl
    -- the element before `c` is linked to the one after it
    have hpath' : Path (update h.next x.1 (h.next c.1)) d.1 (addrs (d :: xs ++ ys)) NULL := by
      rw [addrs, List.map_append]
      refine Linked.path_append.mpr ⟨h.next c.1, ?_, hpys.update hxys _⟩
      have hnodup' : (List.map Prod.fst (d :: xs)).Nodup := hnodup.of_append_left
      rw [heq, List.map_append, List.map_singleton] at hpxs hnodup' ⊢
      have hxl : x.1 ∉ addrs l := fun hmem =>
        (List.nodup_append.mp hnodup').2.2 _ hmem _ (List.mem_singleton_self _) rfl
      exact Linked.path_concat.mpr ⟨(Linked.path_concat.mp hpxs).1.update hxl _, update_self ..⟩
    cases ys with
    | nil =>
      have hnext : h.next c.1 = NULL := hpys
      refine ⟨(h.writeNext x.1 NULL).writePrev d.1 x.1, d.1, ?_,
        ⟨hs'.congr fun _ _ => rfl, hnext ▸ hpath', ?_⟩,
        (Heap.sameOff_writeNext hxaddr).trans (Heap.sameOff_writePrev hdaddr)⟩
      · simp [Dlist.delete, Heap.getPrev, Heap.getNext, Heap.setNext, Heap.setPrev, hc,
          hd, hx, hlast,
          hxnull, hxc, hcd, hnext, hxc.symm]
      · rw [List.append_nil, hgetLast]
        exact ⟨update_self .., hbxs.2.update hdnd _⟩
    | cons e ys =>
      have hnext : h.next c.1 = e.1 := hpys.1
      have hemem : e ∈ d :: xs ++ e :: ys := List.mem_append_right _ List.mem_cons_self
      have he := hs'.data e hemem
      have headdr : e.1 ∈ addrs (d :: xs ++ e :: ys) := List.mem_map_of_mem hemem
      have henull : e.1 ≠ NULL := fun heq => hs'.ne_null (heq ▸ headdr)
      have hexs : e.1 ∉ addrs (d :: xs) := fun hmem =>
        (List.nodup_append.mp hnodup).2.2 _ hmem _ List.mem_cons_self rfl
      have heys : e.1 ∉ addrs ys := (List.nodup_cons.mp (List.nodup_append.mp hnodup).2.1).1
      refine ⟨(h.writeNext x.1 e.1).writePrev e.1 x.1, d.1, ?_,
        ⟨hs'.congr fun _ _ => rfl, hnext ▸ hpath', ?_⟩,
        (Heap.sameOff_writeNext hxaddr).trans (Heap.sameOff_writePrev headdr)⟩
      · simp [Dlist.delete, Heap.getPrev, Heap.getNext, Heap.setNext, Heap.setPrev, hc,
          he, hx, hlast,
          hxnull, hxc, hcd, hnext, hxc.symm, henull]
      · have hend : (addrs (d :: xs ++ e :: ys)).getLastD NULL =
            (List.map Prod.fst (d :: xs) ++ c.1 :: List.map Prod.fst (e :: ys)).getLastD NULL := by
          simp [List.getLast?_cons, List.getLast?_append]
        rw [hend, addrs, List.map_append]
        exact Linked.back_append.mpr
          ⟨hbxs.update hexs _, (update_self ..).trans (hgetLast _).symm, hbys.2.update heys _⟩

end Holds

/-- `DL_SEARCH` from an element on, in at most `n` rounds: the first element that the test accepts,
or the null pointer. -/
def search (h : Heap α) (test : α → Bool) : ℕ → ℕ → Option ℕ
  | 0, _ => none
  | n + 1, p =>
    if p = NULL then some NULL
    else (h.data p).bind fun a => if test a then some p else search h test n (h.next p)

/-- A search ends at the first cell that the test accepts. -/
theorem Holds.search (hh : Holds h head cells) (test : α → Bool) {n : ℕ} (hn : cells.length < n) :
    Dlist.search h test n head =
        some (((cells.find? fun c => test c.2).map Prod.fst).getD NULL) := by
  obtain ⟨⟨hnd, hnull, hdata⟩, hpath, -⟩ := hh
  clear hnd
  induction cells generalizing head n with
  | nil =>
    obtain rfl : head = NULL := hpath
    cases n with
    | zero => exact absurd hn (Nat.lt_irrefl 0)
    | succ n => rfl
  | cons c cells ih =>
    obtain ⟨rfl, hpath⟩ := hpath
    cases n with
    | zero => exact absurd hn (Nat.not_lt_zero _)
    | succ n =>
      have hc : c.1 ≠ NULL := fun heq => hnull (heq ▸ List.mem_cons_self)
      have hstep : Dlist.search h test (n + 1) c.1 =
          if test c.2 then some c.1 else Dlist.search h test n (h.next c.1) := by
        simp only [Dlist.search, if_neg hc, hdata c List.mem_cons_self, Option.bind_some]
      rw [hstep, List.find?_cons]
      by_cases ht : test c.2 = true
      · simp [ht]
      · rw [if_neg ht, Bool.eq_false_iff.mpr ht]
        exact ih (Nat.lt_of_succ_lt_succ hn) hpath (List.not_mem_of_not_mem_cons hnull)
          fun d hd => hdata d (List.mem_cons_of_mem _ hd)

end Dlist
