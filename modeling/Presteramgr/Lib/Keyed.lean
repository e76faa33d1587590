import Mathlib.Algebra.Order.Group.Multiset
import Mathlib.Data.List.Nodup

/-!
# Tables of keyed entries

A hash table seen from outside: a list of entries, each with a key. An entry is found by its key,
put in, taken out, or changed in place. Where no two entries have the same key, the table is a
partial function from keys to entries, and the lemmas describe the operations by it.

## Main definitions

* `find`, `del` and `modify`; putting an entry in is `List.cons`, or `put` where it takes the place
  of the one with its key;
* `Unique`: no two entries have the same key.

## Main results

* `Unique.find_eq_some_iff` and `find_eq_none_iff`: what `find` returns;
* `Unique.mem_del_iff`, `mem_modify_iff` and `Unique.mem_put_iff`: the entries after `del`, `modify`
  and `put`.
-/

namespace Keyed

variable {α κ : Type*} [DecidableEq κ]

/-- The entry with the key `k`. -/
def find (key : α → κ) (t : List α) (k : κ) : Option α := t.find? fun x => key x = k

/-- The table without the entry with the key `k`. -/
def del (key : α → κ) (t : List α) (k : κ) : List α := t.eraseP fun x => key x = k

/-- The table with the entry of key `k` changed in place. -/
def modify (key : α → κ) (t : List α) (k : κ) (f : α → α) : List α :=
  t.map fun x => if key x = k then f x else x

/-- The list with the first entry that satisfies `p` changed. -/
def modifyFirst (p : α → Bool) (f : α → α) : List α → List α
  | [] => []
  | x :: t => if p x then f x :: t else x :: modifyFirst p f t

/-- The list with `x` in place of the first entry of its key, or at the end. -/
def put (key : α → κ) (t : List α) (x : α) : List α :=
  if (find key t (key x)).isSome then modifyFirst (fun y => key y = key x) (fun _ => x) t
  else t ++ [x]

/-- No two entries have the same key. -/
def Unique (key : α → κ) (t : List α) : Prop := (t.map key).Nodup

variable {key : α → κ} {t : List α} {k k' : κ} {f : α → α} {x y : α}

/-- An element that is found is in the table. -/
theorem mem_of_find (hf : find key t k = some x) : x ∈ t := List.mem_of_find?_eq_some hf

/-- An element that is found has the key. -/
theorem key_of_find (hf : find key t k = some x) : key x = k := by
  simpa using List.find?_some hf

/-- A search looks at the first element first. -/
theorem find_cons : find key (x :: t) k = if key x = k then some x else find key t k := by
  unfold find
  rw [List.find?_cons]
  by_cases hx : key x = k
  · rw [if_pos hx, decide_eq_true hx]
  · rw [if_neg hx, decide_eq_false hx]

/-- Nothing is found when no element has the key. -/
theorem find_eq_none_iff : find key t k = none ↔ ∀ x ∈ t, key x ≠ k := by
  simp [find, List.find?_eq_none]

/-- Something is found when some element has the key. -/
theorem find_isSome_iff : (find key t k).isSome ↔ ∃ x ∈ t, key x = k := by
  simp [find, List.find?_isSome]

/-- What is left after a deletion was there before. -/
theorem mem_of_mem_del (hx : x ∈ del key t k) : x ∈ t := List.mem_of_mem_eraseP hx

/-- A deletion leaves the elements of other keys. -/
theorem mem_del_of_ne (hx : x ∈ t) (hk : key x ≠ k) : x ∈ del key t k :=
  (List.mem_eraseP_of_neg (by simpa using hk)).mpr hx

/-- A deletion does not change what is found under other keys. -/
theorem find_del_of_ne (hk : k' ≠ k) : find key (del key t k) k' = find key t k' := by
  induction t with
  | nil => rfl
  | cons x t ih =>
    unfold find del at *
    by_cases hx : key x = k
    · have hx' : key x ≠ k' := fun h => hk (h.symm.trans hx)
      simp [hx, hk.symm]
    · simp [hx, List.find?_cons, ih]

/-- Deleting by another key that picks the same entry. -/
theorem del_congr {κ' : Type*} [DecidableEq κ'] {key' : α → κ'} {k' : κ'}
    (h : ∀ x ∈ t, key x = k ↔ key' x = k') : del key t k = del key' t k' := by
  induction t with
  | nil => rfl
  | cons x t ih =>
    have hx := h x List.mem_cons_self
    have ih := ih fun y hy => h y (List.mem_cons_of_mem _ hy)
    unfold del at *
    rw [List.eraseP_cons, List.eraseP_cons, decide_eq_decide.mpr hx, ih]

/-- A table is the entry found and the rest. -/
theorem perm_cons_del (hf : find key t k = some x) : t.Perm (x :: del key t k) := by
  induction t with
  | nil => simp [find] at hf
  | cons y t ih =>
    unfold find del at *
    by_cases hy : key y = k
    · obtain rfl : y = x := by simpa [hy] using hf
      simp [hy]
    · simp only [List.find?_cons, hy, decide_false] at hf
      simp only [List.eraseP_cons, hy, decide_false]
      exact ((ih hf).cons y).trans (List.Perm.swap x y _)

omit [DecidableEq κ] in
/-- The empty table has no key twice. -/
@[simp]
theorem unique_nil : Unique key [] := List.nodup_nil

omit [DecidableEq κ] in
/-- A table has no key twice when its first element has a key of its own. -/
theorem unique_cons : Unique key (x :: t) ↔ (∀ y ∈ t, key y ≠ key x) ∧ Unique key t := by
  simp [Unique]

namespace Unique

variable (hu : Unique key t)

include hu

omit [DecidableEq κ] in
/-- Elements with the same key are the same. -/
theorem eq_of_mem (hx : x ∈ t) (hy : y ∈ t) (hk : key x = key y) : x = y :=
  List.inj_on_of_nodup_map hu hx hy hk

/-- An element is found when it is in the table and has the key. -/
theorem find_eq_some_iff : find key t k = some x ↔ x ∈ t ∧ key x = k := by
  constructor
  · exact fun hf => ⟨mem_of_find hf, key_of_find hf⟩
  · rintro ⟨hx, rfl⟩
    have hsome : (find key t (key x)).isSome := find_isSome_iff.mpr ⟨x, hx, rfl⟩
    obtain ⟨y, hy⟩ := Option.isSome_iff_exists.mp hsome
    rw [hy, hu.eq_of_mem (mem_of_find hy) hx (key_of_find hy)]

/-- A deletion takes away the elements of one key. -/
theorem mem_del_iff : x ∈ del key t k ↔ x ∈ t ∧ key x ≠ k := by
  refine ⟨fun hx => ⟨mem_of_mem_del hx, ?_⟩, fun hx => mem_del_of_ne hx.1 hx.2⟩
  rintro rfl
  -- the first entry with the key is the only one, and it is gone
  obtain ⟨a, l₁, l₂, -, ha, rfl, heq⟩ :=
    List.exists_of_eraseP (p := fun y => key y = key x) (mem_of_mem_del hx) (by simp)
  rw [del, heq] at hx
  have hax : key a = key x := by simpa using ha
  have hnd : (key a :: (l₁ ++ l₂).map key).Nodup := by
    have := hu
    simp only [Unique, List.map_append, List.map_cons] at this
    simpa [List.map_append] using List.nodup_middle.mp this
  rw [hax] at hnd
  exact (List.nodup_cons.mp hnd).1 (List.mem_map_of_mem hx)

/-- A deletion makes no key double. -/
theorem del : Unique key (Keyed.del key t k) :=
  hu.sublist (List.Sublist.map key List.eraseP_sublist)

omit [DecidableEq κ] in
/-- An element with a new key may be put in front. -/
theorem cons (hx : ∀ y ∈ t, key y ≠ key x) : Unique key (x :: t) := unique_cons.mpr ⟨hx, hu⟩

omit [DecidableEq κ] in
/-- An element with a new key may be put behind. -/
theorem snoc (hx : ∀ y ∈ t, key y ≠ key x) : Unique key (t ++ [x]) := by
  rw [Unique, List.map_append, List.map_singleton]
  refine List.nodup_append.mpr ⟨hu, List.nodup_singleton _, fun k hk k' hk' => ?_⟩
  obtain ⟨y, hy, rfl⟩ := List.mem_map.mp hk
  exact List.mem_singleton.mp hk' ▸ hx y hy

end Unique

/-- A change in place keeps what it keeps of the entry. -/
theorem map_modify {β : Type*} (g : α → β) (hf : ∀ x, g (f x) = g x) :
    (modify key t k f).map g = t.map g := by
  rw [modify, List.map_map]
  refine List.map_congr_left fun x _ => ?_
  rw [Function.comp_apply]
  split_ifs
  · exact hf x
  · rfl

/-- A change that a function does not see does not change what it gives. -/
theorem filterMap_modify {β : Type*} (g : α → Option β) (hf : ∀ x, g (f x) = g x) :
    (modify key t k f).filterMap g = t.filterMap g := by
  have hmap : (modify key t k f).map g = t.map g := map_modify g hf
  simpa only [List.filterMap_map, Function.id_comp] using congrArg (List.filterMap id) hmap

/-- What the entries contribute after a change in place, counted otherwise. -/
theorem filterMap_modify_eq {β : Type*} {g g' : α → Option β}
    (hself : ∀ x ∈ t, key x = k → g' (f x) = g x) (hother : ∀ x ∈ t, key x ≠ k → g' x = g x) :
    (modify key t k f).filterMap g' = t.filterMap g := by
  rw [modify, List.filterMap_map]
  refine List.filterMap_congr fun x hx => ?_
  rw [Function.comp_apply]
  split_ifs with hk
  · exact hself x hx hk
  · exact hother x hx hk

/-- An entry that contributes nothing can be deleted. -/
theorem filterMap_del {β : Type*} {g : α → Option β} (hf : find key t k = some x)
    (hx : g x = none) : (del key t k).filterMap g = t.filterMap g := by
  induction t with
  | nil => rfl
  | cons y t ih =>
    rw [find_cons] at hf
    unfold del at *
    by_cases hy : key y = k
    · rw [if_pos hy] at hf
      obtain rfl := Option.some_inj.mp hf
      rw [List.eraseP_cons_of_pos (by simpa using hy), List.filterMap_cons_none hx]
    · rw [if_neg hy] at hf
      rw [List.eraseP_cons_of_neg (by simpa using hy), List.filterMap_cons, List.filterMap_cons,
        ih hf]

/-- A change keeps the number of elements. -/
theorem length_modify : (modify key t k f).length = t.length := List.length_map ..

/-- A deletion of an element that is found takes one away. -/
theorem length_del (hf : find key t k = some x) : (del key t k).length + 1 = t.length :=
  (perm_cons_del hf).length_eq.symm

/-- Two changes of one element are one. -/
theorem modify_modify {g : α → α} (hf : ∀ x, key (f x) = key x) :
    modify key (modify key t k f) k g = modify key t k (g ∘ f) := by
  rw [modify, modify, modify, List.map_map]
  refine List.map_congr_left fun x _ => ?_
  by_cases hx : key x = k
  · simp [hx, hf]
  · simp [hx]

/-- An entry is deleted as well after a change in place. -/
theorem del_modify (hf : ∀ x, key (f x) = key x) : del key (modify key t k f) k =
    modify key (del key t k) k f := by
  induction t with
  | nil => rfl
  | cons x t ih =>
    unfold del modify at *
    by_cases hx : key x = k
    · simp [hx, hf]
    · simp [hx, ih]

/-- A change under a key that is missing does nothing. -/
theorem modify_of_forall_ne (hne : ∀ x ∈ t, key x ≠ k) : modify key t k f = t :=
  (List.map_congr_left fun x hx => if_neg (hne x hx)).trans (List.map_id' t)

/-- A change in place that leaves the entry as it is. -/
theorem Unique.modify_self (hu : Unique key t) (hx : x ∈ t) (hf : f x = x) :
    Keyed.modify key t (key x) f = t := by
  refine (List.map_congr_left fun y hy => ?_).trans (List.map_id' t)
  split_ifs with hk
  · rw [hu.eq_of_mem hy hx hk, hf]
  · rfl

/-- Deleting an entry undoes what was changed in it. -/
theorem Unique.del_modify (hu : Unique key t) (hf : ∀ x, key (f x) = key x) :
    Keyed.del key (Keyed.modify key t k f) k = Keyed.del key t k := by
  rw [Keyed.del_modify hf]
  exact modify_of_forall_ne fun x hx => (hu.mem_del_iff.mp hx).2

/-- A change that keeps the keys makes none double. -/
theorem Unique.modify (hu : Unique key t) (hf : ∀ x, key (f x) = key x) :
    Unique key (Keyed.modify key t k f) := by
  rw [Unique, map_modify key hf]
  exact hu

/-- A table after a change in place is the changed entry and the rest. -/
theorem Unique.perm_modify (hu : Unique key t) (hf : find key t k = some x) :
    (Keyed.modify key t k f).Perm (f x :: Keyed.del key t k) := by
  have hx : key x = k := key_of_find hf
  have hperm := (perm_cons_del hf).map fun y => if key y = k then f y else y
  rw [List.map_cons, if_pos hx] at hperm
  exact hperm.trans (.cons _ (.of_eq
    (modify_of_forall_ne fun y hy => (hu.mem_del_iff.mp hy).2)))

/-- What the entries contribute is what the entry found contributes and the rest. -/
theorem coe_filterMap_of_find {β : Type*} (g : α → Option β) (hf : find key t k = some x) :
    (t.filterMap g : Multiset β) = (g x).toList + ((del key t k).filterMap g : List β) := by
  rw [Multiset.coe_eq_coe.mpr ((perm_cons_del hf).filterMap g)]
  cases hx : g x <;> simp [hx]

/-- What the entries contribute after a change in place. -/
theorem Unique.coe_filterMap_modify {β : Type*} (hu : Unique key t) (g : α → Option β)
    (hf : find key t k = some x) :
    ((Keyed.modify key t k f).filterMap g : Multiset β) =
      (g (f x)).toList + ((Keyed.del key t k).filterMap g : List β) := by
  rw [Multiset.coe_eq_coe.mpr ((hu.perm_modify (f := f) hf).filterMap g)]
  cases hx : g (f x) <;> simp [hx]

/-- The elements after a change are the changed one and the others. -/
theorem mem_modify_iff :
    y ∈ modify key t k f ↔ (∃ x ∈ t, key x = k ∧ f x = y) ∨ y ∈ t ∧ key y ≠ k := by
  simp only [modify, List.mem_map]
  constructor
  · rintro ⟨x, hx, rfl⟩
    split_ifs with hk
    · exact .inl ⟨x, hx, hk, rfl⟩
    · exact .inr ⟨hx, hk⟩
  · rintro (⟨x, hx, hk, rfl⟩ | ⟨hy, hk⟩)
    · exact ⟨x, hx, if_pos hk⟩
    · exact ⟨y, hy, if_neg hk⟩

/-- With unique keys a change in place changes one entry. -/
theorem Unique.mem_modify_self_iff (hu : Unique key t) (hx : x ∈ t) :
    y ∈ Keyed.modify key t (key x) f ↔ y = f x ∨ y ∈ t ∧ key y ≠ key x := by
  rw [Keyed.mem_modify_iff]
  refine or_congr_left ⟨?_, fun hy => ⟨x, hx, rfl, hy.symm⟩⟩
  rintro ⟨z, hz, hk, rfl⟩
  rw [hu.eq_of_mem hz hx hk]

/-- Of the entries with some property, one is a given entry or none has its key. -/
theorem Unique.exists_mem_iff {p : α → Prop} (hu : Unique key t) (hx : x ∈ t) :
    (∃ y ∈ t, p y) ↔ p x ∨ ∃ y ∈ t, key y ≠ key x ∧ p y := by
  constructor
  · rintro ⟨y, hy, hp⟩
    by_cases hk : key y = key x
    · rw [hu.eq_of_mem hy hx hk] at hp
      exact .inl hp
    · exact .inr ⟨y, hy, hk, hp⟩
  · rintro (hp | ⟨y, hy, -, hp⟩)
    · exact ⟨x, hx, hp⟩
    · exact ⟨y, hy, hp⟩

/-- Some element after a change passes when the changed one or another one does. -/
theorem Unique.exists_mem_modify_iff {p : α → Prop} (hu : Unique key t) (hx : x ∈ t) :
    (∃ y ∈ Keyed.modify key t (key x) f, p y) ↔ p (f x) ∨ ∃ y ∈ t, key y ≠ key x ∧ p y := by
  simp only [hu.mem_modify_self_iff hx, or_and_right, exists_or, exists_eq_left, and_assoc]

/-- Some element after a deletion passes when one with another key does. -/
theorem Unique.exists_mem_del_iff {p : α → Prop} (hu : Unique key t) :
    (∃ y ∈ Keyed.del key t k, p y) ↔ ∃ y ∈ t, key y ≠ k ∧ p y := by
  simp only [hu.mem_del_iff, and_assoc]

/-- With unique keys the first entry of the key is the only one. -/
theorem Unique.modifyFirst_eq (hu : Unique key t) :
    modifyFirst (fun x => key x = k) f t = Keyed.modify key t k f := by
  induction t with
  | nil => rfl
  | cons x t ih =>
    obtain ⟨hne, hu⟩ := unique_cons.mp hu
    unfold modifyFirst
    by_cases hx : key x = k
    · subst hx
      have hrest : Keyed.modify key t (key x) f = t := modify_of_forall_ne hne
      simp only [decide_true, if_true, Keyed.modify, List.map_cons]
      exact congrArg _ hrest.symm
    · simp only [hx, decide_false, Bool.false_eq_true, if_false, Keyed.modify, List.map_cons]
      exact congrArg _ (ih hu)

/-- Where no element passes nothing is changed. -/
theorem modifyFirst_of_forall_not {p : α → Bool} (hno : ∀ x ∈ t, p x = false) :
    modifyFirst p f t = t := by
  induction t with
  | nil => rfl
  | cons x t ih =>
    rw [modifyFirst, hno x List.mem_cons_self, if_neg Bool.false_ne_true,
      ih fun y hy => hno y (List.mem_cons_of_mem _ hy)]

/-- The first entry that satisfies `p` is the one with its key. -/
theorem Unique.modifyFirst_of_find {p : α → Bool} (hu : Unique key t) (hf : t.find? p = some x) :
    modifyFirst p f t = Keyed.modify key t (key x) f := by
  induction t with
  | nil => simp at hf
  | cons y t ih =>
    obtain ⟨hne, hu⟩ := unique_cons.mp hu
    rw [modifyFirst]
    by_cases hy : p y = true
    · obtain rfl : y = x := by simpa [hy] using hf
      have hrest : Keyed.modify key t (key y) f = t := modify_of_forall_ne hne
      rw [if_pos hy, Keyed.modify, List.map_cons, if_pos rfl]
      exact congrArg _ hrest.symm
    · have hf : t.find? p = some x := by simpa [hy] using hf
      have hyx : key y ≠ key x := (hne x (List.mem_of_find?_eq_some hf)).symm
      rw [if_neg hy, Keyed.modify, List.map_cons, if_neg hyx]
      exact congrArg _ (ih hu hf)

/-- A change that a function does not see does not change what it gives. -/
theorem map_modifyFirst {β : Type*} (g : α → β) (p : α → Bool) (hf : ∀ x, g (f x) = g x) :
    (modifyFirst p f t).map g = t.map g := by
  induction t with
  | nil => rfl
  | cons x t ih =>
    unfold modifyFirst
    split_ifs
    · simp [hf]
    · simp [ih]

/-- What is found after a change is what was found, changed when it has the key. -/
theorem find_modify (hf : ∀ x, key (f x) = key x) :
    find key (modify key t k f) k' = (find key t k').map fun x => if key x = k then f x else x := by
  unfold find modify
  rw [List.find?_map]
  congr 1
  congr 1
  funext x
  simp only [Function.comp_apply]
  split_ifs with hk
  · rw [hf]
  · rfl

/-- With unique keys, what `put` leaves is the entry put and the entries of other keys. -/
theorem Unique.mem_put_iff (hu : Unique key t) :
    y ∈ put key t x ↔ y = x ∨ y ∈ t ∧ key y ≠ key x := by
  unfold put
  by_cases hx : (find key t (key x)).isSome
  · rw [if_pos hx, hu.modifyFirst_eq, mem_modify_iff]
    obtain ⟨z, hz, hzx⟩ := find_isSome_iff.mp hx
    constructor
    · rintro (⟨_, _, _, rfl⟩ | h)
      · exact .inl rfl
      · exact .inr h
    · rintro (rfl | h)
      · exact .inl ⟨z, hz, hzx, rfl⟩
      · exact .inr h
  · have hne : ∀ y ∈ t, key y ≠ key x :=
      find_eq_none_iff.mp (Option.not_isSome_iff_eq_none.mp hx)
    rw [if_neg hx, List.mem_append, List.mem_singleton]
    constructor
    · rintro (h | rfl)
      · exact .inr ⟨h, hne y h⟩
      · exact .inl rfl
    · rintro (rfl | h)
      · exact .inr rfl
      · exact .inl h.1

/-- An entry of the key is replaced where it stands. -/
theorem put_of_findIdx {i : ℕ} (hf : t.findIdx? (fun y => key y = key x) = some i) :
    put key t x = t.set i x := by
  have hfirst : ∀ {t : List α} {i : ℕ}, t.findIdx? (fun y => key y = key x) = some i →
      modifyFirst (fun y => key y = key x) (fun _ => x) t = t.set i x := by
    intro t
    induction t with
    | nil => exact fun hf => absurd hf (Option.some_ne_none _).symm
    | cons y t ih =>
      intro i hf
      rw [List.findIdx?_cons] at hf
      rw [modifyFirst]
      by_cases hy : key y = key x
      · rw [if_pos (by simpa using hy)] at hf ⊢
        rw [← Option.some_inj.mp hf, List.set_cons_zero]
      · rw [if_neg (by simpa using hy)] at hf ⊢
        obtain ⟨j, hj, rfl⟩ := Option.map_eq_some_iff.mp hf
        rw [ih hj, List.set_cons_succ]
  have hsome : (find key t (key x)).isSome := by
    obtain ⟨hi, hp, -⟩ := List.findIdx?_eq_some_iff_getElem.mp hf
    exact find_isSome_iff.mpr ⟨t[i], List.getElem_mem hi, by simpa using hp⟩
  unfold put
  rw [if_pos hsome, hfirst hf]

/-- An element with a new key is put behind. -/
theorem put_of_findIdx_none (hf : t.findIdx? (fun y => key y = key x) = none) :
    put key t x = t ++ [x] := by
  refine if_neg fun hsome => ?_
  obtain ⟨y, hy, hk⟩ := find_isSome_iff.mp hsome
  have hno := List.findIdx?_eq_none_iff.mp hf y hy
  exact absurd hk (by simpa using hno)

/-- Putting an element takes none away. -/
theorem length_le_put : t.length ≤ (put key t x).length := by
  cases hf : t.findIdx? (fun y => key y = key x) with
  | some i => rw [put_of_findIdx hf, List.length_set]
  | none =>
    rw [put_of_findIdx_none hf, List.length_append]
    exact Nat.le_add_right ..

/-- Putting an element makes no key double. -/
theorem Unique.put (hu : Unique key t) : Unique key (Keyed.put key t x) := by
  unfold Keyed.put
  by_cases hx : (find key t (key x)).isSome
  · -- an entry of the key is replaced by one of the same key
    have hmap : (Keyed.modify key t (key x) fun _ => x).map key = t.map key := by
      rw [Keyed.modify, List.map_map]
      refine List.map_congr_left fun y _ => ?_
      rw [Function.comp_apply]
      split_ifs with hy
      · exact hy.symm
      · rfl
    rw [if_pos hx, hu.modifyFirst_eq, Unique, hmap]
    exact hu
  · have hne : ∀ y ∈ t, key y ≠ key x :=
      find_eq_none_iff.mp (Option.not_isSome_iff_eq_none.mp hx)
    rw [if_neg hx]
    unfold Unique
    rw [List.map_append, List.map_singleton, List.nodup_append]
    refine ⟨hu, List.nodup_singleton _, ?_⟩
    intro k hk k' hk' heq
    obtain ⟨y, hy, rfl⟩ := List.mem_map.mp hk
    exact hne y hy (heq.trans (List.mem_singleton.mp hk'))

/-- In a list sorted by key, the entries of a key follow those of lower keys. -/
theorem getElem?_of_sorted {ρ : Type*} [LinearOrder ρ] {rank : α → ρ}
    (hs : t.Pairwise fun x y => rank x ≤ rank y) {c : ρ} {i : ℕ}
    (hi : i < t.countP fun x => rank x = c) :
    t[(t.countP fun x => rank x < c) + i]? = (t.filter fun x => rank x = c)[i]? := by
  induction t generalizing i with
  | nil => exact absurd hi (Nat.not_lt_zero i)
  | cons x t ih =>
    obtain ⟨hx, hs⟩ := List.pairwise_cons.mp hs
    rcases lt_trichotomy (rank x) c with hlt | heq | hgt
    · have hi' : i < t.countP fun x => rank x = c := by
        rwa [List.countP_cons_of_neg (by simpa using hlt.ne)] at hi
      rw [List.countP_cons_of_pos (by simpa using hlt), Nat.add_right_comm,
        List.getElem?_cons_succ, List.filter_cons_of_neg (by simpa using hlt.ne), ih hs hi']
    · -- the entries of the key have begun
      have hzero : (t.countP fun x => rank x < c) = 0 :=
        List.countP_eq_zero.mpr fun y hy => by
          simpa using heq ▸ hx y hy
      rw [List.countP_cons_of_neg (by simpa using heq.ge), hzero, Nat.zero_add,
        List.filter_cons_of_pos (by simpa using heq)]
      cases i with
      | zero => rfl
      | succ j =>
        rw [List.countP_cons_of_pos (by simpa using heq)] at hi
        have hrest := ih hs (Nat.lt_of_succ_lt_succ hi)
        rw [hzero, Nat.zero_add] at hrest
        rw [List.getElem?_cons_succ, List.getElem?_cons_succ, hrest]
    · -- no entry is left of a key below the first one
      have hnone : ((x :: t).countP fun x => rank x = c) = 0 :=
        List.countP_eq_zero.mpr fun y hy => by
          have hxy : rank x ≤ rank y := by
            rcases List.mem_cons.mp hy with rfl | hy
            · exact le_rfl
            · exact hx y hy
          simpa using (hgt.trans_le hxy).ne'
      rw [hnone] at hi
      exact absurd hi (Nat.not_lt_zero i)

/-- The entry found before a change in place is found changed. -/
theorem find_modify_self (hkey : ∀ x, key (f x) = key x) (hf : find key t k = some x) :
    find key (modify key t k f) k = some (f x) := by
  rw [find_modify hkey, hf, Option.map_some, if_pos (key_of_find hf)]

/-! ### Tables that only grow at the end -/

/-- A search goes through a map that keeps the keys. -/
theorem find_map {β : Type*} {key' : β → κ} (g : α → β) (hkey : ∀ x, key' (g x) = key x) :
    find key' (t.map g) k = (find key t k).map g := by
  unfold find
  rw [List.find?_map]
  refine congrArg (Option.map g) (congrArg (t.find? ·) (funext fun x => ?_))
  simp only [Function.comp_apply, hkey]

/-- A change in place of a projected table. -/
theorem modify_map {β : Type*} {key' : β → κ} {f' : β → β} (g : α → β)
    (hkey : ∀ x, key' (g x) = key x) (hf : ∀ x, g (f x) = f' (g x)) :
    (modify key t k f).map g = modify key' (t.map g) k f' := by
  rw [modify, modify, List.map_map, List.map_map]
  refine List.map_congr_left fun x _ => ?_
  rw [Function.comp_apply, Function.comp_apply, hkey]
  split_ifs
  · exact hf x
  · rfl

/-- Deleting from a projected table. -/
theorem del_map {β : Type*} {key' : β → κ} (g : α → β) (hkey : ∀ x, key' (g x) = key x) :
    (del key t k).map g = del key' (t.map g) k := by
  induction t with
  | nil => rfl
  | cons x t ih =>
    unfold del at *
    by_cases hx : key x = k
    · simp [hx, hkey]
    · rw [List.eraseP_cons_of_neg (by simpa using hx), List.map_cons, List.map_cons,
        List.eraseP_cons_of_neg (by simpa [hkey] using hx), ih]

/-- A search looks at the last element last. -/
theorem find_snoc : find key (t ++ [x]) k =
    (find key t k).or (if key x = k then some x else none) := by
  unfold find
  rw [List.find?_append, List.find?_singleton]
  simp only [decide_eq_true_eq]

/-- The keys after a deletion are the keys without that one. -/
theorem map_del : (del key t k).map key = (t.map key).erase k := by
  induction t with
  | nil => rfl
  | cons x t ih =>
    unfold del at *
    by_cases hx : key x = k
    · simp [hx]
    · rw [List.eraseP_cons_of_neg (by simpa using hx), List.map_cons, List.map_cons,
        List.erase_cons_tail (by simpa using hx), ih]

/-- Filtering out the key of one element of a table of different keys takes away this element. -/
theorem Unique.filter_ne {t' : List α} (hu : Unique key (t ++ x :: t')) :
    ((t ++ x :: t').filter fun y => key y ≠ key x) = t ++ t' := by
  unfold Unique at hu
  rw [List.map_append, List.map_cons, List.nodup_append, List.nodup_cons] at hu
  obtain ⟨-, ⟨hx, -⟩, hdisj⟩ := hu
  rw [List.filter_append, List.filter_cons_of_neg (by simp), List.filter_eq_self.mpr,
    List.filter_eq_self.mpr]
  · intro y hy
    exact decide_eq_true fun h => hx (h ▸ List.mem_map_of_mem hy)
  · intro y hy
    exact decide_eq_true (hdisj _ (List.mem_map_of_mem hy) _ List.mem_cons_self)

end Keyed
