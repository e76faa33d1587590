import Presteramgr.Acl.Dstack
import Presteramgr.Lib.Lockstep

/-!
# Stacks in one heap

All stacks of the program lie in one heap, and the elements that one stack frees may be those that
another one gets next. Each of them still is what its users take it for: a list with the top first.

## Main definitions

* `Dstacks.step`: the calls on stacks that have names;
* `DstackCall.Ok`: what their callers and `malloc` see to;
* `DstackCall.Ordered`: what is sorted can be ordered;
* `stackStep`: the calls on lists.

## Main results

* `dstacks_refine`: in every run of calls, the stacks in the heap answer as the lists do.
-/

namespace Presteramgr

open Dlist (Heap NULL addrs Stored cellLe Orders)
open Function (update update_self update_of_ne)

variable {ι : Type} [DecidableEq ι]

/-- The calls on stacks, with the addresses that `malloc` returns in them. -/
inductive DstackCall (ι : Type)
  | init (k : ι)
  | push (k : ι) (data : Bytes) (item : ℕ)
  | pushBack (k : ι) (data : Bytes) (item : ℕ)
  | pop (k : ι)
  | sort (k : ι)
  | revSort (k : ι)
  | sort2 (k : ι) (cmp : Bytes → Bytes → ℤ)
  | revSort2 (k : ι) (cmp : Bytes → Bytes → ℤ)
  | copy (dst src : ι) (items : List ℕ)
  | free (k : ι)

/-- The heap and the stacks that lie in it. -/
structure Dstacks (ι : Type) where
  heap : Heap Bytes
  stack : ι → Option Dstack

namespace Dstacks

variable (m : Dstacks ι)

/-- The heap and one stack after a call. -/
def set (k : ι) (r : Heap Bytes × Dstack) : Dstacks ι := ⟨r.1, update m.stack k (some r.2)⟩

/-- A call, with the data that it hands out. -/
def step (m : Dstacks ι) : DstackCall ι → Option (Option Bytes × Dstacks ι)
  | .init k => some (none, m.set k (m.heap, dstackInit))
  | .push k data item => do
    some (none, m.set k (← dstackPush m.heap (← m.stack k) data item))
  | .pushBack k data item => do
    some (none, m.set k (← dstackPushBack m.heap (← m.stack k) data item))
  | .pop k => do
    let (data, r) ← dstackPop m.heap (← m.stack k)
    some (data, m.set k r)
  | .sort k => do some (none, m.set k (← dstackSort m.heap (← m.stack k)))
  | .revSort k => do some (none, m.set k (← dstackRevSort m.heap (← m.stack k)))
  | .sort2 k cmp => do some (none, m.set k (← dstackSort2 cmp m.heap (← m.stack k)))
  | .revSort2 k cmp => do some (none, m.set k (← dstackRevSort2 cmp m.heap (← m.stack k)))
  | .copy dst src items => do
    some (none, m.set dst (← dstackCopy m.heap (← m.stack dst) (← m.stack src) items))
  | .free k => do
    some (none, ⟨← dstackFree m.heap (← m.stack k), update m.stack k none⟩)

/-- Nothing is allocated and no stack is initialised. -/
def start : Dstacks ι := ⟨⟨fun _ => NULL, fun _ => NULL, fun _ => none⟩, fun _ => none⟩

/-- The memory at these addresses is free, also after an element of the stack is freed. -/
def Fresh (s : Option Dstack) (items : List ℕ) : Prop :=
  items.Nodup ∧ ∀ item ∈ items, item ≠ NULL ∧
    ∀ h ∈ s.elim (some m.heap) (dstackFree m.heap), h.data item = none

instance (s : Option Dstack) (items : List ℕ) : Decidable (m.Fresh s items) :=
  inferInstanceAs (Decidable (items.Nodup ∧ ∀ item ∈ items, item ≠ NULL ∧
    ∀ h ∈ s.elim (some m.heap) (dstackFree m.heap), h.data item = none))

end Dstacks

/-- Callers initialise a stack once and before its use, and do not copy a stack onto itself, and
`malloc` returns memory that is not in use. -/
def DstackCall.Ok (m : Dstacks ι) : DstackCall ι → Prop
  | .init k => m.stack k = none
  | .push k _ item => m.stack k ≠ none ∧ m.Fresh none [item]
  | .pushBack k _ item => m.stack k ≠ none ∧ m.Fresh none [item]
  | .pop k => m.stack k ≠ none
  | .sort k => m.stack k ≠ none
  | .revSort k => m.stack k ≠ none
  | .sort2 k _ => m.stack k ≠ none
  | .revSort2 k _ => m.stack k ≠ none
  | .copy dst src items => m.stack dst ≠ none ∧ dst ≠ src ∧ m.Fresh (m.stack dst) items ∧
    some items.length = (m.stack src).map Dstack.count
  | .free k => m.stack k ≠ none

instance (m : Dstacks ι) : ∀ call : DstackCall ι, Decidable (call.Ok m)
  | .init k => inferInstanceAs (Decidable (m.stack k = none))
  | .push k _ item => inferInstanceAs (Decidable (m.stack k ≠ none ∧ m.Fresh none [item]))
  | .pushBack k _ item => inferInstanceAs (Decidable (m.stack k ≠ none ∧ m.Fresh none [item]))
  | .pop k => inferInstanceAs (Decidable (m.stack k ≠ none))
  | .sort k => inferInstanceAs (Decidable (m.stack k ≠ none))
  | .revSort k => inferInstanceAs (Decidable (m.stack k ≠ none))
  | .sort2 k _ => inferInstanceAs (Decidable (m.stack k ≠ none))
  | .revSort2 k _ => inferInstanceAs (Decidable (m.stack k ≠ none))
  | .copy dst src items => inferInstanceAs (Decidable (m.stack dst ≠ none ∧ dst ≠ src ∧
      m.Fresh (m.stack dst) items ∧ some items.length = (m.stack src).map Dstack.count))
  | .free k => inferInstanceAs (Decidable (m.stack k ≠ none))

/-- The data on a stack, from the bottom to the top. -/
def Dstacks.contents (m : Dstacks ι) (k : ι) : List Bytes := (m.stack k).elim [] (dstackData m.heap)

/-- The stack that a call sorts, and the comparison. -/
def DstackCall.sorts : DstackCall ι → Option (ι × (Bytes → Bytes → ℤ))
  | .sort k => some (k, dstackItemCmp)
  | .revSort k => some (k, fun a b => -dstackItemCmp a b)
  | .sort2 k cmp => some (k, cmp)
  | .revSort2 k cmp => some (k, fun a b => -cmp a b)
  | _ => none

/-- A call that sorts a stack does it by a comparison that orders the data on it. -/
def DstackCall.Ordered (m : Dstacks ι) (call : DstackCall ι) : Prop :=
  call.sorts.elim True fun p => Orders p.2 (m.contents p.1)

instance (m : Dstacks ι) (call : DstackCall ι) : Decidable (call.Ordered m) :=
  match h : call.sorts with
  | none => .isTrue (by rw [DstackCall.Ordered, h]; trivial)
  | some p => decidable_of_iff (Orders p.2 (m.contents p.1)) (by rw [DstackCall.Ordered, h]; rfl)

/-- A list sorted by a comparison as `DL_SORT` does it, for the list whose last element is on
top. -/
def sortStack (cmp : Bytes → Bytes → ℤ) (l : List Bytes) : List Bytes :=
  (l.reverse.mergeSort fun a b => decide (cmp a b ≤ 0)).reverse

/-- A call on lists, the top of a stack first. -/
def stackStep (a : ι → Option (List Bytes)) :
    DstackCall ι → Option (Option Bytes × (ι → Option (List Bytes)))
  | .init k => some (none, update a k (some []))
  | .push k data _ => (a k).map fun l => (none, update a k (some (data :: l)))
  | .pushBack k data _ => (a k).map fun l => (none, update a k (some (l ++ [data])))
  | .pop k => (a k).map fun l => (l.head?, update a k (some l.tail))
  | .sort k => (a k).map fun l => (none, update a k (some (sortStack dstackItemCmp l)))
  | .revSort k => (a k).map fun l =>
    (none, update a k (some (sortStack (fun a b => -dstackItemCmp a b) l)))
  | .sort2 k cmp => (a k).map fun l => (none, update a k (some (sortStack cmp l)))
  | .revSort2 k cmp => (a k).map fun l =>
    (none, update a k (some (sortStack (fun a b => -cmp a b) l)))
  | .copy dst src _ => (a src).map fun l => (none, update a dst (some l))
  | .free k => (a k).map fun _ => (none, update a k none)

theorem neg_intCmpUint8_le {a b : Bytes} : -intCmpUint8 a b ≤ 0 ↔ b.headD 0 ≤ a.headD 0 := by
  unfold intCmpUint8
  generalize a.headD 0 = x
  generalize b.headD 0 = y
  by_cases hyx : y < x
  · simp [hyx, UInt8.le_of_lt hyx, UInt8.not_lt.mpr (UInt8.le_of_lt hyx)]
  · by_cases hxy : x < y
    · simp [hxy, hyx]
    · simp [hxy, hyx, UInt8.not_lt.mp hxy]

/-- From the other side, `INT_CMP (uint8_t)` orders all data. -/
theorem orders_neg_intCmpUint8 (l : List Bytes) : Orders (fun a b => -intCmpUint8 a b) l where
  total a _ b _ := by
    simp only [neg_intCmpUint8_le]
    exact UInt8.le_total _ _
  trans a _ b _ c _ hab hbc := by
    rw [neg_intCmpUint8_le] at hab hbc ⊢
    exact UInt8.le_trans hbc hab

namespace Dstacks

variable {m : Dstacks ι} {cells : ι → List (ℕ × Bytes)} {a : ι → Option (List Bytes)}
  {k : ι} {s : Dstack}

/-- The stacks consist of the cells, which share no element and are all that is allocated, and they
hold the lists. -/
structure Refines (m : Dstacks ι) (cells : ι → List (ℕ × Bytes)) (a : ι → Option (List Bytes)) :
    Prop where
  holds : ∀ k s, m.stack k = some s → s.Holds m.heap (cells k)
  empty : ∀ k, m.stack k = none → cells k = []
  lists : ∀ k, a k = (m.stack k).map fun _ => ((cells k).map Prod.snd).reverse
  disjoint : ∀ k k' p, p ∈ addrs (cells k) → p ∈ addrs (cells k') → k = k'
  owned : ∀ p, m.heap.data p ≠ none → ∃ k, p ∈ addrs (cells k)

namespace Refines

omit [DecidableEq ι] in
theorem start : Refines (Dstacks.start : Dstacks ι) (fun _ => []) fun _ => none where
  holds _ _ hs := absurd hs.symm (Option.some_ne_none _)
  empty _ _ := rfl
  lists _ := rfl
  disjoint _ _ _ hp := absurd hp List.not_mem_nil
  owned _ hp := absurd rfl hp

omit [DecidableEq ι] in
theorem stored (hr : m.Refines cells a) (k : ι) : Stored m.heap (cells k) := by
  cases hs : m.stack k with
  | none =>
    rw [hr.empty k hs]
    exact Stored.nil _
  | some s => exact (hr.holds k s hs).list.toStored

omit [DecidableEq ι] in
theorem contents_eq (hr : m.Refines cells a) (k : ι) : m.contents k = (cells k).map Prod.snd := by
  cases hs : m.stack k with
  | none => simp [contents, hs, hr.empty k hs]
  | some s => simpa [contents, hs] using (hr.holds k s hs).data_eq

/-- A call changes one stack: its elements are its old ones and new ones, and the others are
freed. -/
theorem change {h' : Heap Bytes} {s' : Option Dstack} {cells' : List (ℕ × Bytes)}
    (hr : m.Refines cells a)
    (hh : ∀ s ∈ s', s.Holds h' cells') (hnone : s' = none → cells' = [])
    (hsame : m.heap.SameOff h' {p | p ∈ addrs (cells k) ∨ p ∈ addrs cells'})
    (hnew : ∀ p ∈ addrs cells', p ∈ addrs (cells k) ∨ m.heap.data p = none)
    (hfreed : ∀ p ∈ addrs (cells k), p ∉ addrs cells' → h'.data p = none) :
    Refines ⟨h', update m.stack k s'⟩ (update cells k cells')
      (update a k (s'.map fun _ => (cells'.map Prod.snd).reverse)) := by
  -- no other stack has an element among those that change
  have hout : ∀ k', k' ≠ k →
      ∀ p ∈ addrs (cells k'), p ∉ {p | p ∈ addrs (cells k) ∨ p ∈ addrs cells'} := by
    rintro k' hk' p hp (hpk | hpk)
    · exact hk' (hr.disjoint k' k p hp hpk)
    · rcases hnew p hpk with hpk | hpk
      · exact hk' (hr.disjoint k' k p hp hpk)
      · exact (hr.stored k').not_mem hpk hp
  refine ⟨fun k' s hs => ?_, fun k' hs => ?_, fun k' => ?_, fun i j p hi hj => ?_, fun p hp => ?_⟩
  · by_cases hk' : k' = k
    · subst hk'
      rw [update_self]
      exact hh s ((update_self k' s' m.stack).symm.trans hs)
    · rw [update_of_ne hk']
      exact (hr.holds k' s ((update_of_ne hk' ..).symm.trans hs)).frame hsame (hout k' hk')
  · by_cases hk' : k' = k
    · subst hk'
      rw [update_self]
      exact hnone ((update_self k' s' m.stack).symm.trans hs)
    · rw [update_of_ne hk']
      exact hr.empty k' ((update_of_ne hk' ..).symm.trans hs)
  · by_cases hk' : k' = k
    · subst hk'
      simp only [update_self]
    · simp only [update_of_ne hk']
      exact hr.lists k'
  · by_cases hik : i = k <;> by_cases hjk : j = k
    · exact hik.trans hjk.symm
    · subst hik
      rw [update_self] at hi
      rw [update_of_ne hjk] at hj
      exact absurd (Or.inr hi) (hout j hjk p hj)
    · subst hjk
      rw [update_self] at hj
      rw [update_of_ne hik] at hi
      exact absurd (Or.inr hj) (hout i hik p hi)
    · rw [update_of_ne hik] at hi
      rw [update_of_ne hjk] at hj
      exact hr.disjoint i j p hi hj
  · by_cases hpc : p ∈ addrs cells'
    · exact ⟨k, by rwa [update_self]⟩
    · by_cases hpk : p ∈ addrs (cells k)
      · exact absurd (hfreed p hpk hpc) hp
      · have hp' : m.heap.data p ≠ none := by
          rwa [← (hsame p fun h => h.elim hpk hpc).2.2]
        obtain ⟨j, hj⟩ := hr.owned p hp'
        have hjk : j ≠ k := fun heq => hpk (heq ▸ hj)
        exact ⟨j, by rwa [update_of_ne hjk]⟩

/-- The answer to a call on one stack. -/
theorem answer {call : DstackCall ι} (hr : m.Refines cells a) (k : ι) (o : Option Bytes)
    (r : Heap Bytes × Dstack) (cells' : List (ℕ × Bytes)) (hm : m.step call = some (o, m.set k r))
    (ha : stackStep a call = some (o, Function.update a k (some (cells'.map Prod.snd).reverse)))
    (hh : r.2.Holds r.1 cells')
    (hsame : m.heap.SameOff r.1 {p | p ∈ addrs (cells k) ∨ p ∈ addrs cells'})
    (hnew : ∀ p ∈ addrs cells', p ∈ addrs (cells k) ∨ m.heap.data p = none)
    (hfreed : ∀ p ∈ addrs (cells k), p ∉ addrs cells' → r.1.data p = none) :
    ∃ o m' a', m.step call = some (o, m') ∧ stackStep a call = some (o, a') ∧
      ∃ cells', Refines m' cells' a' := by
  have hstack : ∀ s ∈ some r.2, s.Holds r.1 cells' := by
    rintro s ⟨⟩
    exact hh
  exact ⟨o, _, _, hm, ha, _,
    hr.change hstack (fun h => absurd h (Option.some_ne_none _)) hsame hnew hfreed⟩

/-- An allowed call returns, as it does on lists, and with the same answer. -/
theorem step (hr : m.Refines cells a) (call : DstackCall ι) (hok : call.Ok m)
    (hord : call.Ordered m) :
    ∃ o m' a', m.step call = some (o, m') ∧ stackStep a call = some (o, a') ∧
      ∃ cells', Refines m' cells' a' := by
  have hlist : ∀ k s, m.stack k = some s → a k = some ((cells k).map Prod.snd).reverse := by
    intro k s hs
    rw [hr.lists, hs, Option.map_some]
  -- a call that sorts
  have hsort : ∀ {call k s} (cmp : Bytes → Bytes → ℤ), m.stack k = some s →
      Orders cmp (m.contents k) →
      m.step call = (dstackSortBy cmp m.heap s).map (fun r => (none, m.set k r)) →
      stackStep a call = some (none, Function.update a k
        (some (sortStack cmp ((cells k).map Prod.snd).reverse))) →
      ∃ o m' a', m.step call = some (o, m') ∧ stackStep a call = some (o, a') ∧
        ∃ cells', Refines m' cells' a' := by
    intro call k s cmp hs hord hm ha
    obtain ⟨h', s', cells', hsort, hh, hsame, hperm, hsorted⟩ := (hr.holds k s hs).sortBy cmp
    have hmem : ∀ p, p ∈ addrs cells' ↔ p ∈ addrs (cells k) := fun p => (hperm.map Prod.fst).mem_iff
    have hdata : (cells'.map Prod.snd).reverse =
        sortStack cmp ((cells k).map Prod.snd).reverse := by
      rw [hsorted (hr.contents_eq k ▸ hord), sortStack, List.reverse_reverse]
      exact congrArg List.reverse (List.map_mergeSort fun _ _ _ _ => rfl)
    refine hr.answer k none (h', s') cells'
      (by rw [hm, hsort, Option.map_some]) (by rw [ha, hdata]) hh
      (hsame.mono fun _ => Or.inl) (fun p hp => Or.inl ((hmem p).mp hp)) fun p hp hpc => ?_
    exact absurd ((hmem p).mpr hp) hpc
  cases call with
  | init k =>
    have hnil := hr.empty k hok
    exact hr.answer k none (m.heap, dstackInit) [] rfl rfl (Dstack.Holds.init _)
      (Heap.SameOff.refl _ _)
      (fun p hp => absurd hp List.not_mem_nil) fun p hp => absurd (hnil ▸ hp) List.not_mem_nil
  | push k data item =>
    obtain ⟨hs, hfresh⟩ := hok
    obtain ⟨s, hs⟩ := Option.ne_none_iff_exists'.mp hs
    obtain ⟨hnull, hnew⟩ := hfresh.2 item List.mem_cons_self
    have hitem := hnew m.heap rfl
    obtain ⟨h', s', hpush, hh, hsame⟩ := (hr.holds k s hs).push data hitem hnull
    refine hr.answer k none (h', s') _ (by simp [Dstacks.step, hs, hpush])
      (by simp [stackStep, hlist k s hs]) hh (hsame.mono fun _ => Or.inr) (fun p hp => ?_) fun p hp hpc => ?_
    · rw [addrs, List.map_append, List.mem_append] at hp
      rcases hp with hp | hp
      · exact Or.inl hp
      · rw [List.mem_singleton.mp hp]
        exact Or.inr hitem
    · exact absurd (List.map_subset _ (List.subset_append_left _ _) hp) hpc
  | pushBack k data item =>
    obtain ⟨hs, hfresh⟩ := hok
    obtain ⟨s, hs⟩ := Option.ne_none_iff_exists'.mp hs
    obtain ⟨hnull, hnew⟩ := hfresh.2 item List.mem_cons_self
    have hitem := hnew m.heap rfl
    obtain ⟨h', s', hpush, hh, hsame⟩ := (hr.holds k s hs).pushBack data hitem hnull
    refine hr.answer k none (h', s') _ (by simp [Dstacks.step, hs, hpush])
      (by simp [stackStep, hlist k s hs]) hh (hsame.mono fun _ => Or.inr) (fun p hp => ?_) fun p hp hpc => ?_
    · exact (List.mem_cons.mp hp).elim (fun h => Or.inr (h ▸ hitem)) Or.inl
    · exact absurd (List.mem_cons_of_mem _ hp) hpc
  | pop k =>
    obtain ⟨s, hs⟩ := Option.ne_none_iff_exists'.mp hok
    have hholds := hr.holds k s hs
    rcases List.eq_nil_or_concat (cells k) with hnil | ⟨l, c, hl⟩
    · rw [hnil] at hholds
      refine hr.answer k none (m.heap, s) [] (by simp [Dstacks.step, hs, hholds.pop_nil])
        (by simp [stackStep, hlist k s hs, hnil]) hholds (Heap.SameOff.refl _ _)
        (fun p hp => absurd hp List.not_mem_nil) fun p hp => absurd (hnil ▸ hp) List.not_mem_nil
    · rw [List.concat_eq_append] at hl
      rw [hl] at hholds
      obtain ⟨h', s', hpop, hh, hsame, hfree⟩ := hholds.pop
      rw [← hl] at hsame
      refine hr.answer k (some c.2) (h', s') l (by simp [Dstacks.step, hs, hpop])
        (by simp [stackStep, hlist k s hs, hl]) hh (hsame.mono fun _ => Or.inl) (fun p hp => ?_)
        fun p hp hpc => ?_
      · rw [hl]
        exact Or.inl (List.map_subset _ (List.subset_append_left _ _) hp)
      · rw [hl, addrs, List.map_append, List.mem_append] at hp
        exact List.mem_singleton.mp (hp.resolve_left hpc) ▸ hfree
  | sort k =>
    obtain ⟨s, hs⟩ := Option.ne_none_iff_exists'.mp hok
    refine hsort dstackItemCmp hs hord ?_ (by simp [stackStep, hlist k s hs])
    cases h : dstackSortBy dstackItemCmp m.heap s <;> simp [Dstacks.step, hs, dstackSort, h]
  | revSort k =>
    obtain ⟨s, hs⟩ := Option.ne_none_iff_exists'.mp hok
    refine hsort (fun a b => -dstackItemCmp a b) hs hord ?_ (by simp [stackStep, hlist k s hs])
    cases h : dstackSortBy (fun a b => -dstackItemCmp a b) m.heap s <;>
      simp [Dstacks.step, hs, dstackRevSort, h]
  | sort2 k cmp =>
    obtain ⟨s, hs⟩ := Option.ne_none_iff_exists'.mp hok
    refine hsort cmp hs hord ?_ (by simp [stackStep, hlist k s hs])
    cases h : dstackSortBy cmp m.heap s <;> simp [Dstacks.step, hs, dstackSort2, h]
  | revSort2 k cmp =>
    obtain ⟨s, hs⟩ := Option.ne_none_iff_exists'.mp hok
    refine hsort (fun a b => -cmp a b) hs hord ?_ (by simp [stackStep, hlist k s hs])
    cases h : dstackSortBy
      (fun a b => -cmp a b) m.heap s <;> simp [Dstacks.step, hs, dstackRevSort2, h]
  | copy dst src items =>
    obtain ⟨hd, hne, ⟨hnd, hfresh⟩, hlen⟩ := hok
    obtain ⟨d, hd⟩ := Option.ne_none_iff_exists'.mp hd
    obtain ⟨s, hs, hcount⟩ := Option.map_eq_some_iff.mp hlen.symm
    have hholds := hr.holds src s hs
    have hlength : items.length = (cells src).length := hcount.symm.trans hholds.count
    obtain ⟨h₁, hfree, hsame₁, -⟩ := (hr.holds dst d hd).free
    have hnew : ∀ item ∈ items,
        (m.heap.data item = none ∨ item ∈ addrs (cells dst)) ∧ item ≠ NULL := by
      intro item hi
      obtain ⟨hnull, hnone⟩ := hfresh item hi
      refine ⟨?_, hnull⟩
      by_cases hmem : item ∈ addrs (cells dst)
      · exact Or.inr hmem
      · exact Or.inl ((hsame₁ item hmem).2.2.symm.trans (hnone h₁ (by rw [hd]; exact hfree)))
    obtain ⟨h', s', hcopy, hh, hsame, hfreed⟩ := (hr.holds dst d hd).copy hholds
      (fun p hp hpd => hne (hr.disjoint dst src p hpd hp)) hlength hnd hnew
    have haddrs : addrs (items.zip ((cells src).map Prod.snd)) = items :=
      List.map_fst_zip (by rw [List.length_map, hlength])
    have hdata : (items.zip ((cells src).map Prod.snd)).map Prod.snd = (cells src).map Prod.snd :=
      List.map_snd_zip (by rw [List.length_map, hlength])
    refine hr.answer dst none (h', s') _ (by simp [Dstacks.step, hd, hs, hcopy])
      (by simp [stackStep, hlist src s hs, hdata]) hh (hsame.mono fun p hp => ?_)
      (fun p hp => ?_) fun p hp hpc => ?_
    · exact hp.imp_right fun h => haddrs.symm ▸ h
    · exact (hnew p (haddrs ▸ hp)).1.symm
    · obtain ⟨c, hc, rfl⟩ := List.mem_map.mp hp
      exact hfreed c hc (haddrs ▸ hpc)
  | free k =>
    obtain ⟨s, hs⟩ := Option.ne_none_iff_exists'.mp hok
    obtain ⟨h', hfree, hsame, hcells⟩ := (hr.holds k s hs).free
    refine ⟨none, ⟨h', Function.update m.stack k none⟩, Function.update a k none,
      by simp [Dstacks.step, hs, hfree], by simp [stackStep, hlist k s hs], Function.update cells k [], ?_⟩
    refine hr.change (fun s (hs : s ∈ (none : Option Dstack)) => absurd hs (Option.not_mem_none s))
      (fun _ => rfl)
      (hsame.mono fun _ => Or.inl) (fun p hp => absurd hp List.not_mem_nil) fun p hp _ => ?_
    obtain ⟨c, hc, rfl⟩ := List.mem_map.mp hp
    exact hcells c hc

end Refines

/-- In every run of calls, whichever addresses `malloc` returns, no call fails: no null pointer and
no freed element is followed, and what the stacks hand out is what lists with their tops first hand
out. After the run the stacks hold the lists, and what is allocated are their elements, each in one
stack. -/
theorem dstacks_refine (calls : List (DstackCall ι))
    (hok : Lockstep.Ok step (fun m call => call.Ok m ∧ call.Ordered m) calls start) :
    ∃ os m a, Lockstep.outputs step calls start = some (os, m) ∧
      Lockstep.outputs stackStep calls (fun _ => none) = some (os, a) ∧
      ∃ cells, Refines m cells a := by
  obtain ⟨os, m, a, hm, ha, cells, hr⟩ := Lockstep.Same.outputs_some
    (R := fun m a => ∃ cells, Refines m cells a)
    (fun m a call ⟨_, hr⟩ _ hok => hr.step call hok.1 hok.2) ⟨_, Refines.start⟩ hok
  exact ⟨os, m, a, hm, ha, cells, hr⟩

/-- Two stacks, one of which is copied to the other: its element is freed and allocated again. Each
of them is sorted. -/
def copiedRun : List (DstackCall Bool) :=
  [.init true, .init false, .pushBack true [0] 8, .pushBack true [1] 16,
    .pushBack false [5] 24, .pop true,
    .copy false true [24], .push true [0] 8, .revSort2 true intCmpUint8, .pop true,
      .push false [3] 32,
    .revSort false, .pop false, .sort true, .pop true]

theorem dstacks_refine_copiedRun : ∃ m a cells, Lockstep.outputs step copiedRun start = some
    ([none, none, none, none, none, some [0], none, none, none, some [0], none, none, some [1], none,
      some [1]], m) ∧ Refines m cells a := by
  obtain ⟨os, m, a, hm, -, cells, hr⟩ := dstacks_refine copiedRun (by decide +kernel)
  have hout : (Lockstep.outputs step copiedRun start).map Prod.fst =
      some [none, none, none, none, none, some [0], none, none, none, some [0], none,
        none, some [1],
        none, some [1]] := by
    decide +kernel
  rw [hm] at hout
  obtain rfl := Option.some_inj.mp hout
  exact ⟨m, a, cells, hm, hr⟩

end Dstacks

end Presteramgr
