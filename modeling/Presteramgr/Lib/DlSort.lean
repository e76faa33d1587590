import Presteramgr.Lib.Dlist
import Presteramgr.Lib.MergeRuns

/-!
# Sorting a doubly linked list in place

The merge sort of a linked list works bottom up: a pass walks the list and merges neighbouring runs
by relinking their elements, and the runs of the next pass are twice as long, until a pass has
merged one pair only. No element moves, and none is lost: the list consists of the same cells,
sorted stably.

## Main definitions

* `lsMerge`: the innermost loop, which merges two runs;
* `lsPass`: a pass;
* `sort`: the passes;
* `Orders`: a comparison orders some data.

## Main results

* `Holds.sort`: sorting returns, the list holds the cells sorted by `List.mergeSort`, and nothing
  else in the heap changes.
-/

namespace Dlist

open Function (update update_self update_of_ne)
open Linked (Path Back)

variable {α : Type}

/-- The heap and the variables of the loops: the list that is built and its last element, and the
next elements of the left and the right run. -/
structure Sorting (α : Type) where
  heap : Heap α
  list : ℕ
  tail : ℕ
  p : ℕ
  q : ℕ

namespace Sorting

variable (s : Sorting α)

/-- An element is added to the list that is built. -/
def emit (e : ℕ) : Option (Sorting α) := do
  let s ← if s.tail ≠ NULL then do
      some { s with heap := ← s.heap.setNext s.tail e }
    else some { s with list := e }
  some { s with heap := ← s.heap.setPrev e s.tail, tail := e }

/-- The next element of the left run is added. -/
def emitLeft : Option (Sorting α) := do
  let next ← s.heap.getNext s.p
  { s with p := next }.emit s.p

/-- The next element of the right run is added. -/
def emitRight : Option (Sorting α) := do
  let next ← s.heap.getNext s.q
  { s with q := next }.emit s.q

/-- The left run comes next: the right one is at its end, or its next element is not less. -/
def leftFirst (cmp : α → α → ℤ) (qsize : ℕ) : Option Bool := do
  if qsize = 0 ∨ s.q = NULL then some true
  else some (decide (cmp (← s.heap.data s.p) (← s.heap.data s.q) ≤ 0))

end Sorting

/-- The loop that merges two runs. -/
def lsMerge (cmp : α → α → ℤ) : ℕ → ℕ → ℕ → Sorting α → Option (Sorting α)
  | 0, psize, qsize, s => if 0 < psize ∨ 0 < qsize ∧ s.q ≠ NULL then none else some s
  | fuel + 1, psize, qsize, s =>
    if 0 < psize ∨ 0 < qsize ∧ s.q ≠ NULL then do
      if psize = 0 then lsMerge cmp fuel psize (qsize - 1) (← s.emitRight)
      else if ← s.leftFirst cmp qsize then lsMerge cmp fuel (psize - 1) qsize (← s.emitLeft)
      else lsMerge cmp fuel psize (qsize - 1) (← s.emitRight)
    else some s

/-- The loop that steps over a run of `insize` elements: how many there are, and where the next run
starts. -/
def lsStep (h : Heap α) : ℕ → ℕ → Option (ℕ × ℕ)
  | 0, q => some (0, q)
  | insize + 1, q => do
    let next ← h.getNext q
    if next = NULL then some (1, next)
    else
      let (psize, q) ← lsStep h insize next
      some (psize + 1, q)

/-- The loop over the pairs of runs, which counts them. -/
def lsPass (cmp : α → α → ℤ) (insize : ℕ) : ℕ → ℕ → Sorting α → Option (ℕ × Sorting α)
  | 0, nmerges, s => if s.p ≠ NULL then none else some (nmerges, s)
  | fuel + 1, nmerges, s =>
    if s.p ≠ NULL then do
      let (psize, q) ← lsStep s.heap insize s.p
      let s ← lsMerge cmp (psize + insize) psize insize { s with q := q }
      lsPass cmp insize fuel (nmerges + 1) { s with p := s.q }
    else some (nmerges, s)

/-- The loop over the passes, each of at most `n` pairs. -/
def lsLoop (cmp : α → α → ℤ) (n : ℕ) : ℕ → ℕ → Heap α → ℕ → Option (Heap α × ℕ)
  | 0, _, _, _ => none
  | fuel + 1, insize, h, list => do
    let (nmerges, s) ← lsPass cmp insize n 0 ⟨h, NULL, NULL, list, NULL⟩
    let h ← s.heap.setPrev s.list s.tail
    let h ← h.setNext s.tail NULL
    if nmerges ≤ 1 then some (h, s.list) else lsLoop cmp n fuel (insize * 2) h s.list

/-- `DL_SORT`. The bound `n` on the numbers of iterations is the number of elements. -/
def sort (cmp : α → α → ℤ) (n : ℕ) (h : Heap α) (list : ℕ) : Option (Heap α × ℕ) :=
  if list ≠ NULL then lsLoop cmp n n 1 h list else some (h, list)

variable {h h₀ : Heap α} {cells out ps rs : List (ℕ × α)} {c : ℕ × α} {s : Sorting α}
  {cmp : α → α → ℤ}

/-- The cells in the order of a comparison of their data. -/
def cellLe (cmp : α → α → ℤ) (c d : ℕ × α) : Bool := decide (cmp c.2 d.2 ≤ 0)

namespace Sorting

/-- The list that is built consists of the cells `out`, but for its ends: the last element is still
linked to the element that followed it, and the first one points back to none. -/
structure Built (h₀ : Heap α) (cells out : List (ℕ × α)) (s : Sorting α) : Prop where
  stored : Stored s.heap cells
  mem : ∀ c ∈ out, c ∈ cells
  nodup : (addrs out).Nodup
  same : h₀.SameOff s.heap {p | p ∈ addrs cells}
  tail : s.tail = (addrs out).getLastD NULL
  path : Path (update s.heap.next s.tail NULL) s.list (addrs out) NULL
  back : Back s.heap.prev NULL (addrs out)

/-- A cell that is added comes last, and the links from cells outside the list stay. -/
theorem Built.emit (hb : Built h₀ cells out s) (hc : c ∈ cells) (hnew : c.1 ∉ addrs out) :
    ∃ s', s.emit c.1 = some s' ∧ Built h₀ cells (out ++ [c]) s' ∧ s'.p = s.p ∧ s'.q = s.q ∧
      ∀ p ∉ addrs out, s'.heap.next p = s.heap.next p := by
  have hdata := hb.stored.data c hc
  have hcmem : c.1 ∈ addrs cells := List.mem_map_of_mem hc
  have hcnull : c.1 ≠ NULL := fun heq => hb.stored.ne_null (heq ▸ hcmem)
  have hmem : ∀ d ∈ out ++ [c], d ∈ cells := by
    simpa [or_imp, forall_and] using ⟨fun a b => hb.mem (a, b), hc⟩
  have hnodup : (addrs (out ++ [c])).Nodup := by
    rw [addrs, List.map_append, List.map_singleton, List.nodup_append_comm]
    exact List.nodup_cons.mpr ⟨hnew, hb.nodup⟩
  -- the first cell that comes out starts the list, any other is put behind the tail
  rcases List.eq_nil_or_concat out with rfl | ⟨l, y, rfl⟩
  · have htail : s.tail = NULL := hb.tail
    refine ⟨{ s with heap := s.heap.writePrev c.1 NULL, list := c.1, tail := c.1 }, ?_, ?_, rfl,
      rfl,
      fun _ _ => rfl⟩
    · simp [Sorting.emit, htail, Heap.setPrev, hdata]
    · exact ⟨hb.stored.congr fun _ _ => rfl, hmem, hnodup,
        hb.same.trans (Heap.sameOff_writePrev hcmem), rfl,
        ⟨rfl, update_self ..⟩, update_self .., trivial⟩
  · rw [List.concat_eq_append] at *
    have hy := hb.mem y (List.mem_append_right _ List.mem_cons_self)
    have hydata := hb.stored.data y hy
    have hymem : y.1 ∈ addrs cells := List.mem_map_of_mem hy
    have hynull : y.1 ≠ NULL := fun heq => hb.stored.ne_null (heq ▸ hymem)
    have htail : s.tail = y.1 := by
      rw [hb.tail, addrs, List.map_append, List.map_singleton, List.getLastD_concat]
    have hpath := hb.path
    have hback := hb.back
    have hnd := hb.nodup
    rw [addrs, List.map_append, List.map_singleton] at hnew hpath hback hnd
    obtain ⟨hcl, hcy⟩ := not_or.mp (List.mem_append.not.mp hnew)
    have hyc : y.1 ≠ c.1 := fun heq => hcy (heq ▸ List.mem_singleton_self _)
    have hyl : y.1 ∉ List.map Prod.fst l := fun hmem =>
      (List.nodup_append.mp hnd).2.2 _ hmem _ (List.mem_singleton_self _) rfl
    refine ⟨{ s with heap := (s.heap.writeNext y.1 c.1).writePrev c.1 y.1, tail := c.1 },
      ?_, ?_, rfl, rfl, ?_⟩
    · simp [Sorting.emit, htail, Heap.setNext, Heap.setPrev, hdata, hydata, hynull]
    · refine ⟨hb.stored.congr fun _ _ => rfl, hmem, hnodup,
        hb.same.trans ((Heap.sameOff_writeNext hymem).trans
          (Heap.sameOff_writePrev hcmem)), ?_, ?_, ?_⟩
      · -- the new cell is the tail
        rw [addrs, List.map_append, List.map_singleton, List.getLastD_concat]
      · rw [htail] at hpath
        rw [addrs, List.map_append, List.map_append, List.map_singleton, List.map_singleton]
        refine Linked.path_concat.mpr ⟨Linked.path_concat.mpr ⟨?_, ?_⟩, update_self ..⟩
        · refine (Linked.path_concat.mp hpath).1.congr fun p hp => ?_
          have hpy : p ≠ y.1 := ne_of_mem_of_not_mem hp hyl
          rw [update_of_ne (ne_of_mem_of_not_mem hp hcl), update_of_ne hpy]
          exact update_of_ne hpy ..
        · rw [update_of_ne hyc]
          exact update_self ..
      · -- and it leads back to the old one
        rw [addrs, List.map_append, List.map_append, List.map_singleton, List.map_singleton]
        refine Linked.back_append.mpr ⟨hback.update hnew _, ?_, trivial⟩
        rw [List.getLastD_concat]
        exact update_self ..
    · intro p hp
      rw [addrs, List.map_append, List.map_singleton] at hp
      have hpy : p ≠ y.1 := by
        rintro rfl
        exact hp (List.mem_append_right _ (List.mem_singleton_self _))
      exact update_of_ne hpy ..

/-- The cells that are still to be added are not those that were. -/
theorem Built.disjoint {rest : List (ℕ × α)} (hb : Built h₀ cells out s)
    (hperm : (out ++ rest).Perm cells) : ∀ p ∈ addrs rest, p ∉ addrs out := by
  have hnd := ((hperm.map Prod.fst).nodup_iff.mpr hb.stored.nodup)
  rw [List.map_append] at hnd
  exact fun p hp hpo => (List.nodup_append.mp hnd).2.2 p hpo p hp rfl

/-- The next cell of the left run is added. -/
theorem Built.emitLeft (hb : Built h₀ cells out s) (hperm : (out ++ (c :: ps ++ rs)).Perm cells)
    {t : ℕ}
    (hp : Path s.heap.next s.p (addrs (c :: ps)) t) (hq : Path s.heap.next s.q (addrs rs) NULL) :
    ∃ s', s.emitLeft = some s' ∧ Built h₀ cells (out ++ [c]) s' ∧
      Path s'.heap.next s'.p (addrs ps) t ∧ Path s'.heap.next s'.q (addrs rs) NULL := by
  have hc : c ∈ cells := hperm.mem_iff.mp (by simp)
  have hdisj := hb.disjoint hperm
  obtain ⟨hpc, hp⟩ := hp
  obtain ⟨s', hs', hb', hp', hq', hnext⟩ := Built.emit (s := { s with p := s.heap.next c.1 })
    ⟨hb.stored, hb.mem, hb.nodup, hb.same, hb.tail, hb.path, hb.back⟩ hc
      (hdisj _ List.mem_cons_self)
  refine ⟨s', ?_, hb', ?_, ?_⟩
  · rw [Sorting.emitLeft, hpc, Heap.getNext_eq (hb.stored.data c hc)]
    exact hs'
  · rw [hp']
    exact hp.congr fun p hmem => hnext p (hdisj p (by simp [hmem]))
  · rw [hq']
    exact hq.congr fun p hmem => hnext p (hdisj p (by simp [hmem]))

/-- The next cell of the right run is added. -/
theorem Built.emitRight (hb : Built h₀ cells out s) (hperm : (out ++ (ps ++ c :: rs)).Perm cells)
    {t : ℕ}
    (hp : Path s.heap.next s.p (addrs ps) t) (hq : Path s.heap.next s.q (addrs (c :: rs)) NULL) :
    ∃ s', s.emitRight = some s' ∧ Built h₀ cells (out ++ [c]) s' ∧
      Path s'.heap.next s'.p (addrs ps) t ∧ Path s'.heap.next s'.q (addrs rs) NULL := by
  have hc : c ∈ cells := hperm.mem_iff.mp (by simp)
  have hdisj := hb.disjoint hperm
  obtain ⟨hqc, hq⟩ := hq
  obtain ⟨s', hs', hb', hp', hq', hnext⟩ := Built.emit (s := { s with q := s.heap.next c.1 })
    ⟨hb.stored, hb.mem, hb.nodup, hb.same, hb.tail, hb.path, hb.back⟩ hc (hdisj _ (by simp))
  refine ⟨s', ?_, hb', ?_, ?_⟩
  · rw [Sorting.emitRight, hqc, Heap.getNext_eq (hb.stored.data c hc)]
    exact hs'
  · rw [hp']
    exact hp.congr fun p hmem => hnext p (hdisj p (by simp [hmem]))
  · rw [hq']
    exact hq.congr fun p hmem => hnext p (hdisj p (by simp [hmem]))

theorem head_ne_null {head : ℕ} (hs : Stored h cells) (hq : Path h.next head (addrs rs) NULL)
    (hsub : ∀ c ∈ rs, c ∈ cells) : head ≠ NULL ↔ rs ≠ [] := by
  constructor
  · rintro hne rfl
    exact hne hq
  · intro hne hnull
    obtain ⟨c, hc, hce⟩ := List.mem_map.mp (hq.start_mem (by simpa using hne))
    exact hs.ne_null (hnull ▸ hce ▸ List.mem_map_of_mem (hsub c hc))

/-- The left run comes next in the loop where it comes next in `List.merge`. -/
theorem Built.leftFirst (cmp : α → α → ℤ) (qsize : ℕ) (hb : Built h₀ cells out s) {t : ℕ}
    (hperm : (out ++ (c :: ps ++ rs)).Perm cells)
    (hp : Path s.heap.next s.p (addrs (c :: ps)) t) (hq : Path s.heap.next s.q (addrs rs) NULL) :
    s.leftFirst cmp qsize = some ((rs.take qsize).head?.all (cellLe cmp c)) := by
  have hc := hb.stored.data c (hperm.mem_iff.mp (by simp))
  have hsub : ∀ d ∈ rs, d ∈ cells := fun d hd => hperm.mem_iff.mp (by simp [hd])
  cases qsize with
  | zero => simp [Sorting.leftFirst]
  | succ qsize =>
    cases rs with
    | nil =>
      have hnull : s.q = NULL := hq
      simp [Sorting.leftFirst, hnull]
    | cons d rs =>
      have hd := hb.stored.data d (hsub d List.mem_cons_self)
      have hnull : s.q ≠ NULL := (head_ne_null hb.stored hq hsub).mpr (List.cons_ne_nil _ _)
      rw [hq.1] at hnull
      simp [Sorting.leftFirst, hp.1, hq.1, hnull, hc, hd, cellLe]

/-- The innermost loop adds the two runs merged. -/
theorem Built.merge (cmp : α → α → ℤ) {fuel qsize t : ℕ} (hfuel : ps.length + qsize ≤ fuel)
    (hb : Built h₀ cells out s) (hperm : (out ++ (ps ++ rs)).Perm cells)
    (hp : Path s.heap.next s.p (addrs ps) t) (hq : Path s.heap.next s.q (addrs rs) NULL) :
    ∃ s', lsMerge cmp fuel ps.length qsize s = some s' ∧
      Built h₀ cells (out ++ ps.merge (rs.take qsize) (cellLe cmp)) s' ∧
      Path s'.heap.next s'.q (addrs (rs.drop qsize)) NULL := by
  induction fuel generalizing out ps rs s qsize with
  | zero =>
    obtain ⟨hps, rfl⟩ : ps.length = 0 ∧ qsize = 0 := by omega
    obtain rfl := List.length_eq_zero_iff.mp hps
    exact ⟨s, by simp [lsMerge], by simpa using hb, hq⟩
  | succ fuel ih =>
    have hsub : ∀ d ∈ rs, d ∈ cells := fun d hd => hperm.mem_iff.mp (by simp [hd])
    -- what happens where the right run comes next
    have hright : ∀ d l, rs.take qsize = d :: l → ps.merge (d :: l) (cellLe cmp) =
        d :: ps.merge l (cellLe cmp) → ∃ s₁ s', s.emitRight = some s₁ ∧
          lsMerge cmp fuel ps.length (qsize - 1) s₁ = some s' ∧
          Built h₀ cells (out ++ ps.merge (rs.take qsize) (cellLe cmp)) s' ∧
          Path s'.heap.next s'.q (addrs (rs.drop qsize)) NULL := by
      intro d l hl hmerge
      obtain ⟨k, rfl⟩ : ∃ k, qsize = k + 1 := by
        refine Nat.exists_eq_succ_of_ne_zero ?_
        rintro rfl
        simp at hl
      cases rs with
      | nil => simp at hl
      | cons d' rs =>
        obtain ⟨rfl, rfl⟩ : d' = d ∧ rs.take k = l := by simpa using hl
        obtain ⟨s₁, hs₁, hb₁, hp₁, hq₁⟩ := hb.emitRight hperm hp hq
        have hperm₁ : (out ++ [d'] ++ (ps ++ rs)).Perm cells := by
          have hmid : (d' :: (ps ++ rs)).Perm (ps ++ d' :: rs) := List.perm_middle.symm
          exact List.Perm.trans (by simpa using hmid.append_left out) hperm
        have hlen : ps.length + k ≤ fuel := by omega
        obtain ⟨s₂, hs₂, hb₂, hq₂⟩ := ih hlen hb₁ hperm₁ hp₁ hq₁
        refine ⟨s₁, s₂, hs₁, hs₂, ?_, hq₂⟩
        rw [hl, hmerge]
        simpa using hb₂
    rw [lsMerge]
    cases ps with
    | nil =>
      cases hl : rs.take qsize with
      | nil =>
        -- both runs are at their ends
        have hend : ¬(0 < ([] : List (ℕ × α)).length ∨ 0 < qsize ∧ s.q ≠ NULL) := by
          rw [head_ne_null hb.stored hq hsub]
          rcases List.take_eq_nil_iff.mp hl with rfl | rfl <;> simp
        have hdrop : rs.drop qsize = rs := by
          rcases List.take_eq_nil_iff.mp hl with rfl | rfl <;> simp
        rw [if_neg hend, hdrop]
        exact ⟨s, rfl, by simpa using hb, hq⟩
      | cons d l =>
        -- the left run is at its end
        have hmore : 0 < qsize ∧ s.q ≠ NULL := by
          rw [head_ne_null hb.stored hq hsub, Nat.pos_iff_ne_zero]
          constructor <;> rintro rfl <;> simp at hl
        obtain ⟨s₁, s', hs₁, hs', hb', hq'⟩ := hright d l hl (by simp)
        rw [if_pos (Or.inr hmore), if_pos List.length_nil, hs₁, ← hl]
        exact ⟨s', hs', hb', hq'⟩
    | cons c ps =>
      have hpos : 0 < (c :: ps).length := Nat.succ_pos _
      rw [if_pos (Or.inl hpos), if_neg hpos.ne', hb.leftFirst cmp qsize hperm hp hq]
      cases hfirst : (rs.take qsize).head?.all (cellLe cmp c) with
      | true =>
        obtain ⟨s₁, hs₁, hb₁, hp₁, hq₁⟩ := hb.emitLeft hperm hp hq
        have hlen : ps.length + qsize ≤ fuel := by
          rw [List.length_cons] at hfuel
          omega
        obtain ⟨s₂, hs₂, hb₂, hq₂⟩ := ih hlen hb₁ (by simpa using hperm) hp₁ hq₁
        refine ⟨s₂, by simp [hs₁, hs₂], ?_, hq₂⟩
        have hmerge : (c :: ps).merge (rs.take qsize) (cellLe cmp) =
            c :: ps.merge (rs.take qsize) (cellLe cmp) := by
          cases hl : rs.take qsize with
          | nil => simp
          | cons d l =>
            rw [hl] at hfirst
            exact List.cons_merge_cons_pos _ _ _ (by simpa using hfirst)
        rw [hmerge]
        simpa using hb₂
      | false =>
        cases hl : rs.take qsize with
        | nil => simp [hl] at hfirst
        | cons d l =>
          rw [hl] at hfirst
          obtain ⟨s₁, s', hs₁, hs', hb', hq'⟩ := hright d l hl
            (List.cons_merge_cons_neg _ _ _ (by simpa using hfirst))
          rw [← hl]
          exact ⟨s', by simpa [hs₁] using hs', hb', hq'⟩

/-- The step over a run counts its elements. -/
theorem lsStep_eq {h : Heap α} (hs : Stored h cells) {q : ℕ} (insize : ℕ)
    (hq : Path h.next q (addrs rs) NULL) (hne : rs ≠ []) (hsub : ∀ c ∈ rs, c ∈ cells) :
    ∃ q', lsStep h insize q = some ((rs.take insize).length, q') ∧
      Path h.next q (addrs (rs.take insize)) q' ∧ Path h.next q' (addrs (rs.drop insize)) NULL := by
  induction insize generalizing q rs with
  | zero => exact ⟨q, rfl, rfl, hq⟩
  | succ insize ih =>
    cases rs with
    | nil => exact absurd rfl hne
    | cons c rs =>
      obtain ⟨rfl, hq⟩ := hq
      have hc := hs.data c (hsub c List.mem_cons_self)
      have hsub' : ∀ d ∈ rs, d ∈ cells := fun d hd => hsub d (List.mem_cons_of_mem _ hd)
      rw [lsStep, Heap.getNext_eq hc]
      by_cases hnull : h.next c.1 = NULL
      · obtain rfl : rs = [] := by
          by_contra hrs
          exact (head_ne_null hs hq hsub').mpr hrs hnull
        exact ⟨NULL, by simp [hnull], by simp [hnull], by simp⟩
      · obtain ⟨q', hstep, hq', hrest⟩ := ih hq ((head_ne_null hs hq hsub').mp hnull) hsub'
        exact ⟨q', by simp [hnull, hstep], ⟨rfl, hq'⟩, hrest⟩

/-- A pass adds the runs merged in pairs. -/
theorem Built.pass (cmp : α → α → ℤ) {insize fuel : ℕ} {runs : List (List (ℕ × α))}
    (hruns : MergeRuns.Runs insize runs) (hfuel : runs.length ≤ fuel) (hb : Built h₀ cells out s)
    (hperm : (out ++ runs.flatten).Perm cells)
    (hp : Path s.heap.next s.p (addrs runs.flatten) NULL) :
    ∃ s', (∀ nmerges, lsPass cmp insize fuel nmerges s =
        some (nmerges + (MergeRuns.mergePairs (cellLe cmp) runs).length, s')) ∧
      Built h₀ cells (out ++ (MergeRuns.mergePairs (cellLe cmp) runs).flatten) s' := by
  induction fuel generalizing runs out s with
  | zero =>
    obtain rfl := List.length_eq_zero_iff.mp (Nat.le_zero.mp hfuel)
    have hnull : s.p = NULL := hp
    exact ⟨s, by simp [lsPass, hnull, MergeRuns.mergePairs], by simpa [MergeRuns.mergePairs] using hb⟩
  | succ fuel ih =>
    cases runs with
    | nil =>
      have hnull : s.p = NULL := hp
      exact ⟨s, by simp [lsPass, hnull, MergeRuns.mergePairs], by simpa [MergeRuns.mergePairs] using hb⟩
    | cons a runs =>
      have hsub : ∀ c ∈ (a :: runs).flatten, c ∈ cells := fun c hc =>
        hperm.mem_iff.mp (List.mem_append_right _ hc)
      have hruns' : MergeRuns.Runs insize runs := hruns.tail
      have hne : (a :: runs).flatten ≠ [] := by simp [hruns.1]
      have hpnull : s.p ≠ NULL := (head_ne_null hb.stored hp hsub).mpr hne
      obtain ⟨q, hstep, hleft, hright⟩ := lsStep_eq hb.stored insize hp hne hsub
      rw [hruns.take_flatten] at hstep hleft
      rw [hruns.drop_flatten] at hright
      -- the second run is what is left of `insize` elements behind the first one
      obtain ⟨s₁, hs₁, hb₁, hq₁⟩ :=
        Built.merge (s := { s with q := q }) cmp (Nat.le_refl (a.length + insize))
        ⟨hb.stored, hb.mem, hb.nodup, hb.same, hb.tail, hb.path, hb.back⟩ hperm hleft hright
      rw [hruns'.take_flatten] at hb₁
      rw [hruns'.drop_flatten] at hq₁
      have hsplit : runs.flatten = runs.headD [] ++ runs.tail.flatten := by
        cases runs <;> rfl
      have hperm₁ : (out ++ a.merge (runs.headD [])
          (cellLe cmp) ++ runs.tail.flatten).Perm cells := by
        refine List.Perm.trans ?_ hperm
        rw [List.flatten_cons, hsplit, List.append_assoc, ← List.append_assoc a]
        exact ((List.merge_perm_append _).append_right _).append_left _
      have hlen : runs.tail.length ≤ fuel := by
        rw [List.length_cons] at hfuel
        rw [List.length_tail]
        omega
      obtain ⟨s₂, hs₂, hb₂⟩ := ih (s := { s₁ with p := s₁.q }) hruns'.tail hlen
        ⟨hb₁.stored, hb₁.mem, hb₁.nodup, hb₁.same, hb₁.tail, hb₁.path, hb₁.back⟩ hperm₁ hq₁
      refine ⟨s₂, fun nmerges => ?_, ?_⟩
      · rw [lsPass, if_pos hpnull, hstep, MergeRuns.mergePairs_cons, List.length_cons]
        simp only [Option.bind_eq_bind, Option.bind_some, List.headD_cons, hs₁, hs₂]
        rw [Nat.add_assoc, Nat.add_comm 1]
      · rw [MergeRuns.mergePairs_cons, List.flatten_cons, ← List.append_assoc]
        exact hb₂

/-- The ends of the list are linked. -/
theorem Built.close (hb : Built h₀ cells out s) (hperm : out.Perm cells) (hne : out ≠ []) :
    ∃ h₁ h', s.heap.setPrev s.list s.tail = some h₁ ∧ h₁.setNext s.tail NULL = some h' ∧
      Holds h' s.list out ∧ h₀.SameOff h' {p | p ∈ addrs cells} := by
  cases out with
  | nil => exact absurd rfl hne
  | cons c out =>
    obtain ⟨hlist, -⟩ := hb.path
    have hc := hb.mem c List.mem_cons_self
    have hcnd : c.1 ∉ addrs out := (List.nodup_cons.mp hb.nodup).1
    have htail : s.tail ∈ addrs (c :: out) := by
      rw [hb.tail, addrs, List.map_cons, List.getLastD_cons]
      exact List.getLastD_mem_cons ..
    obtain ⟨d, hd, hdt⟩ := List.mem_map.mp htail
    have hdc := hb.mem d hd
    refine ⟨s.heap.writePrev s.list s.tail, (s.heap.writePrev s.list s.tail).writeNext s.tail NULL,
      ?_, ?_, ⟨?_, hb.path, ?_⟩, ?_⟩
    · rw [hlist]
      exact Heap.setPrev_eq (hb.stored.data c hc)
    · rw [← hdt]
      exact Heap.setNext_eq (hb.stored.data d hdc)
    · exact (hb.stored.perm hperm).congr fun _ _ => rfl
    · rw [← hb.tail, hlist]
      exact ⟨update_self .., hb.back.2.update hcnd _⟩
    · refine hb.same.trans ((Heap.sameOff_writePrev ?_).trans (Heap.sameOff_writeNext ?_))
      · exact hlist ▸ List.mem_map_of_mem hc
      · exact hdt ▸ List.mem_map_of_mem hdc

end Sorting

/-- The passes end with the list of the last run. What a pass preserves holds of that run. -/
theorem Holds.loop (cmp : α → α → ℤ) {P : List (List (ℕ × α)) → Prop}
    (hP : ∀ runs, P runs → P (MergeRuns.mergePairs (cellLe cmp) runs)) {n fuel insize list : ℕ}
    {runs : List (List (ℕ × α))} (hh : Holds h list runs.flatten)
    (hruns : MergeRuns.Runs insize runs)
    (hne : runs ≠ []) (hn : runs.length ≤ n) (hfuel : runs.length ≤ fuel) (hrunsP : P runs) :
    ∃ h' list' run, lsLoop cmp n fuel insize h list = some (h', list') ∧ P [run] ∧
      Holds h' list' run ∧
      h.SameOff h' {p | p ∈ addrs runs.flatten} := by
  induction fuel generalizing h list runs insize with
  | zero => exact absurd (List.length_eq_zero_iff.mp (Nat.le_zero.mp hfuel)) hne
  | succ fuel ih =>
    have hpath : Path (update h.next NULL NULL) NULL (addrs ([] : List (ℕ × α))) NULL := rfl
    obtain ⟨s, hs, hb⟩ := Sorting.Built.pass (s := ⟨h, NULL, NULL, list, NULL⟩) cmp hruns hn
      ⟨hh.toStored, fun _ hc =>
        absurd hc List.not_mem_nil, List.nodup_nil, Heap.SameOff.refl _ _, rfl,
        hpath, trivial⟩ (List.Perm.refl _) hh.path
    set merged := MergeRuns.mergePairs (cellLe cmp) runs with hmerged
    have hlen : merged.length = (runs.length + 1) / 2 := MergeRuns.length_mergePairs _ _
    have hpos : 0 < runs.length := List.length_pos_iff.mpr hne
    have hperm : merged.flatten.Perm runs.flatten := MergeRuns.mergePairs_perm _ _
    have hflat : merged.flatten ≠ [] := by
      obtain ⟨run, runs', rfl⟩ := List.exists_cons_of_ne_nil hne
      intro hnil
      have hlen := hperm.length_eq
      rw [hnil] at hlen
      simp only [List.length_nil, List.flatten_cons, List.length_append] at hlen
      exact hruns.1 (List.length_eq_zero_iff.mp (by omega))
    obtain ⟨h₁, h₂, hset, hset', hh₂, hsame⟩ := hb.close hperm hflat
    have hpass : lsLoop cmp n (fuel + 1) insize h list = if merged.length ≤ 1 then some (h₂, s.list)
        else lsLoop cmp n fuel (insize * 2) h₂ s.list := by
      simp [lsLoop, hs, hset, hset']
    rw [hpass]
    by_cases hone : merged.length ≤ 1
    · obtain ⟨run, hrun⟩ : ∃ run, merged = [run] := List.length_eq_one_iff.mp (by omega)
      rw [if_pos hone]
      refine ⟨h₂, s.list, run, rfl, hrun ▸ hP runs hrunsP, ?_, hsame⟩
      simpa [hrun] using hh₂
    · rw [if_neg hone]
      obtain ⟨h', list', run, hloop, hPrun, hh', hsame'⟩ :=
        ih hh₂ (Nat.mul_comm 2 insize ▸ hruns.mergePairs _)
        (List.ne_nil_of_length_pos (by omega)) (by omega) (by omega) (hP runs hrunsP)
      refine ⟨h', list', run, hloop, hPrun, hh', hsame.trans (hsame'.mono ?_)⟩
      exact fun p hp => (hperm.map Prod.fst).mem_iff.mp hp

/-- A comparison that orders some data: any two of them are comparable, and the order is
transitive. -/
structure Orders (cmp : α → α → ℤ) (l : List α) : Prop where
  total : ∀ a ∈ l, ∀ b ∈ l, cmp a b ≤ 0 ∨ cmp b a ≤ 0
  trans : ∀ a ∈ l, ∀ b ∈ l, ∀ c ∈ l, cmp a b ≤ 0 → cmp b c ≤ 0 → cmp a c ≤ 0

instance (cmp : α → α → ℤ) (l : List α) : Decidable (Orders cmp l) :=
  decidable_of_iff ((∀ a ∈ l, ∀ b ∈ l, cmp a b ≤ 0 ∨ cmp b a ≤ 0) ∧
    ∀ a ∈ l, ∀ b ∈ l, ∀ c ∈ l, cmp a b ≤ 0 → cmp b c ≤ 0 → cmp a c ≤ 0)
    ⟨fun h => ⟨h.1, h.2⟩, fun h => ⟨h.1, h.2⟩⟩

/-- The cells are ordered as their data are. -/
theorem Orders.ordered (h : Orders cmp (cells.map Prod.snd)) :
    MergeRuns.Ordered (cellLe cmp) cells := by
  have hmem : ∀ c ∈ cells, c.2 ∈ cells.map Prod.snd := fun c => List.mem_map_of_mem
  constructor
  · intro a ha b hb c hc
    simpa [cellLe] using h.trans _ (hmem a ha) _ (hmem b hb) _ (hmem c hc)
  · intro a ha b hb
    simpa [cellLe] using h.total _ (hmem a ha) _ (hmem b hb)

/-- Sorting a list returns and changes nothing but the links of its cells. The cells are the same
ones, and by a comparison that orders their data they are sorted stably. -/
theorem Holds.sort (cmp : α → α → ℤ) {n list : ℕ} (hh : Holds h list cells)
    (hn : cells.length ≤ n) :
    ∃ h' list' cells', Dlist.sort cmp n h list = some (h', list') ∧ Holds h' list' cells' ∧
      h.SameOff h' {p | p ∈ addrs cells} ∧ cells'.Perm cells ∧
      (Orders cmp (cells.map Prod.snd) → cells' = cells.mergeSort (cellLe cmp)) := by
  by_cases hlist : list = NULL
  · obtain rfl := hh.head_eq_null_iff.mp hlist
    exact ⟨h, list, [], by simp [Dlist.sort, hlist], hh, Heap.SameOff.refl _ _,
      List.Perm.refl _, by simp⟩
  · let P (runs : List (List (ℕ × α))) : Prop := runs.flatten.Perm cells ∧
      (Orders cmp (cells.map Prod.snd) → ∃ lists : List (List (ℕ × α)),
        runs = lists.map (fun l => l.mergeSort (cellLe cmp)) ∧ lists.flatten = cells)
    have hP : ∀ runs, P runs → P (MergeRuns.mergePairs (cellLe cmp) runs) := by
      rintro runs ⟨hperm, hsorted⟩
      refine ⟨(MergeRuns.mergePairs_perm _ _).trans hperm, fun hord => ?_⟩
      obtain ⟨lists, rfl, hflat⟩ := hsorted hord
      refine ⟨MergeRuns.joinPairs lists, ?_, (MergeRuns.flatten_joinPairs lists).trans hflat⟩
      apply MergeRuns.mergePairs_mergeSort
      rw [hflat]
      exact hord.ordered
    have hflat : (cells.map fun c => [c]).flatten = cells := by
      rw [← List.flatMap_def]
      exact List.flatMap_singleton' cells
    have hne : cells ≠ [] := fun hnil => hlist (hh.head_eq_null_iff.mpr hnil)
    have hstart : P (cells.map fun c => [c]) := by
      refine ⟨by rw [hflat], fun _ => ⟨cells.map fun c => [c], ?_, hflat⟩⟩
      simp
    have hlen : (cells.map fun c => [c]).length ≤ n := by rwa [List.length_map]
    obtain ⟨h', list', run, hloop, ⟨hperm, hsorted⟩, hh', hsame⟩ := Holds.loop cmp hP
      (hflat.symm ▸ hh) (MergeRuns.runs_singletons cells) (by simpa using hne) hlen hlen hstart
    refine ⟨h', list', run, by simpa [Dlist.sort, hlist] using hloop, hh', hflat ▸ hsame,
      by simpa using hperm, fun hord => ?_⟩
    obtain ⟨lists, hrun, hlists⟩ := hsorted hord
    obtain ⟨l, rfl, hl⟩ := List.map_eq_singleton_iff.mp hrun.symm
    rw [← hl, ← hlists, List.flatten_singleton]

end Dlist
