import Mathlib.Data.List.Basic
import Mathlib.Data.List.Nodup

/-!
# Doubly linked segments in an index-addressed memory

Cells are named by indices `ι`, and a memory is given by its link functions `succ` and `pred`.
`Path succ h l t` says that following `succ` from `h` visits exactly the cells of `l`, in order,
and arrives at `t`. `Back pred p l` says that the back links of `l` are right: each cell points
back to the cell before it and the first one to `p`.

## Main results

* `path_append` and `back_append`: both predicates split along `++`;
* `Path.congr` and `Back.congr`: they depend on the links of the cells of `l` only;
* `Path.map_succ`: the successors of the cells of a path are its cells shifted by one;
* `Path.unique`: the cells visited up to a terminator are determined by the start;
* `Path.unlink` and `Path.append_cell`, `Back.unlink` and `Back.append_cell`: taking a cell out
  of a list and adding one at its end.
-/

namespace Linked

variable {ι : Type*} {succ succ' pred pred' : ι → ι} {h p s t x : ι} {l a b : List ι}

/-- Following `succ` from `h` visits exactly the cells of `l` and then arrives at `t`. -/
def Path (succ : ι → ι) : ι → List ι → ι → Prop
  | h, [], t => h = t
  | h, i :: l, t => h = i ∧ Path succ (succ i) l t

/-- Each cell of `l` points back to the cell before it, and the first one to `p`. -/
def Back (pred : ι → ι) : ι → List ι → Prop
  | _, [] => True
  | p, i :: l => pred i = p ∧ Back pred i l

@[simp]
theorem path_nil : Path succ h [] t ↔ h = t := Iff.rfl

@[simp]
theorem path_cons : Path succ h (x :: l) t ↔ h = x ∧ Path succ (succ x) l t := Iff.rfl

@[simp]
theorem back_nil : Back pred p [] := trivial

@[simp]
theorem back_cons : Back pred p (x :: l) ↔ pred x = p ∧ Back pred x l := Iff.rfl

/-- A path splits at any point of its list of cells. -/
theorem path_append : Path succ h (a ++ b) t ↔ ∃ m, Path succ h a m ∧ Path succ m b t := by
  induction a generalizing h with
  | nil => simp
  | cons x a ih => simp [ih, and_assoc]

/-- A path whose last cell is `x` ends one step after `x`. -/
@[simp]
theorem path_concat : Path succ h (a ++ [x]) t ↔ Path succ h a x ∧ succ x = t := by
  rw [path_append]
  constructor
  · rintro ⟨m, hm, rfl, hx⟩
    exact ⟨hm, hx⟩
  · rintro ⟨hm, hx⟩
    exact ⟨x, hm, rfl, hx⟩

/-- A path through `x` passes from the cells before `x` to the cells after it. -/
theorem path_append_cons :
    Path succ h (a ++ x :: b) t ↔ Path succ h a x ∧ Path succ (succ x) b t := by
  rw [path_append]
  constructor
  · rintro ⟨m, hm, rfl, hx⟩
    exact ⟨hm, hx⟩
  · rintro ⟨hm, hx⟩
    exact ⟨x, hm, rfl, hx⟩

/-- A path depends on the links of its own cells only. -/
theorem Path.congr (hp : Path succ h l t) (heq : ∀ i ∈ l, succ' i = succ i) :
    Path succ' h l t := by
  induction l generalizing h with
  | nil => exact hp
  | cons x l ih =>
    obtain ⟨rfl, hp⟩ := hp
    refine ⟨rfl, ?_⟩
    rw [heq h List.mem_cons_self]
    exact ih hp fun i hi => heq i (List.mem_cons_of_mem _ hi)

/-- Back links split along `++`, the second part pointing back to the last cell of the first. -/
theorem back_append : Back pred p (a ++ b) ↔ Back pred p a ∧ Back pred (a.getLastD p) b := by
  induction a generalizing p with
  | nil => simp
  | cons x a ih => rw [List.cons_append, back_cons, back_cons, ih, List.getLastD_cons, and_assoc]

/-- Back links depend on the links of the cells themselves only. -/
theorem Back.congr (hb : Back pred p l) (heq : ∀ i ∈ l, pred' i = pred i) :
    Back pred' p l := by
  induction l generalizing p with
  | nil => trivial
  | cons x l ih =>
    obtain ⟨hx, hb⟩ := hb
    exact ⟨(heq x List.mem_cons_self).trans hx,
      ih hb fun i hi => heq i (List.mem_cons_of_mem _ hi)⟩

/-- The cells visited from a start up to a terminator outside them are determined. -/
theorem Path.unique {l' : List ι} (hp : Path succ h l t) (hp' : Path succ h l' t)
    (ht : t ∉ l) (ht' : t ∉ l') : l = l' := by
  induction l generalizing h l' with
  | nil =>
    cases l' with
    | nil => rfl
    | cons y l' =>
      obtain ⟨rfl, -⟩ := hp'
      cases hp
      simp at ht'
  | cons x l ih =>
    obtain ⟨rfl, hp⟩ := hp
    cases l' with
    | nil =>
      cases hp'
      simp at ht
    | cons y l' =>
      obtain ⟨rfl, hp'⟩ := hp'
      rw [ih hp hp' (fun hm => ht (List.mem_cons_of_mem _ hm))
        fun hm => ht' (List.mem_cons_of_mem _ hm)]

/-- The successors of the cells of a path are the cells themselves shifted by one. -/
theorem Path.map_succ (hp : Path succ h l t) : h :: l.map succ = l ++ [t] := by
  induction l generalizing h with
  | nil => rw [path_nil.mp hp]; rfl
  | cons x l ih =>
    obtain ⟨rfl, hp⟩ := hp
    rw [List.map_cons, ih hp, List.cons_append]

section Simple

variable (hp : Path succ h l t) (hnd : l.Nodup) (ht : t ∉ l)

include hp hnd ht

private theorem Path.nodup_succ : (h :: l.map succ).Nodup := by
  rw [hp.map_succ]
  exact List.nodup_append.mpr ⟨hnd, List.nodup_singleton t, by
    rintro a ha b hb rfl
    exact ht (List.mem_singleton.mp hb ▸ ha)⟩

/-- Different cells of a path have different successors. -/
theorem Path.succ_inj {i j : ι} (hi : i ∈ l) (hj : j ∈ l) (heq : succ i = succ j) : i = j :=
  List.inj_on_of_nodup_map (hp.nodup_succ hnd ht).of_cons hi hj heq

/-- No cell of a path is linked to its start. -/
theorem Path.succ_ne_start {j : ι} (hj : j ∈ l) : succ j ≠ h := fun heq =>
  (List.nodup_cons.mp (hp.nodup_succ hnd ht)).1 (heq ▸ List.mem_map_of_mem hj)

omit hnd ht in
/-- A cell of a path is linked to a cell of the path or to its end. -/
theorem Path.succ_mem {j : ι} (hj : j ∈ l) : succ j ∈ l ∨ succ j = t := by
  have hmem : succ j ∈ l ++ [t] := hp.map_succ ▸ List.mem_cons_of_mem _ (List.mem_map_of_mem hj)
  simpa using hmem

end Simple

/-- The start of a path that visits a cell is its first cell. -/
theorem Path.start_mem (hp : Path succ h l t) (hne : l ≠ []) : h ∈ l := by
  cases l with
  | nil => exact absurd rfl hne
  | cons x l => exact hp.1 ▸ List.mem_cons_self

/-- Every cell but the first is the successor of a cell of the path. -/
theorem Path.exists_succ_eq (hp : Path succ h l t) (hx : x ∈ l) (hxh : x ≠ h) :
    ∃ w ∈ l, succ w = x := by
  have hmem : x ∈ h :: l.map succ := hp.map_succ ▸ List.mem_append_left _ hx
  rcases List.mem_cons.mp hmem with heq | hmem
  · exact absurd heq hxh
  · exact List.mem_map.mp hmem

/-- In a segment linked both ways the back link inverts the link. -/
theorem Back.pred_succ (hb : Back pred p l) (hp : Path succ h l t) (hnd : l.Nodup) (ht : t ∉ l)
    (hx : x ∈ l) (hsx : succ x ∈ l) : pred (succ x) = x := by
  obtain ⟨a, b, rfl⟩ := List.append_of_mem hx
  have hb' := (path_append_cons.mp hp).2
  cases b with
  | nil => exact absurd hsx (path_nil.mp hb' ▸ ht)
  | cons y b =>
    rw [hb'.1]
    exact (back_append.mp hb).2.2.1

/-- In a segment linked both ways a cell points back to `x` exactly when it follows `x`. -/
theorem Back.pred_eq_iff (hb : Back pred p l) (hp : Path succ h l t) (hnd : l.Nodup)
    (ht : t ∉ l) (hpx : p ≠ x) (hx : x ∈ l) {j : ι} (hj : j ∈ l) :
    pred j = x ↔ j = succ x := by
  constructor
  · intro hpred
    have hjh : j ≠ h := by
      rintro rfl
      cases l with
      | nil => simp at hj
      | cons y l =>
        obtain ⟨rfl, -⟩ := hp
        exact hpx (hb.1 ▸ hpred)
    obtain ⟨w, hw, rfl⟩ := hp.exists_succ_eq hj hjh
    rw [← hpred, hb.pred_succ hp hnd ht hw hj]
  · rintro rfl
    exact hb.pred_succ hp hnd ht hx hj

variable [DecidableEq ι]

/-- A link outside a path may change. -/
theorem Path.update (hp : Path succ h l t) (hx : x ∉ l) (v : ι) :
    Path (Function.update succ x v) h l t :=
  hp.congr fun _ hi => Function.update_of_ne (ne_of_mem_of_not_mem hi hx) ..

/-- A back link outside a segment may change. -/
theorem Back.update (hb : Back pred p l) (hx : x ∉ l) (v : ι) :
    Back (Function.update pred x v) p l :=
  hb.congr fun _ hi => Function.update_of_ne (ne_of_mem_of_not_mem hi hx) ..

/-- Taking the cell `x` out of a path: the cell linked to `x` is linked to the successor of `x`
instead. -/
theorem Path.unlink (hp : Path succ h (a ++ x :: b) t) (hnd : (a ++ x :: b).Nodup)
    (ht : t ∉ a ++ x :: b)
    (hs : ∀ j ∈ a ++ b, succ' j = if succ j = x then succ x else succ j) :
    Path succ' (if a = [] then succ x else h) (a ++ b) t := by
  have hx : x ∉ a ++ b := (List.nodup_cons.mp (List.nodup_middle.mp hnd)).1
  obtain ⟨ha, hb⟩ := path_append_cons.mp hp
  have hmemb : ∀ j ∈ b, j ∈ a ++ x :: b := fun j hj => by simp [hj]
  -- no cell after `x` is linked to `x`
  have hb' : Path succ' (succ x) b t := by
    refine hb.congr fun j hj => ?_
    rw [hs j (List.mem_append_right _ hj), if_neg]
    intro heq
    rcases List.eq_nil_or_concat a with rfl | ⟨a', w, rfl⟩
    · exact hp.succ_ne_start hnd ht (hmemb j hj) (heq.trans (path_nil.mp ha).symm)
    · rw [List.concat_eq_append] at *
      have hw := (path_concat.mp ha).2
      have hjw := hp.succ_inj hnd ht (hmemb j hj) (by simp) (heq.trans hw.symm)
      rw [List.append_assoc] at hnd
      exact (List.nodup_append.mp hnd).2.1.notMem
        (by rw [← hjw]; simp [hj])
  rcases List.eq_nil_or_concat a with rfl | ⟨a', w, rfl⟩
  · simpa using hb'
  · rw [List.concat_eq_append] at *
    obtain ⟨ha', hw⟩ := path_concat.mp ha
    rw [if_neg (by simp), path_append]
    refine ⟨succ x, path_concat.mpr ⟨ha'.congr fun j hj => ?_, ?_⟩, hb'⟩
    · rw [hs j (by simp [hj]), if_neg]
      intro heq
      have hjw := hp.succ_inj hnd ht (by simp [hj]) (by simp) (heq.trans hw.symm)
      subst hjw
      rw [List.append_assoc] at hnd
      exact (List.nodup_append.mp hnd).2.2 j hj j (by simp) rfl
    · rw [hs w (by simp), if_pos hw]

/-- Adding the cell `x` at the end of a path: the last cell is linked to `x`. -/
theorem Path.append_cell {t' : ι} (hp : Path succ h l t) (hne : l ≠ []) (hnd : l.Nodup)
    (ht : t ∉ l) (hs : ∀ j ∈ l, succ' j = if succ j = t then x else succ j)
    (hx : succ' x = t') : Path succ' h (l ++ [x]) t' := by
  rcases List.eq_nil_or_concat l with rfl | ⟨l', y, rfl⟩
  · exact absurd rfl hne
  · rw [List.concat_eq_append] at *
    obtain ⟨hp', hy⟩ := path_concat.mp hp
    refine path_concat.mpr ⟨path_concat.mpr ⟨hp'.congr fun j hj => ?_, ?_⟩, hx⟩
    · rw [hs j (by simp [hj]), if_neg]
      intro heq
      have hjy := hp.succ_inj hnd ht (by simp [hj]) (by simp) (heq.trans hy.symm)
      subst hjy
      exact (List.nodup_append.mp hnd).2.2 j hj j (by simp) rfl
    · rw [hs y (by simp), if_pos hy]

/-- Taking the cell `x` out of a list: the cell that points back to `x` points to the cell
before `x` instead. -/
theorem Back.unlink (hb : Back pred p (a ++ x :: b)) (hnd : (a ++ x :: b).Nodup)
    (hp : p ≠ x) (hs : ∀ j ∈ a ++ b, pred' j = if pred j = x then pred x else pred j) :
    Back pred' p (a ++ b) := by
  induction a generalizing p with
  | nil =>
    obtain ⟨hx, hb⟩ := back_cons.mp hb
    cases b with
    | nil => trivial
    | cons y b =>
      obtain ⟨hy, hb⟩ := back_cons.mp hb
      refine ⟨by rw [hs y (by simp), if_pos hy, hx], hb.congr fun j hj => ?_⟩
      rw [hs j (by simp [hj]), if_neg]
      intro heq
      -- only the first cell after `x` points back to `x`
      obtain ⟨c, d, rfl⟩ := List.append_of_mem hj
      have hjb := (back_cons.mp (back_append.mp hb).2).1
      rw [heq] at hjb
      have hxin : x ∈ y :: (c ++ j :: d) := by
        rcases List.eq_nil_or_concat c with rfl | ⟨c', z, rfl⟩
        · simp only [List.getLastD_nil] at hjb
          simp [hjb]
        · rw [List.concat_eq_append, List.getLastD_concat] at hjb
          simp [hjb]
      exact (List.nodup_cons.mp hnd).1 hxin
  | cons y a ih =>
    obtain ⟨hy, hb⟩ := back_cons.mp hb
    have hyx : y ≠ x := by
      rintro rfl
      exact (List.nodup_cons.mp hnd).1 (by simp)
    refine ⟨?_, ih hb hnd.of_cons hyx fun j hj => hs j (List.mem_cons_of_mem _ hj)⟩
    rw [hs y List.mem_cons_self, if_neg (by rw [hy]; exact hp), hy]

omit [DecidableEq ι] in
/-- Adding the cell `x` at the end of a list: it points back to the last cell. -/
theorem Back.append_cell (hb : Back pred p l) (hs : ∀ j ∈ l, pred' j = pred j)
    (hx : pred' x = l.getLastD p) : Back pred' p (l ++ [x]) :=
  back_append.mpr ⟨hb.congr hs, hx, trivial⟩

end Linked
