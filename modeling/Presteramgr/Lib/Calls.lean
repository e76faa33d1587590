import Mathlib.Data.List.Infix

/-!
# Calls until the first one fails

A function is called on the elements of a list, one after the other, until a call does not return
the value `ok`.

## Main definitions

* `run`: the status and the state after the calls;
* `made`: the elements it was called on;
* `FailsFirst`: the first element that it fails for, with those before and after it;
* `logged`: the function, with a log of its arguments in the state.

## Main results

* `run_append`: a list in two parts;
* `ok_or_fails`: the calls are all right, and made on all elements, or there is a first failure;
* `FailsFirst.made_eq`: then they are made up to this one;
* `run_logged`: the log of a run is `made`.
-/

namespace Calls

variable {α σ ε : Type*} [DecidableEq ε] (ok : ε) (op : α → σ → ε × σ)

/-- The calls on a list. -/
def run : List α → σ → ε × σ
  | [], s => (ok, s)
  | x :: xs, s => if (op x s).1 = ok then run xs (op x s).2 else op x s

/-- The elements on which calls are made. -/
def made : List α → σ → List α
  | [], _ => []
  | x :: xs, s => x :: if (op x s).1 = ok then made xs (op x s).2 else []

/-- The function, with a log of its arguments. -/
def logged (x : α) (s : List α × σ) : ε × List α × σ := ((op x s.2).1, s.1 ++ [x], (op x s.2).2)

/-- The function is called on `x` after the elements `pre` of the list, and is the first to fail. -/
structure FailsFirst (l : List α) (s : σ) (pre : List α) (x : α) (post : List α) : Prop where
  split : l = pre ++ x :: post
  before : (run ok op pre s).1 = ok
  fails : (op x (run ok op pre s).2).1 ≠ ok

variable {ok op}

/-- The calls of two lists: those of the second are made when all of the first succeed. -/
theorem run_append (l l' : List α) (s : σ) : run ok op (l ++ l') s =
    if (run ok op l s).1 = ok then run ok op l' (run ok op l s).2 else run ok op l s := by
  induction l generalizing s with
  | nil => exact (if_pos rfl).symm
  | cons x l ih =>
    rw [List.cons_append, run, run]
    by_cases hx : (op x s).1 = ok
    · rw [if_pos hx, if_pos hx, ih]
    · rw [if_neg hx, if_neg hx, if_neg hx]

/-- The calls that are made are the first ones of the list. -/
theorem made_prefix (l : List α) (s : σ) : made ok op l s <+: l := by
  induction l generalizing s with
  | nil => exact List.nil_prefix
  | cons x l ih =>
    rw [made, List.cons_prefix_cons]
    refine ⟨rfl, ?_⟩
    split_ifs
    · exact ih _
    · exact List.nil_prefix

/-- The calls end with the first failure. -/
theorem FailsFirst.made_eq {l pre post : List α} {s : σ} {x : α}
    (h : FailsFirst ok op l s pre x post) :
    made ok op l s = pre ++ [x] ∧ (run ok op l s).1 ≠ ok := by
  obtain ⟨rfl, hpre, hx⟩ := h
  induction pre generalizing s with
  | nil =>
    rw [run] at hx
    rw [List.nil_append, made, run, if_neg hx, if_neg hx]
    exact ⟨rfl, hx⟩
  | cons y pre ih =>
    by_cases hy : (op y s).1 = ok
    · rw [run, if_pos hy] at hpre hx
      rw [List.cons_append, made, run, if_pos hy, if_pos hy, List.cons_append]
      exact (ih hpre hx).imp_left (congrArg (y :: ·))
    · rw [run, if_neg hy] at hpre
      exact absurd hpre hy

/-- Either all calls succeed, or one is the first that fails. -/
theorem ok_or_fails (l : List α) (s : σ) :
    (run ok op l s).1 = ok ∧ made ok op l s = l ∨
        ∃ pre x post, FailsFirst ok op l s pre x post := by
  induction l generalizing s with
  | nil => exact .inl ⟨rfl, rfl⟩
  | cons y l ih =>
    by_cases hy : (op y s).1 = ok
    · obtain ⟨hrun, hmade⟩ | ⟨pre, x, post, hsplit, hpre, hx⟩ := ih (op y s).2
      · refine .inl ?_
        rw [run, made, if_pos hy, if_pos hy, hmade]
        exact ⟨hrun, rfl⟩
      · refine .inr ⟨y :: pre, x, post, by rw [hsplit, List.cons_append], ?_, ?_⟩
        · rwa [run, if_pos hy]
        · rwa [run, if_pos hy]
    · exact .inr ⟨[], y, l, rfl, rfl, hy⟩

/-- The log of the calls. -/
theorem run_logged (l c : List α) (s : σ) : run ok (logged op) l (c, s) =
    ((run ok op l s).1, c ++ made ok op l s, (run ok op l s).2) := by
  induction l generalizing c s with
  | nil => rw [made, List.append_nil, run, run]
  | cons x l ih =>
    rw [run, run, made]
    by_cases hx : (op x s).1 = ok
    · have hlog : (logged op x (c, s)).1 = ok := hx
      rw [if_pos hlog, if_pos hx, if_pos hx]
      refine (ih (c ++ [x]) (op x s).2).trans ?_
      rw [List.append_assoc, List.singleton_append]
    · have hlog : (logged op x (c, s)).1 ≠ ok := hx
      rw [if_neg hlog, if_neg hx, if_neg hx]
      rfl

end Calls
