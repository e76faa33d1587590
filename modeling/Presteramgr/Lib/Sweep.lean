import Mathlib.Data.List.Range
import Mathlib.Logic.Function.Basic

/-!
# Sweeps

A loop `for (i = 0; i < n; i++)` changes the state once for each index. `sweep f n s` is the state
after it.

## Main results

* `foldl_keeps`, `foldl_writes`: loops over a list that keep a component, or set it to one value;
* `sweep_invariant`: what each round preserves the sweep preserves;
* `sweep_congr`: rounds that agree while an invariant holds;
* `sweep_at`: a sweep whose rounds only change their own component;
* `sweep_update`: in a row that some rounds write to, the last write to a place counts;
* `sweepM_invariant`, `sweepM_returns`: a sweep whose rounds may fail, but do not fail.
-/

namespace Sweep

open Function (update update_self update_of_ne)

variable {σ α β : Type*} {f : σ → ℕ → σ} {n : ℕ} {s : σ}

/-- The state after the rounds `0, …, n - 1`. -/
def sweep (f : σ → ℕ → σ) (n : ℕ) (s : σ) : σ := (List.range n).foldl f s

@[simp] theorem sweep_zero (f : σ → ℕ → σ) (s : σ) : sweep f 0 s = s := rfl

theorem sweep_succ (f : σ → ℕ → σ) (n : ℕ) (s : σ) : sweep f (n + 1) s = f (sweep f n s) n := by
  unfold sweep
  rw [List.range_succ, List.foldl_append, List.foldl_cons, List.foldl_nil]

/-- A loop over a list keeps what each of its rounds keeps. -/
theorem foldl_keeps {f : σ → α → σ} (p : σ → β) {l : List α} (hf : ∀ s, ∀ a ∈ l, p (f s a) = p s)
    (s : σ) : p (l.foldl f s) = p s := by
  induction l generalizing s with
  | nil => rfl
  | cons a l ih =>
    calc
      p (l.foldl f (f s a)) = p (f s a) := ih (fun s b hb => hf s b (List.mem_cons_of_mem a hb)) _
      _ = p s := hf s a List.mem_cons_self

/-- A loop over a list some rounds of which set a component to one and the same value. -/
theorem foldl_writes {f : σ → α → σ} (p : σ → β) (W : α → Prop) [DecidablePred W] (b : β)
    (hf : ∀ s a, p (f s a) = if W a then b else p s) (l : List α) (s : σ) :
    p (l.foldl f s) = if ∃ a ∈ l, W a then b else p s := by
  induction l generalizing s with
  | nil => exact (if_neg fun ⟨_, h, _⟩ => List.not_mem_nil h).symm
  | cons a l ih =>
    rw [List.foldl_cons, ih, hf, if_congr (List.exists_mem_cons_iff ..) rfl rfl]
    by_cases hl : ∃ a ∈ l, W a
    · rw [if_pos hl, if_pos (.inr hl)]
    · -- no later round sets it
      rw [if_neg hl, if_congr (or_iff_left hl) rfl rfl]

/-- What holds before the sweep and is preserved by each round holds after it. -/
theorem sweep_invariant (P : σ → Prop) (hs : P s) (hf : ∀ s, ∀ i < n, P s → P (f s i)) :
    P (sweep f n s) := by
  induction n with
  | zero => exact hs
  | succ n ih =>
    rw [sweep_succ]
    exact hf _ n (Nat.lt_succ_self n) (ih fun s i hi => hf s i (Nat.lt_succ_of_lt hi))

/-- Rounds that agree in the states of an invariant make the same sweep. -/
theorem sweep_congr {g : σ → ℕ → σ} (P : σ → Prop) (hs : P s) (hg : ∀ s, ∀ i < n, P s → P (g s i))
    (hfg : ∀ s, ∀ i < n, P s → f s i = g s i) : sweep f n s = sweep g n s := by
  induction n with
  | zero => rfl
  | succ n ih =>
    have hP : P (sweep g n s) := sweep_invariant P hs fun s i hi => hg s i (Nat.lt_succ_of_lt hi)
    rw [sweep_succ, sweep_succ, ih (fun s i hi => hg s i (Nat.lt_succ_of_lt hi))
      fun s i hi => hfg s i (Nat.lt_succ_of_lt hi)]
    exact hfg _ n (Nat.lt_succ_self n) hP

/-- A sweep whose rounds change, of the components that `get` gives, only the one of their index,
and this depending on its own value only. -/
theorem sweep_at (get : σ → ℕ → α) (g : ℕ → α → α) (i : ℕ)
    (hf : ∀ s, ∀ j < n, get (f s j) i = if i = j then g i (get s i) else get s i) :
    get (sweep f n s) i = if i < n then g i (get s i) else get s i := by
  induction n with
  | zero => rfl
  | succ n ih =>
    rw [sweep_succ, hf _ n (Nat.lt_succ_self n),
      ih fun s j hj => hf s j (Nat.lt_succ_of_lt hj)]
    by_cases hi : i = n
    · subst hi
      rw [if_pos rfl, if_neg (Nat.lt_irrefl i), if_pos (Nat.lt_succ_self i)]
    · rw [if_neg hi]
      exact if_congr (by omega) rfl rfl

/-- In a row where the round `i` makes the write `write i`, if it makes one, the last write to a
place counts: if every write of another value is followed by one of `v`, and the place has the value
`v` from the start or is written at all, it has the value `v` at the end. -/
theorem sweep_update (row : σ → ℕ → β) (write : ℕ → Option (ℕ × β)) {b : ℕ} {v : β}
    (hf : ∀ s, ∀ i < n, row (f s i) = match write i with
      | some (b', v') => update (row s) b' v'
      | none => row s)
    (hstart : row s b = v ∨ ∃ i < n, ∃ v', write i = some (b, v'))
    (hlast : ∀ i < n, ∀ v', write i = some (b, v') → v' = v ∨
      ∃ j < n, i < j ∧ write j = some (b, v)) :
    row (sweep f n s) b = v := by
  induction n with
  | zero =>
    obtain h | ⟨i, hi, -⟩ := hstart
    · exact h
    · exact absurd hi (Nat.not_lt_zero i)
  | succ n ih =>
    rw [sweep_succ, hf _ n (Nat.lt_succ_self n)]
    have hf' : ∀ s, ∀ i < n, row (f s i) = match write i with
        | some (b', v') => update (row s) b' v'
        | none => row s := fun s i hi => hf s i (Nat.lt_succ_of_lt hi)
    by_cases hn : ∃ v', write n = some (b, v')
    · -- the last round writes the place: no later one can be meant
      obtain ⟨v', hv'⟩ := hn
      rw [hv']
      simp only [update_self]
      obtain h | ⟨j, hj, hnj, -⟩ := hlast n (Nat.lt_succ_self n) v' hv'
      · exact h
      · omega
    · have hrow : row (sweep f n s) b = v := by
        refine ih hf' ?_ fun i hi v' hv' => ?_
        · refine hstart.imp_right ?_
          rintro ⟨i, hi, hw⟩
          obtain h | rfl := Nat.lt_succ_iff_lt_or_eq.mp hi
          · exact ⟨i, h, hw⟩
          · exact absurd hw hn
        · refine (hlast i (Nat.lt_succ_of_lt hi) v' hv').imp_right ?_
          rintro ⟨j, hj, hij, hw⟩
          obtain h | rfl := Nat.lt_succ_iff_lt_or_eq.mp hj
          · exact ⟨j, h, hij, hw⟩
          · exact absurd ⟨v, hw⟩ hn
      cases hw : write n with
      | none => exact hrow
      | some w =>
        obtain ⟨b', v'⟩ := w
        have hb : b ≠ b' := fun h => hn ⟨v', by rw [hw, h]⟩
        simp only [update_of_ne hb]
        exact hrow

/-! ### Rounds that may fail -/

/-- The state after the rounds `0, …, n - 1`, if none of them fails. -/
def sweepM (f : σ → ℕ → Option σ) (n : ℕ) (s : σ) : Option σ := (List.range n).foldlM f s

theorem sweepM_succ (f : σ → ℕ → Option σ) (n : ℕ) (s : σ) :
    sweepM f (n + 1) s = (sweepM f n s).bind (f · n) := by
  unfold sweepM
  rw [List.range_succ, List.foldlM_append]
  refine congrArg _ (funext fun s' => ?_)
  cases h : f s' n <;> simp [h]

/-- What holds at the start and is carried on by each round holds after a sweep that returns. -/
theorem sweepM_invariant {f : σ → ℕ → Option σ} (P : ℕ → σ → Prop) {s' : σ}
    (h : sweepM f n s = some s') (hs : P 0 s)
    (hf : ∀ s, ∀ i < n, ∀ s', P i s → f s i = some s' → P (i + 1) s') : P n s' := by
  induction n generalizing s' with
  | zero => exact Option.some_inj.mp h ▸ hs
  | succ n ih =>
    rw [sweepM_succ] at h
    obtain ⟨s₁, hs₁, h⟩ := Option.bind_eq_some_iff.mp h
    exact hf s₁ n (Nat.lt_succ_self n) s' (ih hs₁ fun s i hi => hf s i (Nat.lt_succ_of_lt hi)) h

/-- A sweep returns if each round returns and reaches what the next one needs. -/
theorem sweepM_returns {f : σ → ℕ → Option σ} (P : ℕ → σ → Prop) (hs : P 0 s)
    (hf : ∀ s, ∀ i < n, P i s → ∃ s', f s i = some s' ∧ P (i + 1) s') :
    ∃ s', sweepM f n s = some s' ∧ P n s' := by
  induction n with
  | zero => exact ⟨s, rfl, hs⟩
  | succ n ih =>
    obtain ⟨s₁, hs₁, hP⟩ := ih fun s i hi => hf s i (Nat.lt_succ_of_lt hi)
    obtain ⟨s₂, hs₂, hP⟩ := hf s₁ n (Nat.lt_succ_self n) hP
    exact ⟨s₂, by rw [sweepM_succ, hs₁, Option.bind_some, hs₂], hP⟩

end Sweep
