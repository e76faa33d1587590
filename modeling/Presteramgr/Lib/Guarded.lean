import Mathlib.Tactic.SplitIfs

/-!
# Guarded transition systems

A system is a partial step function `step : σ → Op → Option σ`, `none` meaning that the
operation does not return. A guard `ok : σ → Op → Prop` restricts which operation may be taken
in which state, and `Reach step ok s₀` is the set of states that runs of guarded steps reach
from `s₀`.

## Main results

* `Reach.invariant`: what holds initially and is preserved by guarded steps holds in every
  reachable state;
* `Reach.snoc`: one more step of a run;
* `Reach.mono`: a stronger guard reaches fewer states;
* `Reach.of_run`: a run computed by `run` is a run of guarded steps.
-/

namespace Guarded

variable {σ Op : Type*}

/-- States reached from `s₀` by steps whose operation meets the guard in the state before. -/
inductive Reach (step : σ → Op → Option σ) (ok : σ → Op → Prop) (s₀ : σ) : σ → Prop
  | init : Reach step ok s₀ s₀
  | step {s s' : σ} {op : Op} :
      Reach step ok s₀ s → ok s op → step s op = some s' → Reach step ok s₀ s'

variable {step : σ → Op → Option σ} {ok ok' : σ → Op → Prop} {s₀ s : σ}

/-- An invariant of the initial state and of every guarded step holds in every reachable state. -/
theorem Reach.invariant (Inv : σ → Prop) (hr : Reach step ok s₀ s) (hinit : Inv s₀)
    (hstep : ∀ s op s', Inv s → ok s op → step s op = some s' → Inv s') : Inv s := by
  induction hr with
  | init => exact hinit
  | step _ hok hs ih => exact hstep _ _ _ ih hok hs

/-- A run that goes on with the operation `op`. -/
theorem Reach.snoc (hr : Reach step ok s₀ s) (op : Op) {s' : σ} (hok : ok s op)
    (hs : step s op = some s') : Reach step ok s₀ s' :=
  .step hr hok hs

/-- A stronger guard reaches fewer states. -/
theorem Reach.mono (hr : Reach step ok s₀ s) (himp : ∀ s op, ok s op → ok' s op) :
    Reach step ok' s₀ s := by
  induction hr with
  | init => exact .init
  | step _ hok hs ih => exact .step ih (himp _ _ hok) hs

/-- The state after the operations of a list, `none` when one of them is not allowed by the guard
or does not return. -/
def run (step : σ → Op → Option σ) (ok : σ → Op → Prop) [∀ s op, Decidable (ok s op)] :
    σ → List Op → Option σ
  | s, [] => some s
  | s, op :: ops => if ok s op then (step s op).bind fun s' => run step ok s' ops else none

/-- A computed run reaches its last state. -/
theorem Reach.of_run [∀ s op, Decidable (ok s op)] {ops : List Op} {s' : σ}
    (hr : Reach step ok s₀ s) (hrun : run step ok s ops = some s') : Reach step ok s₀ s' := by
  induction ops generalizing s with
  | nil =>
    obtain rfl := Option.some_inj.mp hrun
    exact hr
  | cons op ops ih =>
    rw [run] at hrun
    split_ifs at hrun with hok
    obtain ⟨s₁, hs₁, hrun⟩ := Option.bind_eq_some_iff.mp hrun
    exact ih (hr.step hok hs₁) hrun

end Guarded
