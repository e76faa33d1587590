import Mathlib.Data.Option.Basic

/-!
# Two runs side by side

A system that answers is a partial step function `step : σ → Op → Option (O × σ)`, `none` meaning
that the operation does not return. Two systems that are given the same operations are compared by a
relation between their states.

## Main results

* `Same.outputs_some`: where allowed operations return and answer alike, so do whole runs;
* `Same.outputs`: where related states answer alike and go on to related states, so do whole runs;
* `Ok.invariant`: what every allowed step keeps, a run of allowed steps keeps;
* `ok_of_outputs`: what the answer to an operation implies, a run implies for all of its operations.
-/

namespace Lockstep

variable {σ τ Op O : Type*}

/-- The answers to the operations of a list, with the state after them. -/
def outputs (step : σ → Op → Option (O × σ)) : List Op → σ → Option (List O × σ)
  | [], s => some ([], s)
  | op :: ops, s =>
    (step s op).bind fun r => (outputs step ops r.2).map fun rs => (r.1 :: rs.1, rs.2)

/-- Each operation of a list is allowed in the state that it is given in. -/
def Ok (step : σ → Op → Option (O × σ)) (ok : σ → Op → Prop) : List Op → σ → Prop
  | [], _ => True
  | op :: ops, s => ok s op ∧ ∀ r ∈ step s op, Ok step ok ops r.2

/-- Whether a list of operations is allowed can be computed. -/
def Ok.decide (step : σ → Op → Option (O × σ)) (ok : σ → Op → Prop) [∀ s op, Decidable (ok s op)] :
    ∀ (ops : List Op) (s : σ), Decidable (Ok step ok ops s)
  | [], _ => .isTrue trivial
  | op :: ops, s =>
    letI := fun r : O × σ => Ok.decide step ok ops r.2
    inferInstanceAs (Decidable (ok s op ∧ ∀ r ∈ step s op, Ok step ok ops r.2))

instance (step : σ → Op → Option (O × σ)) (ok : σ → Op → Prop) [∀ s op, Decidable (ok s op)]
    (ops : List Op) (s : σ) : Decidable (Ok step ok ops s) := Ok.decide step ok ops s

theorem Ok.of_forall {step : σ → Op → Option (O × σ)} {ok : σ → Op → Prop} {ops : List Op}
    (h : ∀ op ∈ ops, ∀ s, ok s op) (s : σ) : Ok step ok ops s := by
  induction ops generalizing s with
  | nil => trivial
  | cons op ops ih =>
    exact ⟨h op List.mem_cons_self s,
      fun r _ => ih (fun op hop => h op (List.mem_cons_of_mem _ hop)) r.2⟩

/-- Both operations return the same answer and lead to related states, or neither returns. -/
def Same (R : σ → τ → Prop) : Option (O × σ) → Option (O × τ) → Prop :=
  Option.Rel fun r r' => r.1 = r'.1 ∧ R r.2 r'.2

namespace Same

variable {R : σ → τ → Prop} {step : σ → Op → Option (O × σ)} {step' : τ → Op → Option (O × τ)}
  {ok : σ → Op → Prop} {ops : List Op} {s : σ} {t : τ}

theorem answer {o : O} (h : R s t) : Same R (some (o, s)) (some (o, t)) := .some ⟨rfl, h⟩

theorem map_fst {x : Option (O × σ)} {y : Option (O × τ)} (h : Same R x y) :
    x.map Prod.fst = y.map Prod.fst := by
  cases h with
  | some h => exact congrArg some h.1
  | none => rfl

/-- Results that are made from related values. -/
theorem map {α β : Type*} {S : α → β → Prop} {x : Option α} {y : Option β} {f : α → O × σ}
    {g : β → O × τ} (h : Option.Rel S x y)
    (hfg : ∀ a b, S a b → (f a).1 = (g b).1 ∧ R (f a).2 (g b).2) : Same R (x.map f) (y.map g) := by
  cases h with
  | some h => exact .some (hfg _ _ h)
  | none => exact .none

/-- Runs of the same operations from related states give the same answers. -/
theorem outputs (hstep : ∀ s t op, R s t → op ∈ ops → ok s op → Same R (step s op) (step' t op))
    (h : R s t) (hok : Ok step ok ops s) :
    Same R (Lockstep.outputs step ops s) (Lockstep.outputs step' ops t) := by
  induction ops generalizing s t with
  | nil => exact .answer h
  | cons op ops ih =>
    obtain ⟨hop, hrest⟩ := hok
    have hsame := hstep s t op h List.mem_cons_self hop
    unfold Lockstep.outputs
    revert hsame hrest
    generalize step s op = x
    generalize step' t op = y
    intro hrest hsame
    cases hsame with
    | none => exact .none
    | @some r r' hr =>
      have hrun := ih (fun s t op h hmem => hstep s t op h (List.mem_cons_of_mem _ hmem)) hr.2
        (hrest r rfl)
      rw [Option.bind_some, Option.bind_some]
      revert hrun
      generalize Lockstep.outputs step ops r.2 = z
      generalize Lockstep.outputs step' ops r'.2 = w
      intro hrun
      cases hrun with
      | none => exact .none
      | some hrs => exact .some ⟨congrArg₂ List.cons hr.1 hrs.1, hrs.2⟩

/-- Where an allowed operation returns in both systems, with the same answer and in related states,
so does a run of allowed operations. -/
theorem outputs_some (hstep : ∀ s t op, R s t → op ∈ ops → ok s op →
      ∃ o s' t', step s op = some (o, s') ∧ step' t op = some (o, t') ∧ R s' t')
    (h : R s t) (hok : Ok step ok ops s) : ∃ os s' t', Lockstep.outputs step ops s = some (os, s') ∧
      Lockstep.outputs step' ops t = some (os, t') ∧ R s' t' := by
  induction ops generalizing s t with
  | nil => exact ⟨[], s, t, rfl, rfl, h⟩
  | cons op ops ih =>
    obtain ⟨o, s₁, t₁, hs, ht, h₁⟩ := hstep s t op h List.mem_cons_self hok.1
    obtain ⟨os, s', t', hs', ht', h'⟩ :=
      ih (fun s t op h hmem => hstep s t op h (List.mem_cons_of_mem _ hmem)) h₁ (hok.2 _ hs)
    exact ⟨o :: os, s', t', by rw [Lockstep.outputs, hs, Option.bind_some, hs', Option.map_some],
      by rw [Lockstep.outputs, ht, Option.bind_some, ht', Option.map_some], h'⟩

end Same

variable {step : σ → Op → Option (O × σ)} {ok ok' : σ → Op → Prop} {ops : List Op} {s s' : σ}
  {os : List O}

theorem outputs_cons {op : Op} : outputs step (op :: ops) s = some (os, s') ↔
    ∃ o s₁ os₁, step s op = some (o, s₁) ∧ outputs step ops s₁ = some (os₁, s') ∧
      os = o :: os₁ := by
  have heq : outputs step (op :: ops) s =
      (step s op).bind fun r => (outputs step ops r.2).map fun rs => (r.1 :: rs.1, rs.2) := rfl
  rw [heq]
  constructor
  · intro h
    obtain ⟨⟨o, s₁⟩, hs, h⟩ := Option.bind_eq_some_iff.mp h
    obtain ⟨⟨os₁, s₂⟩, hrun, h⟩ := Option.map_eq_some_iff.mp h
    obtain ⟨rfl, rfl⟩ := Prod.mk.inj h
    exact ⟨o, s₁, os₁, hs, hrun, rfl⟩
  · rintro ⟨o, s₁, os₁, hs, hrun, rfl⟩
    rw [hs, Option.bind_some, hrun, Option.map_some]

/-- A run of two lists, one after the other. -/
theorem outputs_append {ops' : List Op} (hrun : outputs step (ops ++ ops') s = some (os, s')) :
    ∃ os₁ s₁ os₂, outputs step ops s = some (os₁, s₁) ∧ outputs step ops' s₁ = some (os₂, s') := by
  induction ops generalizing s os with
  | nil => exact ⟨[], s, os, rfl, hrun⟩
  | cons op ops ih =>
    obtain ⟨o, s₁, os₁, hs, hrest, rfl⟩ := outputs_cons.mp hrun
    obtain ⟨os₂, s₂, os₃, hfirst, hsecond⟩ := ih hrest
    exact ⟨o :: os₂, s₂, os₃, outputs_cons.mpr ⟨o, s₁, os₂, hs, hfirst, rfl⟩, hsecond⟩

/-- What holds before and is kept by every allowed step holds after a run of allowed steps. -/
theorem Ok.invariant (P : σ → Prop) (hok : Ok step ok ops s) (h : P s)
    (hstep : ∀ s op o s', P s → ok s op → step s op = some (o, s') → P s')
    (hrun : outputs step ops s = some (os, s')) : P s' := by
  induction ops generalizing s os with
  | nil =>
    obtain ⟨-, rfl⟩ := Prod.mk.inj (Option.some_inj.mp hrun)
    exact h
  | cons op ops ih =>
    obtain ⟨o, s₁, os₁, hs, hrest, rfl⟩ := outputs_cons.mp hrun
    exact ih (hok.2 (o, s₁) hs) (hstep s op o s₁ h hok.1 hs) hrest

/-- What the answer to an operation says about the state before holds all along a run. -/
theorem ok_of_outputs (good : O → Prop) (hgood : ∀ o ∈ os, good o)
    (hstep : ∀ s op o s', good o → step s op = some (o, s') → ok s op)
    (hrun : outputs step ops s = some (os, s')) : Ok step ok ops s := by
  induction ops generalizing s os with
  | nil => trivial
  | cons op ops ih =>
    obtain ⟨o, s₁, os₁, hs, hrest, rfl⟩ := outputs_cons.mp hrun
    refine ⟨hstep s op o s₁ (hgood o List.mem_cons_self) hs, fun r hr => ?_⟩
    obtain rfl := Option.some_inj.mp (hs.symm.trans hr)
    exact ih (fun o ho => hgood o (List.mem_cons_of_mem _ ho)) hrest

end Lockstep
