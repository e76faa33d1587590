import Mathlib.Data.Option.Basic
import Mathlib.Data.List.Basic
import Mathlib.Data.Set.Basic
import Mathlib.Data.Set.Insert

/-!
# A table and its replica

Two tables, maps from keys to values, and a queue of messages from the one to the other. A message
acts on each key by itself: it overwrites the value there, or keeps or deletes it.

The replica may refuse a message that writes a key it has no value for. Then it lacks the value,
until the primary learns of that and deletes it; the keys for which this is under way are `late`.

## Main definitions

* `Replica.Act`: what a message does at each key, and `Replica.run` what a list of them does;
* `Replica.Agree`: once the messages in the queue are applied, the replica is the primary, but for
  late keys.

## Main results

* `Replica.Agree.push`, `Replica.Agree.pop`: messages are sent and applied;
* `Replica.Agree.refuse`, `Replica.Agree.forget`: a message is refused, a late key is settled;
* `Replica.Agree.eq_of_quiet`: with nothing under way the tables are the same.
-/

namespace Replica

variable {κ β : Type*}

/-- What a message does to the value at each key. -/
abbrev Act (κ β : Type*) := κ → Option β → Option β

/-- What the messages of a list do, one after the other. -/
def run : List (Act κ β) → Act κ β
  | [], _, v => v
  | a :: as, k, v => run as k (a k v)

@[simp] theorem run_nil (k : κ) (v : Option β) : run [] k v = v := rfl

@[simp] theorem run_cons (a : Act κ β) (as : List (Act κ β)) (k : κ) (v : Option β) :
    run (a :: as) k v = run as k (a k v) := rfl

theorem run_append (as bs : List (Act κ β)) (k : κ) (v : Option β) :
    run (as ++ bs) k v = run bs k (run as k v) := by
  induction as generalizing v with
  | nil => rfl
  | cons a as ih => exact ih (a k v)

/-- At each key the action overwrites the value, or keeps or deletes it. -/
def Plain (a : Act κ β) : Prop :=
  ∀ k, (∃ w, ∀ v, a k v = w) ∨ ∀ v, a k v = v ∨ a k v = none

/-- A key gets a value, another one may lose its own. -/
def write [DecidableEq κ] (k : κ) (w : β) (gone : Option κ) : Act κ β := fun k' v =>
  if k' = k then some w else if gone = some k' then none else v

/-- A key loses its value. -/
def erase [DecidableEq κ] (k : κ) : Act κ β := fun k' v => if k' = k then none else v

/-- The values that match are lost. -/
def drop (hit : κ → β → Bool) : Act κ β := fun k v => v.filter fun w => !hit k w

section Plain

variable {k : κ} {w : β} {gone : Option κ} {hit : κ → β → Bool}

theorem plain_write [DecidableEq κ] : Plain (write k w gone) := by
  intro k'
  unfold write
  split_ifs
  · exact .inl ⟨some w, fun _ => rfl⟩
  · exact .inl ⟨none, fun _ => rfl⟩
  · exact .inr fun v => .inl rfl

theorem plain_erase [DecidableEq κ] (k : κ) : Plain (@erase κ β _ k) := by
  intro k'
  unfold erase
  split_ifs
  · exact .inl ⟨none, fun _ => rfl⟩
  · exact .inr fun v => .inl rfl

theorem plain_drop : Plain (drop hit) := by
  refine fun k' => .inr fun v => ?_
  cases v with
  | none => exact .inl rfl
  | some x =>
    by_cases hx : hit k' x
    · exact .inr (by simp [drop, hx])
    · exact .inl (by simp [drop, hx])

end Plain

/-- Plain actions make a plain action. -/
theorem plain_run {as : List (Act κ β)} (h : ∀ a ∈ as, Plain a) : Plain (run as) := by
  induction as with
  | nil => exact fun _ => .inr fun v => .inl rfl
  | cons a as ih =>
    intro k
    have has := ih (fun b hb => h b (List.mem_cons_of_mem a hb)) k
    rcases has with ⟨w, hw⟩ | hkeep
    · exact .inl ⟨w, fun v => hw (a k v)⟩
    · rcases h a List.mem_cons_self k with ⟨w, hw⟩ | hkeep'
      · exact .inl ⟨run as k w, fun v => by rw [run_cons, hw]⟩
      · refine .inr fun v => ?_
        rw [run_cons]
        rcases hkeep' v with hv | hv
        · rw [hv]
          exact hkeep v
        · rw [hv]
          exact .inr ((hkeep none).elim id id)

/-- Once the messages `acts` are applied, the replica is the primary, but for late keys: there the
replica has no value, and the primary has one with `P`. -/
def Agree (late : Set κ) (P : β → Prop) (primary replica : κ → Option β)
    (acts : List (Act κ β)) : Prop :=
  ∀ k, run acts k (replica k) = primary k ∨
    (k ∈ late ∧ run acts k (replica k) = none ∧ ∃ w, primary k = some w ∧ P w)

namespace Agree

variable {late late' : Set κ} {P : β → Prop} {primary replica : κ → Option β} {a : Act κ β}
  {acts : List (Act κ β)} {k : κ}

theorem of_eq : Agree late P primary primary [] := fun _ => .inl rfl

theorem mono (h : Agree late P primary replica acts) (hsub : late ⊆ late') :
    Agree late' P primary replica acts :=
  fun k => (h k).imp_right fun ⟨hk, hrest⟩ => ⟨hsub hk, hrest⟩

/-- The primary applies a message and sends it. -/
theorem push (h : Agree late P primary replica acts) (ha : Plain a) :
    Agree late P (fun k => a k (primary k)) replica (acts ++ [a]) := by
  intro k
  rw [run_append]
  show run [a] k _ = a k (primary k) ∨ k ∈ late ∧ _ ∧ ∃ w, a k (primary k) = some w ∧ P w
  rcases h k with heq | ⟨hk, hnone, w, hw, hP⟩
  · exact .inl (congrArg (a k) heq)
  · rw [hnone, hw]
    rcases ha k with ⟨v, hv⟩ | hkeep
    · exact .inl ((hv none).trans (hv (some w)).symm)
    · have hnone' : a k none = none := (hkeep none).elim id id
      rcases hkeep (some w) with hsome | hdel
      · exact .inr ⟨hk, hnone', w, hsome, hP⟩
      · exact .inl (hnone'.trans hdel.symm)

/-- The primary applies several messages and sends them. -/
theorem push_list {as : List (Act κ β)} (h : Agree late P primary replica acts)
    (ha : ∀ a ∈ as, Plain a) :
    Agree late P (fun k => run as k (primary k)) replica (acts ++ as) := by
  induction as generalizing primary acts with
  | nil => rwa [List.append_nil]
  | cons a as ih =>
    have hstep := ih (h.push (ha a List.mem_cons_self)) fun b hb =>
      ha b (List.mem_cons_of_mem a hb)
    rwa [List.append_assoc] at hstep

/-- The replica applies the first message. -/
theorem pop (h : Agree late P primary replica (a :: acts)) :
    Agree late P primary (fun k => a k (replica k)) acts := h

/-- The replica refuses the first message, which writes a key that it has no value for. -/
theorem refuse {w : β} (h : Agree late P primary replica (a :: acts))
    (hacts : ∀ b ∈ acts, Plain b) (hw : a k none = some w) (hP : P w) (hnone : replica k = none)
    (hother : ∀ k' ≠ k, a k' (replica k') = replica k') :
    Agree (insert k late) P primary replica acts := by
  intro k'
  have hk' := h k'
  rw [run_cons] at hk'
  by_cases hkk : k' = k
  · subst hkk
    rw [hnone, hw] at hk'
    rw [hnone]
    rcases plain_run hacts k' with ⟨v, hv⟩ | hkeep
    · -- a later message writes the key anyway
      rw [hv] at hk' ⊢
      exact hk'.imp_right fun ⟨hk, hrest⟩ => ⟨Set.mem_insert_of_mem _ hk, hrest⟩
    · have hrun : run acts k' none = none := (hkeep none).elim id id
      rw [hrun]
      rcases hk' with heq | ⟨-, -, hsome⟩
      · rcases hkeep (some w) with hsame | hdel
        · exact .inr ⟨Set.mem_insert _ _, rfl, w, heq.symm.trans hsame, hP⟩
        · exact .inl (hdel.symm.trans heq)
      · exact .inr ⟨Set.mem_insert _ _, rfl, hsome⟩
  · rw [hother k' hkk] at hk'
    exact hk'.imp_right fun ⟨hk, hrest⟩ => ⟨Set.mem_insert_of_mem _ hk, hrest⟩

/-- A key at which the primary has no value with `P` is not late. -/
theorem forget (h : Agree late P primary replica acts)
    (hk : ∀ w, primary k = some w → ¬P w) : Agree (late \ {k}) P primary replica acts := by
  intro k'
  refine (h k').imp_right ?_
  rintro ⟨hlate, hnone, w, hw, hP⟩
  refine ⟨⟨hlate, ?_⟩, hnone, w, hw, hP⟩
  rintro rfl
  exact hk w hw hP

/-- With no message and no late key, the tables are the same. -/
theorem eq_of_quiet (h : Agree ∅ P primary replica []) : replica = primary := by
  funext k
  exact (h k).resolve_right fun hlate => absurd hlate.1 (Set.notMem_empty k)

end Agree

end Replica
