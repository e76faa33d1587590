import Presteramgr.Acl.DstackRun
import Presteramgr.Acl.Unit
import Presteramgr.Lib.Buffer

/-!
# The free indexes (`pcl.c`)

Free rule indexes, PCL ids and comparators lie on stacks, as numbers of one or two bytes. The lists
that the models of the rules keep in their place behave as the stacks in the heap do.

## Main definitions

* `PclStackCall`: what is done with free indexes;
* `Dstacks.pclStep`: the calls on stacks that do it;
* `freeStep`: what the models do with their lists.

## Main results

* `pclStacks_refine`: in every run, the same indexes are handed out.
-/

namespace Presteramgr

open Buffer (bytesOf numOf numOf_bytesOf)
open Function (update update_self)

/-- The stacks of `pcl.c`: `rules`, `sg_rule_ixs`, and in `user_acl` and `user_acl_fake` `pcl_ids`
and `port_cmp_idxs`. -/
inductive PclStack
  | rules (d : ℕ)
  | sgRuleIxs (pid : ℕ)
  | pclIds (fake : Bool)
  | portCmpIdxs (fake : Bool) (d : ℕ)
deriving DecidableEq

/-- The size of an element: `uint8_t` or `uint16_t`. -/
def PclStack.size : PclStack → ℕ
  | .portCmpIdxs _ _ => 1
  | _ => 2

/-- What is done with free indexes: `pcl_init_rules`, `pcl_init_source_guard_rule_ixs` and
`user_acl_init` fill the stacks; indexes are allocated and freed; `pcl_set_fake_mode_enabled` copies
stacks. -/
inductive PclStackCall
  | fill (k : PclStack) (values items : List ℕ)
  | take (k : PclStack)
  | give (k : PclStack) (v item : ℕ)
  | copy (dst src : PclStack) (items : List ℕ)

/-- The values have the size of their stack. -/
def PclStackCall.Sized : PclStackCall → Prop
  | .fill k values items => (∀ v ∈ values, v < 256 ^ k.size) ∧ items.length = values.length
  | .give k v _ => v < 256 ^ k.size
  | .copy dst src _ => dst.size = src.size
  | .take _ => True

instance : ∀ call : PclStackCall, Decidable call.Sized
  | .fill k values items =>
    inferInstanceAs (Decidable ((∀ v ∈ values, v < 256 ^ k.size) ∧ items.length = values.length))
  | .give k v _ => inferInstanceAs (Decidable (v < 256 ^ k.size))
  | .copy dst src _ => inferInstanceAs (Decidable (dst.size = src.size))
  | .take _ => inferInstanceAs (Decidable True)

/-- The calls on stacks. A comparator that is freed is put in its place. -/
def PclStackCall.calls : PclStackCall → List (DstackCall PclStack)
  | .fill k values items =>
    .init k :: (values.zip items).map fun p => .pushBack k (bytesOf k.size p.1) p.2
  | .take k => [.pop k]
  | .give (.portCmpIdxs fake d) v item =>
    [.push (.portCmpIdxs fake d) (bytesOf 1 v) item, .revSort2 (.portCmpIdxs fake d) intCmpUint8]
  | .give k v item => [.push k (bytesOf k.size v) item]
  | .copy dst src items => [.copy dst src items]

/-- The index that the last of some calls handed out. -/
def handedOut (os : List (Option Bytes)) : Option ℕ := os.getLast?.join.map numOf

/-- What is done with free indexes in the heap, with the index that is handed out. -/
def Dstacks.pclStep (m : Dstacks PclStack) (call : PclStackCall) :
    Option (Option ℕ × Dstacks PclStack) :=
  (Lockstep.outputs Dstacks.step call.calls m).map fun r => (handedOut r.1, r.2)

/-- What the models do with the lists of free indexes. -/
def freeStep (b : PclStack → Option (List ℕ)) :
    PclStackCall → Option (Option ℕ × (PclStack → Option (List ℕ)))
  | .fill k values _ => some (none, update b k (some values))
  | .take k => (b k).map fun l => (l.head?, update b k (some l.tail))
  | .give (.portCmpIdxs fake d) v _ => (b (.portCmpIdxs fake d)).map fun l =>
    (none, update b (.portCmpIdxs fake d) (some (PclDev.pushPortCmpIdx l v)))
  | .give k v _ => (b k).map fun l => (none, update b k (some (v :: l)))
  | .copy dst src _ => (b src).map fun l => (none, update b dst (some l))

/-- The callers of the calls on stacks do what they have to, and the values have their size. -/
def PclStackCall.Ok (m : Dstacks PclStack) (call : PclStackCall) : Prop :=
  call.Sized ∧ Lockstep.Ok Dstacks.step (fun m call => DstackCall.Ok m call) call.calls m

instance (m : Dstacks PclStack) (call : PclStackCall) : Decidable (call.Ok m) :=
  inferInstanceAs (Decidable (call.Sized ∧ Lockstep.Ok Dstacks.step _ call.calls m))

/-- The data on the stacks. -/
def stackData (b : PclStack → Option (List ℕ)) (k : PclStack) : Option (List Bytes) :=
  (b k).map (List.map (bytesOf k.size))

theorem stackData_update (b : PclStack → Option (List ℕ)) (k : PclStack) (l : List ℕ) :
    stackData (update b k (some l)) = update (stackData b) k (some (l.map (bytesOf k.size))) := by
  funext k'
  by_cases hk : k' = k
  · subst hk
    simp [stackData]
  · simp [stackData, hk]

/-- One byte each: the order of the bytes is that of the numbers. -/
theorem sortStack_neg_intCmpUint8 {l : List ℕ} (hl : ∀ v ∈ l, v < 256) :
    sortStack (fun a b => -intCmpUint8 a b) (l.map (bytesOf 1)) =
        (l.mergeSort (· ≤ ·)).map (bytesOf 1) := by
  have hle : ∀ a ∈ l, ∀ b ∈ l, decide (-intCmpUint8 (bytesOf 1 a) (bytesOf 1 b) ≤ 0) =
      decide (b ≤ a) := by
    intro a ha b hb
    rw [decide_eq_decide, neg_intCmpUint8_le]
    simp [bytesOf, UInt8.le_iff_toNat_le, Nat.mod_eq_of_lt (hl a ha), Nat.mod_eq_of_lt (hl b hb)]
  have hsort : ((l.map (bytesOf 1)).reverse.mergeSort fun a b => decide (-intCmpUint8 a b ≤ 0)) =
      (l.reverse.mergeSort fun a b => decide (b ≤ a)).map (bytesOf 1) := by
    rw [← List.map_reverse]
    refine (List.map_mergeSort fun a ha b hb => ?_).symm
    exact (hle a (List.mem_reverse.mp ha) b (List.mem_reverse.mp hb)).symm
  rw [sortStack, hsort, ← List.map_reverse]
  congr 1
  -- both are sorted, and by the same order
  refine List.Perm.eq_of_pairwise (fun a b _ _ (hab : a ≤ b) hba => le_antisymm hab hba) ?_ ?_ ?_
  · rw [List.pairwise_reverse]
    have h := @List.pairwise_mergeSort ℕ (fun a b => decide (b ≤ a))
      (fun a b c hab hbc => decide_eq_true ((of_decide_eq_true hbc).trans (of_decide_eq_true hab)))
      (fun a b => by simpa using le_total b a) l.reverse
    exact h.imp fun h => of_decide_eq_true h
  · have h := @List.pairwise_mergeSort ℕ (fun a b => decide (a ≤ b))
      (fun a b c hab hbc => decide_eq_true ((of_decide_eq_true hab).trans (of_decide_eq_true hbc)))
      (fun a b => by simpa using le_total a b) l
    exact h.imp fun h => of_decide_eq_true h
  · exact ((List.reverse_perm _).trans
      ((List.mergeSort_perm _ _).trans (List.reverse_perm _))).trans
      (List.mergeSort_perm _ _).symm

/-- Elements put below the others. -/
theorem outputs_pushBack (k : PclStack) (n : ℕ) (ps : List (ℕ × ℕ))
    (a : PclStack → Option (List Bytes))
    {l : List Bytes} (hl : a k = some l) :
    Lockstep.outputs stackStep (ps.map fun p => .pushBack k (bytesOf n p.1) p.2) a =
      some (ps.map fun _ => none, update a k (some (l ++ ps.map fun p => bytesOf n p.1))) := by
  induction ps generalizing a l with
  | nil =>
    have ha : update a k (some l) = a := by rw [← hl, Function.update_eq_self]
    simp [Lockstep.outputs, ha]
  | cons p ps ih =>
    have hstep : stackStep a (.pushBack k (bytesOf n p.1) p.2) =
        some (none, update a k (some (l ++ [bytesOf n p.1]))) := by
      rw [stackStep, hl, Option.map_some]
    rw [List.map_cons, Lockstep.outputs, hstep, Option.bind_some, ih _ (update_self ..),
      Option.map_some,
      Function.update_idem]
    simp

/-- The indexes have the size of their stack. -/
def Sized (b : PclStack → Option (List ℕ)) : Prop := ∀ k, ∀ l ∈ b k, ∀ v ∈ l, v < 256 ^ k.size

theorem Sized.update {b : PclStack → Option (List ℕ)} (hb : Sized b) {k : PclStack} {l : List ℕ}
    (hl : ∀ v ∈ l, v < 256 ^ k.size) : Sized (update b k (some l)) := by
  intro k' l' hl'
  by_cases hk : k' = k
  · subst hk
    rw [update_self] at hl'
    obtain rfl := Option.some_inj.mp hl'
    exact hl
  · rw [Function.update_of_ne hk] at hl'
    exact hb k' l' hl'

theorem handedOut_none {os : List (Option Bytes)} (hos : ∀ o ∈ os, o = none) :
    handedOut os = none := by
  unfold handedOut
  cases h : os.getLast? with
  | none => rfl
  | some o =>
    rw [hos o (List.mem_of_getLast? h)]
    rfl

/-- On lists, the calls on stacks do with the data what the models do with the indexes. -/
theorem outputs_calls {b b' : PclStack → Option (List ℕ)} {o : Option ℕ} (hb : Sized b)
    {call : PclStackCall} (hsized : call.Sized) (hfree : freeStep b call = some (o, b')) :
    Sized b' ∧ ∃ os, Lockstep.outputs stackStep call.calls (stackData b) = some (os, stackData b') ∧
      handedOut os = o := by
  have hdata : ∀ {k l}, b k = some l → stackData b k = some (l.map (bytesOf k.size)) := by
    intro k l hl
    rw [stackData, hl, Option.map_some]
  cases call with
  | fill k values items =>
    obtain ⟨rfl, rfl⟩ := Prod.mk.inj (Option.some_inj.mp hfree)
    refine ⟨hb.update hsized.1, none :: (values.zip items).map fun _ => none, ?_,
      handedOut_none (by simp)⟩
    rw [PclStackCall.calls, Lockstep.outputs, stackStep, Option.bind_some,
      outputs_pushBack k _ _ _ (update_self ..), Option.map_some, Function.update_idem,
        stackData_update]
    have hfst : (values.zip items).map (fun p => bytesOf k.size p.1) =
        values.map (bytesOf k.size) := by
      rw [← Function.comp_def (bytesOf k.size) Prod.fst, ← List.map_map,
        List.map_fst_zip (le_of_eq hsized.2.symm)]
    rw [List.nil_append, hfst]
  | take k =>
    obtain ⟨l, hl, heq⟩ := Option.map_eq_some_iff.mp hfree
    obtain ⟨rfl, rfl⟩ := Prod.mk.inj heq
    refine ⟨hb.update fun v hv => hb k l hl v (List.mem_of_mem_tail hv),
      [(l.map (bytesOf k.size)).head?], ?_, ?_⟩
    · simp [PclStackCall.calls, Lockstep.outputs, stackStep, hdata hl, stackData_update]
    · cases l with
      | nil => rfl
      | cons v l => exact congrArg some (numOf_bytesOf (hb k _ hl v List.mem_cons_self))
  | give k v item =>
    -- only a comparator is put in its place
    by_cases hk : ∃ fake d, k = .portCmpIdxs fake d
    · obtain ⟨fake, d, rfl⟩ := hk
      obtain ⟨l, hl, heq⟩ := Option.map_eq_some_iff.mp hfree
      obtain ⟨rfl, rfl⟩ := Prod.mk.inj heq
      have hsmall : ∀ v' ∈ v :: l, v' < 256 :=
        List.forall_mem_cons.mpr ⟨hsized, hb _ l hl⟩
      have hsort := sortStack_neg_intCmpUint8 hsmall
      refine ⟨hb.update fun v' hv' => hsmall v' (List.mem_mergeSort.mp hv'), [none, none], ?_, rfl⟩
      rw [List.map_cons] at hsort
      simp [PclStackCall.calls, Lockstep.outputs, stackStep, hdata hl, stackData_update,
        PclStack.size,
        hsort, PclDev.pushPortCmpIdx]
    · have hcalls : (PclStackCall.give k v item).calls = [.push k (bytesOf k.size v) item] := by
        cases k <;> first | rfl | exact absurd ⟨_, _, rfl⟩ hk
      have hstep : freeStep b (.give k v item) =
          (b k).map fun l => (none, Function.update b k (some (v :: l))) := by
        cases k <;> first | rfl | exact absurd ⟨_, _, rfl⟩ hk
      obtain ⟨l, hl, heq⟩ := Option.map_eq_some_iff.mp (hstep.symm.trans hfree)
      obtain ⟨rfl, rfl⟩ := Prod.mk.inj heq
      refine ⟨hb.update (List.forall_mem_cons.mpr ⟨hsized, hb k l hl⟩), [none], ?_, rfl⟩
      rw [hcalls]
      simp [Lockstep.outputs, stackStep, hdata hl, stackData_update]
  | copy dst src items =>
    obtain ⟨l, hl, heq⟩ := Option.map_eq_some_iff.mp hfree
    obtain ⟨rfl, rfl⟩ := Prod.mk.inj heq
    have hsize : dst.size = src.size := hsized
    refine ⟨hb.update fun v hv => hsize ▸ hb src l hl v hv, [none], ?_, rfl⟩
    simp [PclStackCall.calls, Lockstep.outputs, stackStep, hdata hl, stackData_update, hsize]

/-- The models go on where the heap does. -/
theorem freeStep_isSome {m : Dstacks PclStack} {cells : PclStack → List (ℕ × Bytes)}
    {b : PclStack → Option (List ℕ)} {call : PclStackCall} (hr : m.Refines cells (stackData b))
    (hok : call.Ok m) : ∃ r, freeStep b call = some r := by
  have hsome : ∀ {k}, m.stack k ≠ none → ∃ l, b k = some l := by
    intro k hk
    obtain ⟨s, hs⟩ := Option.ne_none_iff_exists'.mp hk
    have hdata : stackData b k = some _ := (hr.lists k).trans (by rw [hs, Option.map_some])
    obtain ⟨l, hl, -⟩ := Option.map_eq_some_iff.mp hdata
    exact ⟨l, hl⟩
  cases call with
  | fill k values items => exact ⟨_, rfl⟩
  | take k =>
    obtain ⟨l, hl⟩ := hsome hok.2.1
    exact ⟨_, by rw [freeStep, hl, Option.map_some]⟩
  | give k v item =>
    have hk : m.stack k ≠ none := by
      cases k <;> exact hok.2.1.1
    obtain ⟨l, hl⟩ := hsome hk
    cases k <;> exact ⟨_, by simp [freeStep, hl]; rfl⟩
  | copy dst src items =>
    obtain ⟨-, -, -, hlen⟩ := hok.2.1
    have hk : m.stack src ≠ none := by
      intro hs
      rw [hs] at hlen
      exact Option.some_ne_none _ hlen
    obtain ⟨l, hl⟩ := hsome hk
    exact ⟨_, by rw [freeStep, hl, Option.map_some]⟩

namespace Dstacks

/-- What is done with free indexes has the same answer in the heap and in the models. -/
theorem Refines.pclStep {m : Dstacks PclStack} {cells : PclStack → List (ℕ × Bytes)}
    {b : PclStack → Option (List ℕ)} {call : PclStackCall} (hr : m.Refines cells (stackData b))
    (hb : Sized b) (hok : call.Ok m) : ∃ o m' b', m.pclStep call = some (o, m') ∧
      freeStep b call = some (o, b') ∧ (∃ cells', Refines m' cells' (stackData b')) ∧ Sized b' := by
  obtain ⟨⟨o, b'⟩, hfree⟩ := freeStep_isSome hr hok
  obtain ⟨hb', os, hos, ho⟩ := outputs_calls hb hok.1 hfree
  -- only comparators are sorted, and `INT_CMP (uint8_t)` orders them
  have hord : ∀ x ∈ call.calls, ∀ m : Dstacks PclStack, x.Ordered m := by
    intro x hx m
    cases call with
    | give k v item =>
      cases k <;> simp only [PclStackCall.calls, List.mem_cons, List.not_mem_nil, or_false] at hx
      case portCmpIdxs =>
        rcases hx with rfl | rfl
        · trivial
        · exact orders_neg_intCmpUint8 _
      all_goals
        subst hx
        trivial
    | fill k values items =>
      rcases List.mem_cons.mp hx with rfl | hx
      · trivial
      · obtain ⟨p, -, rfl⟩ := List.mem_map.mp hx
        trivial
    | take k =>
      obtain rfl := List.mem_singleton.mp hx
      trivial
    | copy dst src items =>
      obtain rfl := List.mem_singleton.mp hx
      trivial
  obtain ⟨os', m', a, hm, ha, hr'⟩ := Lockstep.Same.outputs_some
    (R := fun m a => ∃ cells, Refines m cells a)
    (fun m a x ⟨_, hr⟩ hmem hok => hr.step x hok (hord x hmem m)) ⟨cells, hr⟩ hok.2
  obtain ⟨rfl, rfl⟩ := Prod.mk.inj (Option.some_inj.mp (ha.symm.trans hos))
  exact ⟨o, m', b', by rw [Dstacks.pclStep, hm, Option.map_some, ho], hfree, hr', hb'⟩

/-- In every run of what is done with free indexes, no call fails, and the indexes that the stacks
in the heap hand out are those that the lists of the models hand out. After the run the stacks hold
the lists. -/
theorem pclStacks_refine (calls : List PclStackCall)
    (hok : Lockstep.Ok pclStep (fun m call => PclStackCall.Ok m call) calls start) :
    ∃ os m b, Lockstep.outputs pclStep calls start = some (os, m) ∧
      Lockstep.outputs freeStep calls (fun _ => none) = some (os, b) ∧
      ∃ cells, Refines m cells (stackData b) := by
  have hstep : ∀ (m : Dstacks PclStack) (b : PclStack → Option (List ℕ)) (call : PclStackCall),
      (∃ cells, Refines m cells (stackData b)) ∧ Sized b → call ∈ calls → call.Ok m →
        ∃ o m' b', m.pclStep call = some (o, m') ∧ freeStep b call = some (o, b') ∧
          (∃ cells', Refines m' cells' (stackData b')) ∧ Sized b' :=
    fun _ _ _ ⟨⟨_, hr⟩, hb⟩ _ hok => hr.pclStep hb hok
  obtain ⟨os, m, b, hm, hb, hr, -⟩ := Lockstep.Same.outputs_some hstep
    ⟨⟨_, Refines.start⟩, fun _ _ h => absurd h (Option.not_mem_none _)⟩ hok
  exact ⟨os, m, b, hm, hb, hr⟩

/-- The comparator that is freed last is not the one that is used next. -/
def comparatorRun : List PclStackCall :=
  [.fill (.portCmpIdxs false 0) [0, 1] [1, 2], .take (.portCmpIdxs false 0),
    .take (.portCmpIdxs false 0),
    .give (.portCmpIdxs false 0) 0 2, .give (.portCmpIdxs false 0) 1 1,
      .take (.portCmpIdxs false 0)]

theorem pclStacks_refine_comparatorRun :
    ∃ m cells b, Lockstep.outputs pclStep comparatorRun start = some
    ([none, some 0, some 1, none, none, some 0], m) ∧ Refines m cells (stackData b) := by
  obtain ⟨os, m, b, hm, -, cells, hr⟩ := pclStacks_refine comparatorRun (by decide +kernel)
  have hout : (Lockstep.outputs pclStep comparatorRun start).map Prod.fst =
      some [none, some 0, some 1, none, none, some 0] := by
    decide +kernel
  rw [hm, Option.map_some] at hout
  obtain rfl := Option.some_inj.mp hout
  exact ⟨m, cells, b, hm, hr⟩

end Dstacks

end Presteramgr
