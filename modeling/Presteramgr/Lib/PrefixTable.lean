import Presteramgr.Lib.Keyed
import Presteramgr.Lib.Prefixes

/-!
# Tables of prefixes with a default entry

A list of entries keyed by prefix, and beside it an entry for the prefix of length zero.

## Main definitions

* `entryAt`: the entry of a prefix.

## Main results

* `entryAt_cons`, `entryAt_del`, `entryAt_modify` and `entryAt_dflt`: the entries after a change;
* `select_entryAt`: a lookup is one in the list, and then the default entry.
-/

namespace Prefixes

variable {ε α : Type*} [DecidableEq α] [Zero α]

/-- The entry of a prefix. That of length zero has the address zero. -/
def entryAt (key : ε → ℕ × α) (dflt : Option ε) (t : List ε) (k : ℕ × α) : Option ε :=
  if k.1 = 0 then (if k.2 = 0 then dflt else none) else Keyed.find key t k

variable {key : ε → ℕ × α} {dflt dflt' : Option ε} {t : List ε} {k : ℕ × α} {e : ε}

/-- A prefix of positive length is looked for in the list. -/
theorem entryAt_of_pos (hk : k.1 ≠ 0) : entryAt key dflt t k = Keyed.find key t k := if_neg hk

/-- The entry of a prefix has its key. -/
theorem key_of_entryAt (hdflt : ∀ e, dflt = some e → key e = (0, 0))
    (he : entryAt key dflt t k = some e) : key e = k := by
  unfold entryAt at he
  split_ifs at he with hlen haddr
  · rw [hdflt e he]
    exact Prod.ext hlen.symm haddr.symm
  · exact Keyed.key_of_find he

/-- The empty table has no entry. -/
theorem entryAt_nil : entryAt key none [] k = none := by
  unfold entryAt
  split_ifs <;> rfl

/-- An entry of positive length is in the list. -/
theorem mem_of_entryAt (hk : k.1 ≠ 0) (he : entryAt key dflt t k = some e) : e ∈ t :=
  Keyed.mem_of_find ((entryAt_of_pos hk).symm.trans he)

/-- The entry of length zero is the default one. -/
theorem dflt_of_entryAt (hk : k.1 = 0) (he : entryAt key dflt t k = some e) :
    dflt = some e ∧ k = (0, 0) := by
  unfold entryAt at he
  split_ifs at he with haddr
  exact ⟨he, Prod.ext hk haddr⟩

/-- A new entry is the one of its prefix and of no other. -/
theorem entryAt_cons (hkey : key e = k) (hk : k.1 ≠ 0) (k' : ℕ × α) :
    entryAt key dflt (e :: t) k' = if k' = k then some e else entryAt key dflt t k' := by
  by_cases hkk : k' = k
  · rw [if_pos hkk, hkk, entryAt_of_pos hk]
    exact Keyed.find_cons.trans (if_pos hkey)
  · have hne : key e ≠ k' := fun h => hkk (h.symm.trans hkey)
    rw [if_neg hkk]
    unfold entryAt
    rw [Keyed.find_cons, if_neg hne]

/-- A deleted entry is missing, and no other is. -/
theorem entryAt_del (hu : Keyed.Unique key t) (hk : k.1 ≠ 0) (k' : ℕ × α) :
    entryAt key dflt (Keyed.del key t k) k' = if k' = k then none else entryAt key dflt t k' := by
  by_cases hkk : k' = k
  · rw [if_pos hkk, hkk, entryAt_of_pos hk]
    exact Keyed.find_eq_none_iff.mpr fun x hx => (hu.mem_del_iff.mp hx).2
  · rw [if_neg hkk]
    unfold entryAt
    rw [Keyed.find_del_of_ne hkk]

variable (dflt) in
/-- Another default entry. -/
theorem entryAt_dflt (k' : ℕ × α) : entryAt key dflt' t k' =
    if k' = (0, 0) then dflt' else entryAt key dflt t k' := by
  unfold entryAt
  by_cases hkk : k' = (0, 0)
  · subst hkk
    rw [if_pos rfl, if_pos rfl, if_pos rfl]
  · rw [if_neg hkk]
    split_ifs with hlen haddr
    · exact absurd (Prod.ext hlen haddr) hkk
    · rfl
    · rfl

variable (key) in
/-- A changed entry is the one of its prefix, and the others are as they were. -/
theorem entryAt_modify (g : ε → ε) (hg : ∀ e, key (g e) = key e) (hk : k.1 ≠ 0) (k' : ℕ × α) :
    entryAt key dflt (Keyed.modify key t k g) k' =
      (entryAt key dflt t k').map fun e => if k' = k then g e else e := by
  unfold entryAt
  by_cases hk' : k'.1 = 0
  · have hne : k' ≠ k := fun h => hk (h ▸ hk')
    rw [if_pos hk', if_pos hk']
    split_ifs <;> first | rfl | exact Option.map_id'.symm
  · rw [if_neg hk', if_neg hk', Keyed.find_modify hg]
    cases hfind : Keyed.find key t k' with
    | none => rfl
    | some e =>
      rw [← Keyed.key_of_find hfind]
      rfl

variable {mask : ℕ → α → α} {a : α}

/-- A lookup selects the longest prefix of the list, and otherwise the default entry. -/
theorem select_entryAt (hmask : mask 0 a = 0) (n : ℕ) : select mask (entryAt key dflt t) a n =
    (select mask (fun k => if k.1 = 0 then none else Keyed.find key t k) a n).or dflt := by
  induction n with
  | zero =>
    rw [select, select, hmask, if_pos rfl, Option.none_or]
    exact (if_pos rfl).trans (if_pos rfl)
  | succ n ih =>
    have hentry : entryAt key dflt t (n + 1, mask (n + 1) a) =
      Keyed.find key t (n + 1, mask (n + 1) a) := if_neg (Nat.succ_ne_zero n)
    rw [select, select, hentry, if_neg (Nat.succ_ne_zero n)]
    cases Keyed.find key t (n + 1, mask (n + 1) a) with
    | some e => rfl
    | none => exact ih

end Prefixes
