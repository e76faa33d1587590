import Mathlib.Data.List.Perm.Basic
import Mathlib.Data.List.Range
import Mathlib.Logic.Function.Basic
import Presteramgr.Lib.Counted
import Presteramgr.Types

/-!
# Next-hop table (`nht.c`)

Gateways with the same MAC address share one entry of the hardware ARP table. The table `nht` finds
the entry by its address and counts the gateways; the indices that are not taken lie on the stack
`nhs`.

## Main definitions

* `nhtAdd` and `nhtUnref`;
* `NhInv t users`: the table counts the addresses `users`, and every index is either taken by one
  entry or on the stack once.

## Main results

* `NhInv.nhtAdd` and `NhInv.nhtUnref`: a user more and a user less.
-/

namespace Presteramgr

open Function (update)

/-- `MAX_NH`. -/
def MAX_NH : ℕ := 4096

/-- `struct nexthop`. -/
structure Nexthop where
  addr : Mac
  idx : ℕ
  refc : ℤ
deriving DecidableEq, Repr

/-- The statics of `nht.c`, and the ARP table of the packet processor. -/
structure NhTable where
  nht : List Nexthop
  sp : ℕ
  data : ℕ → ℕ
  arp : ℕ → Mac

namespace NhTable

/-- `nht_init`. -/
def nhtInit (arp : ℕ → Mac) : NhTable := ⟨[], 0, id, arp⟩

/-- `nhs_pop`. The last index of the stack is never popped. -/
def nhsPop (t : NhTable) : Option (ℕ × NhTable) :=
  if t.sp ≥ MAX_NH - 1 then none else some (t.data t.sp, { t with sp := t.sp + 1 })

/-- `nhs_push`. -/
def nhsPush (t : NhTable) (nh : ℕ) : NhTable :=
  if t.sp = 0 then t else { t with sp := t.sp - 1, data := update t.data (t.sp - 1) nh }

/-- `HASH_FIND_ETH`. -/
def hashFind (t : NhTable) (addr : Mac) : Option Nexthop := Keyed.find Nexthop.addr t.nht addr

/-- `nht_add`: the index of the address. `arpOk` is the outcome of the write of the ARP entry. -/
def nhtAdd (t : NhTable) (addr : Mac) (arpOk : Bool) : Option ℕ × NhTable :=
  match t.hashFind addr with
  | some nh =>
    (some nh.idx, { t with
      nht := Keyed.modify Nexthop.addr t.nht addr fun nh => { nh with refc := nh.refc + 1 } })
  | none =>
    match t.nhsPop with
    | none => (none, t)
    | some (idx, t) =>
      if arpOk then
        (some idx, { t with nht := ⟨addr, idx, 1⟩ :: t.nht, arp := update t.arp idx addr })
      else (none, t.nhsPush idx)

/-- `nht_unref`. -/
def nhtUnref (t : NhTable) (addr : Mac) : Status × NhTable :=
  match t.hashFind addr with
  | none => (.ST_DOES_NOT_EXIST, t)
  | some nh =>
    let t := { t with
      nht := Keyed.modify Nexthop.addr t.nht addr fun nh => { nh with refc := nh.refc - 1 } }
    if nh.refc - 1 = 0 then
      let t := t.nhsPush nh.idx
      (.ST_OK, { t with nht := Keyed.del Nexthop.addr t.nht addr })
    else (.ST_OK, t)

/-- An address can be added: it has an entry, or the stack gives an index and the ARP entry is
written. -/
def Accepts (t : NhTable) (addr : Mac) (arpOk : Bool) : Prop :=
  (t.hashFind addr).isSome ∨ t.sp < MAX_NH - 1 ∧ arpOk = true

instance (t : NhTable) (addr : Mac) (arpOk : Bool) : Decidable (t.Accepts addr arpOk) :=
  inferInstanceAs (Decidable (_ ∨ _))

theorem nhtAdd_ne_none_iff (t : NhTable) (addr : Mac) (arpOk : Bool) :
    (t.nhtAdd addr arpOk).1 ≠ none ↔ t.Accepts addr arpOk := by
  unfold nhtAdd Accepts nhsPop
  cases t.hashFind addr with
  | some nh => simp
  | none =>
    by_cases hsp : t.sp ≥ MAX_NH - 1
    · simp [hsp, Nat.not_lt.mpr hsp]
    · cases arpOk <;> simp [hsp, Nat.not_le.mp hsp]

/-! ### Stack and entries -/

/-- The indices on the stack. -/
def free (t : NhTable) : List ℕ := (List.range (MAX_NH - t.sp)).map fun k => t.data (t.sp + k)

/-- Each entry counts the users of its address, and each index is taken by one entry or free. -/
structure NhInv (t : NhTable) (users : Multiset Mac) : Prop where
  counts : Counted.Counts Nexthop.addr Nexthop.refc t.nht users
  sp_lt : t.sp < MAX_NH
  indices : (t.nht.map Nexthop.idx ++ t.free).Perm (List.range MAX_NH)
  arp : ∀ nh ∈ t.nht, t.arp nh.idx = nh.addr

variable {t t' : NhTable} {users : Multiset Mac} {addr : Mac} {arpOk : Bool} {idx : ℕ}
  {nh : Nexthop}

theorem nhInv_nhtInit (arp : ℕ → Mac) : NhInv (nhtInit arp) 0 := by
  have hfree : (nhtInit arp).free = List.range MAX_NH := by
    unfold free
    simp only [nhtInit, Nat.sub_zero, Nat.zero_add, id_eq, List.map_id']
  refine ⟨Counted.counts_nil, ?_, ?_, fun _ hnh => absurd hnh List.not_mem_nil⟩
  · show 0 < MAX_NH
    decide
  · rw [hfree]
    simp only [nhtInit, List.map_nil, List.nil_append, List.Perm.refl]

/-- A popped index was on the stack. -/
theorem free_of_nhsPop (hpop : t.nhsPop = some (idx, t')) :
    t.free = idx :: t'.free ∧ t'.nht = t.nht ∧ t'.arp = t.arp ∧ t'.sp = t.sp + 1 ∧
      t'.data = t.data ∧ t'.sp < MAX_NH := by
  unfold nhsPop at hpop
  split_ifs at hpop with hsp
  obtain ⟨rfl, rfl⟩ := Prod.mk.inj (Option.some_inj.mp hpop)
  refine ⟨?_, rfl, rfl, rfl, rfl, ?_⟩
  · obtain ⟨n, hn⟩ : ∃ n, MAX_NH - t.sp = n + 1 := ⟨MAX_NH - t.sp - 1, by omega⟩
    have hn' : MAX_NH - (t.sp + 1) = n := by omega
    simp only [free, hn, hn', List.range_succ_eq_map, List.map_cons, List.map_map, Nat.add_zero]
    refine congrArg _ (List.map_congr_left fun k _ => ?_)
    simp only [Function.comp_apply, Nat.succ_eq_add_one]
    congr 1
    omega
  · change t.sp + 1 < MAX_NH
    omega

/-- A pushed index lies on the stack. -/
theorem free_nhsPush (idx : ℕ) (h0 : 0 < t.sp) (hsp : t.sp ≤ MAX_NH) :
    (t.nhsPush idx).free = idx :: t.free := by
  obtain ⟨n, hn⟩ : ∃ n, t.sp = n + 1 := ⟨t.sp - 1, by omega⟩
  have hlen : MAX_NH - n = MAX_NH - (n + 1) + 1 := by omega
  have hne : t.sp ≠ 0 := by omega
  rw [nhsPush, if_neg hne]
  simp only [free, hn, Nat.add_sub_cancel, hlen, List.range_succ_eq_map, List.map_cons,
    List.map_map, Nat.add_zero, Function.update_self]
  refine congrArg _ (List.map_congr_left fun k _ => ?_)
  have hk : n + (k + 1) ≠ n := by omega
  simp only [Function.comp_apply, Nat.succ_eq_add_one, Function.update_of_ne hk]
  congr 1
  omega

@[simp]
theorem nhsPush_nht : (t.nhsPush idx).nht = t.nht := by
  unfold nhsPush
  split_ifs <;> rfl

@[simp]
theorem nhsPush_arp : (t.nhsPush idx).arp = t.arp := by
  unfold nhsPush
  split_ifs <;> rfl

theorem nhsPush_sp : (t.nhsPush idx).sp = t.sp - 1 := by
  unfold nhsPush
  split_ifs with h0
  · omega
  · rfl

namespace NhInv

variable (hinv : NhInv t users)

include hinv

/-- No two entries have the same index, and none has one of the stack. -/
theorem nodup : (t.nht.map Nexthop.idx ++ t.free).Nodup :=
  hinv.indices.nodup_iff.mpr List.nodup_range

theorem length_eq : t.nht.length = t.sp := by
  have hlen := hinv.indices.length_eq
  have hsp := hinv.sp_lt
  simp only [List.length_append, List.length_map, free, List.length_range] at hlen
  omega

theorem sp_pos (hnh : nh ∈ t.nht) : 0 < t.sp := by
  rw [← hinv.length_eq]
  exact List.length_pos_of_mem hnh

/-- The entry of a user. -/
theorem exists_of_mem (hu : addr ∈ users) : ∃ nh, t.hashFind addr = some nh :=
  hinv.counts.find_isSome hu

/-- An address is added to the users, or the table stays as it was. -/
theorem nhtAdd (addr : Mac) (arpOk : Bool) :
    (∃ nh t', t.nhtAdd addr arpOk = (some nh.idx, t') ∧ t'.hashFind addr = some nh ∧
      NhInv t' (addr ::ₘ users)) ∨
    ∃ t', t.nhtAdd addr arpOk = (none, t') ∧ t'.nht = t.nht ∧ t'.arp = t.arp ∧
      NhInv t' users := by
  unfold NhTable.nhtAdd
  cases hf : t.hashFind addr with
  -- the address has a next hop, which gets one more user
  | some nh =>
    left
    have hbump := hinv.counts.bump (f := fun nh => { nh with refc := nh.refc + 1 }) hf
      (fun _ => rfl) fun _ => rfl
    refine ⟨{ nh with refc := nh.refc + 1 }, _, rfl, ?_, hbump, hinv.sp_lt, ?_, fun nh' hnh' => ?_⟩
    · have haddr := Keyed.key_of_find hf
      rw [hashFind] at hf
      simp [hashFind, Keyed.find_modify, hf, haddr]
    · have hidx : (Keyed.modify Nexthop.addr t.nht addr fun nh =>
          { nh with refc := nh.refc + 1 }).map Nexthop.idx = t.nht.map Nexthop.idx :=
        Keyed.map_modify Nexthop.idx fun _ => rfl
      exact (List.Perm.of_eq (congrArg (· ++ t.free) hidx)).trans hinv.indices
    · rcases Keyed.mem_modify_iff.mp hnh' with ⟨x, hx, -, rfl⟩ | ⟨hx, -⟩
      · exact hinv.arp x hx
      · exact hinv.arp nh' hx
  -- a new next hop takes an index from the stack
  | none =>
    cases hpop : t.nhsPop with
    | none => exact .inr ⟨t, rfl, rfl, rfl, hinv⟩
    | some p =>
      obtain ⟨idx, t'⟩ := p
      obtain ⟨hfree, hnht, harp, hsp, hdata, hlt⟩ := free_of_nhsPop hpop
      have hnd := hinv.nodup
      rw [hfree] at hnd
      have hidx : ∀ nh ∈ t.nht, nh.idx ≠ idx := fun nh hnh heq =>
        (List.nodup_append.mp hnd).2.2 nh.idx (List.mem_map_of_mem hnh) idx List.mem_cons_self heq
      cases arpOk with
      | true =>
        left
        refine ⟨⟨addr, idx, 1⟩, _, rfl, by simp [hashFind, Keyed.find], ?_, hlt, ?_,
          fun nh hnh => ?_⟩
        · have hins := hinv.counts.insert (x := ⟨addr, idx, 1⟩) hf rfl rfl
          rwa [← hnht] at hins
        · have hperm := hinv.indices
          rw [hfree] at hperm
          simp only [List.map_cons, List.cons_append, hnht]
          exact List.perm_middle.symm.trans hperm
        · rcases List.mem_cons.mp hnh with rfl | hnh
          · exact Function.update_self ..
          · rw [hnht] at hnh
            simp only [Function.update_of_ne (hidx nh hnh), harp]
            exact hinv.arp nh hnh
      -- the hardware has refused the address, and the index goes back
      | false =>
        right
        have hfree' : (t'.nhsPush idx).free = t.free := by
          rw [free_nhsPush _ (by omega) hlt.le, hfree]
        refine ⟨_, rfl, by simp [hnht], by simp [harp], ?_, ?_, ?_, fun nh hnh => ?_⟩
        · simpa [hnht] using hinv.counts
        · rw [nhsPush_sp]
          omega
        · simpa [hnht, hfree'] using hinv.indices
        · rw [nhsPush_nht, hnht] at hnh
          simpa [harp] using hinv.arp nh hnh

/-- A user goes; the index of the last one of an address goes back to the stack. -/
theorem nhtUnref (hu : addr ∈ users) :
    (t.nhtUnref addr).1 = .ST_OK ∧ NhInv (t.nhtUnref addr).2 (users.erase addr) := by
  obtain ⟨nh, hf⟩ := hinv.exists_of_mem hu
  have hmem := Keyed.mem_of_find hf
  have haddr := Keyed.key_of_find hf
  unfold NhTable.nhtUnref
  rw [hf]
  by_cases hlast : nh.refc - 1 = 0
  · -- the last user: deleting the entry undoes the change of its count
    have hdel : Keyed.del Nexthop.addr (Keyed.modify Nexthop.addr t.nht addr fun nh =>
        { nh with refc := nh.refc - 1 }) addr = Keyed.del Nexthop.addr t.nht addr :=
      hinv.counts.unique.del_modify fun _ => rfl
    simp only [if_pos hlast, nhsPush_nht, hdel, true_and]
    have hsp := hinv.sp_pos hmem
    refine ⟨hinv.counts.remove hf (by omega), ?_, ?_, fun nh' hnh' => ?_⟩
    · simp only [nhsPush_sp]
      have := hinv.sp_lt
      omega
    · have hperm := (Keyed.perm_cons_del hf).map Nexthop.idx
      have hfree := free_nhsPush nh.idx hsp hinv.sp_lt.le
      refine (List.Perm.append_left _ (.of_eq ?_)).trans (List.perm_middle.trans
        ((hperm.symm.append_right t.free).trans hinv.indices))
      rw [← hfree]
      -- the stack does not depend on the entries
      unfold nhsPush
      split_ifs <;> rfl
    · simp only [nhsPush_arp]
      exact hinv.arp nh' (Keyed.mem_of_mem_del hnh')
  · simp only [if_neg hlast, true_and]
    refine ⟨hinv.counts.drop hf (by omega) (fun _ => rfl) fun _ => rfl, hinv.sp_lt, ?_,
      fun nh' hnh' => ?_⟩
    · have hidx : (Keyed.modify Nexthop.addr t.nht addr fun nh =>
          { nh with refc := nh.refc - 1 }).map Nexthop.idx = t.nht.map Nexthop.idx :=
        Keyed.map_modify Nexthop.idx fun _ => rfl
      exact (List.Perm.of_eq (congrArg (· ++ t.free) hidx)).trans hinv.indices
    · rcases Keyed.mem_modify_iff.mp hnh' with ⟨x, hx, -, rfl⟩ | ⟨hx, -⟩
      · exact hinv.arp x hx
      · exact hinv.arp nh' hx

end NhInv

end NhTable

end Presteramgr
