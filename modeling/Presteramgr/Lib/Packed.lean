import Mathlib.Algebra.Order.Group.Int
import Mathlib.Data.List.Nodup
import Mathlib.Tactic.Ring
import Presteramgr.Lib.Keyed

/-!
# Packed slots

The members of a list each have a key and a slot. The members with an active key lie in the first
slots of a run, one in each, and the others lie in a slot of their own kind, `off`. A member that
becomes active takes the slot after the last one. When one ceases to be active, the member of the
last slot moves to the slot that has become free.

## Main definitions

* `Slots`: keys and slots of the members;
* `Filled`: the active members fill the first slots;
* `deactivate`: the list after a member has left its slot.

## Main results

* `Filled.activate` and `Filled.deactivate`;
* `Filled.countP_eq`: there are as many active members as slots are filled.
-/

namespace Packed

variable {α κ : Type*}

/-- Members with a key, and a slot that can be set. -/
structure Slots (α κ : Type*) where
  key : α → κ
  slot : α → ℤ
  set : α → ℤ → α
  key_set : ∀ x i, key (set x i) = key x
  slot_set : ∀ x i, slot (set x i) = i

/-- The active members lie in the slots from `first` to `first + n`, one in each, and the others
are `off`. -/
structure Filled (o : Slots α κ) (act : κ → Prop) (first n off : ℤ) (l : List α) : Prop where
  nonneg : 0 ≤ n
  range : ∀ x ∈ l, act (o.key x) → first ≤ o.slot x ∧ o.slot x < first + n
  inj : ∀ x ∈ l, ∀ y ∈ l, act (o.key x) → act (o.key y) → o.slot x = o.slot y → o.key x = o.key y
  surj : ∀ i, first ≤ i → i < first + n → ∃ x ∈ l, act (o.key x) ∧ o.slot x = i
  off : ∀ x ∈ l, ¬act (o.key x) → o.slot x = off

variable {o : Slots α κ} {act act' : κ → Prop} {first n off : ℤ} {l : List α} {x y : α} {k : κ}

theorem filled_nil : Filled o act first 0 off [] :=
  ⟨le_refl _, fun _ hx => absurd hx List.not_mem_nil, fun _ hx => absurd hx List.not_mem_nil,
    fun _ h h' => by omega, fun _ hx => absurd hx List.not_mem_nil⟩

/-- Only the activity of the members counts. -/
theorem Filled.congr (h : Filled o act first n off l)
    (hact : ∀ x ∈ l, act' (o.key x) ↔ act (o.key x)) : Filled o act' first n off l := by
  refine ⟨h.nonneg, fun x hx ha => h.range x hx ((hact x hx).mp ha),
    fun x hx y hy ha ha' => h.inj x hx y hy ((hact x hx).mp ha) ((hact y hy).mp ha'),
    fun i hi hi' => ?_, fun x hx hno => h.off x hx (mt (hact x hx).mpr hno)⟩
  obtain ⟨x, hx, ha, hs⟩ := h.surj i hi hi'
  exact ⟨x, hx, (hact x hx).mpr ha, hs⟩

/-- A new member that is active takes the next slot. -/
theorem Filled.concat (h : Filled o act first n off l) (ha : act (o.key x))
    (hs : o.slot x = first + n) : Filled o act first (n + 1) off (l ++ [x]) := by
  have hcases : ∀ y ∈ l ++ [x], y ∈ l ∨ y = x := fun y hy => by simpa using hy
  have hn := h.nonneg
  refine ⟨by omega, fun y hy hay => ?_, fun y hy z hz hay haz heq => ?_, fun i hi hi' => ?_,
    fun y hy hno => ?_⟩
  · rcases hcases y hy with hy | rfl
    · have := h.range y hy hay
      omega
    · omega
  · rcases hcases y hy with hy' | rfl
    · rcases hcases z hz with hz' | rfl
      · exact h.inj y hy' z hz' hay haz heq
      · have := h.range y hy' hay
        omega
    · rcases hcases z hz with hz' | rfl
      · have := h.range z hz' haz
        omega
      · rfl
  · by_cases hlast : i = first + n
    · exact ⟨x, by simp, ha, hs.trans hlast.symm⟩
    · obtain ⟨y, hy, hay, hys⟩ := h.surj i hi (by omega)
      exact ⟨y, by simp [hy], hay, hys⟩
  · rcases hcases y hy with hy | rfl
    · exact h.off y hy hno
    · exact absurd ha hno

/-- A new member that is not active is off. -/
theorem Filled.concat_off (h : Filled o act first n off l) (ha : ¬act (o.key x))
    (hs : o.slot x = off) : Filled o act first n off (l ++ [x]) := by
  have hcases : ∀ y ∈ l ++ [x], act (o.key y) → y ∈ l := fun y hy hay => by
    rcases List.mem_append.mp hy with hy | hy
    · exact hy
    · exact absurd (List.mem_singleton.mp hy ▸ hay) ha
  refine ⟨h.nonneg, fun y hy hay => h.range y (hcases y hy hay) hay, fun y hy z hz hay haz =>
    h.inj y (hcases y hy hay) z (hcases z hz haz) hay haz, fun i hi hi' => ?_, fun y hy hno => ?_⟩
  · obtain ⟨y, hy, hay, hys⟩ := h.surj i hi hi'
    exact ⟨y, by simp [hy], hay, hys⟩
  · rcases List.mem_append.mp hy with hy | hy
    · exact h.off y hy hno
    · rw [List.mem_singleton.mp hy]
      exact hs

/-- The filled slots are those of the active members. -/
theorem Filled.countP_eq [DecidablePred act] (h : Filled o act first n off l)
    (hu : Keyed.Unique o.key l) : ((l.countP fun x => act (o.key x) : ℕ) : ℤ) = n := by
  have hperm : ((l.filter fun x => act (o.key x)).map o.slot).Perm
      ((List.range n.toNat).map fun k : ℕ => first + k) := by
    refine (List.perm_ext_iff_of_nodup ?_ ?_).mpr fun i => ?_
    · -- slots of active members are different because their keys are
      refine List.Nodup.map_on (fun x hx y hy heq => ?_) (List.Nodup.filter _ (.of_map _ hu))
      simp only [List.mem_filter, decide_eq_true_eq] at hx hy
      exact hu.eq_of_mem hx.1 hy.1 (h.inj x hx.1 y hy.1 hx.2 hy.2 heq)
    · refine List.Nodup.map_on (fun a _ b _ heq => ?_) List.nodup_range
      omega
    · simp only [List.mem_map, List.mem_filter, decide_eq_true_eq, List.mem_range]
      constructor
      · rintro ⟨x, ⟨hx, ha⟩, rfl⟩
        have := h.range x hx ha
        exact ⟨(o.slot x - first).toNat, by omega, by omega⟩
      · rintro ⟨k, hk, rfl⟩
        obtain ⟨x, hx, ha, hs⟩ := h.surj (first + k) (by omega) (by omega)
        exact ⟨x, ⟨hx, ha⟩, hs⟩
  have hlen := hperm.length_eq
  rw [List.length_map, List.length_map, List.length_range, ← List.countP_eq_length_filter] at hlen
  have := h.nonneg
  omega

/-- There are not more filled slots than members. -/
theorem Filled.le_length (h : Filled o act first n off l) (hu : Keyed.Unique o.key l) :
    n ≤ l.length := by
  classical
  rw [← h.countP_eq hu]
  exact_mod_cast List.countP_le_length

variable [DecidableEq κ]

/-- A member that becomes active takes the next slot. -/
theorem Filled.activate (h : Filled o act first n off l) (hx : x ∈ l)
    (hk : o.key x = k) (hno : ¬act k) (hact : ∀ k', act' k' ↔ act k' ∨ k' = k) :
    Filled o act' first (n + 1) off (Keyed.modify o.key l k fun x => o.set x (first + n)) := by
  have hcases : ∀ y ∈ Keyed.modify o.key l k (fun x => o.set x (first + n)),
      (o.key y = k ∧ o.slot y = first + n) ∨ (y ∈ l ∧ o.key y ≠ k) := fun y hy => by
    rcases Keyed.mem_modify_iff.mp hy with ⟨z, -, hzk, rfl⟩ | hy
    · exact .inl ⟨by rw [o.key_set, hzk], o.slot_set z _⟩
    · exact .inr hy
  have hold : ∀ y, o.key y ≠ k → act' (o.key y) → act (o.key y) := fun y hyk hay =>
    ((hact _).mp hay).resolve_right hyk
  have hn := h.nonneg
  refine ⟨by omega, fun y hy hay => ?_, fun y hy z hz hay haz heq => ?_, fun i hi hi' => ?_,
    fun y hy hnoy => ?_⟩
  · rcases hcases y hy with ⟨-, hys⟩ | ⟨hy, hyk⟩
    · omega
    · have := h.range y hy (hold y hyk hay)
      omega
  · rcases hcases y hy with ⟨hyk, hys⟩ | ⟨hy, hyk⟩
    · rcases hcases z hz with ⟨hzk, -⟩ | ⟨hz, hzk⟩
      · rw [hyk, hzk]
      · have := h.range z hz (hold z hzk haz)
        omega
    · have hry := h.range y hy (hold y hyk hay)
      rcases hcases z hz with ⟨-, hzs⟩ | ⟨hz, hzk⟩
      · omega
      · exact h.inj y hy z hz (hold y hyk hay) (hold z hzk haz) heq
  · by_cases hlast : i = first + n
    · exact ⟨o.set x (first + n), Keyed.mem_modify_iff.mpr (.inl ⟨x, hx, hk, rfl⟩),
        by rw [o.key_set, hk]; exact (hact k).mpr (.inr rfl), by rw [o.slot_set, hlast]⟩
    · obtain ⟨y, hy, hay, hys⟩ := h.surj i hi (by omega)
      have hyk : o.key y ≠ k := fun heq => hno (heq ▸ hay)
      exact ⟨y, Keyed.mem_modify_iff.mpr (.inr ⟨hy, hyk⟩), (hact _).mpr (.inl hay), hys⟩
  · rcases hcases y hy with ⟨hyk, -⟩ | ⟨hy, -⟩
    · exact absurd ((hact _).mpr (.inr hyk)) hnoy
    · exact h.off y hy fun hay => hnoy ((hact _).mpr (.inl hay))

/-- The member with the key `k` goes off, and the first member of the slot `last`, if there is one,
takes the slot `s`. -/
def deactivate (o : Slots α κ) (l : List α) (k : κ) (s off last : ℤ) : List α :=
  Keyed.modifyFirst (fun x => o.slot x = last) (fun x => o.set x s)
    (Keyed.modify o.key l k fun x => o.set x off)

/-- The members after `deactivate`. -/
theorem mem_deactivate (hu : Keyed.Unique o.key l) (hp : Filled o act first n off l) (hx : x ∈ l)
    (hk : o.key x = k) (hact : act k) (hoff : off < first) :
    y ∈ deactivate o l k (o.slot x) off (first + n - 1) ↔
      y = o.set x off ∨ ∃ z ∈ l, o.key z ≠ k ∧
        y = if o.slot z = first + n - 1 then o.set z (o.slot x) else z := by
  have hu' : Keyed.Unique o.key (Keyed.modify o.key l k fun x => o.set x off) :=
    hu.modify fun y => o.key_set y _
  have hrange := hp.range x hx (hk ▸ hact)
  have hmem : ∀ y, y ∈ Keyed.modify o.key l k (fun x => o.set x off) ↔
      y = o.set x off ∨ y ∈ l ∧ o.key y ≠ k := fun y => by
    rw [Keyed.mem_modify_iff]
    constructor
    · rintro (⟨z, hz, hzk, rfl⟩ | hy)
      · rw [hu.eq_of_mem hz hx (hzk.trans hk.symm)]
        exact .inl rfl
      · exact .inr hy
    · rintro (rfl | hy)
      · exact .inl ⟨x, hx, hk, rfl⟩
      · exact .inr hy
  -- a member in the last slot is active, because `off` is not a slot of the run
  have hlast : ∀ z ∈ l, o.slot z = first + n - 1 → act (o.key z) := fun z hz hs => by
    by_contra hno
    have := hp.off z hz hno
    omega
  unfold deactivate
  cases hf : (Keyed.modify o.key l k fun x => o.set x off).find?
      (fun x => o.slot x = first + n - 1) with
  | none =>
    have hnone := List.find?_eq_none.mp hf
    rw [Keyed.modifyFirst_of_forall_not fun y hy => by simpa using hnone y hy, hmem]
    refine or_congr_right ⟨fun hy => ⟨y, hy.1, hy.2, ?_⟩, ?_⟩
    · rw [if_neg]
      intro hs
      exact hnone y ((hmem y).mpr (.inr hy)) (by simpa using hs)
    · rintro ⟨z, hz, hzk, rfl⟩
      have hzno : o.slot z ≠ first + n - 1 := fun hs =>
        hnone z ((hmem z).mpr (.inr ⟨hz, hzk⟩)) (by simpa using hs)
      rw [if_neg hzno]
      exact ⟨hz, hzk⟩
  | some w =>
    have hw := List.mem_of_find?_eq_some hf
    have hws : o.slot w = first + n - 1 := by simpa using List.find?_some hf
    have hwl : w ∈ l ∧ o.key w ≠ k := by
      refine ((hmem w).mp hw).resolve_left ?_
      rintro rfl
      rw [o.slot_set] at hws
      omega
    rw [hu'.modifyFirst_of_find hf, Keyed.mem_modify_iff]
    constructor
    · rintro (⟨z, hz, hzw, rfl⟩ | ⟨hy, hyw⟩)
      · rw [hu'.eq_of_mem hz hw hzw]
        exact .inr ⟨w, hwl.1, hwl.2, by rw [if_pos hws]⟩
      · refine ((hmem y).mp hy).imp_right fun hy => ⟨y, hy.1, hy.2, ?_⟩
        rw [if_neg]
        intro hys
        exact hyw (hp.inj y hy.1 w hwl.1 (hlast y hy.1 hys) (hlast w hwl.1 hws)
          (hys.trans hws.symm))
    · rintro (rfl | ⟨z, hz, hzk, rfl⟩)
      · refine .inr ⟨(hmem _).mpr (.inl rfl), ?_⟩
        rw [o.key_set, hk]
        exact hwl.2.symm
      · split_ifs with hzl
        · refine .inl ⟨z, (hmem z).mpr (.inr ⟨hz, hzk⟩), ?_, rfl⟩
          exact hp.inj z hz w hwl.1 (hlast z hz hzl) (hlast w hwl.1 hws) (hzl.trans hws.symm)
        · refine .inr ⟨(hmem z).mpr (.inr ⟨hz, hzk⟩), fun hzw => hzl ?_⟩
          rw [hu.eq_of_mem hz hwl.1 hzw]
          exact hws

/-- When a member ceases to be active, the member of the last slot takes its slot. -/
theorem Filled.deactivate (h : Filled o act first n off l) (hu : Keyed.Unique o.key l)
    (hx : x ∈ l) (hk : o.key x = k) (hactk : act k) (hoff : off < first)
    (hact : ∀ k', act' k' ↔ act k' ∧ k' ≠ k) :
    Filled o act' first (n - 1) off
      (Packed.deactivate o l k (o.slot x) off (first + n - 1)) := by
  have hmem := fun y => mem_deactivate (y := y) hu h hx hk hactk hoff
  have hrange := h.range x hx (hk ▸ hactk)
  -- an active member afterwards comes from an active member
  have hcases : ∀ y ∈ Packed.deactivate o l k (o.slot x) off (first + n - 1),
      act' (o.key y) → ∃ z ∈ l, o.key z ≠ k ∧ act (o.key z) ∧ o.key y = o.key z ∧
        o.slot y = if o.slot z = first + n - 1 then o.slot x else o.slot z := fun y hy hay => by
    rcases (hmem y).mp hy with rfl | ⟨z, hz, hzk, rfl⟩
    · rw [o.key_set, hk] at hay
      exact absurd rfl ((hact k).mp hay).2
    · by_cases hzl : o.slot z = first + n - 1
      · rw [if_pos hzl, o.key_set] at hay ⊢
        exact ⟨z, hz, hzk, ((hact _).mp hay).1, rfl, by rw [o.slot_set, if_pos hzl]⟩
      · rw [if_neg hzl] at hay ⊢
        exact ⟨z, hz, hzk, ((hact _).mp hay).1, rfl, by rw [if_neg hzl]⟩
  have hslot : ∀ z ∈ l, o.key z ≠ k → act (o.key z) → o.slot z ≠ o.slot x :=
    fun z hz hzk haz heq => hzk ((h.inj z hz x hx haz (hk ▸ hactk) heq).trans hk)
  refine ⟨by omega, fun y hy hay => ?_, fun y hy y' hy' hay hay' heq => ?_, fun i hi hi' => ?_,
    fun y hy hno => ?_⟩
  · obtain ⟨z, hz, hzk, haz, -, hys⟩ := hcases y hy hay
    have hrz := h.range z hz haz
    have hne := hslot z hz hzk haz
    rw [hys]
    split_ifs with hs
    · omega
    · omega
  · obtain ⟨z, hz, hzk, haz, hyz, hys⟩ := hcases y hy hay
    obtain ⟨z', hz', hzk', haz', hyz', hys'⟩ := hcases y' hy' hay'
    have hne := hslot z hz hzk haz
    have hne' := hslot z' hz' hzk' haz'
    rw [hyz, hyz']
    refine h.inj z hz z' hz' haz haz' ?_
    rw [hys, hys'] at heq
    split_ifs at heq with hs hs' hs'
    · rw [hs, hs']
    · exact absurd heq.symm hne'
    · exact absurd heq hne
    · exact heq
  · obtain ⟨z, hz, haz, hzs⟩ := h.surj i hi (by omega)
    by_cases hzk : o.key z = k
    · -- the slot that has become free is filled by the last member
      have hzx : z = x := hu.eq_of_mem hz hx (hzk.trans hk.symm)
      subst hzx
      obtain ⟨w, hw, haw, hws⟩ := h.surj (first + n - 1) (by omega) (by omega)
      have hwk : o.key w ≠ k := fun heq => by
        rw [hu.eq_of_mem hw hx (heq.trans hk.symm)] at hws
        omega
      refine ⟨o.set w (o.slot z), (hmem _).mpr (.inr ⟨w, hw, hwk, by rw [if_pos hws]⟩),
        ?_, by rw [o.slot_set, hzs]⟩
      rw [o.key_set]
      exact (hact _).mpr ⟨haw, hwk⟩
    · refine ⟨z, (hmem _).mpr (.inr ⟨z, hz, hzk, ?_⟩), (hact _).mpr ⟨haz, hzk⟩, hzs⟩
      rw [if_neg]
      omega
  · rcases (hmem y).mp hy with rfl | ⟨z, hz, hzk, rfl⟩
    · exact o.slot_set x off
    · by_cases hzl : o.slot z = first + n - 1
      · -- a member in the last slot is active, as before
        rw [if_pos hzl, o.key_set] at hno
        refine absurd ((hact _).mpr ⟨?_, hzk⟩) hno
        by_contra haz
        have := h.off z hz haz
        omega
      · rw [if_neg hzl] at hno ⊢
        exact h.off z hz fun haz => hno ((hact _).mpr ⟨haz, hzk⟩)

end Packed
