import Mathlib.Algebra.Order.Group.Unbundled.Abs
import Mathlib.Data.Fintype.Card
import Mathlib.Order.Interval.Finset.Nat
import Presteramgr.Lib.Guarded
import Presteramgr.Lib.Sweep
import Presteramgr.Stack.Topology

/-!
# A unit that has been told of its stack

The stack is a loop of units. What a unit programs when it is told of a loop, whatever it was told
before.

## Main definitions

* `Consistent`: the data of the stack daemon for a unit of a loop;
* `Configured`: the device map and the source-id groups of a unit of a loop;
* `PpKept`: no unit gets a second device while its hops stay the same.

## Main results

* `reach_devMapped`: after any configurations the device map goes with `stack_units`;
* `stackUpdateConf_second`: which entries of second devices a configuration writes;
* `reach_secondMapped`: after configurations with `PpKept` they go with `stack_units`, too;
* `stackUpdateConf_configured`: the tables after a configuration for a loop.
-/

namespace Presteramgr

open Function (update update_self update_of_ne)
open Sweep

/-- The data of the stack daemon for the unit at the position `m`. -/
structure Consistent (L : Loop ℕ) (m : ℤ) (conf : StackdConf) : Prop where
  ring : conf.ring = L.ring
  length : conf.units.length = L.n
  nodup : (conf.units.map (·.id)).Nodup
  mem : ∀ a, ∃ x ∈ conf.units, x.id = L.node a
  entry : ∀ x ∈ conf.units, ∃ a, x.id = L.node a ∧
    (∀ p, x.neighbor p = (L.neighbor a p).getD 0) ∧
      (L.node a ≠ L.node m → ∀ p, x.hops p = L.hops m p (L.node a))

/-- `stack_units_update` with such data. -/
structure Loaded (L : Loop ℕ) (m : ℤ) (units : ℕ → StackdUnit) : Prop where
  zero : ∀ i, (∀ a, i ≠ L.node a) → units i = .zero
  id : ∀ a, (units (L.node a)).id = L.node a
  neighbor : ∀ a p, (units (L.node a)).neighbor p = (L.neighbor a p).getD 0
  hops : ∀ a, L.node a ≠ L.node m → ∀ p, (units (L.node a)).hops p = L.hops m p (L.node a)

/-- Units with other numbers leave an entry alone. -/
theorem foldl_load_of_ne {units : List StackdUnit} {i : ℕ} (hi : ∀ x ∈ units, x.id ≠ i)
    (table : ℕ → StackdUnit) :
    units.foldl (fun table x => update table x.id x) table i = table i := by
  exact Sweep.foldl_keeps (fun table : ℕ → StackdUnit => table i)
    (fun _ y hy => update_of_ne (hi y hy).symm ..) table

/-- A unit that is not in the list is loaded as zero. -/
theorem loadUnits_of_not_mem {units : List StackdUnit} {i : ℕ} (hi : ∀ x ∈ units, x.id ≠ i) :
    loadUnits units i = .zero :=
  foldl_load_of_ne hi _

/-- A unit of the list is loaded as it is there. -/
theorem loadUnits_of_mem {units : List StackdUnit} (hnd : (units.map (·.id)).Nodup)
    {x : StackdUnit} (hx : x ∈ units) : loadUnits units x.id = x := by
  unfold loadUnits
  generalize (fun _ : ℕ => StackdUnit.zero) = table
  induction units generalizing table with
  | nil => exact absurd hx List.not_mem_nil
  | cons y units ih =>
    rw [List.map_cons, List.nodup_cons] at hnd
    rw [List.foldl_cons]
    obtain rfl | hx := List.mem_cons.mp hx
    · -- no later unit has the number
      rw [foldl_load_of_ne fun z hz h => hnd.1 (List.mem_map.mpr ⟨z, hz, h⟩), update_self]
    · exact ih hnd.2 hx _

section

variable {L : Loop ℕ} {m : ℤ} {conf : StackdConf}

/-- A consistent configuration is loaded as the loop. -/
theorem Consistent.loaded (hc : Consistent L m conf) : Loaded L m (loadUnits conf.units) := by
  have key : ∀ a, ∃ x ∈ conf.units, x.id = L.node a ∧ loadUnits conf.units (L.node a) = x :=
    fun a => by
      obtain ⟨x, hx, hid⟩ := hc.mem a
      exact ⟨x, hx, hid, by rw [← hid, loadUnits_of_mem hc.nodup hx]⟩
  refine ⟨fun i hi => ?_, fun a => ?_, fun a p => ?_, fun a hne p => ?_⟩
  · refine loadUnits_of_not_mem fun x hx hid => ?_
    obtain ⟨a, ha, -⟩ := hc.entry x hx
    exact hi a (hid.symm.trans ha)
  · obtain ⟨x, -, hid, hload⟩ := key a
    rw [hload, hid]
  · obtain ⟨x, hx, hid, hload⟩ := key a
    obtain ⟨b, hb, hnb, -⟩ := hc.entry x hx
    rw [hload, hnb, L.neighbor_congr (hb.symm.trans hid)]
  · obtain ⟨x, hx, hid, hload⟩ := key a
    obtain ⟨b, hb, -, hhops⟩ := hc.entry x hx
    have hab : L.node b = L.node a := hb.symm.trans hid
    rw [hload, hhops (hab ▸ hne), hab]

end

/-! ### The device map -/

variable {sys : StackSys} {s s' : StackState}

/-- The device map goes with the table of the units. -/
def DevMapped (sys : StackSys) (s : StackState) (units : ℕ → StackdUnit) : Prop :=
  ∀ i, 1 ≤ i → i ≤ sys.MAX_STACK_UNITS → i ≠ sys.stack_id → ∀ d < sys.NDEVS,
    s.dev_map d i = sys.portLink d (hopsPort (units i).hops)

/-- One entry of the device map of one device is written. -/
theorem devMapTableSet_dev_map (d dev : ℕ) (lp : CscdLink) (d' i : ℕ) :
    (s.devMapTableSet d dev lp).dev_map d' i =
      if d' = d ∧ i = dev then lp else s.dev_map d' i := by
  unfold StackState.devMapTableSet
  by_cases hd : d' = d
  · subst hd
    by_cases hi : i = dev
    · subst hi
      simp
    · simp [hi]
  · simp [hd]

/-- `stack_update_dev_map` writes the entry of the unit on each device. -/
theorem stackUpdateDevMap_dev_map {dev : ℕ} (hdev : 1 ≤ dev) (hops : Port → ℕ) (num_pp : ℕ)
    {d i : ℕ} (hd : d < sys.NDEVS) (hi : i ≤ sys.MAX_STACK_UNITS) :
    (stackUpdateDevMap sys s dev hops num_pp).dev_map d i =
      if i = dev then sys.portLink d (hopsPort hops) else s.dev_map d i := by
  have hne : i ≠ dev + sys.NEXTDEV_INC := by
    have := sys.max_le
    omega
  refine (sweep_at (fun (s : StackState) d => s.dev_map d i)
    (fun d lp => if i = dev then sys.portLink d (hopsPort hops) else lp) d
    fun s d' _ => ?_).trans (if_pos hd)
  unfold devMapRound
  simp only
  have hfirst : (s.devMapTableSet d' dev (sys.portLink d' (hopsPort hops))).dev_map d i =
      if d = d' then (if i = dev then sys.portLink d (hopsPort hops) else s.dev_map d i)
      else s.dev_map d i := by
    rw [devMapTableSet_dev_map]
    by_cases hdd : d = d'
    · subst hdd
      simp
    · simp [hdd]
  by_cases hpp : num_pp = 2
  · -- the entry of the second device of the unit is another
    rw [if_pos hpp, devMapTableSet_dev_map, if_neg fun h => hne h.2, hfirst]
  · rw [if_neg hpp, hfirst]

/-- `stack_update_dev_map` changes neither the units nor the groups. -/
theorem stackUpdateDevMap_rest (dev : ℕ) (hops : Port → ℕ) (num_pp : ℕ) :
    (stackUpdateDevMap sys s dev hops num_pp).stack_units = s.stack_units ∧
      (stackUpdateDevMap sys s dev hops num_pp).srcid = s.srcid := by
  refine sweep_invariant (fun s' : StackState => s'.stack_units = s.stack_units ∧
    s'.srcid = s.srcid)
    ⟨rfl, rfl⟩ fun s' d _ h => ?_
  unfold devMapRound
  simp only
  split_ifs
  · exact h
  · exact h

/-- `stack_update_srcid_groups` changes the group of one unit. -/
theorem updateGroup_cases {units : ℕ → StackdUnit} {dev n : ℕ} {ring : Bool}
    (h : s.updateGroup sys units dev ring n = some s') : ∃ group,
      stackUpdateSrcidGroups sys units dev ring n (s.srcid dev) = some group ∧
        s' = { s with srcid := update s.srcid dev group } := by
  obtain ⟨group, hg, rfl⟩ := Option.map_eq_some_iff.mp h
  exact ⟨group, hg, rfl⟩

/-- What a round leaves: the device map of the unit `i` goes with the new hops, its group is
programmed, and all else is as it was. -/
structure Round (sys : StackSys) (units : ℕ → StackdUnit) (ring : Bool) (n i : ℕ)
    (s s' : StackState) : Prop where
  stack_units : s'.stack_units = s.stack_units
  dev_map : i ≠ sys.stack_id → i ≤ sys.MAX_STACK_UNITS → ∀ d < sys.NDEVS,
    s.dev_map d i = sys.portLink d (hopsPort (s.stack_units i).hops) →
      s'.dev_map d i = sys.portLink d (hopsPort (units i).hops)
  dev_map_of_ne : ∀ j ≤ sys.MAX_STACK_UNITS, j ≠ i → ∀ d < sys.NDEVS, s'.dev_map d j = s.dev_map d j
  srcid : ∀ j, j ≠ i → s'.srcid j = s.srcid j
  group : i = sys.stack_id ∨ i = (units i).id →
    stackUpdateSrcidGroups sys units i ring n (s.srcid i) = some (s'.srcid i)

/-- The device map of a round before the group is programmed. -/
structure UnitMapped (sys : StackSys) (units : ℕ → StackdUnit) (i : ℕ) (s s₁ : StackState) :
    Prop where
  rest : s₁.stack_units = s.stack_units ∧ s₁.srcid = s.srcid
  dev_map : i ≠ sys.stack_id → i ≤ sys.MAX_STACK_UNITS → ∀ d < sys.NDEVS,
    s.dev_map d i = sys.portLink d (hopsPort (s.stack_units i).hops) →
      s₁.dev_map d i = sys.portLink d (hopsPort (units i).hops)
  dev_map_of_ne : ∀ j ≤ sys.MAX_STACK_UNITS, j ≠ i → ∀ d < sys.NDEVS, s₁.dev_map d j = s.dev_map d j

/-- A round maps the unit and updates its group. -/
theorem UnitMapped.round {units : ℕ → StackdUnit} {ring : Bool} {n i : ℕ} {s₁ : StackState}
    (hm : UnitMapped sys units i s s₁) (h : s₁.updateGroup sys units i ring n = some s') :
    Round sys units ring n i s s' := by
  obtain ⟨group, hg, rfl⟩ := updateGroup_cases h
  refine ⟨hm.rest.1, hm.dev_map, hm.dev_map_of_ne, fun j hj => ?_, fun _ => ?_⟩
  · simp only [update_of_ne hj, hm.rest.2]
  · simp only [update_self, ← hm.rest.2, hg]

/-- The unit itself has no entry in its device map. -/
theorem mapped_self (units : ℕ → StackdUnit) : UnitMapped sys units sys.stack_id s s :=
  ⟨⟨rfl, rfl⟩, fun h => absurd rfl h, fun _ _ _ _ _ => rfl⟩

/-- Hops that are the same are not written again. -/
theorem mapped_of_ne (sys : StackSys) (s : StackState) (units : ℕ → StackdUnit) {i : ℕ}
    (hi : 1 ≤ i) : UnitMapped sys units i s
    (if (s.stack_units i).hops .zero ≠ (units i).hops .zero ∨
        (s.stack_units i).hops .one ≠ (units i).hops .one then
      stackUpdateDevMap sys s i (units i).hops (units i).num_pp else s) := by
  split_ifs with hch
  · refine ⟨stackUpdateDevMap_rest _ _ _, fun _ hmax d hd _ => ?_, fun j hj hne d hd => ?_⟩
    · rw [stackUpdateDevMap_dev_map hi _ _ hd hmax, if_pos rfl]
    · rw [stackUpdateDevMap_dev_map hi _ _ hd hj, if_neg hne]
  · have hops : (s.stack_units i).hops = (units i).hops := by
      rw [not_or, not_not, not_not] at hch
      funext p
      cases p with
      | zero => exact hch.1
      | one => exact hch.2
    exact ⟨⟨rfl, rfl⟩, fun _ _ d _ h => by rw [h, hops], fun _ _ _ _ _ => rfl⟩

/-- What one round of the loop does, for all of its branches. -/
theorem updateRound_cases {units : ℕ → StackdUnit} {ring : Bool} {n i : ℕ} (hi : 1 ≤ i)
    (h : updateRound sys units ring n s i = some s') : Round sys units ring n i s s' := by
  unfold updateRound at h
  by_cases hid : i = sys.stack_id
  · rw [if_pos hid] at h
    subst hid
    exact (mapped_self units).round h
  · rw [if_neg hid] at h
    have hm := mapped_of_ne sys s units hi
    by_cases hg : i = (units i).id ∨ i = (s.stack_units i).id
    · rw [if_pos hg] at h
      exact hm.round h
    · rw [if_neg hg] at h
      rw [Option.some_inj.mp h] at hm
      refine ⟨hm.rest.1, hm.dev_map, hm.dev_map_of_ne, fun j _ => by rw [hm.rest.2], fun hgi => ?_⟩
      exact absurd hgi (not_or.mpr ⟨hid, fun h => hg (Or.inl h)⟩)

/-- The device map while the units up to `k` have been dealt with. -/
structure Dealt (sys : StackSys) (s : StackState) (units : ℕ → StackdUnit) (k : ℕ)
    (s' : StackState) : Prop where
  stack_units : s'.stack_units = s.stack_units
  done : ∀ i, 1 ≤ i → i ≤ k → i ≤ sys.MAX_STACK_UNITS → i ≠ sys.stack_id → ∀ d < sys.NDEVS,
    s'.dev_map d i = sys.portLink d (hopsPort (units i).hops)
  todo : ∀ i, k < i → i ≤ sys.MAX_STACK_UNITS → i ≠ sys.stack_id → ∀ d < sys.NDEVS,
    s'.dev_map d i = sys.portLink d (hopsPort (s.stack_units i).hops)

/-- A round deals with one unit more. -/
theorem Dealt.round {units : ℕ → StackdUnit} {ring : Bool} {n k : ℕ} {s₁ s₂ : StackState}
    (h : Dealt sys s units k s₁) (hr : Round sys units ring n (k + 1) s₁ s₂) :
    Dealt sys s units (k + 1) s₂ := by
  refine ⟨hr.stack_units.trans h.stack_units, fun i h1 hik hmax hid d hd => ?_,
    fun i hik hmax hid d hd => ?_⟩
  · obtain hlt | rfl := Nat.lt_or_eq_of_le hik
    · rw [hr.dev_map_of_ne i hmax hlt.ne d hd]
      exact h.done i h1 (Nat.le_of_lt_succ hlt) hmax hid d hd
    · refine hr.dev_map hid hmax d hd ?_
      rw [h.stack_units]
      exact h.todo (k + 1) (Nat.lt_succ_self k) hmax hid d hd
  · rw [hr.dev_map_of_ne i hmax hik.ne' d hd]
    exact h.todo i (Nat.lt_of_succ_lt hik) hmax hid d hd

/-- When all units have been dealt with, the device maps are those of the loop. -/
theorem Dealt.devMapped {units : ℕ → StackdUnit} {s₁ : StackState}
    (h : Dealt sys s units sys.MAX_STACK_UNITS s₁) : DevMapped sys s₁ units :=
  fun i h1 hmax hid d hd => h.done i h1 hmax hmax hid d hd

/-- Before the first round no unit has been dealt with. -/
theorem dealt_zero {units : ℕ → StackdUnit} (h : DevMapped sys s s.stack_units) :
    Dealt sys s units 0 s :=
  ⟨rfl, fun i h1 hi => absurd hi (by omega), fun i hi hmax hid d hd => h i hi hmax hid d hd⟩

/-- A configuration that is taken over goes through all rounds and is kept. -/
theorem stackUpdateConf_cases {conf : StackdConf} (h : stackUpdateConf sys s conf = some s') :
    ∃ s₁, stackUpdateAll sys (loadUnits conf.units) conf.ring conf.units.length s = some s₁ ∧
      s' = { s₁ with stack_units := loadUnits conf.units } := by
  unfold stackUpdateConf at h
  split_ifs at h with hids
  obtain ⟨s₁, hs₁, rfl⟩ := Option.map_eq_some_iff.mp h
  exact ⟨s₁, hs₁, rfl⟩

/-- **Step.** A configuration that is taken over leaves the device maps in step with it. -/
theorem stackUpdateConf_devMapped (h : DevMapped sys s s.stack_units) {conf : StackdConf}
    (hs : stackUpdateConf sys s conf = some s') : DevMapped sys s' s'.stack_units := by
  obtain ⟨s₁, hs₁, rfl⟩ := stackUpdateConf_cases hs
  exact (sweepM_invariant (Dealt sys s (loadUnits conf.units)) hs₁ (dealt_zero h)
    fun s₁ k _ s₂ hd hr => hd.round (updateRound_cases (Nat.succ_pos k) hr)).devMapped

/-- The device maps are right after the start. -/
theorem devMapped_start (own : ℕ → ℕ → CscdLink) :
    DevMapped sys (.start sys own) (StackState.start sys own).stack_units := by
  intro i h1 hmax hid d hd
  have hmax_lt := sys.max_lt
  have hmax_le := sys.max_le
  have hpos := sys.id_pos
  have hown : ¬sys.OwnDev i := by
    rintro (h | ⟨-, h⟩)
    · exact hid h
    · omega
  exact if_pos ⟨by omega, hown⟩

/-- After any configurations the device map goes with `stack_units`. -/
theorem reach_devMapped {own : ℕ → ℕ → CscdLink}
    (hr : Guarded.Reach (stackUpdateConf sys) (fun _ _ => True) (.start sys own) s) :
    DevMapped sys s s.stack_units :=
  hr.invariant (fun s => DevMapped sys s s.stack_units) (devMapped_start own)
    fun _ _ _ hi _ hs => stackUpdateConf_devMapped hi hs

/-! ### The second devices

The second device of a unit `i` has the entry `i + NEXTDEV_INC`. It is written only together with
the entry of the unit, that is when the hops change. -/

/-- A configuration writes the entry of the second device of the unit `i`. -/
def WritesSecond (sys : StackSys) (s : StackState) (units : ℕ → StackdUnit) (i : ℕ) : Prop :=
  i ≠ sys.stack_id ∧
    ((s.stack_units i).hops .zero ≠ (units i).hops .zero ∨
      (s.stack_units i).hops .one ≠ (units i).hops .one) ∧
    (units i).num_pp = 2

instance (sys : StackSys) (s : StackState) (units : ℕ → StackdUnit) (i : ℕ) :
    Decidable (WritesSecond sys s units i) :=
  inferInstanceAs (Decidable (_ ∧ _ ∧ _))

/-- The entry of a second device after `stack_update_dev_map`. -/
theorem stackUpdateDevMap_second {dev : ℕ} (hdev : dev ≤ sys.MAX_STACK_UNITS) (hops : Port → ℕ)
    (num_pp : ℕ) {d i : ℕ} (hd : d < sys.NDEVS) (hi : 1 ≤ i) :
    (stackUpdateDevMap sys s dev hops num_pp).dev_map d (i + sys.NEXTDEV_INC) =
      if i = dev ∧ num_pp = 2 then sys.portLink d (hopsPort hops)
      else s.dev_map d (i + sys.NEXTDEV_INC) := by
  have hne : i + sys.NEXTDEV_INC ≠ dev := by
    have := sys.max_le
    omega
  refine (sweep_at (fun (s : StackState) d => s.dev_map d (i + sys.NEXTDEV_INC))
    (fun d lp => if i = dev ∧ num_pp = 2 then sys.portLink d (hopsPort hops) else lp) d
    fun s d' _ => ?_).trans (if_pos hd)
  unfold devMapRound
  simp only
  have hfirst : (s.devMapTableSet d' dev (sys.portLink d' (hopsPort hops))).dev_map d
      (i + sys.NEXTDEV_INC) = s.dev_map d (i + sys.NEXTDEV_INC) := by
    rw [devMapTableSet_dev_map, if_neg fun h => hne h.2]
  by_cases hpp : num_pp = 2
  · rw [if_pos hpp, devMapTableSet_dev_map, hfirst]
    by_cases hdd : d = d'
    · subst hdd
      simp [hpp]
    · simp [hdd]
  · rw [if_neg hpp, hfirst]
    simp [hpp]

/-- The entry of a second device after a round. -/
theorem updateRound_second {units : ℕ → StackdUnit} {ring : Bool} {n k : ℕ}
    (hk : k ≤ sys.MAX_STACK_UNITS) (h : updateRound sys units ring n s k = some s') {d i : ℕ}
    (hd : d < sys.NDEVS) (hi : 1 ≤ i) :
    s'.dev_map d (i + sys.NEXTDEV_INC) =
      if i = k ∧ WritesSecond sys s units k then sys.portLink d (hopsPort (units k).hops)
      else s.dev_map d (i + sys.NEXTDEV_INC) := by
  have hgroup : ∀ {s₁ : StackState}, s₁.updateGroup sys units k ring n = some s' →
      s'.dev_map = s₁.dev_map := fun h => by
    obtain ⟨group, -, rfl⟩ := updateGroup_cases h
    rfl
  unfold updateRound at h
  by_cases hid : k = sys.stack_id
  · rw [if_pos hid] at h
    rw [hgroup h, if_neg fun hw => hw.2.1 hid]
  · rw [if_neg hid] at h
    have hmap : s'.dev_map = (if (s.stack_units k).hops .zero ≠ (units k).hops .zero ∨
          (s.stack_units k).hops .one ≠ (units k).hops .one then
        stackUpdateDevMap sys s k (units k).hops (units k).num_pp else s).dev_map := by
      by_cases hg : k = (units k).id ∨ k = (s.stack_units k).id
      · rw [if_pos hg] at h
        exact hgroup h
      · rw [if_neg hg] at h
        rw [← Option.some_inj.mp h]
    rw [hmap]
    by_cases hch : (s.stack_units k).hops .zero ≠ (units k).hops .zero ∨
        (s.stack_units k).hops .one ≠ (units k).hops .one
    · rw [if_pos hch, stackUpdateDevMap_second hk _ _ hd hi]
      refine if_congr (and_congr_right fun _ => ?_) rfl rfl
      exact ⟨fun hpp => ⟨hid, hch, hpp⟩, fun hw => hw.2.2⟩
    · -- the hops are the same: nothing is written
      rw [if_neg hch, if_neg fun hw => hch hw.2.2.1]

/-- The entry of a second device after a configuration. -/
theorem stackUpdateConf_second {conf : StackdConf} (h : stackUpdateConf sys s conf = some s')
    {d i : ℕ} (hd : d < sys.NDEVS) (hi : 1 ≤ i) (hmax : i ≤ sys.MAX_STACK_UNITS) :
    s'.dev_map d (i + sys.NEXTDEV_INC) =
      if WritesSecond sys s (loadUnits conf.units) i then
        sys.portLink d (hopsPort (loadUnits conf.units i).hops)
      else s.dev_map d (i + sys.NEXTDEV_INC) := by
  obtain ⟨s₁, hs₁, rfl⟩ := stackUpdateConf_cases h
  -- the units up to `k` have been dealt with
  obtain ⟨-, h⟩ := sweepM_invariant (fun k (s' : StackState) => s'.stack_units = s.stack_units ∧
      s'.dev_map d (i + sys.NEXTDEV_INC) =
        if i ≤ k ∧ WritesSecond sys s (loadUnits conf.units) i then
          sys.portLink d (hopsPort (loadUnits conf.units i).hops)
        else s.dev_map d (i + sys.NEXTDEV_INC))
    hs₁ ⟨rfl, (if_neg fun h => by omega).symm⟩ fun s₁ k hk s₂ ⟨hunits, hmap⟩ hr => by
      have hround := updateRound_cases (Nat.succ_pos k) hr
      refine ⟨hround.stack_units.trans hunits, ?_⟩
      have hwrites : WritesSecond sys s₁ (loadUnits conf.units) (k + 1) ↔
          WritesSecond sys s (loadUnits conf.units) (k + 1) := by
        unfold WritesSecond
        rw [hunits]
      rw [updateRound_second hk hr hd hi, hmap]
      by_cases hik : i = k + 1
      · subst hik
        simp [hwrites]
      · rw [if_neg fun h => hik h.1]
        exact if_congr (and_congr_left fun _ => by omega) rfl rfl
  exact h.trans (if_congr (and_iff_right hmax) rfl rfl)

/-- The entries of the second devices go with the table of the units. -/
def SecondMapped (sys : StackSys) (s : StackState) (units : ℕ → StackdUnit) : Prop :=
  ∀ i, 1 ≤ i → i ≤ sys.MAX_STACK_UNITS → i ≠ sys.stack_id → (units i).num_pp = 2 →
    hopsPort (units i).hops ≠ none → ∀ d < sys.NDEVS,
      s.dev_map d (i + sys.NEXTDEV_INC) = sys.portLink d (hopsPort (units i).hops)

/-- Another unit that has two devices and the hops that it had before had two devices before. -/
def PpKept (sys : StackSys) (s : StackState) (conf : StackdConf) : Prop :=
  ∀ i, 1 ≤ i → i ≤ sys.MAX_STACK_UNITS → i ≠ sys.stack_id →
    (loadUnits conf.units i).num_pp = 2 → hopsPort (loadUnits conf.units i).hops ≠ none →
      (s.stack_units i).hops = (loadUnits conf.units i).hops → (s.stack_units i).num_pp = 2

/-- A configuration that adds no device late maps the second devices as well. -/
theorem stackUpdateConf_secondMapped (h : SecondMapped sys s s.stack_units) {conf : StackdConf}
    (hpp : PpKept sys s conf) (hs : stackUpdateConf sys s conf = some s') :
    SecondMapped sys s' (loadUnits conf.units) := by
  intro i h1 hmax hid h2 hport d hd
  rw [stackUpdateConf_second hs hd h1 hmax]
  by_cases hw : WritesSecond sys s (loadUnits conf.units) i
  · exact if_pos hw
  · rw [if_neg hw]
    have hops : (s.stack_units i).hops = (loadUnits conf.units i).hops := by
      funext p
      by_contra hp
      refine hw ⟨hid, ?_, h2⟩
      cases p with
      | zero => exact Or.inl hp
      | one => exact Or.inr hp
    rw [← hops]
    exact h i h1 hmax hid (hpp i h1 hmax hid h2 hport hops) (hops ▸ hport) d hd

/-- After configurations with `PpKept` the entries of the second devices go with `stack_units`. -/
theorem reach_secondMapped {own : ℕ → ℕ → CscdLink}
    (hr : Guarded.Reach (stackUpdateConf sys) (PpKept sys) (.start sys own) s) :
    SecondMapped sys s s.stack_units := by
  refine hr.invariant (fun s => SecondMapped sys s s.stack_units)
    (fun i _ _ _ h2 => absurd h2 (by decide : ¬(0 = 2))) fun s conf s' hi hpp hs => ?_
  obtain ⟨s₁, -, rfl⟩ := stackUpdateConf_cases hs
  exact stackUpdateConf_secondMapped hi hpp hs

/-! ### The hops from a port of another unit -/

section

variable {L : Loop ℕ} {m : ℤ} {units : ℕ → StackdUnit}

/-- In a ring each unit has the next one as its neighbor. -/
theorem Loaded.neighbor_ring (hl : Loaded L m units) (hr : L.ring = true) (a : ℤ) (σ : Dir) :
    (units (L.node a)).neighbor (L.facing a σ) = L.node (a + σ.sgn) := by
  rw [hl.neighbor, Loop.neighbor, L.link_facing,
    if_neg fun h => Bool.false_ne_true (h.1.symm.trans hr)]
  rfl

/-- A search that starts at the unit itself ends at once. -/
theorem hopsLoop_own {d : ℕ} (hd : sys.stack_id = d) {fuel od h : ℕ} :
    hopsLoop sys units fuel d od h = some (h, d, od) := by
  cases fuel with
  | zero => rw [hopsLoop, if_pos hd]
  | succ fuel => rw [hopsLoop, if_pos hd]

/-- The next round of the loop goes on in the same direction. -/
theorem hopsLoop_step (hl : Loaded L m units) (hr : L.ring = true) (hn : 3 ≤ L.n) (a : ℤ) (σ : Dir)
    (hne : sys.stack_id ≠ L.node a) (fuel h : ℕ) :
    hopsLoop sys units (fuel + 1) (L.node a) (L.node (a - σ.sgn)) h =
      hopsLoop sys units fuel (L.node (a + σ.sgn)) (L.node a) ((h + 1) % 256) := by
  have hfwd := hl.neighbor_ring hr a σ
  have hbwd := hl.neighbor_ring hr a σ.rev
  rw [Dir.sgn_rev, ← sub_eq_add_neg] at hbwd
  have hdiff : L.node (a + σ.sgn) ≠ L.node (a - σ.sgn) := by
    cases σ with
    | up => exact Loop.node_ne (by simp only [Dir.sgn]; omega) (by simp only [Dir.sgn]; omega)
    | down => exact (Loop.node_ne
      (by simp only [Dir.sgn]; omega) (by simp only [Dir.sgn]; omega)).symm
  rw [hopsLoop, if_neg hne]
  cases hz : L.facing a σ with
  | zero =>
    have hone : L.facing a σ.rev = .one := by rw [← L.facing_other, hz]; rfl
    rw [hz] at hfwd
    rw [hone] at hbwd
    simp only [hfwd, hbwd, if_neg hdiff, if_true]
  | one =>
    have hzero : L.facing a σ.rev = .zero := by rw [← L.facing_other, hz]; rfl
    rw [hz] at hfwd
    rw [hzero] at hbwd
    simp only [hfwd, hbwd, if_true]

/-- From the port of the unit at `s` that faces in the direction `σ` it is `j` hops to the own
unit. -/
theorem hopsLoop_ring (hl : Loaded L m units) (hr : L.ring = true) (hn : 3 ≤ L.n) {s : ℤ} {σ : Dir}
    {j : ℕ} (hid : sys.stack_id = L.node (s + σ.sgn * j)) (hj : j < L.n) (hsmall : j < 256) {i : ℕ}
    (hi : 0 < i) (hij : i ≤ j) (fuel : ℕ) (hfuel : j ≤ fuel + i) :
    hopsLoop sys units fuel (L.node (s + σ.sgn * i)) (L.node (s + σ.sgn * (i - 1 : ℕ))) i =
      some (j, L.node (s + σ.sgn * j), L.node (s + σ.sgn * (j - 1 : ℕ))) := by
  induction hk : j - i generalizing i fuel with
  | zero =>
    obtain rfl : i = j := by omega
    exact hopsLoop_own hid
  | succ k ih =>
    have hne : sys.stack_id ≠ L.node (s + σ.sgn * i) := by
      rw [hid]
      exact Loop.node_ne_move σ (by omega) (by omega)
    obtain ⟨fuel, rfl⟩ : ∃ f, fuel = f + 1 := ⟨fuel - 1, by omega⟩
    have hprev : s + σ.sgn * (i - 1 : ℕ) = s + σ.sgn * i - σ.sgn := by
      rw [Nat.cast_sub hi]
      push_cast
      ring
    have hnext : s + σ.sgn * i + σ.sgn = s + σ.sgn * (i + 1 : ℕ) := by
      push_cast
      ring
    rw [hprev, hopsLoop_step hl hr hn _ _ hne, hnext, Nat.mod_eq_of_lt (by omega)]
    exact ih (Nat.succ_pos i) (by omega) fuel (by omega) (by omega)

/-- `stack_get_hops_from_target_port` for a unit of a ring. -/
theorem stackGetHops_ring (hl : Loaded L m units) (hr : L.ring = true) (hn : 3 ≤ L.n) {s : ℤ}
    {σ : Dir} {j : ℕ} (hid : sys.stack_id = L.node (s + σ.sgn * j)) (hj₀ : 0 < j) (hj : j < L.n)
    (hmax : j ≤ sys.MAX_STACK_UNITS) :
    stackGetHopsFromTargetPort sys units (L.node s) (L.facing s σ) =
      some (j, some (L.facing (s + σ.sgn * j) σ.rev)) := by
  have hloop := hopsLoop_ring hl hr hn hid hj
      (lt_of_le_of_lt hmax (lt_trans sys.max_lt (by decide)))
    Nat.one_pos hj₀ sys.MAX_STACK_UNITS (by omega)
  simp only [Nat.cast_one, mul_one, Nat.sub_self, Nat.cast_zero, mul_zero, add_zero] at hloop
  have hback := hl.neighbor_ring hr (s + σ.sgn * j) σ.rev
  have hfwd := hl.neighbor_ring hr (s + σ.sgn * j) σ
  have hpos : s + σ.sgn * j + σ.rev.sgn = s + σ.sgn * (j - 1 : ℕ) := by
    rw [Dir.sgn_rev, Nat.cast_sub hj₀]
    push_cast
    ring
  rw [hpos] at hback
  unfold stackGetHopsFromTargetPort
  rw [hl.neighbor_ring hr, hloop, Option.map_some]
  have hdiff : L.node (s + σ.sgn * j + σ.sgn) ≠ L.node (s + σ.sgn * (j - 1 : ℕ)) := by
    rw [show s + σ.sgn * j + σ.sgn = s + σ.sgn * (j + 1 : ℕ) by push_cast; ring]
    exact Loop.node_ne_move σ (by omega) (by omega)
  cases hz : L.facing (s + σ.sgn * j) σ.rev with
  | zero =>
    rw [hz] at hback
    simp only [hback, if_true]
  | one =>
    have hzero : L.facing (s + σ.sgn * j) σ = .zero := by
      rw [← Dir.rev_rev σ, ← L.facing_other, Dir.rev_rev, hz]
      rfl
    rw [hzero] at hfwd
    rw [hz] at hback
    simp only [hfwd, hback, if_neg hdiff, if_true]

/-! ### The groups -/

/-- The group of the unit `dev` in the unit at `m`. Frames of the unit `k` cables behind `m` are
passed on in the same direction, in a ring up to the unit half-way around, which is reached from the
side of the primary port of the source if there is just one. -/
structure GroupSpec (L : Loop ℕ) (m : ℤ) (dev : ℕ) (group : Port → Bool) : Prop where
  own_ring : dev = L.node m → L.ring = true →
    (group .zero = true ↔ 2 ≤ L.n) ∧ (group .one = true ↔ 3 ≤ L.n)
  own_chain : dev = L.node m → L.ring = false →
    ∀ p, group p = true ↔ (L.neighbor m p).isSome = true
  pass_ring : L.ring = true → ∀ (σ : Dir) (k : ℕ), 0 < k → k < L.n → dev = L.node (m - σ.sgn * k) →
    (group (L.facing m σ) = true ↔
      2 * k + 2 < L.n ∨ 2 * k + 2 = L.n ∧ L.facing (m - σ.sgn * k) σ = .zero)
  pass_chain : L.ring = false → ∀ (σ : Dir) (k : ℕ), 0 < k → k < L.n →
    dev = L.node (m - σ.sgn * k) → L.Along (m - σ.sgn * k) σ k →
      (group (L.facing m σ) = true ↔ (L.neighbor m (L.facing m σ)).isSome = true)

@[simp] theorem portAdd_apply (group : Port → Bool) (p q : Port) :
    portAdd group p q = true ↔ q = p ∨ group q = true := by
  unfold portAdd
  by_cases h : q = p
  · subst h
    simp
  · simp [h]

@[simp] theorem portDelete_apply (group : Port → Bool) (p q : Port) :
    portDelete group p q = true ↔ q ≠ p ∧ group q = true := by
  unfold portDelete
  by_cases h : q = p
  · subst h
    simp
  · simp [h]

/-- No stack port is left at first. -/
theorem not_deleted (group : Port → Bool) (q : Port) :
    ¬portDelete (portDelete group .zero) .one q = true := by
  cases q <;> simp

/-- A port has a neighbor when the loop goes on there. -/
theorem Loaded.neighbor_ne_zero (hl : Loaded L m units) (hpos : ∀ a, 0 < L.node a) (a : ℤ)
    (p : Port) :
    (units (L.node a)).neighbor p ≠ 0 ↔ (L.neighbor a p).isSome = true := by
  rw [hl.neighbor]
  unfold Loop.neighbor
  cases L.link a p with
  | none => simp
  | some e => simpa using (hpos e.1).ne'

/-- The group of the unit itself is as it should be. -/
theorem groupSpec_own (hl : Loaded L m units) (hpos : ∀ a, 0 < L.node a)
    (hid : sys.stack_id = L.node m) (group : Port → Bool) : ∃ group',
      stackUpdateSrcidGroups sys units (L.node m) L.ring L.n group = some group' ∧
        GroupSpec L m (L.node m) group' := by
  have hother : ∀ {σ : Dir} {k : ℕ}, 0 < k → k < L.n → L.node m ≠ L.node (m - σ.sgn * k) := by
    intro σ k hk hkn h
    refine Loop.node_ne_move (L := L) (a := m - σ.sgn * k) σ hk (by omega) ?_
    simpa using h
  unfold stackUpdateSrcidGroups
  rw [if_pos hid.symm]
  by_cases hn : L.n = 1
  · refine ⟨_, if_pos hn, fun _ _ => ?_, fun _ hr p => ?_, fun _ σ k hk hkn => ?_,
      fun _ σ k hk hkn => ?_⟩
    · simp [hn]
    · -- a chain of one unit has no cables
      have hcut : ∀ σ, L.Cut m σ := fun σ => by
        refine ⟨hr, ?_⟩
        cases σ <;> simp [hn]
      have hnone : L.neighbor m p = none := by
        unfold Loop.neighbor Loop.link
        rw [if_pos (hcut _)]
        rfl
      rw [hnone]
      simpa using not_deleted group p
    · omega
    · omega
  · rw [if_neg hn]
    have hn2 : 2 ≤ L.n := by
      have := L.pos
      omega
    by_cases hr : L.ring = true
    · rw [if_neg (not_not.mpr hr)]
      refine ⟨_, rfl, fun _ _ => ?_, fun _ h => absurd (h.symm.trans hr) Bool.false_ne_true,
        fun _ σ k hk hkn h => absurd h (hother hk hkn),
        fun _ σ k hk hkn h => absurd h (hother hk hkn)⟩
      by_cases hn3 : 2 < L.n
      · simp [hn3, hn2, Nat.succ_le_of_lt hn3]
      · simp [hn3, hn2]
        omega
    · rw [if_pos hr]
      rw [Bool.not_eq_true] at hr
      refine ⟨_, rfl, fun _ h => absurd (hr.symm.trans h) Bool.false_ne_true, fun _ _ p => ?_,
        fun _ σ k hk hkn h => absurd h (hother hk hkn),
        fun _ σ k hk hkn h => absurd h (hother hk hkn)⟩
      rw [← hl.neighbor_ne_zero hpos m p]
      cases p with
      | zero => split_ifs <;> simp [*]
      | one => split_ifs <;> simp [*]

/-- In a chain a unit is seen over one port. -/
theorem groupSpec_chain (hl : Loaded L m units) (hpos : ∀ a, 0 < L.node a) (hr : L.ring = false)
    (hid : sys.stack_id = L.node m) {dev : ℕ} (hdev : dev ≠ L.node m) (group : Port → Bool) :
    ∃ group', stackUpdateSrcidGroups sys units dev L.ring L.n group = some group' ∧
      GroupSpec L m dev group' := by
  unfold stackUpdateSrcidGroups
  rw [if_neg (hid ▸ hdev), if_pos (by rw [hr]; exact Bool.false_ne_true)]
  refine ⟨_, rfl, fun h => absurd h hdev, fun h => absurd h hdev,
    fun h => absurd (hr.symm.trans h) Bool.false_ne_true, fun _ σ k hk hkn hnode hal => ?_⟩
  have hback : L.Along m σ.rev k := by simpa using hal.rev
  have hpos' : m + σ.rev.sgn * k = m - σ.sgn * k := by
    rw [Dir.sgn_rev]
    ring
  have hne : L.node (m - σ.sgn * k) ≠ L.node m := fun h => hdev (hnode.trans h)
  -- the unit is behind: no hops in the direction of the frame
  have hbehind : (units dev).hops (L.facing m σ.rev) = k := by
    rw [hnode, hl.hops _ hne, ← hpos']
    exact Loop.hops_eq hk hkn hback
  have hahead : (units dev).hops (L.facing m σ) = 0 := by
    have h := Loop.hops_rev_of_chain hr hk hback
    rw [Dir.rev_rev, hpos'] at h
    rw [hnode, hl.hops _ hne, h]
  rw [← hl.neighbor_ne_zero hpos m, hid]
  cases hp : L.facing m σ with
  | zero =>
    have hone : L.facing m σ.rev = .one := by rw [← L.facing_other, hp]; rfl
    rw [hp] at hahead
    rw [hone] at hbehind
    rw [hahead, hbehind]
    split_ifs <;> simp_all
  | one =>
    have hzero : L.facing m σ.rev = .zero := by rw [← L.facing_other, hp]; rfl
    rw [hp] at hahead
    rw [hzero] at hbehind
    rw [hahead, hbehind]
    split_ifs <;> simp_all

/-- The groups of a ring of four or more units, by the hops to the own unit from the ports of the
source. -/
theorem ringGroup {dev n h h' : ℕ} {sp : Port} {sp' : Option Port} (hdev : dev ≠ sys.stack_id)
    (hn : 4 ≤ n) (hz : stackGetHopsFromTargetPort sys units dev .zero = some (h, some sp))
    (ho : stackGetHopsFromTargetPort sys units dev .one = some (h', sp')) (group : Port → Bool) :
    ∃ group', stackUpdateSrcidGroups sys units dev true n group = some group' ∧
      ∀ p, group' p = true ↔
        (units dev).hops p.other + 2 < (units dev).hops p ∨
          (((units dev).hops .zero : ℤ) - (units dev).hops .one).natAbs = 2 ∧ h < h' ∧
            sp = p.other := by
  unfold stackUpdateSrcidGroups
  rw [if_neg hdev, if_neg (by decide), if_neg (by omega)]
  simp only
  by_cases hfar : 2 < (((units dev).hops .zero : ℤ) - (units dev).hops .one).natAbs
  · rw [if_pos hfar]
    by_cases hlt : (units dev).hops .zero < (units dev).hops .one
    · refine ⟨_, if_pos hlt, fun p => ?_⟩
      rw [portAdd_apply]
      cases p with
      | zero => simp [Port.other]; omega
      | one => simp [Port.other]; omega
    · refine ⟨_, if_neg hlt, fun p => ?_⟩
      rw [portAdd_apply]
      cases p with
      | zero => simp [Port.other]; omega
      | one => simp [Port.other]; omega
  · rw [if_neg hfar]
    have hnot : ∀ p : Port, ¬(units dev).hops p.other + 2 < (units dev).hops p := fun p => by
      cases p with
      | zero => simp only [Port.other]; omega
      | one => simp only [Port.other]; omega
    by_cases htwo : (((units dev).hops .zero : ℤ) - (units dev).hops .one).natAbs = 2
    · rw [if_pos htwo, hz, Option.bind_some, Option.bind_some, ho, Option.map_some]
      refine ⟨_, rfl, fun p => ?_⟩
      rw [or_iff_right (hnot p)]
      by_cases hlt : h < h'
      · rw [if_pos hlt]
        cases p with
        | zero => cases sp <;> simp [Port.other, hlt, htwo]
        | one => cases sp <;> simp [Port.other, hlt, htwo]
      · rw [if_neg hlt]
        simp [hlt, not_deleted]
    · rw [if_neg htwo]
      refine ⟨_, rfl, fun p => ?_⟩
      simp [htwo, hnot, not_deleted]

/-- The hops to a unit that is `k` cables behind. -/
theorem ring_hops (hr : L.ring = true) (hl : Loaded L m units) {a : ℤ} (hne : L.node a ≠ L.node m)
    {σ : Dir} {k : ℕ} (hk : 0 < k) (hkn : k < L.n) (hnode : L.node a = L.node (m - σ.sgn * k)) :
    (units (L.node a)).hops (L.facing m σ.rev) = k ∧
      (units (L.node a)).hops (L.facing m σ) = L.n - k := by
  have hbehind : L.node a = L.node (m + σ.rev.sgn * k) := by
    rw [hnode, Dir.sgn_rev, neg_mul, sub_eq_add_neg]
  have hahead : L.node a = L.node (m + σ.sgn * (L.n - k : ℕ)) := by
    rw [hbehind, ← L.node_rev m σ.rev hkn.le, Dir.rev_rev]
  constructor
  · rw [hl.hops a hne, hbehind]
    exact Loop.hops_eq hk hkn (Loop.along_of_ring hr _ _ _)
  · rw [hl.hops a hne, hahead]
    exact Loop.hops_eq (by omega) (by omega) (Loop.along_of_ring hr _ _ _)

/-- In a ring frames are passed on to the unit half-way around. -/
theorem groupSpec_ring (hl : Loaded L m units) (hr : L.ring = true) (hid : sys.stack_id = L.node m)
    (hmax : L.n ≤ sys.MAX_STACK_UNITS) {a : ℤ} (hne : L.node a ≠ L.node m) (group : Port → Bool) :
    ∃ group', stackUpdateSrcidGroups sys units (L.node a) L.ring L.n group = some group' ∧
      GroupSpec L m (L.node a) group' := by
  have hdev : L.node a ≠ sys.stack_id := hid ▸ hne
  have hspec : ∀ group' : Port → Bool,
      (∀ (σ : Dir) (k : ℕ), 0 < k → k < L.n → L.node a = L.node (m - σ.sgn * k) →
        (group' (L.facing m σ) = true ↔
          2 * k + 2 < L.n ∨ 2 * k + 2 = L.n ∧ L.facing (m - σ.sgn * k) σ = .zero)) →
      GroupSpec L m (L.node a) group' := fun group' h =>
    ⟨fun h => absurd h hne, fun h => absurd h hne, fun _ => h,
      fun h => absurd (h.symm.trans hr) Bool.false_ne_true⟩
  by_cases hn : L.n = 2 ∨ L.n = 3
  · -- in a ring of two or three units no frame of another one is passed on
    refine ⟨portDelete (portDelete group .zero) .one, ?_, hspec _ fun σ k hk hkn hnode => ?_⟩
    · unfold stackUpdateSrcidGroups
      rw [if_neg hdev, if_neg (not_not.mpr hr), if_pos hn]
    · refine iff_of_false (not_deleted _ _) ?_
      omega
  · -- what the unit finds out about the source
    obtain ⟨k₀, hk₀, hkn₀, hnode₀⟩ := Loop.exists_offset hne.symm (L.dir a .zero)
    have hn4 : 4 ≤ L.n := by
      omega
    have hz := stackGetHops_ring hl hr (by omega) (hid.trans hnode₀) hk₀ hkn₀ (by omega)
    have hnode₁ : L.node m = L.node (a + (L.dir a .zero).rev.sgn * (L.n - k₀ : ℕ)) :=
      hnode₀.trans (L.node_rev a _ hkn₀.le).symm
    have ho := stackGetHops_ring hl hr
        (by omega) (hid.trans hnode₁) (by omega) (by omega) (by omega)
    rw [L.facing_dir] at hz
    rw [← L.facing_other, L.facing_dir] at ho
    obtain ⟨group', hgroup, hiff⟩ := ringGroup hdev hn4 hz ho group
    refine ⟨group', hr ▸ hgroup, hspec _ fun σ k hk hkn hnode => ?_⟩
    obtain ⟨hbehind, hahead⟩ := ring_hops hr hl hne hk hkn hnode
    have hnode' : L.node m = L.node (a + σ.sgn * k) := by
      have h := (L.node_eq_iff _ _).mp hnode
      rw [L.node_eq_iff]
      rwa [← Int.dvd_neg, show -(m - (a + σ.sgn * k)) = a - (m - σ.sgn * k) by ring]
    have hface : L.facing (m - σ.sgn * k) σ = L.facing a σ := Loop.facing_congr hnode.symm σ
    rw [hiff, Loop.facing_congr hnode₀.symm, hface, L.facing_other, hbehind, hahead]
    have hdiff : ((((units (L.node a)).hops .zero : ℤ) - (units (L.node a)).hops .one).natAbs = 2 ↔
        2 * k + 2 = L.n ∨ 2 * k = L.n + 2) := by
      -- by which port the frame comes in decides which of the two counts is `k`
      cases hp : L.facing m σ with
      | zero =>
        rw [← L.facing_other, hp] at hbehind
        rw [hp] at hahead
        rw [hahead, show (units (L.node a)).hops .one = k from hbehind]
        omega
      | one =>
        rw [← L.facing_other, hp] at hbehind
        rw [hp] at hahead
        rw [hahead, show (units (L.node a)).hops .zero = k from hbehind]
        omega
    rw [hdiff]
    by_cases hdir : L.dir a .zero = σ
    · -- the frame has left the source by the primary port
      have hk₀k : k₀ = k := by
        rw [hdir] at hnode₀
        exact Loop.offset_inj σ hkn₀ hkn (hnode₀.symm.trans hnode')
      have hzero : L.facing a σ = .zero := by rw [← hdir, L.facing_dir]
      simp only [hdir, hk₀k, hzero, and_true]
      omega
    · -- it has left the source by the other port, so half of a ring is reached by it first
      have hone : L.facing a σ ≠ .zero := fun h => hdir (by rw [← h, L.dir_facing])
      have hsp : L.facing m (L.dir a .zero).rev ≠ L.facing m σ.rev := fun h => by
        have h := Loop.facing_inj h
        exact hdir (by rw [← Dir.rev_rev (L.dir a .zero), h, Dir.rev_rev])
      simp only [hone, hsp, and_false, or_false]
      omega

/-- The groups of all units, also of those that have left. -/
theorem groupSpec (hl : Loaded L m units) (hpos : ∀ a, 0 < L.node a) (hid : sys.stack_id = L.node m)
    (hmax : L.n ≤ sys.MAX_STACK_UNITS) (dev : ℕ) (group : Port → Bool) : ∃ group',
      stackUpdateSrcidGroups sys units dev L.ring L.n group = some group' ∧
        GroupSpec L m dev group' := by
  by_cases hdev : ∃ a, dev = L.node a
  · obtain ⟨a, rfl⟩ := hdev
    by_cases hne : L.node a = L.node m
    · rw [hne]
      exact groupSpec_own hl hpos hid group
    · cases hr : L.ring with
      | true => exact hr ▸ groupSpec_ring hl hr hid hmax hne group
      | false => exact hr ▸ groupSpec_chain hl hpos hr hid hne group
  · have hno : ∀ a, dev ≠ L.node a := fun a h => hdev ⟨a, h⟩
    have hspec : ∀ group', GroupSpec L m dev group' := fun _ =>
      ⟨fun h => absurd h (hno m), fun h => absurd h (hno m), fun _ _ _ _ _ h => absurd h (hno _),
        fun _ _ _ _ _ h => absurd h (hno _)⟩
    have hsome : ∃ group', stackUpdateSrcidGroups sys units dev L.ring L.n group = some group' := by
      unfold stackUpdateSrcidGroups
      rw [if_neg (hid ▸ hno m), hl.zero dev hno]
      by_cases hr : L.ring = true
      · rw [if_neg (not_not.mpr hr)]
        by_cases hn : L.n = 2 ∨ L.n = 3
        · exact ⟨_, if_pos hn⟩
        · exact ⟨_, (if_neg hn).trans rfl⟩
      · exact ⟨_, if_pos hr⟩
    obtain ⟨group', h⟩ := hsome
    exact ⟨group', h, hspec group'⟩

/-- The tables of the unit at `m`. -/
structure Configured (sys : StackSys) (L : Loop ℕ) (m : ℤ) (s : StackState) : Prop where
  dev_map : ∀ a, L.node a ≠ L.node m → ∀ d < sys.NDEVS, s.dev_map d (L.node a) =
    sys.portLink d (hopsPort fun p => L.hops m p (L.node a))
  groups : ∀ a, GroupSpec L m (L.node a) (s.srcid (L.node a))

/-- A loop has no more units than there are numbers. -/
theorem Consistent.n_le {conf : StackdConf} (hc : Consistent L m conf)
    (hval : ∀ a, 0 < L.node a ∧ L.node a ≤ sys.MAX_STACK_UNITS) : L.n ≤ sys.MAX_STACK_UNITS := by
  have hsub : (conf.units.map (·.id)).toFinset ⊆ Finset.Icc 1 sys.MAX_STACK_UNITS := by
    intro i hi
    obtain ⟨x, hx, rfl⟩ := List.mem_map.mp (List.mem_toFinset.mp hi)
    obtain ⟨a, ha, -⟩ := hc.entry x hx
    rw [ha]
    exact Finset.mem_Icc.mpr (hval a)
  have hcard := Finset.card_le_card hsub
  rwa [List.toFinset_card_of_nodup hc.nodup, List.length_map, hc.length, Nat.card_Icc,
    Nat.add_sub_cancel] at hcard

/-- A round returns when the update of the group does. -/
theorem updateRound_returns {ring : Bool} {n i : ℕ} (s : StackState)
    (h : ∀ group, ∃ group', stackUpdateSrcidGroups sys units i ring n group = some group') :
    ∃ s', updateRound sys units ring n s i = some s' := by
  have hgroup : ∀ s : StackState, ∃ s', s.updateGroup sys units i ring n = some s' := fun s => by
    obtain ⟨group', hg⟩ := h (s.srcid i)
    exact ⟨_, by rw [StackState.updateGroup, hg, Option.map_some]⟩
  unfold updateRound
  by_cases hid : i = sys.stack_id
  · rw [if_pos hid]
    exact hgroup s
  · rw [if_neg hid]
    by_cases hi : i = (units i).id ∨ i = (s.stack_units i).id
    · simp only [if_pos hi]
      exact hgroup _
    · simp only [if_neg hi]
      exact ⟨_, rfl⟩

/-- A configuration for a loop is taken over, whatever the unit was told before. -/
theorem stackUpdateConf_configured {conf : StackdConf} {s : StackState}
    (hs : DevMapped sys s s.stack_units) (hc : Consistent L m conf) (hid : sys.stack_id = L.node m)
    (hval : ∀ a, 0 < L.node a ∧ L.node a ≤ sys.MAX_STACK_UNITS) :
    ∃ s', stackUpdateConf sys s conf = some s' ∧ Configured sys L m s' := by
  have hl := hc.loaded
  have hspec := groupSpec hl (fun a => (hval a).1) hid (hc.n_le hval)
  have hids : ∀ x ∈ conf.units, x.id ≤ sys.MAX_STACK_UNITS := fun x hx => by
    obtain ⟨a, ha, -⟩ := hc.entry x hx
    rw [ha]
    exact (hval a).2
  obtain ⟨s', hs', hdealt, hgroups⟩ := sweepM_returns
    (f := fun s i => updateRound sys (loadUnits conf.units) conf.ring conf.units.length s (i + 1))
    (n := sys.MAX_STACK_UNITS) (s := s)
    (fun k s' => Dealt sys s (loadUnits conf.units) k s' ∧
      ∀ a, L.node a ≤ k → GroupSpec L m (L.node a) (s'.srcid (L.node a)))
    ⟨dealt_zero hs, fun a ha => absurd (hval a).1 (by omega)⟩ fun s₁ k _ hP => by
      have hsome : ∀ group, ∃ group', stackUpdateSrcidGroups sys (loadUnits conf.units) (k + 1)
          conf.ring conf.units.length group = some group' := fun group => by
        obtain ⟨group', hg, -⟩ := hspec (k + 1) group
        exact ⟨group', by rw [hc.ring, hc.length, hg]⟩
      obtain ⟨s₂, hs₂⟩ := updateRound_returns s₁ hsome
      have hround := updateRound_cases (Nat.le_add_left 1 k) hs₂
      refine ⟨s₂, hs₂, hP.1.round hround, fun a ha => ?_⟩
      by_cases hak : L.node a = k + 1
      · -- the unit of this round
        obtain ⟨group', hg, hgs⟩ := hspec (L.node a) (s₁.srcid (L.node a))
        have hgroup := hround.group (Or.inr (by rw [← hak, hl.id]))
        rw [hc.ring, hc.length, ← hak, hg] at hgroup
        rwa [← Option.some_inj.mp hgroup]
      · rw [hround.srcid _ hak]
        exact hP.2 a (by omega)
  refine ⟨{ s' with stack_units := loadUnits conf.units }, ?_, fun a hne d hd => ?_, fun a => ?_⟩
  · unfold stackUpdateConf stackUpdateAll
    rw [if_pos hids]
    simp only [hs', Option.map_some]
  · have h := hdealt.devMapped (L.node a) (hval a).1 (hval a).2 (hid ▸ hne) d hd
    rw [show (loadUnits conf.units (L.node a)).hops = fun p => L.hops m p (L.node a) from
      funext (hl.hops a hne)] at h
    exact h
  · exact hgroups a (hval a).2

end

end Presteramgr
