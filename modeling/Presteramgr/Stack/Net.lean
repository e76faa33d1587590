import Presteramgr.Stack.Configured

/-!
# The units of a stack

## Main definitions

* `StackNet`: the units of a loop, each told of it after any other configurations;
* `StackNet.KeepsPp`: in none of them a unit gets a second device while its hops stay the same;
* `Loop.conf`: the data of the stack daemon;
* `fourUnits`, `mixedUnits`: a ring of four units, the second of the latter with two devices.

## Main results

* `StackNet.told_spec`: the configuration is taken over by all of them;
* `StackNet.told_second`: the entries of the second devices after it.
-/

namespace Presteramgr

/-- The units of a loop, by their numbers: what each is, the state in which any configurations have
left it, and the configuration for the loop it is told of. -/
structure StackNet (L : Loop ℕ) where
  sys : ℕ → StackSys
  /-- What the start finds in the device maps. -/
  own : ℕ → ℕ → ℕ → CscdLink
  state : ℕ → StackState
  conf : ℕ → StackdConf
  stack_id : ∀ a, (sys (L.node a)).stack_id = L.node a
  le_max : ∀ a b, L.node b ≤ (sys (L.node a)).MAX_STACK_UNITS
  reach : ∀ a, Guarded.Reach (stackUpdateConf (sys (L.node a))) (fun _ _ => True)
    (.start (sys (L.node a)) (own (L.node a))) (state (L.node a))
  consistent : ∀ a, Consistent L a (conf (L.node a))

variable {L : Loop ℕ}

/-- The states after the configuration. -/
def StackNet.told (net : StackNet L) (i : ℕ) : StackState :=
  (stackUpdateConf (net.sys i) (net.state i) (net.conf i)).getD (net.state i)

/-- The units of the loop have numbers that every unit of it takes. -/
theorem StackNet.valid (net : StackNet L) (a b : ℤ) :
    0 < L.node b ∧ L.node b ≤ (net.sys (L.node a)).MAX_STACK_UNITS := by
  have hpos := (net.sys (L.node b)).id_pos
  rw [net.stack_id b] at hpos
  exact ⟨hpos, net.le_max a b⟩

/-- A unit takes over the configuration it is told of. -/
theorem StackNet.told_spec (net : StackNet L) (a : ℤ) :
    stackUpdateConf (net.sys (L.node a)) (net.state (L.node a)) (net.conf (L.node a)) =
        some (net.told (L.node a)) ∧
      Configured (net.sys (L.node a)) L a (net.told (L.node a)) := by
  obtain ⟨s', hs', hconf⟩ := stackUpdateConf_configured (reach_devMapped (net.reach a))
    (net.consistent a) (net.stack_id a) (net.valid a)
  have htold : net.told (L.node a) = s' := by
    unfold StackNet.told
    rw [hs', Option.getD_some]
  rw [htold]
  exact ⟨hs', hconf⟩

/-- The units are told of another loop of the same units. -/
def StackNet.tell (net : StackNet L) (L' : Loop ℕ) (hnode : ∀ b, ∃ a, L'.node b = L.node a)
    (conf : ℕ → StackdConf) (hconf : ∀ b, Consistent L' b (conf (L'.node b))) : StackNet L' where
  sys := net.sys
  own := net.own
  state := net.told
  conf := conf
  stack_id b := by
    obtain ⟨a, ha⟩ := hnode b
    rw [ha, net.stack_id]
  le_max b c := by
    obtain ⟨a, ha⟩ := hnode b
    obtain ⟨a', ha'⟩ := hnode c
    rw [ha, ha']
    exact net.le_max a a'
  reach b := by
    obtain ⟨a, ha⟩ := hnode b
    rw [ha]
    exact (net.reach a).snoc _ trivial (net.told_spec a).1
  consistent := hconf

/-! ### The second devices -/

/-- Each unit has met `PpKept` in all its configurations. -/
def StackNet.KeepsPp (net : StackNet L) : Prop :=
  ∀ a, Guarded.Reach (stackUpdateConf (net.sys (L.node a))) (PpKept (net.sys (L.node a)))
      (.start (net.sys (L.node a)) (net.own (L.node a))) (net.state (L.node a)) ∧
    PpKept (net.sys (L.node a)) (net.state (L.node a)) (net.conf (L.node a))

/-- After it the entries of second devices are programmed, where these were not added late. -/
theorem StackNet.told_second {net : StackNet L} (hpp : net.KeepsPp) (a : ℤ) :
    SecondMapped (net.sys (L.node a)) (net.told (L.node a))
      (loadUnits (net.conf (L.node a)).units) :=
  stackUpdateConf_secondMapped (reach_secondMapped (hpp a).1) (hpp a).2 (net.told_spec a).1

/-- Units that keep their devices keep them when they are told of another loop. -/
theorem StackNet.KeepsPp.tell {net : StackNet L} (hpp : net.KeepsPp) (L' : Loop ℕ)
    (hnode : ∀ b, ∃ a, L'.node b = L.node a) {conf : ℕ → StackdConf}
    (hconf : ∀ b, Consistent L' b (conf (L'.node b)))
    (h : ∀ a, PpKept (net.sys (L.node a)) (net.told (L.node a)) (conf (L.node a))) :
    (net.tell L' hnode conf hconf).KeepsPp := by
  intro b
  obtain ⟨a, ha⟩ := hnode b
  rw [ha]
  exact ⟨(hpp a).1.snoc _ (hpp a).2 (net.told_spec a).1, h a⟩

/-- All configurations give the unit at the position `v` two devices. -/
def TwoPp (L : Loop ℕ) (conf : ℕ → StackdConf) (v : ℤ) : Prop :=
  ∀ a, ∀ x ∈ (conf (L.node a)).units, x.id = L.node v → x.num_pp = 2

/-! ### The data of the stack daemon -/

/-- The data for the unit at the position `m`. -/
def stackdConf (L : Loop ℕ) (m : ℤ) : StackdConf where
  ring := L.ring
  units := (List.range L.n).map fun k : ℕ =>
    ⟨L.node k, fun p => L.hops m p (L.node k), fun p => (L.neighbor k p).getD 0, 1⟩

/-- What the stack daemon sends for a place is consistent with the loop seen from it. -/
theorem consistent_stackdConf {m m' : ℤ} (h : L.node m' = L.node m) :
    Consistent L m (stackdConf L m') := by
  have hn : (0 : ℤ) < L.n := by exact_mod_cast L.pos
  refine ⟨rfl, by simp [stackdConf], ?_, fun a => ?_, fun x hx => ?_⟩
  · unfold stackdConf
    rw [List.map_map]
    refine List.Nodup.map_on (fun j hj k hk h => ?_) List.nodup_range
    refine Loop.offset_inj (L := L) (a := 0) .up (List.mem_range.mp hj) (List.mem_range.mp hk) ?_
    simpa [Dir.sgn] using h
  · -- the position of the unit among the first `n`
    obtain ⟨k, hk⟩ := Int.eq_ofNat_of_zero_le (Int.emod_nonneg a hn.ne')
    have hlt := Int.emod_lt_of_pos a hn
    refine ⟨_, List.mem_map.mpr ⟨k, List.mem_range.mpr (by omega), rfl⟩, ?_⟩
    rw [L.node_eq_iff, ← hk, ← Int.dvd_neg, neg_sub]
    exact Int.dvd_self_sub_emod
  · obtain ⟨k, -, rfl⟩ := List.mem_map.mp hx
    exact ⟨k, rfl, fun _ => rfl, fun _ p => Loop.hops_congr h p _⟩

/-- The same data with `pp i` devices in the unit `i`. -/
def StackdConf.withPp (conf : StackdConf) (pp : ℕ → ℕ) : StackdConf :=
  { conf with units := conf.units.map fun x => { x with num_pp := pp x.id } }

section

variable {m : ℤ} {conf : StackdConf} (pp : ℕ → ℕ)

/-- The numbers of devices are no part of the consistency of a configuration. -/
theorem Consistent.withPp (hc : Consistent L m conf) : Consistent L m (conf.withPp pp) := by
  refine ⟨hc.ring, by simp [StackdConf.withPp, hc.length], ?_, fun a => ?_, fun x hx => ?_⟩
  · have h := hc.nodup
    simpa [StackdConf.withPp, Function.comp_def] using h
  · obtain ⟨x, hx, hid⟩ := hc.mem a
    exact ⟨{ x with num_pp := pp x.id }, List.mem_map.mpr ⟨x, hx, rfl⟩, hid⟩
  · obtain ⟨y, hy, rfl⟩ := List.mem_map.mp hx
    exact hc.entry y hy

/-- The units of a consistent configuration have the numbers of devices it was given. -/
theorem Consistent.num_pp (hc : Consistent L m conf) (a : ℤ) :
    (loadUnits (conf.withPp pp).units (L.node a)).num_pp = pp (L.node a) := by
  obtain ⟨x, hx, hid⟩ := (hc.withPp pp).mem a
  obtain ⟨y, -, rfl⟩ := List.mem_map.mp hx
  rw [← hid, loadUnits_of_mem (hc.withPp pp).nodup hx]

/-- Units that keep their devices meet `PpKept`. -/
theorem Consistent.ppKept {sys : StackSys} {s : StackState} (hc : Consistent L m conf)
    (hs : s.stack_units = loadUnits (conf.withPp pp).units) {L' : Loop ℕ} {m' : ℤ}
    {conf' : StackdConf} (hc' : Consistent L' m' conf') (hnode : ∀ b, ∃ a, L'.node b = L.node a) :
    PpKept sys s (conf'.withPp pp) := by
  intro i _ _ _ h2 _ _
  by_cases hi : ∃ b, i = L'.node b
  · obtain ⟨b, rfl⟩ := hi
    obtain ⟨a, ha⟩ := hnode b
    rw [hc'.num_pp pp] at h2
    rw [hs, ha, hc.num_pp pp, ← ha, h2]
  · rw [(hc'.withPp pp).loaded.zero i fun b hb => hi ⟨b, hb⟩] at h2
    exact absurd h2 (by decide)

end

/-- A unit that has not been told of anything meets `PpKept`. -/
theorem ppKept_start {sys : StackSys} {own : ℕ → ℕ → CscdLink} {conf : StackdConf} :
    PpKept sys (.start sys own) conf :=
  fun _ _ _ _ _ hport hops => absurd (by rw [← hops]; rfl) hport

/-! ### Four units -/

/-- A unit with one device. -/
def oneDevice (i : ℕ) : StackSys where
  stack_id := i - 1 + 1
  MAX_STACK_UNITS := 16
  NEXTDEV_INC := 16
  NDEVS := 1
  ldev _ := 0
  lport
    | .zero => 24
    | .one => 25
  CPSS_NULL_PORT_NUM_CNS := 62
  id_pos := Nat.succ_pos _
  max_lt := Nat.le_of_ble_eq_true rfl
  max_le := Nat.le_refl 16
  ndevs_le := Nat.le_succ 1
  ldev_lt _ := Nat.one_pos
  ports_ne _ := Nat.ne_of_beq_eq_false rfl

/-- Four units in a ring, the primary port of the second one facing back. -/
def fourLoop : Loop ℕ := Loop.ofNat 4 true (Nat.succ_pos 3) fun k => if k = 1 then .one else .zero

/-- The ring of four units counts its places from zero, its units from one. -/
theorem fourLoop_node (a : ℤ) : fourLoop.node a = (a % 4).toNat + 1 := rfl

/-- What the units of the ring are told of is consistent. -/
theorem fourLoop_consistent (a : ℤ) :
    Consistent fourLoop a (stackdConf fourLoop (fourLoop.node a - 1)) := by
  refine consistent_stackdConf ?_
  rw [Loop.node_eq_iff, fourLoop_node]
  change (4 : ℤ) ∣ _
  omega

/-- They have not been told of anything before. -/
def fourUnits : StackNet fourLoop where
  sys := oneDevice
  own _ _ _ := .port 0
  state i := .start (oneDevice i) fun _ _ => .port 0
  conf i := stackdConf fourLoop (i - 1)
  stack_id a := by
    rw [fourLoop_node]
    rfl
  le_max a b := by
    rw [fourLoop_node b]
    exact (by omega : (b % 4).toNat + 1 ≤ 16)
  reach _ := .init
  consistent := fourLoop_consistent

/-- A unit with two devices, one for each stack port. -/
def twoDevices (i : ℕ) : StackSys where
  stack_id := i - 1 + 1
  MAX_STACK_UNITS := 16
  NEXTDEV_INC := 16
  NDEVS := 2
  ldev
    | .zero => 0
    | .one => 1
  lport _ := 24
  CPSS_NULL_PORT_NUM_CNS := 62
  id_pos := Nat.succ_pos _
  max_lt := Nat.le_of_ble_eq_true rfl
  max_le := Nat.le_refl 16
  ndevs_le := Nat.le_refl 2
  ldev_lt
    | .zero => Nat.two_pos
    | .one => Nat.one_lt_two
  ports_ne h := absurd h Nat.zero_ne_one

/-- The second one of four units has two devices. -/
def mixedSys (i : ℕ) : StackSys := if i = 2 then twoDevices i else oneDevice i

/-- The units of the example are numbered as their places are. -/
theorem mixedSys_stack_id (i : ℕ) : (mixedSys i).stack_id = i - 1 + 1 := by
  unfold mixedSys
  split_ifs <;> rfl

/-- The units of the example take up to sixteen units. -/
theorem mixedSys_max (i : ℕ) : (mixedSys i).MAX_STACK_UNITS = 16 := by
  unfold mixedSys
  split_ifs <;> rfl

/-- The data of the stack daemon for them. -/
def mixedConf (L : Loop ℕ) (m : ℤ) : StackdConf :=
  (stackdConf L m).withPp fun i => if i = 2 then 2 else 1

/-- They have not been told of anything before. -/
def mixedUnits : StackNet fourLoop where
  sys := mixedSys
  own _ _ _ := .port 0
  state i := .start (mixedSys i) fun _ _ => .port 0
  conf i := mixedConf fourLoop (i - 1)
  stack_id a := by
    rw [fourLoop_node, mixedSys_stack_id]
    rfl
  le_max a b := by
    rw [fourLoop_node b, mixedSys_max]
    omega
  reach _ := .init
  consistent a := (fourLoop_consistent a).withPp _

/-- A unit that is told of its first configuration adds no device late. -/
theorem mixedUnits_keepsPp : mixedUnits.KeepsPp := fun _ => ⟨.init, ppKept_start⟩

/-- The second one has had one device and has been replaced; the others have been told of it with
its one device before. -/
def replacedUnits : StackNet fourLoop where
  sys := mixedSys
  own _ _ _ := .port 0
  state i := if i = 2 then .start (mixedSys i) fun _ _ => .port 0 else fourUnits.told i
  conf i := mixedConf fourLoop (i - 1)
  stack_id := mixedUnits.stack_id
  le_max := mixedUnits.le_max
  reach a := by
    by_cases ha : fourLoop.node a = 2
    · rw [if_pos ha]
      exact .init
    · rw [if_neg ha, mixedSys, if_neg ha]
      exact (fourUnits.reach a).snoc _ trivial (fourUnits.told_spec a).1
  consistent a := (fourLoop_consistent a).withPp _

end Presteramgr
