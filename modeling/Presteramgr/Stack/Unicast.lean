import Presteramgr.Stack.Net

/-!
# Frames to a unit of the stack

Each unit sends the frames for another one out of the stack port with the fewer hops, and out of the
primary one if both are as near. The units decide for themselves, but on the way the other direction
is always longer.

## Main definitions

* `route`: the way of a frame, `Routed`: all frames arrive on shortest ways.

## Main results

* `StackNet.routed`: in rings and chains, and after a cable of a ring has broken.
-/

namespace Presteramgr

open Sweep

variable {L : Loop ℕ}

/-! ### The way of a frame -/

/-- The number of a device of the unit `v` in the device maps. -/
def StackSys.devOf (sys : StackSys) (v : ℕ) (second : Bool) : ℕ :=
  if second then v + sys.NEXTDEV_INC else v

/-- A frame for a device of the unit `v` that is on a device of the unit at a position: where it
comes in next. -/
def routeStep (L : Loop ℕ) (sys : ℕ → StackSys) (st : ℕ → StackState) (v : ℕ) (second : Bool)
    (x : ℤ × ℕ) : Option (ℤ × ℕ) :=
  ((st (L.node x.1)).outPort (sys (L.node x.1)) ((sys (L.node x.1)).devOf v second) x.2).bind
    fun p => (L.link x.1 p).map fun e => (e.1, (sys (L.node e.1)).ldev e.2)

/-- Where it is after `k` cables. -/
def route (L : Loop ℕ) (sys : ℕ → StackSys) (st : ℕ → StackState) (v : ℕ) (second : Bool)
    (x : ℤ × ℕ) : ℕ → Option (ℤ × ℕ)
  | 0 => some x
  | k + 1 => (route L sys st v second x k).bind (routeStep L sys st v second)

/-- A frame on the device `d` of the unit at `u` for a device of the unit at `v` gets there, on a
way than which none is shorter, and passes no unit twice. -/
def Arrives (L : Loop ℕ) (sys : ℕ → StackSys) (st : ℕ → StackState) (u v : ℤ) (second : Bool)
    (d : ℕ) : Prop :=
  ∃ k x, (route L sys st (L.node v) second (u, d) k = some x ∧ L.node x.1 = L.node v) ∧
    (∀ i j, i < j → j ≤ k → ∀ y z, route L sys st (L.node v) second (u, d) i = some y →
      route L sys st (L.node v) second (u, d) j = some z → L.node y.1 ≠ L.node z.1) ∧
    ∀ l b, L.Path u l b → L.node b = L.node v → k ≤ l

/-- From each device of each unit a frame for another unit arrives, and if that unit has a second
device according to all configurations, a frame for the second device arrives, too. -/
def Routed (L : Loop ℕ) (sys : ℕ → StackSys) (conf : ℕ → StackdConf) (st : ℕ → StackState) :
    Prop :=
  ∀ u v, L.node u ≠ L.node v → ∀ second, (second = true → TwoPp L conf v) →
    ∀ d < (sys (L.node u)).NDEVS, Arrives L sys st u v second d

/-- The port for frames to a unit, on either device. -/
theorem outPort_of_portLink {sys : StackSys} {s : StackState} {v : ℕ} {p : Port}
    (h : ∀ d < sys.NDEVS, s.dev_map d v = sys.portLink d (some p)) {d : ℕ} (hd : d < sys.NDEVS) :
    s.outPort sys v d = some p := by
  have hlocal : sys.linkPort (sys.ldev p) (.port (sys.lport p)) = some p := by
    cases p with
    | zero => simp [StackSys.linkPort]
    | one =>
      have hne : ¬(sys.ldev .zero = sys.ldev .one ∧ sys.lport .zero = sys.lport .one) := fun h =>
        sys.ports_ne h.1 h.2
      simp [StackSys.linkPort, hne]
  unfold StackState.outPort
  by_cases hp : sys.ldev p = d
  · rw [h d hd, StackSys.portLink, if_pos hp]
    simp only
    rw [← hp, hlocal]
  · -- the trunk leads to the device of the port
    have hother : 1 - d = sys.ldev p := by
      have h₁ := sys.ldev_lt p
      have h₂ := sys.ndevs_le
      omega
    rw [h d hd, StackSys.portLink, if_neg hp]
    simp only
    rw [hother, h _ (sys.ldev_lt p), StackSys.portLink, if_pos rfl, hlocal]

/-- The port that faces a unit which is nearer this way than the other way around. -/
theorem hopsPort_of_lt {a : ℤ} {σ : Dir} {k : ℕ} (hk : 0 < k) (hkn : k < L.n) (hal : L.Along a σ k)
    (hhalf : L.ring = true → 2 * k < L.n) :
    hopsPort (fun p => L.hops a p (L.node (a + σ.sgn * k))) = some (L.facing a σ) := by
  have hahead := Loop.hops_eq hk hkn hal
  have hbehind : L.hops a (L.facing a σ.rev) (L.node (a + σ.sgn * k)) = 0 ∨
      k < L.hops a (L.facing a σ.rev) (L.node (a + σ.sgn * k)) := by
    by_cases hr : L.ring = true
    · right
      have hhalf := hhalf hr
      rw [← L.node_rev a σ hkn.le, Loop.hops_eq (by omega) (by omega) (Loop.along_of_ring hr _ _ _)]
      omega
    · exact Or.inl (Loop.hops_rev_of_chain (by simpa using hr) hk hal)
  unfold hopsPort
  beta_reduce
  cases hp : L.facing a σ with
  | zero =>
    rw [← L.facing_other, hp] at hbehind
    rw [hp] at hahead
    simp only [Port.other] at hbehind
    rw [if_pos (by omega)]
    split_ifs
    · rfl
    · omega
    · rfl
  | one =>
    rw [← L.facing_other, hp] at hbehind
    rw [hp] at hahead
    simp only [Port.other] at hbehind
    split_ifs
    · omega
    · rfl
    · omega
    · rfl
    · omega

/-- The port that a unit chooses faces the unit on a shortest way. -/
theorem exists_hopsPort {a w : ℤ} (hne : L.node w ≠ L.node a) :
    ∃ (σ : Dir) (k : ℕ), 0 < k ∧ k < L.n ∧
    L.node w = L.node (a + σ.sgn * k) ∧ L.Along a σ k ∧ (L.ring = true → 2 * k ≤ L.n) ∧
      hopsPort (fun p => L.hops a p (L.node w)) = some (L.facing a σ) := by
  by_cases hr : L.ring = true
  · obtain ⟨k, hk, hkn, hnode⟩ := Loop.exists_offset hne (L.dir a .zero)
    have hal := Loop.along_of_ring hr a
    have hrev : L.node w = L.node (a + (L.dir a .zero).rev.sgn * (L.n - k : ℕ)) :=
      hnode.trans (L.node_rev a _ hkn.le).symm
    by_cases hle : 2 * k ≤ L.n
    · refine ⟨_, k, hk, hkn, hnode, hal _ _, fun _ => hle, ?_⟩
      -- the primary port is taken also if both ways are as long
      have hzero : L.hops a .zero (L.node w) = k := by
        have h := Loop.hops_eq hk hkn (hal (L.dir a .zero) k)
        rwa [← hnode, L.facing_dir] at h
      have hone : L.hops a .one (L.node w) = L.n - k := by
        have h := Loop.hops_eq (L := L) (by omega) (by omega) (hal (L.dir a .zero).rev (L.n - k))
        rwa [← hrev, ← L.facing_other, L.facing_dir] at h
      unfold hopsPort
      beta_reduce
      rw [hzero, hone, if_pos hk.ne', if_pos (by omega), if_pos (by omega), L.facing_dir]
    · refine ⟨_, L.n - k, by omega, by omega, hrev, hal _ _, fun _ => by omega, ?_⟩
      rw [hrev]
      exact hopsPort_of_lt (by omega) (by omega) (hal _ _) fun _ => by omega
  · obtain ⟨σ, k, hk, hkn, hnode, hal⟩ := Loop.exists_along hne
    refine ⟨σ, k, hk, hkn, hnode, hal, fun h => absurd h hr, ?_⟩
    rw [hnode]
    exact hopsPort_of_lt hk hkn hal fun h => absurd h hr

section

variable {sys : ℕ → StackSys} {st : ℕ → StackState}

/-- On all other units the entry of a device of the unit at `v` is the link that is right for the
hops. -/
def Entered (L : Loop ℕ) (sys : ℕ → StackSys) (st : ℕ → StackState) (v : ℤ) (second : Bool) :
    Prop :=
  ∀ a, L.node v ≠ L.node a → ∀ d < (sys (L.node a)).NDEVS,
    (st (L.node a)).dev_map d ((sys (L.node a)).devOf (L.node v) second) =
      (sys (L.node a)).portLink d (hopsPort fun p => L.hops a p (L.node v))

/-- A frame goes on in the direction of the port that the unit has chosen. -/
theorem routeStep_of_hopsPort {v : ℤ} {second : Bool} (hent : Entered L sys st v second) {a : ℤ}
    {d : ℕ} {σ : Dir} (hne : L.node v ≠ L.node a) (hd : d < (sys (L.node a)).NDEVS)
    (hport : hopsPort (fun p => L.hops a p (L.node v)) = some (L.facing a σ))
    (hcut : ¬L.Cut a σ) : ∃ d' < (sys (L.node (a + σ.sgn))).NDEVS,
      routeStep L sys st (L.node v) second (a, d) = some (a + σ.sgn, d') := by
  have hout := outPort_of_portLink (fun d hd => hport ▸ hent a hne d hd) hd
  refine ⟨_, (sys (L.node (a + σ.sgn))).ldev_lt (L.facing (a + σ.sgn) σ.rev), ?_⟩
  unfold routeStep
  rw [hout, Option.bind_some, L.link_facing, if_neg hcut]
  rfl

/-- With the right entries all frames arrive. -/
theorem Entered.arrives {v : ℤ} {second : Bool} (hent : Entered L sys st v second) {u : ℤ}
    (hne : L.node u ≠ L.node v) {d : ℕ} (hd : d < (sys (L.node u)).NDEVS) :
    Arrives L sys st u v second d := by
  obtain ⟨σ, k, hk, hkn, hnode, hal, hhalf, hport⟩ := exists_hopsPort hne.symm
  have hroute : ∀ j ≤ k, ∃ d' < (sys (L.node (u + σ.sgn * j))).NDEVS,
      route L sys st (L.node v) second (u, d) j = some (u + σ.sgn * j, d') := by
    intro j
    induction j with
    | zero => exact fun _ => ⟨d, by simpa using hd, by simp [route]⟩
    | succ j ih =>
      intro hj
      obtain ⟨d', hd', hrj⟩ := ih (Nat.le_of_succ_le hj)
      have hrest : L.node v = L.node (u + σ.sgn * j + σ.sgn * (k - j : ℕ)) := by
        rw [hnode, Nat.cast_sub (Nat.le_of_succ_le hj)]
        congr 1
        ring
      have halj : L.Along (u + σ.sgn * j) σ (k - j) :=
        Loop.Along.drop (by rwa [Nat.add_sub_cancel' (Nat.le_of_succ_le hj)])
      have hnej : L.node v ≠ L.node (u + σ.sgn * j) := by
        rw [hnode]
        exact Loop.node_ne_move σ hj (by omega)
      have hportj : hopsPort (fun p => L.hops (u + σ.sgn * j) p (L.node v)) =
          some (L.facing (u + σ.sgn * j) σ) := by
        obtain rfl | hj₀ := Nat.eq_zero_or_pos j
        · simpa using hport
        · -- from here on this direction is the nearer one
          rw [hrest]
          refine hopsPort_of_lt (by omega) (by omega) halj fun hr => ?_
          have hhalf := hhalf hr
          omega
      obtain ⟨d'', hd'', hstep⟩ := routeStep_of_hopsPort hent hnej hd' hportj
        (hal j (Nat.lt_of_succ_le hj))
      have hpos : u + σ.sgn * j + σ.sgn = u + σ.sgn * (j + 1 : ℕ) := by
        push_cast
        ring
      rw [hpos] at hd'' hstep
      exact ⟨d'', hd'', by rw [route, hrj, Option.bind_some, hstep]⟩
  obtain ⟨d', -, hlast⟩ := hroute k le_rfl
  refine ⟨k, _, ⟨hlast, hnode.symm⟩, fun i j hij hjk y z hy hz => ?_, fun l b hpath hb => ?_⟩
  · obtain ⟨dy, -, hi⟩ := hroute i (by omega)
    obtain ⟨dz, -, hj⟩ := hroute j hjk
    obtain rfl := Option.some_inj.mp (hi.symm.trans hy)
    obtain rfl := Option.some_inj.mp (hj.symm.trans hz)
    exact (Loop.node_ne_move σ hij (by omega)).symm
  · exact hpath.le hal (hb.trans hnode) hhalf

/-- The entries after a configuration. -/
theorem routed_of_configured {conf : ℕ → StackdConf}
    (hconf : ∀ a, Configured (sys (L.node a)) L a (st (L.node a)))
    (hcons : ∀ a, Consistent L a (conf (L.node a)))
    (hsecond : ∀ a, SecondMapped (sys (L.node a)) (st (L.node a))
      (loadUnits (conf (L.node a)).units))
    (hid : ∀ a, (sys (L.node a)).stack_id = L.node a)
    (hval : ∀ a b, 0 < L.node b ∧ L.node b ≤ (sys (L.node a)).MAX_STACK_UNITS) :
    Routed L sys conf st := by
  intro u v hne second htwo d hd
  refine Entered.arrives (fun a hva d hd => ?_) hne hd
  cases second with
  | false => exact (hconf a).dev_map v hva d hd
  | true =>
    -- the unit has two devices and its hops lead to some port
    obtain ⟨x, hx, hxid⟩ := (hcons a).mem v
    have hload : loadUnits (conf (L.node a)).units (L.node v) = x := by
      rw [← hxid, loadUnits_of_mem (hcons a).nodup hx]
    have hops : x.hops = fun p => L.hops a p (L.node v) := by
      rw [← hload]
      exact funext ((hcons a).loaded.hops v hva)
    obtain ⟨σ, -, -, -, -, -, -, hport⟩ := exists_hopsPort hva
    have h := hsecond a (L.node v) (hval a v).1 (hval a v).2 (by rwa [hid a])
      (by rw [hload]; exact htwo rfl a x hx hxid)
      (by rw [hload, hops, hport]; exact Option.some_ne_none _) d hd
    rwa [hload, hops] at h

end

/-- All units have been told of their ring or chain. -/
theorem StackNet.told_routed {net : StackNet L} (hpp : net.KeepsPp) :
    (∀ a, stackUpdateConf (net.sys (L.node a)) (net.state (L.node a)) (net.conf (L.node a)) =
      some (net.told (L.node a))) ∧ Routed L net.sys net.conf net.told :=
  ⟨fun a => (net.told_spec a).1, routed_of_configured (fun a => (net.told_spec a).2)
    net.consistent (StackNet.told_second hpp) net.stack_id net.valid⟩

/-- When all units have been told of their ring or chain, all frames arrive on shortest ways; and
when a cable of a ring breaks and all have been told of the chain that is left, they do so again. No
unit may get a second device while its hops stay the same. -/
theorem StackNet.routed (net : StackNet L) (hpp : net.KeepsPp) :
    ((∀ a, stackUpdateConf (net.sys (L.node a)) (net.state (L.node a)) (net.conf (L.node a)) =
        some (net.told (L.node a))) ∧ Routed L net.sys net.conf net.told) ∧
      ∀ (a : ℤ) (conf : ℕ → StackdConf),
        (∀ b, Consistent (L.broken a) b (conf ((L.broken a).node b))) →
        (∀ b, PpKept (net.sys (L.node b)) (net.told (L.node b)) (conf (L.node b))) →
        ∃ st : ℕ → StackState,
          (∀ b, stackUpdateConf (net.sys (L.node b)) (net.told (L.node b)) (conf (L.node b)) =
            some (st (L.node b))) ∧ Routed (L.broken a) net.sys conf st := by
  refine ⟨StackNet.told_routed hpp, fun a conf hconf hkept => ?_⟩
  have h := StackNet.told_routed (hpp.tell (L.broken a) (fun b => ⟨b + a + 1, rfl⟩) hconf hkept)
  refine ⟨_, fun b => ?_, h.2⟩
  have hb := h.1 (b - a - 1)
  have hnode : (L.broken a).node (b - a - 1) = L.node b := by
    exact congrArg L.node (by ring)
  rw [hnode] at hb
  exact hb

/-- Four units in a ring, the second of which has two devices, and in the chain that is left when
the cable behind the first one breaks. -/
theorem StackNet.routed_four : Routed fourLoop mixedSys mixedUnits.conf mixedUnits.told ∧
    ∃ conf st, Routed (fourLoop.broken 0) mixedSys conf st := by
  have h := StackNet.routed mixedUnits mixedUnits_keepsPp
  refine ⟨h.1.2, ?_⟩
  have hcons : ∀ b, Consistent (fourLoop.broken 0) b
      (stackdConf (fourLoop.broken 0) ((fourLoop.broken 0).node b - 2)) := fun b => by
    refine consistent_stackdConf ?_
    rw [Loop.node_eq_iff]
    change (4 : ℤ) ∣ (((b + 0 + 1) % 4).toNat + 1 : ℕ) - 2 - b
    omega
  obtain ⟨st, -, hst⟩ := h.2 0 (fun i => mixedConf (fourLoop.broken 0) (i - 2))
    (fun b => (hcons b).withPp _) fun b => by
      obtain ⟨s₁, -, hs₁⟩ := stackUpdateConf_cases (mixedUnits.told_spec b).1
      have hb := hcons (b - 0 - 1)
      rw [show (fourLoop.broken 0).node (b - 0 - 1) = fourLoop.node b from
        congrArg fourLoop.node (by ring)] at hb
      exact (fourLoop_consistent b).ppKept _ (by rw [hs₁]; rfl) hb fun c => ⟨c + 0 + 1, rfl⟩
  exact ⟨_, st, hst⟩

/-- A frame that is not passed on does not arrive at another unit. -/
theorem not_arrives {sys : ℕ → StackSys} {st : ℕ → StackState} {u v : ℤ} {second : Bool} {d : ℕ}
    (hne : L.node u ≠ L.node v) (hstep : routeStep L sys st (L.node v) second (u, d) = none) :
    ¬Arrives L sys st u v second d := by
  have hnone : ∀ k, route L sys st (L.node v) second (u, d) (k + 1) = none := by
    intro k
    induction k with
    | zero => exact hstep
    | succ k ih => rw [route, ih, Option.bind_none]
  rintro ⟨k, x, ⟨hx, hv⟩, -, -⟩
  cases k with
  | zero =>
    obtain rfl := Option.some_inj.mp hx
    exact hne hv
  | succ k => exact Option.some_ne_none x (hx.symm.trans (hnone k))

/-- The unit 2 of a ring of four has been replaced by one with two devices. The hops are the same,
so that the first unit does not write the entry of the second device. -/
theorem StackNet.not_routed :
    ¬Routed fourLoop replacedUnits.sys replacedUnits.conf replacedUnits.told := by
  intro h
  have hne : fourLoop.node 0 ≠ fourLoop.node 1 := by decide
  refine not_arrives hne ?_ (h 0 1 hne true (fun _ a x hx hid => ?_) 0 (by decide))
  · have hentry : (replacedUnits.told 1).outPort (mixedSys 1) 18 0 = none := by
      decide +kernel
    change ((replacedUnits.told 1).outPort (mixedSys 1) 18 0).bind _ = none
    rw [hentry, Option.bind_none]
  · obtain ⟨y, -, rfl⟩ := List.mem_map.mp hx
    exact if_pos hid

end Presteramgr
