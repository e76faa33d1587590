import Presteramgr.Stack.Net

/-!
# Flooding over the stack

A frame that a unit floods leaves by its stack ports and is passed on by the other units, each of
which looks into the source-id group of the unit it comes from. The two copies go around a ring in
opposite directions and have to stop where they meet.

## Main definitions

* `copyAt`: the copy that has left by a stack port;
* `Covered`: the units that a copy gets to;
* `Flooded`: each unit gets one copy.

## Main results

* `StackNet.flooded`: in rings and chains.
-/

namespace Presteramgr

variable {L : Loop ℕ}

/-- Where the copy of a frame of the unit at `s` comes in after `k + 1` cables that has left by the
port `p`. A copy that comes in by one stack port can only go on by the other one. -/
def copyAt (L : Loop ℕ) (st : ℕ → StackState) (s : ℤ) (p : Port) : ℕ → Option (ℤ × Port)
  | 0 => if (st (L.node s)).srcid (L.node s) p then L.link s p else none
  | k + 1 => (copyAt L st s p k).bind fun e =>
    if (st (L.node e.1)).srcid (L.node s) e.2.other then L.link e.1 e.2.other else none

/-- The number of the unit that gets the copy. -/
def copyUnit (L : Loop ℕ) (st : ℕ → StackState) (s : ℤ) (x : Port × ℕ) : Option ℕ :=
  (copyAt L st s x.1 x.2).map fun e => L.node e.1

/-- Each unit gets the frames of another one exactly once, none comes back to its source, and after
some cables there is no copy any more. -/
def Flooded (L : Loop ℕ) (st : ℕ → StackState) : Prop :=
  ∀ s, (∀ v, L.node v ≠ L.node s → ∃! x, copyUnit L st s x = some (L.node v)) ∧
    (∀ x, copyUnit L st s x ≠ some (L.node s)) ∧ ∀ p k, L.n ≤ k + 1 → copyAt L st s p k = none

/-- The copy in the direction `σ` gets to the unit `j` cables away: in a ring up to the unit
half-way around on the primary side, and to those before it on the other. -/
def Covered (L : Loop ℕ) (s : ℤ) (σ : Dir) (j : ℕ) : Prop :=
  (L.ring = true → if L.facing s σ = .zero then j ≤ L.n / 2 else j ≤ (L.n - 1) / 2) ∧
    (L.ring = false → L.Along s σ j)

theorem Covered.of_succ {s : ℤ} {σ : Dir} {j : ℕ} (h : Covered L s σ (j + 1)) :
    Covered L s σ j := by
  refine ⟨fun hr => ?_, fun hr => (h.2 hr).of_le (Nat.le_succ j)⟩
  have h := h.1 hr
  split_ifs at h ⊢
  · omega
  · omega

theorem Covered.lt {s : ℤ} {σ : Dir} {j : ℕ} (h : Covered L s σ j) : j < L.n := by
  have hn := L.pos
  cases hr : L.ring with
  | true =>
    have h := h.1 hr
    split_ifs at h
    · omega
    · omega
  | false => exact (h.2 hr).lt_of_chain hr

/-- No unit is covered twice. -/
theorem Covered.unique {s : ℤ} {σ τ : Dir} {j k : ℕ} (hj : Covered L s σ j) (hk : Covered L s τ k)
    (hj₀ : 0 < j) (hk₀ : 0 < k) (hnode : L.node (s + σ.sgn * j) = L.node (s + τ.sgn * k)) :
    σ = τ ∧ j = k := by
  by_cases hστ : σ = τ
  · subst hστ
    exact ⟨rfl, Loop.offset_inj σ hj.lt hk.lt hnode⟩
  · exfalso
    have hτ : τ = σ.rev := by
      cases σ <;> cases τ <;> first | rfl | exact absurd rfl hστ
    subst hτ
    cases hr : L.ring with
    | true =>
      -- one of the two ports is the primary one: together the copies cover n - 1 units
      have hn := L.pos
      rw [← L.node_rev s σ.rev hk.lt.le, Dir.rev_rev] at hnode
      have hsum := Loop.offset_inj σ hj.lt (by omega) hnode
      have h₁ := hj.1 hr
      have h₂ := hk.1 hr
      have hne : L.facing s σ.rev = (L.facing s σ).other := (L.facing_other s σ).symm
      rw [hne] at h₂
      cases hp : L.facing s σ with
      | zero =>
        rw [hp] at h₁ h₂
        rw [if_pos rfl] at h₁
        rw [if_neg (Port.other_ne _)] at h₂
        omega
      | one =>
        rw [hp] at h₁ h₂
        rw [if_neg (by decide)] at h₁
        rw [if_pos (show Port.one.other = .zero from rfl)] at h₂
        omega
    | false =>
      have h := Loop.eq_of_block hnode (((hj.2 hr).block hr).trans ((hk.2 hr).block hr).symm)
      cases σ with
      | up =>
        simp only [Dir.rev, Dir.sgn] at h
        omega
      | down =>
        simp only [Dir.rev, Dir.sgn] at h
        omega

/-- Each other unit is covered. -/
theorem exists_covered {s v : ℤ} (hne : L.node v ≠ L.node s) :
    ∃ (σ : Dir) (j : ℕ), 0 < j ∧ Covered L s σ j ∧ L.node v = L.node (s + σ.sgn * j) := by
  cases hr : L.ring with
  | true =>
    obtain ⟨k, hk, hkn, hnode⟩ := Loop.exists_offset hne (L.dir s .zero)
    by_cases hle : k ≤ L.n / 2
    · refine ⟨_, k, hk, ⟨fun _ => ?_, fun h => absurd (h.symm.trans hr) Bool.false_ne_true⟩, hnode⟩
      rw [L.facing_dir, if_pos rfl]
      exact hle
    · refine ⟨(L.dir s .zero).rev, L.n - k, by omega,
        ⟨fun _ => ?_, fun h => absurd (h.symm.trans hr) Bool.false_ne_true⟩,
        hnode.trans (L.node_rev s _ hkn.le).symm⟩
      rw [← L.facing_other, L.facing_dir, if_neg (Port.other_ne _)]
      omega
  | false =>
    obtain ⟨σ, k, hk, -, hnode, hal⟩ := Loop.exists_along hne
    exact ⟨σ, k, hk, ⟨fun h => absurd (hr.symm.trans h) Bool.false_ne_true, fun _ => hal⟩, hnode⟩

/-! ### Copies -/

section

variable {sys : ℕ → StackSys} {st : ℕ → StackState}

/-- There is a cable in the direction if there is a neighbour. -/
theorem neighbor_isSome_iff {a : ℤ} {σ : Dir} :
    (L.neighbor a (L.facing a σ)).isSome = true ↔ ¬L.Cut a σ := by
  unfold Loop.neighbor
  rw [L.link_facing]
  split_ifs with hc
  · simp [hc]
  · simp [hc]

/-- A copy leaves in the directions in which there is a unit to cover. -/
theorem own_group (hconf : ∀ a, Configured (sys (L.node a)) L a (st (L.node a))) (s : ℤ) (σ : Dir) :
    (st (L.node s)).srcid (L.node s) (L.facing s σ) = true ∧ ¬L.Cut s σ ↔ Covered L s σ 1 := by
  have hg := (hconf s).groups s
  unfold Covered
  cases hr : L.ring with
  | true =>
    have hcut : ¬L.Cut s σ := fun h => Bool.false_ne_true (h.1.symm.trans hr)
    have hown := hg.own_ring rfl hr
    cases hp : L.facing s σ with
    | zero =>
      simp [hown.1, hcut]
      omega
    | one =>
      simp [hown.2, hcut]
      omega
  | false =>
    have hown := hg.own_chain rfl hr (L.facing s σ)
    rw [neighbor_isSome_iff] at hown
    have hal : L.Along s σ 1 ↔ ¬L.Cut s σ := by
      rw [Loop.along_succ]
      simp [Loop.Along]
    simp [hown, hal]

/-- A copy is passed on if the next unit in its direction is one to cover. -/
theorem pass_group (hconf : ∀ a, Configured (sys (L.node a)) L a (st (L.node a))) {s : ℤ} {σ : Dir}
    {j : ℕ} (hj : 0 < j) (hcov : Covered L s σ j) :
    (st (L.node (s + σ.sgn * j))).srcid (L.node s) (L.facing (s + σ.sgn * j) σ) = true ∧
        ¬L.Cut (s + σ.sgn * j) σ ↔ Covered L s σ (j + 1) := by
  have hg := (hconf (s + σ.sgn * j)).groups s
  have hback : s + σ.sgn * j - σ.sgn * j = s := by ring
  have hlt := hcov.lt
  cases hr : L.ring with
  | true =>
    have hcut : ¬L.Cut (s + σ.sgn * j) σ := fun h => Bool.false_ne_true (h.1.symm.trans hr)
    have hpass := hg.pass_ring hr σ j hj hlt (by rw [hback])
    rw [hback] at hpass
    rw [hpass]
    unfold Covered
    have hcov := hcov.1 hr
    cases hp : L.facing s σ with
    | zero =>
      rw [hp, if_pos rfl] at hcov
      simp [hr, hcut]
      omega
    | one =>
      rw [hp, if_neg (by decide)] at hcov
      simp [hr, hcut]
      omega
  | false =>
    have hal := hcov.2 hr
    have hpass := hg.pass_chain hr σ j hj hlt (by rw [hback]) (by rw [hback]; exact hal)
    rw [hpass, neighbor_isSome_iff, and_self]
    unfold Covered
    simp [hr, Loop.along_succ (k := j), hal]

/-- Where the copies get to. -/
theorem copyAt_facing (hconf : ∀ a, Configured (sys (L.node a)) L a (st (L.node a))) (s : ℤ)
    (σ : Dir) (k : ℕ) :
    (Covered L s σ (k + 1) → copyAt L st s (L.facing s σ) k =
      some (s + σ.sgn * (k + 1 : ℕ), L.facing (s + σ.sgn * (k + 1 : ℕ)) σ.rev)) ∧
    (¬Covered L s σ (k + 1) → copyAt L st s (L.facing s σ) k = none) := by
  have hsend : ∀ (a : ℤ) (group : Bool), (if group then L.link a (L.facing a σ) else none) =
      if group = true ∧ ¬L.Cut a σ then some (a + σ.sgn, L.facing (a + σ.sgn) σ.rev) else none := by
    intro a group
    rw [L.link_facing]
    by_cases hg : group = true
    · by_cases hc : L.Cut a σ <;> simp [hg, hc]
    · simp [hg]
  induction k with
  | zero =>
    have hown := own_group hconf s σ
    rw [copyAt, hsend]
    constructor
    · intro hcov
      rw [if_pos (hown.mpr hcov)]
      simp
    · intro hcov
      rw [if_neg (mt hown.mp hcov)]
  | succ k ih =>
    rw [copyAt]
    by_cases hcov : Covered L s σ (k + 1)
    · have hpass := pass_group hconf (Nat.succ_pos k) hcov
      rw [ih.1 hcov, Option.bind_some, L.facing_other, Dir.rev_rev, hsend]
      constructor
      · intro hnext
        rw [if_pos (hpass.mpr hnext)]
        have hpos : s + σ.sgn * (k + 1 : ℕ) + σ.sgn = s + σ.sgn * (k + 1 + 1 : ℕ) := by
          push_cast
          ring
        rw [hpos]
      · intro hnext
        rw [if_neg (mt hpass.mp hnext)]
    · rw [ih.2 hcov, Option.bind_none]
      exact ⟨fun h => absurd h.of_succ hcov, fun _ => rfl⟩

/-- The units that get a copy. -/
theorem copyUnit_eq_some_iff (hconf : ∀ a, Configured (sys (L.node a)) L a (st (L.node a))) (s : ℤ)
    (σ : Dir) (k i : ℕ) : copyUnit L st s (L.facing s σ, k) = some i ↔
      Covered L s σ (k + 1) ∧ L.node (s + σ.sgn * (k + 1 : ℕ)) = i := by
  unfold copyUnit
  by_cases hcov : Covered L s σ (k + 1)
  · rw [(copyAt_facing hconf s σ k).1 hcov, Option.map_some, Option.some_inj]
    exact ⟨fun h => ⟨hcov, h⟩, fun h => h.2⟩
  · rw [(copyAt_facing hconf s σ k).2 hcov, Option.map_none]
    exact ⟨fun h => absurd h.symm (Option.some_ne_none i), fun h => absurd h.1 hcov⟩

/-- Each unit gets one copy. -/
theorem flooded_of_configured (hconf : ∀ a, Configured (sys (L.node a)) L a (st (L.node a))) :
    Flooded L st := by
  intro s
  refine ⟨fun v hne => ?_, fun x hx => ?_, fun p k hk => ?_⟩
  · obtain ⟨σ, j, hj, hcov, hnode⟩ := exists_covered hne
    obtain ⟨k, rfl⟩ := Nat.exists_eq_succ_of_ne_zero hj.ne'
    refine ⟨(L.facing s σ, k), (copyUnit_eq_some_iff hconf s σ k _).mpr ⟨hcov, hnode.symm⟩, ?_⟩
    rintro ⟨p, i⟩ hx
    rw [← L.facing_dir s p] at hx
    obtain ⟨hcov', hnode'⟩ := (copyUnit_eq_some_iff hconf s _ i _).mp hx
    obtain ⟨hdir, hi⟩ := hcov'.unique hcov (Nat.succ_pos i) (Nat.succ_pos k) (hnode'.trans hnode)
    rw [← hdir, L.facing_dir, Nat.succ_injective hi]
  · obtain ⟨p, k⟩ := x
    rw [← L.facing_dir s p] at hx
    obtain ⟨hcov, hnode⟩ := (copyUnit_eq_some_iff hconf s _ k _).mp hx
    -- the source is `n` cables away
    refine Loop.node_ne_move (L := L) (a := s) (L.dir s p) (Nat.succ_pos k)
      (by have := hcov.lt; omega) ?_
    simpa using hnode
  · rw [← L.facing_dir s p]
    refine (copyAt_facing hconf s _ k).2 fun hcov => ?_
    have := hcov.lt
    omega

end

/-- When all units have been told of their ring or chain, each frame that a unit floods gets to each
other unit exactly once, and not back to it. -/
theorem StackNet.flooded (net : StackNet L) :
    (∀ a, stackUpdateConf (net.sys (L.node a)) (net.state (L.node a)) (net.conf (L.node a)) =
      some (net.told (L.node a))) ∧ Flooded L net.told :=
  ⟨fun a => (net.told_spec a).1, flooded_of_configured fun a => (net.told_spec a).2⟩

/-- A ring of four units: the unit across from the first one gets its frames over the second one. -/
theorem StackNet.flooded_four : Flooded fourLoop fourUnits.told :=
  (StackNet.flooded fourUnits).2

end Presteramgr
