import Mathlib.Algebra.Order.Ring.Int
import Mathlib.Algebra.Ring.Int.Parity
import Mathlib.Tactic.LinearCombination
import Mathlib.Tactic.Ring

/-!
# Loops of nodes with two ports

Nodes with two ports each are cabled in a circle, or in a chain, which is a circle with one cable
missing. Nodes have positions, integers modulo the number of nodes, and either port may face the
next position.

## Main definitions

* `Loop`: the arrangement;
* `Loop.link`: what is at the other end of a cable, `Loop.walk`: the way straight on from a port;
* `Loop.hops`: the number of cables to a node on that way;
* `Loop.Path`: the ways from node to node.

## Main results

* `Loop.walk_facing`: where the way straight on leads;
* `Loop.hops_eq`, `Loop.hops_eq_zero`: hop counts;
* `Loop.exists_along`: each node can be reached, in a circle on both ways;
* `Loop.Path.le`: how long a path has to be.
-/

/-- The ports of a node. -/
inductive Port
  | zero
  | one
deriving DecidableEq, Repr

/-- The other port. -/
def Port.other : Port → Port
  | .zero => .one
  | .one => .zero

@[simp] theorem Port.other_other (p : Port) : p.other.other = p := by cases p <;> rfl

/-- The other port is another one. -/
theorem Port.other_ne (p : Port) : p.other ≠ p := by cases p <;> decide

/-- There are two ports. -/
theorem Port.eq_other_of_ne {p q : Port} (hne : p ≠ q) : p = q.other := by
  cases p with
  | zero =>
    cases q with
    | zero => exact absurd rfl hne
    | one => rfl
  | one =>
    cases q with
    | zero => rfl
    | one => exact absurd rfl hne

/-- The directions around a loop. -/
inductive Dir
  | up
  | down
deriving DecidableEq, Repr

namespace Dir

/-- One position in the direction. -/
def sgn : Dir → ℤ
  | .up => 1
  | .down => -1

/-- The opposite direction. -/
def rev : Dir → Dir
  | .up => .down
  | .down => .up

@[simp] theorem rev_rev (σ : Dir) : σ.rev.rev = σ := by cases σ <;> rfl

@[simp] theorem sgn_rev (σ : Dir) : σ.rev.sgn = -σ.sgn := by cases σ <;> rfl

end Dir

/-- Nodes cabled in a circle (`ring`), or with the cable before the position 0 missing. -/
structure Loop (α : Type*) where
  /-- The number of nodes. -/
  n : ℕ
  ring : Bool
  node : ℤ → α
  /-- The port that faces the next position. -/
  next : ℤ → Port
  pos : 0 < n
  node_eq_iff : ∀ a b, node a = node b ↔ (n : ℤ) ∣ a - b
  next_congr : ∀ a b, node a = node b → next a = next b

namespace Loop

variable {α : Type*} (L : Loop α)

/-- The port at a position that faces in a direction. -/
def facing (a : ℤ) : Dir → Port
  | .up => L.next a
  | .down => (L.next a).other

/-- The direction that a port faces. -/
def dir (a : ℤ) (p : Port) : Dir := if p = L.next a then .up else .down

/-- There is no cable from the position in the direction. -/
def Cut (a : ℤ) (σ : Dir) : Prop :=
  L.ring = false ∧ match σ with
    | .up => (L.n : ℤ) ∣ a + 1
    | .down => (L.n : ℤ) ∣ a

instance (a : ℤ) (σ : Dir) : Decidable (L.Cut a σ) :=
  match σ with
  | .up => inferInstanceAs (Decidable (_ ∧ (L.n : ℤ) ∣ a + 1))
  | .down => inferInstanceAs (Decidable (_ ∧ (L.n : ℤ) ∣ a))

/-- The other end of the cable at a port. -/
def link (a : ℤ) (p : Port) : Option (ℤ × Port) :=
  if L.Cut a (L.dir a p) then none
  else some (a + (L.dir a p).sgn, L.facing (a + (L.dir a p).sgn) (L.dir a p).rev)

/-- The node at the other end of the cable at a port. -/
def neighbor (a : ℤ) (p : Port) : Option α := (L.link a p).map fun e => L.node e.1

/-- The port where one comes in after `k + 1` cables, leaving by the port `p` and going straight
on. -/
def walk (a : ℤ) (p : Port) : ℕ → Option (ℤ × Port)
  | 0 => L.link a p
  | k + 1 => (walk a p k).bind fun e => L.link e.1 e.2.other

/-- The number of cables to the node `v`, leaving by the port `p` and going straight on, and 0 if
one does not get there. -/
def hops [DecidableEq α] (a : ℤ) (p : Port) (v : α) : ℕ :=
  match (List.range L.n).find? fun k => ((L.walk a p k).map fun e => L.node e.1) = some v with
  | some k => k + 1
  | none => 0

/-- The nodes can be reached with `k` cables. -/
inductive Path (a : ℤ) : ℕ → ℤ → Prop
  | nil : Path a 0 a
  | snoc {k : ℕ} {b c : ℤ} {p q : Port} : Path a k b → L.link b p = some (c, q) → Path a (k + 1) c

variable {L}

/-! ### Ports and directions -/

@[simp] theorem dir_facing (a : ℤ) (σ : Dir) : L.dir a (L.facing a σ) = σ := by
  cases σ with
  | up => exact if_pos rfl
  | down => exact if_neg (Port.other_ne _)

@[simp] theorem facing_dir (a : ℤ) (p : Port) : L.facing a (L.dir a p) = p := by
  unfold dir
  split_ifs with h
  · exact h.symm
  · exact (Port.eq_other_of_ne h).symm

@[simp] theorem facing_other (a : ℤ) (σ : Dir) : (L.facing a σ).other = L.facing a σ.rev := by
  cases σ with
  | up => rfl
  | down => exact Port.other_other _

/-- The two directions of a place have different ports. -/
theorem facing_inj {a : ℤ} {σ τ : Dir} (h : L.facing a σ = L.facing a τ) : σ = τ := by
  rw [← L.dir_facing a σ, h, dir_facing]

/-- A place is known by its node: the ports face the same way. -/
theorem facing_congr {a b : ℤ} (h : L.node a = L.node b) (σ : Dir) :
    L.facing a σ = L.facing b σ := by
  cases σ with
  | up => exact L.next_congr a b h
  | down => exact congrArg Port.other (L.next_congr a b h)

/-- A place is known by its node: the loop is cut at the same side. -/
theorem cut_congr {a b : ℤ} (h : L.node a = L.node b) (σ : Dir) : L.Cut a σ ↔ L.Cut b σ := by
  have hdvd := (L.node_eq_iff a b).mp h
  cases σ with
  | up =>
    refine and_congr_right fun _ => ?_
    rw [show a + 1 = a - b + (b + 1) by ring]
    exact Int.dvd_add_right hdvd
  | down =>
    refine and_congr_right fun _ => ?_
    rw [show a = a - b + b by ring]
    exact Int.dvd_add_right (by simpa using hdvd)

/-- The nodes beside a node are the same wherever it is met. -/
theorem node_add_congr {a b : ℤ} (h : L.node a = L.node b) (x : ℤ) :
    L.node (a + x) = L.node (b + x) := by
  rw [node_eq_iff]
  simpa using (L.node_eq_iff a b).mp h

/-- The neighbor of a node is the same wherever it is met. -/
theorem neighbor_congr {a b : ℤ} (h : L.node a = L.node b) (p : Port) :
    L.neighbor a p = L.neighbor b p := by
  have hdir : L.dir a p = L.dir b p := by
    unfold dir
    rw [L.next_congr a b h]
  unfold neighbor link
  rw [hdir]
  by_cases hc : L.Cut b (L.dir b p)
  · rw [if_pos hc, if_pos ((cut_congr h _).mpr hc)]
  · rw [if_neg hc, if_neg (mt (cut_congr h _).mp hc), Option.map_some, Option.map_some,
      Option.some_inj, node_eq_iff]
    simpa using (L.node_eq_iff a b).mp h

/-- The link of a port leads to the next place, unless the loop is cut there. -/
theorem link_facing (a : ℤ) (σ : Dir) : L.link a (L.facing a σ) =
    if L.Cut a σ then none else some (a + σ.sgn, L.facing (a + σ.sgn) σ.rev) := by
  unfold link
  rw [dir_facing]

/-- Different positions with less than `n` between them have different nodes. -/
theorem node_ne {a b : ℤ} (hab : a < b) (hn : b < a + L.n) : L.node b ≠ L.node a := by
  rw [ne_eq, node_eq_iff]
  intro h
  have hle := Int.le_of_dvd (by omega) h
  omega

/-- Fewer steps than the loop has nodes lead to another node. -/
theorem node_ne_move {a : ℤ} (σ : Dir) {j k : ℕ} (hjk : j < k) (hn : k < j + L.n) :
    L.node (a + σ.sgn * k) ≠ L.node (a + σ.sgn * j) := by
  cases σ with
  | up => exact node_ne (by simp only [Dir.sgn]; omega) (by simp only [Dir.sgn]; omega)
  | down =>
    exact (node_ne (by simp only [Dir.sgn]; omega) (by simp only [Dir.sgn]; omega)).symm

/-! ### Walks -/

/-- There are `k` cables from the position straight on in the direction. -/
def Along (L : Loop α) (a : ℤ) (σ : Dir) (k : ℕ) : Prop := ∀ j < k, ¬L.Cut (a + σ.sgn * j) σ

/-- A way that is open is open up to each of its places. -/
theorem Along.of_le {a : ℤ} {σ : Dir} {j k : ℕ} (h : L.Along a σ k) (hjk : j ≤ k) : L.Along a σ j :=
  fun i hi => h i (lt_of_lt_of_le hi hjk)

/-- In a ring every way is open. -/
theorem along_of_ring (hr : L.ring = true) (a : ℤ) (σ : Dir) (k : ℕ) : L.Along a σ k := fun _ _ h =>
  Bool.false_ne_true (h.1.symm.trans hr)

/-- The rest of the way, after the first cables. -/
theorem Along.drop {a : ℤ} {σ : Dir} {j k : ℕ} (h : L.Along a σ (j + k)) :
    L.Along (a + σ.sgn * j) σ k := fun i hi => by
  have hcut := h (j + i) (Nat.add_lt_add_left hi j)
  rwa [show a + σ.sgn * j + σ.sgn * i = a + σ.sgn * ((j + i : ℕ) : ℤ) by push_cast; ring]

/-- A way is open for one step more when the loop is not cut there. -/
theorem along_succ {a : ℤ} {σ : Dir} {k : ℕ} :
    L.Along a σ (k + 1) ↔ L.Along a σ k ∧ ¬L.Cut (a + σ.sgn * k) σ := by
  constructor
  · intro h
    exact ⟨h.of_le (Nat.le_succ k), h k (Nat.lt_succ_self k)⟩
  · rintro ⟨h, hk⟩ j hj
    obtain hlt | rfl := Nat.lt_succ_iff_lt_or_eq.mp hj
    · exact h j hlt
    · exact hk

/-- A cut is one from both of its sides. -/
theorem cut_rev {a : ℤ} {σ : Dir} : L.Cut (a + σ.sgn) σ.rev ↔ L.Cut a σ := by
  cases σ with
  | up => exact Iff.rfl
  | down =>
    unfold Cut
    simp only [Dir.rev, Dir.sgn, neg_add_cancel_right]

/-- The way back. -/
theorem Along.rev {a : ℤ} {σ : Dir} {k : ℕ} (h : L.Along a σ k) :
    L.Along (a + σ.sgn * k) σ.rev k := fun j hj => by
  have hpos : a + σ.sgn * k + σ.rev.sgn * j = a + σ.sgn * ((k - 1 - j : ℕ) : ℤ) + σ.sgn := by
    rw [Dir.sgn_rev, Nat.sub_sub, Nat.cast_sub (by omega)]
    push_cast
    ring
  rw [hpos, cut_rev]
  exact h _ (by omega)

instance (a : ℤ) (σ : Dir) (k : ℕ) : Decidable (L.Along a σ k) :=
  inferInstanceAs (Decidable (∀ j < k, ¬L.Cut (a + σ.sgn * j) σ))

/-- Where the way straight on leads. -/
theorem walk_facing (a : ℤ) (σ : Dir) (k : ℕ) : L.walk a (L.facing a σ) k =
    if L.Along a σ (k + 1) then
      some (a + σ.sgn * (k + 1 : ℕ), L.facing (a + σ.sgn * (k + 1 : ℕ)) σ.rev)
    else none := by
  induction k with
  | zero =>
    have h : L.Along a σ 1 ↔ ¬L.Cut a σ := by
      rw [along_succ]
      simp [Along]
    rw [walk, link_facing]
    by_cases hc : L.Cut a σ
    · rw [if_pos hc, if_neg (fun hal => h.mp hal hc)]
    · rw [if_neg hc, if_pos (h.mpr hc)]
      simp
  | succ k ih =>
    rw [walk, ih]
    by_cases hal : L.Along a σ (k + 1)
    · rw [if_pos hal, Option.bind_some, facing_other, Dir.rev_rev, link_facing]
      by_cases hc : L.Cut (a + σ.sgn * (k + 1 : ℕ)) σ
      · rw [if_pos hc, if_neg fun h => (along_succ.mp h).2 hc]
      · rw [if_neg hc, if_pos (along_succ.mpr ⟨hal, hc⟩)]
        have hpos : a + σ.sgn * (k + 1 : ℕ) + σ.sgn = a + σ.sgn * (k + 1 + 1 : ℕ) := by
          push_cast
          ring
        rw [hpos]
    · rw [if_neg hal, if_neg fun h => hal (along_succ.mp h).1, Option.bind_none]

/-! ### Hop counts -/

section

variable [DecidableEq α]

/-- The hop count of a node that is `k` cables away. -/
theorem hops_eq {a : ℤ} {σ : Dir} {k : ℕ} (hk : 0 < k) (hn : k < L.n) (hal : L.Along a σ k) :
    L.hops a (L.facing a σ) (L.node (a + σ.sgn * k)) = k := by
  obtain ⟨k, rfl⟩ := Nat.exists_eq_succ_of_ne_zero hk.ne'
  have hfind : ((List.range L.n).find? fun j =>
      ((L.walk a (L.facing a σ) j).map fun e => L.node e.1) =
        some (L.node (a + σ.sgn * (k + 1 : ℕ)))) = some k := by
    rw [List.find?_range_eq_some]
    refine ⟨?_, List.mem_range.mpr (Nat.lt_of_succ_lt hn), fun j hj => ?_⟩
    · rw [decide_eq_true_eq, walk_facing, if_pos hal]
      rfl
    · -- the nodes before are others
      rw [walk_facing, if_pos (hal.of_le (Nat.succ_le_succ hj.le)), Option.map_some,
        Bool.not_eq_true', decide_eq_false_iff_not, Option.some_inj]
      exact (node_ne_move σ (Nat.succ_lt_succ hj) (by omega)).symm
  unfold hops
  rw [hfind]

/-- The hop count of a node that is not on the way. -/
theorem hops_eq_zero {a : ℤ} {σ : Dir} {v : α}
    (h : ∀ k, 0 < k → k ≤ L.n → L.Along a σ k → L.node (a + σ.sgn * k) ≠ v) :
    L.hops a (L.facing a σ) v = 0 := by
  have hfind : ((List.range L.n).find? fun j =>
      ((L.walk a (L.facing a σ) j).map fun e => L.node e.1) = some v) = none := by
    rw [List.find?_range_eq_none]
    intro j hj
    rw [Bool.not_eq_true', decide_eq_false_iff_not, walk_facing]
    by_cases hal : L.Along a σ (j + 1)
    · rw [if_pos hal, Option.map_some, Option.some_inj]
      exact h (j + 1) (Nat.succ_pos j) hj hal
    · rw [if_neg hal]
      exact (Option.some_ne_none v).symm
  unfold hops
  rw [hfind]

end

/-- The hops depend on the node only. -/
theorem hops_congr [DecidableEq α] {a b : ℤ} (h : L.node a = L.node b) (p : Port) (v : α) :
    L.hops a p v = L.hops b p v := by
  have hwalk : ∀ k, ((L.walk a p k).map fun e => L.node e.1) =
      (L.walk b p k).map fun e => L.node e.1 := fun k => by
    have hal : ∀ σ j, L.Along a σ j ↔ L.Along b σ j := fun σ j =>
      forall_congr' fun i => forall_congr' fun _ => not_congr (cut_congr (node_add_congr h _) σ)
    have ha := walk_facing (L := L) a (L.dir b p) k
    have hb := walk_facing (L := L) b (L.dir b p) k
    rw [facing_congr h, facing_dir] at ha
    rw [facing_dir] at hb
    rw [ha, hb]
    by_cases hk : L.Along b (L.dir b p) (k + 1)
    · rw [if_pos hk, if_pos ((hal _ _).mpr hk), Option.map_some, Option.map_some,
        node_add_congr h]
    · rw [if_neg hk, if_neg (mt (hal _ _).mp hk)]
  unfold hops
  simp only [hwalk]

/-! ### Circles -/

/-- Every other node is met within one round in each direction. -/
theorem exists_offset {a w : ℤ} (hne : L.node w ≠ L.node a) (σ : Dir) :
    ∃ k : ℕ, 0 < k ∧ k < L.n ∧ L.node w = L.node (a + σ.sgn * k) := by
  have hn : (0 : ℤ) < L.n := by exact_mod_cast L.pos
  have hnn := Int.emod_nonneg (σ.sgn * (w - a)) hn.ne'
  obtain ⟨k, hk⟩ := Int.eq_ofNat_of_zero_le hnn
  have hdvd : (L.n : ℤ) ∣ σ.sgn * (w - a) - k := by
    rw [← hk]
    exact Int.dvd_self_sub_emod
  have hnode : L.node w = L.node (a + σ.sgn * k) := by
    rw [node_eq_iff]
    cases σ with
    | up => simpa [Dir.sgn, sub_sub] using hdvd
    | down =>
      have h := Int.dvd_neg.mpr hdvd
      rwa [show -(Dir.down.sgn * (w - a) - (k : ℤ)) = w - (a + Dir.down.sgn * k) by
        simp only [Dir.sgn]; ring] at h
  refine ⟨k, Nat.pos_of_ne_zero ?_, ?_, hnode⟩
  · rintro rfl
    exact hne (by simpa using hnode)
  · have hlt := Int.emod_lt_of_pos (σ.sgn * (w - a)) hn
    rw [hk] at hlt
    exact_mod_cast hlt

/-- Within one round each node is met once. -/
theorem offset_inj {a : ℤ} (σ : Dir) {j k : ℕ} (hj : j < L.n) (hk : k < L.n)
    (h : L.node (a + σ.sgn * j) = L.node (a + σ.sgn * k)) : j = k := by
  obtain hlt | heq | hgt := lt_trichotomy j k
  · exact absurd h.symm (node_ne_move σ hlt (by omega))
  · exact heq
  · exact absurd h (node_ne_move σ hgt (by omega))

/-- In a circle a node that is `k` cables away in one direction is the other cables away in the
other one. -/
theorem node_rev (a : ℤ) (σ : Dir) {k : ℕ} (hk : k ≤ L.n) :
    L.node (a + σ.rev.sgn * (L.n - k : ℕ)) = L.node (a + σ.sgn * k) := by
  rw [node_eq_iff, Nat.cast_sub hk]
  cases σ with
  | up => exact ⟨-1, by simp only [Dir.rev, Dir.sgn]; ring⟩
  | down => exact ⟨1, by simp only [Dir.rev, Dir.sgn]; ring⟩

/-! ### Chains -/

/-- What is short of a round is no multiple of it. -/
theorem not_dvd {q x : ℤ} (hx : 0 < x) (hn : x < L.n) : ¬(L.n : ℤ) ∣ L.n * q + x := fun h => by
  have hle := Int.le_of_dvd hx ((Int.dvd_add_right (Dvd.intro q rfl)).mp h)
  omega

/-- A cable of a chain leads to a position of the same block. -/
theorem block_of_not_cut (hr : L.ring = false) {a : ℤ} {σ : Dir} (hc : ¬L.Cut a σ) :
    (a + σ.sgn) / L.n = a / L.n := by
  have hn : (0 : ℤ) < L.n := by exact_mod_cast L.pos
  have key : ∀ b : ℤ, ¬(L.n : ℤ) ∣ b + 1 → (b + 1) / L.n = b / L.n := fun b hb => by
    have hdm := Int.mul_ediv_add_emod b L.n
    have hlt := Int.emod_lt_of_pos b hn
    have hne : b % L.n + 1 ≠ L.n := fun h =>
      hb ⟨b / L.n + 1, by linear_combination -hdm + h⟩
    have hb1 : b + 1 = b % L.n + 1 + L.n * (b / L.n) := by linear_combination -hdm
    rw [hb1, Int.add_mul_ediv_left _ _ hn.ne', Int.ediv_eq_zero_of_lt
      (by have := Int.emod_nonneg b hn.ne'; omega) (by omega), zero_add]
  cases σ with
  | up => exact key a fun h => hc ⟨hr, h⟩
  | down =>
    have h := key (a - 1) fun h => hc ⟨hr, by simpa using h⟩
    rw [sub_add_cancel] at h
    exact h.symm

/-- In a chain an open way stays in one round. -/
theorem Along.block (hr : L.ring = false) {a : ℤ} {σ : Dir} {k : ℕ} (hal : L.Along a σ k) :
    (a + σ.sgn * k) / L.n = a / L.n := by
  induction k with
  | zero => simp
  | succ k ih =>
    obtain ⟨hal, hc⟩ := along_succ.mp hal
    rw [← ih hal, ← block_of_not_cut hr hc]
    congr 1
    push_cast
    ring

/-- The way straight on in a chain is not longer than the chain. -/
theorem Along.lt_of_chain (hr : L.ring = false) {a : ℤ} {σ : Dir} {k : ℕ} (hal : L.Along a σ k) :
    k < L.n := by
  have hn : (0 : ℤ) < L.n := by exact_mod_cast L.pos
  have hblock := hal.block hr
  have hda := Int.mul_ediv_add_emod a L.n
  have hdb := Int.mul_ediv_add_emod (a + σ.sgn * k) L.n
  have ha := Int.emod_nonneg a hn.ne'
  have ha' := Int.emod_lt_of_pos a hn
  have hb := Int.emod_nonneg (a + σ.sgn * k) hn.ne'
  have hb' := Int.emod_lt_of_pos (a + σ.sgn * k) hn
  rw [hblock] at hdb
  generalize (L.n : ℤ) * (a / L.n) = q at hda hdb
  cases σ with
  | up =>
    simp only [Dir.sgn] at hdb hb hb'
    omega
  | down =>
    simp only [Dir.sgn] at hdb hb hb'
    omega

/-- Two positions of a block with the same node are the same. -/
theorem eq_of_block {a b : ℤ} (hnode : L.node a = L.node b) (hblock : a / L.n = b / L.n) :
    a = b := by
  have hmod : a % L.n = b % L.n := Int.emod_eq_emod_iff_emod_sub_eq_zero.mpr
    (Int.emod_eq_zero_of_dvd ((L.node_eq_iff a b).mp hnode))
  rw [← Int.mul_ediv_add_emod a L.n, ← Int.mul_ediv_add_emod b L.n, hmod, hblock]

/-- In a chain each other node is on the way in one direction. -/
theorem exists_along_of_chain {a w : ℤ} (hne : L.node w ≠ L.node a) :
    ∃ (σ : Dir) (k : ℕ), 0 < k ∧ k < L.n ∧ L.node w = L.node (a + σ.sgn * k) ∧ L.Along a σ k := by
  have hn : (0 : ℤ) < L.n := by exact_mod_cast L.pos
  have hda := Int.mul_ediv_add_emod a L.n
  have hdw := Int.mul_ediv_add_emod w L.n
  have ha := Int.emod_nonneg a hn.ne'
  have ha' := Int.emod_lt_of_pos a hn
  have hw := Int.emod_nonneg w hn.ne'
  have hw' := Int.emod_lt_of_pos w hn
  have hmod : w % L.n ≠ a % L.n := fun h => hne <| (L.node_eq_iff w a).mpr <|
    Int.dvd_of_emod_eq_zero (Int.emod_eq_emod_iff_emod_sub_eq_zero.mp h)
  obtain hlt | hgt := lt_or_gt_of_ne hmod
  · refine ⟨.down, (a % L.n - w % L.n).toNat, by omega, by omega, ?_, fun j hj hc => ?_⟩
    · rw [node_eq_iff, Int.toNat_of_nonneg (by omega)]
      exact ⟨w / L.n - a / L.n, by simp only [Dir.sgn]; linear_combination hda - hdw⟩
    · refine not_dvd (L := L) (q := a / L.n) (x := a % L.n - j) (by omega) (by omega) ?_
      have h := hc.2
      simp only [Dir.sgn] at h
      rwa [show (L.n : ℤ) * (a / L.n) + (a % L.n - j) = a + -1 * j by linear_combination hda]
  · refine ⟨.up, (w % L.n - a % L.n).toNat, by omega, by omega, ?_, fun j hj hc => ?_⟩
    · rw [node_eq_iff, Int.toNat_of_nonneg (by omega)]
      exact ⟨w / L.n - a / L.n, by simp only [Dir.sgn]; linear_combination hda - hdw⟩
    · refine not_dvd (L := L) (q := a / L.n) (x := a % L.n + j + 1) (by omega) (by omega) ?_
      have h := hc.2
      simp only [Dir.sgn] at h
      rwa [show (L.n : ℤ) * (a / L.n) + (a % L.n + j + 1) = a + 1 * j + 1 by
        linear_combination hda]

/-- Each other node is on the way in some direction. -/
theorem exists_along {a w : ℤ} (hne : L.node w ≠ L.node a) :
    ∃ (σ : Dir) (k : ℕ), 0 < k ∧ k < L.n ∧ L.node w = L.node (a + σ.sgn * k) ∧ L.Along a σ k := by
  by_cases hr : L.ring = true
  · obtain ⟨k, hk, hn, hnode⟩ := exists_offset hne .up
    exact ⟨.up, k, hk, hn, hnode, along_of_ring hr a _ k⟩
  · exact exists_along_of_chain hne

/-- In a chain a node is not on the way in both directions. -/
theorem hops_rev_of_chain [DecidableEq α] (hr : L.ring = false) {a : ℤ} {σ : Dir} {k : ℕ}
    (hk : 0 < k) (hal : L.Along a σ k) :
    L.hops a (L.facing a σ.rev) (L.node (a + σ.sgn * k)) = 0 := by
  refine hops_eq_zero fun j hj _ hal' hnode => ?_
  have h := eq_of_block hnode ((hal'.block hr).trans (hal.block hr).symm)
  cases σ with
  | up =>
    simp only [Dir.rev, Dir.sgn] at h
    omega
  | down =>
    simp only [Dir.rev, Dir.sgn] at h
    omega

/-! ### Paths -/

/-- Following `k` cables straight on is a path. -/
theorem Along.path {a : ℤ} {σ : Dir} {k : ℕ} (hal : L.Along a σ k) :
    L.Path a k (a + σ.sgn * k) := by
  induction k with
  | zero => simpa using Path.nil
  | succ k ih =>
    obtain ⟨hal, hc⟩ := along_succ.mp hal
    have hlink : L.link (a + σ.sgn * k) (L.facing (a + σ.sgn * k) σ) =
        some (a + σ.sgn * (k + 1 : ℕ), L.facing (a + σ.sgn * k + σ.sgn) σ.rev) := by
      rw [link_facing, if_neg hc, show a + σ.sgn * (k + 1 : ℕ) = a + σ.sgn * k + σ.sgn by
        push_cast; ring]
    exact (ih hal).snoc hlink

/-- A path of `k` links ends at most `k` places away. -/
theorem Path.near {a b : ℤ} {k : ℕ} (h : L.Path a k b) : a ≤ b + k ∧ b ≤ a + k := by
  induction h with
  | nil => simp
  | @snoc k b c p q _ hlink ih =>
    have hc : c = b + (L.dir b p).sgn := by
      unfold link at hlink
      split_ifs at hlink
      exact (Prod.mk.inj (Option.some_inj.mp hlink)).1.symm
    cases hd : L.dir b p with
    | up =>
      rw [hd] at hc
      simp only [Dir.sgn] at hc
      omega
    | down =>
      rw [hd] at hc
      simp only [Dir.sgn] at hc
      omega

/-- A path in a chain stays in its block. -/
theorem Path.block (hr : L.ring = false) {a b : ℤ} {k : ℕ} (h : L.Path a k b) :
    b / L.n = a / L.n := by
  induction h with
  | nil => rfl
  | @snoc k b c p q _ hlink ih =>
    unfold link at hlink
    split_ifs at hlink with hc
    obtain ⟨rfl, -⟩ := Prod.mk.inj (Option.some_inj.mp hlink)
    rw [block_of_not_cut hr hc, ih]

/-- No path is shorter than the way straight on, in a circle if this is no longer than the way in
the other direction. -/
theorem Path.le {a b : ℤ} {σ : Dir} {j k : ℕ} (h : L.Path a j b) (hal : L.Along a σ k)
    (hnode : L.node b = L.node (a + σ.sgn * k)) (hhalf : L.ring = true → 2 * k ≤ L.n) : k ≤ j := by
  have hb : L.ring = true ∨ b = a + σ.sgn * k := by
    by_cases hr : L.ring = true
    · exact Or.inl hr
    · rw [Bool.not_eq_true] at hr
      exact Or.inr (eq_of_block hnode ((h.block hr).trans (hal.block hr).symm))
  obtain ⟨h₁, h₂⟩ := h.near
  obtain hr | rfl := hb
  · -- a shorter path would end less than `n` away from where the way ends
    by_contra hlt
    have hhalf := hhalf hr
    cases σ with
    | up =>
      simp only [Dir.sgn] at hnode
      exact node_ne (L := L) (a := b) (b := a + 1 * k) (by omega) (by omega) hnode.symm
    | down =>
      simp only [Dir.sgn] at hnode
      exact node_ne (L := L) (a := a + -1 * k) (b := b) (by omega) (by omega) hnode
  · cases σ with
    | up =>
      simp only [Dir.sgn] at h₂
      omega
    | down =>
      simp only [Dir.sgn] at h₁
      omega

/-! ### Arrangements -/

/-- The nodes `1, …, n` in order, with the port `up k` of the node `k + 1` facing the next one. -/
def ofNat (n : ℕ) (ring : Bool) (hn : 0 < n) (up : ℕ → Port) : Loop ℕ where
  n := n
  ring := ring
  node a := (a % n).toNat + 1
  next a := up (a % n).toNat
  pos := hn
  node_eq_iff a b := by
    have hn : (n : ℤ) ≠ 0 := by omega
    have ha := Int.emod_nonneg a hn
    have hb := Int.emod_nonneg b hn
    rw [Int.dvd_iff_emod_eq_zero, ← Int.emod_eq_emod_iff_emod_sub_eq_zero]
    omega
  next_congr a b h := congrArg up (Nat.succ_injective h)

/-! ### A broken circle -/

/-- The chain that is left when the cable behind the position `a` breaks. -/
def broken (L : Loop α) (a : ℤ) : Loop α where
  n := L.n
  ring := false
  node b := L.node (b + a + 1)
  next b := L.next (b + a + 1)
  pos := L.pos
  node_eq_iff b c := by
    rw [L.node_eq_iff]
    exact iff_of_eq (congrArg _ (by ring))
  next_congr b c h := L.next_congr _ _ h

end Loop
