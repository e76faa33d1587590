import Mathlib.Tactic.SplitIfs
import Presteramgr.Lib.Guarded
import Presteramgr.Lib.Sweep
import Presteramgr.Lib.Usage
import Presteramgr.Types

/-!
# Spanning-tree groups of VLANs (`vlan.c`)

Each VLAN is mapped to one of 256 spanning-tree groups, in `vlans[].stp_id` and in the hardware. A
bit for each group says whether a VLAN is mapped to it; the bits are four in each word of `stgs`.
When a VLAN moves, the bit of its old group is cleared unless another VLAN keeps it, and while all
VLANs are mapped anew the bits are about the VLANs that have their new group already.

## Main definitions

* `StpGroups`: the groups of the VLANs, the bits, and what was written to the hardware;
* `StpGroups.vlanSetStpId` and `StpGroups.vlanSetFdbMap`;
* `StpGroups.usage`: the map and the flags that the bits stand for.

## Main results

* `StpGroups.vlanSetStpId_usage`: a call is a move of `Usage`;
* `StpGroups.active_iff_mapped`: once a map is set, the bits and the hardware agree with the groups,
  and a map is set as a whole or not at all.
-/

namespace Presteramgr

open Function (update update_self update_of_ne)

/-- The devices, and `dev_info[d].ic_ports`. -/
structure StpConf where
  devs : List ℕ
  ic_ports : ℕ → List ℕ

/-- The spanning-tree groups of the VLANs from 1 to `NVLANS`, which is 4094. The VLAN `vid` has the
index `vid - 1`. -/
structure StpGroups (NVLANS : ℕ) where
  /-- `vlans[].stp_id`. -/
  stp_id : Fin NVLANS → Fin 256
  stgs : Fin 64 → BitVec 32
  /-- The group of a VLAN that was last written to a device, by `cpssDxChBrgVlanToStpIdBind` or with
  the entry of the VLAN. -/
  bound : ℕ → Fin NVLANS → Fin 256
  /-- The ports of a device that were set to forward in a group. -/
  forwards : ℕ → ℕ → Fin 256 → Bool

/-- `STG_IDX`. -/
def stgIdx (stg : Fin 256) : Fin 64 := ⟨stg / 4, by omega⟩

/-- `STG_BIT`. -/
def stgBit (stg : Fin 256) : BitVec 32 := 1#32 <<< (stg.val % 4)

namespace StpGroups

variable {NVLANS : ℕ} (c : StpConf) (s : StpGroups NVLANS)

/-- `stgs_clear`. -/
def stgsClear : StpGroups NVLANS := { s with stgs := fun _ => 0#32 }

/-- `stg_is_active`. -/
def stgIsActive (stg : Fin 256) : Bool := s.stgs (stgIdx stg) &&& stgBit stg ≠ 0#32

/-- `stg_set_active`. -/
def stgSetActive (stg : Fin 256) : StpGroups NVLANS :=
  { s with stgs := update s.stgs (stgIdx stg) (s.stgs (stgIdx stg) ||| stgBit stg) }

/-- `stg_set_inactive`. -/
def stgSetInactive (stg : Fin 256) : StpGroups NVLANS :=
  { s with stgs := update s.stgs (stgIdx stg) (s.stgs (stgIdx stg) &&& ~~~stgBit stg) }

/-- The loop over the devices of `vlan_set_stp_id`. -/
def bind (v : Fin NVLANS) (id : Fin 256) : StpGroups NVLANS :=
  { s with
    bound := fun d v' => if d ∈ c.devs ∧ v' = v then id else s.bound d v'
    forwards := fun d p stg => (d ∈ c.devs ∧ p ∈ c.ic_ports d ∧ stg = id) || s.forwards d p stg }

/-- `vlan_set_stp_id` of the VLAN with the index `v`. -/
def vlanSetStpId (v : Fin NVLANS) (id : ℕ) : Status × StpGroups NVLANS :=
  if h : 255 < id then (.ST_BAD_VALUE, s)
  else
    let id : Fin 256 := ⟨id, by omega⟩
    let deactive := ¬∃ i, i ≠ v ∧ s.stp_id i = s.stp_id v ∧ s.stgIsActive (s.stp_id i)
    let s := if deactive then s.stgSetInactive (s.stp_id v) else s
    let s := { s with stp_id := update s.stp_id v id }.stgSetActive id
    (.ST_OK, s.bind c v id)

/-- `vlan_set_fdb_map`. -/
def vlanSetFdbMap (ids : Fin NVLANS → ℕ) : Status × StpGroups NVLANS :=
  if ∃ i, 255 < ids i then (.ST_BAD_VALUE, s)
  else (.ST_OK, (List.finRange NVLANS).foldl
    (fun s i => (s.vlanSetStpId c i (ids i)).2) s.stgsClear)

/-- What `__vlan_add` writes of the group. -/
def vlanAdd (v : Fin NVLANS) : StpGroups NVLANS :=
  { s with bound := fun d v' => if d ∈ c.devs ∧ v' = v then s.stp_id v else s.bound d v' }

/-! ## The bits -/

/-- A group is its byte and its bit in it. -/
theorem stgBit_inj {stg stg' : Fin 256} (hidx : stgIdx stg = stgIdx stg')
    (hbit : stg.val % 4 = stg'.val % 4) : stg = stg' := by
  have hdiv : stg.val / 4 = stg'.val / 4 := congrArg Fin.val hidx
  apply Fin.ext
  omega

/-- A group is active when its bit of its byte is set. -/
theorem stgIsActive_eq (stg : Fin 256) :
    s.stgIsActive stg = (s.stgs (stgIdx stg)).getLsbD (stg.val % 4) := by
  have hpow : stgBit stg = BitVec.twoPow 32 (stg.val % 4) := rfl
  have hne : BitVec.twoPow 32 (stg.val % 4) ≠ 0#32 := by
    intro h
    have hbit := congrArg (fun w => w.getLsbD (stg.val % 4)) h
    rw [BitVec.getLsbD_twoPow, BitVec.getLsbD_zero, decide_eq_true (by omega),
      decide_eq_true rfl] at hbit
    exact Bool.noConfusion hbit
  unfold stgIsActive
  rw [hpow, BitVec.and_twoPow]
  cases (s.stgs (stgIdx stg)).getLsbD (stg.val % 4) with
  | true => exact decide_eq_true hne
  | false => exact decide_eq_false fun h => h rfl

/-- After `stgs_clear` no group is active. -/
theorem stgsClear_active (stg : Fin 256) : s.stgsClear.stgIsActive stg = false := by
  rw [stgIsActive_eq]
  exact BitVec.getLsbD_zero

/-- Setting a group active sets its own bit only. -/
theorem stgSetActive_active (stg stg' : Fin 256) :
    (s.stgSetActive stg).stgIsActive stg' = (decide (stg' = stg) || s.stgIsActive stg') := by
  rw [stgIsActive_eq, stgIsActive_eq]
  unfold stgSetActive
  dsimp only
  by_cases hidx : stgIdx stg' = stgIdx stg
  · have hpow : stgBit stg = BitVec.twoPow 32 (stg.val % 4) := rfl
    rw [hidx, update_self, BitVec.getLsbD_or, hpow, BitVec.getLsbD_twoPow,
      decide_eq_true (by omega),
      Bool.true_and, Bool.or_comm]
    have hbit : stg.val % 4 = stg'.val % 4 ↔ stg' = stg :=
      ⟨fun h => stgBit_inj hidx h.symm, fun h => h ▸ rfl⟩
    simp only [hbit]
  · rw [update_of_ne hidx, decide_eq_false fun h => hidx (congrArg stgIdx h), Bool.false_or]

/-- Setting a group inactive clears its own bit only. -/
theorem stgSetInactive_active (stg stg' : Fin 256) :
    (s.stgSetInactive stg).stgIsActive stg' = (!decide (stg' = stg) && s.stgIsActive stg') := by
  rw [stgIsActive_eq, stgIsActive_eq]
  unfold stgSetInactive
  dsimp only
  by_cases hidx : stgIdx stg' = stgIdx stg
  · have hpow : stgBit stg = BitVec.twoPow 32 (stg.val % 4) := rfl
    rw [hidx, update_self, BitVec.getLsbD_and, BitVec.getLsbD_not, hpow, BitVec.getLsbD_twoPow,
      decide_eq_true (by omega), decide_eq_true (by omega), Bool.true_and, Bool.true_and, Bool.and_comm]
    have hbit : stg.val % 4 = stg'.val % 4 ↔ stg' = stg :=
      ⟨fun h => stgBit_inj hidx h.symm, fun h => h ▸ rfl⟩
    simp only [hbit]
  · rw [update_of_ne hidx, decide_eq_false fun h => hidx (congrArg stgIdx h), Bool.not_false,
      Bool.true_and]

/-! ## The calls -/

/-- The map from VLANs to groups, and the groups whose bit is set. -/
def usage : Usage.Flagged (Fin NVLANS) (Fin 256) := ⟨s.stp_id, fun stg => s.stgIsActive stg = true⟩

/-- The bit of the old group is cleared unless another VLAN keeps it. -/
theorem vlanSetStpId_active (v : Fin NVLANS) (id stg : Fin 256) :
    (s.vlanSetStpId c v id.val).2.stgIsActive stg = true ↔
      stg = id ∨ s.stgIsActive stg = true ∧ (stg = s.stp_id v → Usage.Shared s.usage v) := by
  have hle : ¬255 < id.val := by omega
  have hset : ∀ s' : StpGroups NVLANS,
      (({ s' with stp_id := update s'.stp_id v id }.stgSetActive id).bind c v id).stgIsActive stg =
        (decide (stg = id) || s'.stgIsActive stg) := fun s' =>
    stgSetActive_active { s' with stp_id := update s'.stp_id v id } id stg
  unfold vlanSetStpId
  rw [dif_neg hle]
  by_cases hshared : Usage.Shared s.usage v
  · have hkeep : ¬¬∃ i, i ≠ v ∧ s.stp_id i = s.stp_id v ∧ s.stgIsActive (s.stp_id i) :=
      not_not.mpr hshared
    dsimp only
    rw [if_neg hkeep, hset, Bool.or_eq_true, decide_eq_true_eq]
    exact or_congr_right (and_iff_left fun _ => hshared).symm
  · have hdrop : ¬∃ i, i ≠ v ∧ s.stp_id i = s.stp_id v ∧ s.stgIsActive (s.stp_id i) := hshared
    dsimp only
    rw [if_pos hdrop, hset, stgSetInactive_active, Bool.or_eq_true, decide_eq_true_eq,
      Bool.and_eq_true,
      Bool.not_eq_true', decide_eq_false_iff_not, and_comm]
    exact or_congr_right
      (and_congr_right fun _ => ⟨fun h h' => absurd h' h, fun h h' => hshared (h h')⟩)

/-- A VLAN gets the group it is given, the others keep theirs. -/
theorem vlanSetStpId_stp_id (v : Fin NVLANS) (id : Fin 256) :
    (s.vlanSetStpId c v id.val).2.stp_id = update s.stp_id v id := by
  have hle : ¬255 < id.val := by omega
  unfold vlanSetStpId
  rw [dif_neg hle]
  dsimp only [bind, stgSetActive]
  split_ifs <;> rfl

/-- A call is a move. -/
theorem vlanSetStpId_usage (v : Fin NVLANS) (id : Fin 256) :
    (s.vlanSetStpId c v id.val).2.usage = Usage.move s.usage v id :=
  Usage.Flagged.ext (s.vlanSetStpId_stp_id c v id)
    (funext fun stg => propext (s.vlanSetStpId_active c v id stg))

/-- The hardware has the groups of the VLANs. -/
def Bound : Prop := ∀ d ∈ c.devs, ∀ v, s.bound d v = s.stp_id v

variable {c s}

/-- A group that the hardware does not have is refused. -/
theorem vlanSetStpId_of_lt {v : Fin NVLANS} {id : ℕ} (h : 255 < id) :
    s.vlanSetStpId c v id = (.ST_BAD_VALUE, s) := dif_pos h

/-- The hardware of each device binds the VLAN to its group. -/
theorem vlanSetStpId_bound (v : Fin NVLANS) (id : Fin 256) (d : ℕ) (v' : Fin NVLANS) :
    (s.vlanSetStpId c v id.val).2.bound d v' = if d ∈ c.devs ∧
      v' = v then id else s.bound d v' := by
  have hle : ¬255 < id.val := by omega
  unfold vlanSetStpId
  rw [dif_neg hle]
  dsimp only [bind, stgSetActive]
  split_ifs <;> rfl

/-- The loop of a map, from any VLANs on. -/
theorem foldl_usage (ids : Fin NVLANS → Fin 256) (l : List (Fin NVLANS)) :
    (l.foldl (fun s i => (s.vlanSetStpId c i (ids i).val).2) s).usage =
      l.foldl (fun u i => Usage.move u i (ids i)) s.usage := by
  have hmove : ∀ (s : StpGroups NVLANS) (i : Fin NVLANS),
      Usage.move s.usage i (ids i) = (s.vlanSetStpId c i (ids i).val).2.usage :=
    fun s i => (vlanSetStpId_usage ..).symm
  exact (List.foldl_hom StpGroups.usage hmove).symm

/-- The loop over the VLANs binds each of them to its group. -/
theorem foldl_bound (ids : Fin NVLANS → Fin 256) (l : List (Fin NVLANS)) {d : ℕ} (hd : d ∈ c.devs)
    {v : Fin NVLANS} : (l.foldl (fun s i => (s.vlanSetStpId c i (ids i).val).2) s).bound d v =
      if v ∈ l then ids v else s.bound d v := by
  have hwrite : ∀ (s : StpGroups NVLANS) (i : Fin NVLANS),
      (s.vlanSetStpId c i (ids i).val).2.bound d v = if v = i then ids v else s.bound d v := by
    intro s i
    rw [vlanSetStpId_bound]
    by_cases hvi : v = i
    · subst hvi
      rw [if_pos ⟨hd, rfl⟩, if_pos rfl]
    · rw [if_neg fun h => hvi h.2, if_neg hvi]
  rw [Sweep.foldl_writes (fun s : StpGroups NVLANS => s.bound d v) (v = ·) (ids v) hwrite]
  by_cases hl : v ∈ l
  · rw [if_pos ⟨v, hl, rfl⟩, if_pos hl]
  · rw [if_neg fun h => hl (exists_eq_right'.mp h), if_neg hl]

/-- The bits say to which groups VLANs are mapped, and the hardware has the groups of the VLANs. -/
structure Mapped (c : StpConf) (s : StpGroups NVLANS) : Prop where
  used : Usage.Used Set.univ s.usage
  bound : s.Bound c

/-- **Step.** A new group of one VLAN keeps book and hardware in step. -/
theorem Mapped.setStpId (h : Mapped c s) (v : Fin NVLANS) (id : ℕ) :
    Mapped c (s.vlanSetStpId c v id).2 := by
  by_cases hid : 255 < id
  · rw [vlanSetStpId_of_lt hid]
    exact h
  · obtain ⟨id, rfl⟩ : ∃ id' : Fin 256, id'.val = id := ⟨⟨id, by omega⟩, rfl⟩
    refine ⟨?_, fun d hd v' => ?_⟩
    · rw [vlanSetStpId_usage]
      exact h.used.move_univ v id
    · rw [vlanSetStpId_bound, vlanSetStpId_stp_id]
      by_cases hv : v' = v
      · subst hv
        rw [if_pos ⟨hd, rfl⟩, update_self]
      · rw [if_neg fun h => hv h.2, update_of_ne hv]
        exact h.bound d hd v'

/-- A map with a group that the hardware does not have is refused. -/
theorem vlanSetFdbMap_of_lt {ids : Fin NVLANS → ℕ} (h : ∃ i, 255 < ids i) :
    s.vlanSetFdbMap c ids = (.ST_BAD_VALUE, s) := if_pos h

/-- A map whose groups are all valid is set, whatever was mapped before. -/
theorem vlanSetFdbMap_of_le (c : StpConf) (s : StpGroups NVLANS) {ids : Fin NVLANS → ℕ}
    (h : ∀ i, ids i ≤ 255) :
    ∃ s', s.vlanSetFdbMap c ids = (.ST_OK, s') ∧ Mapped c s' ∧ ∀ v, (s'.stp_id v).val = ids v := by
  obtain ⟨ids, rfl⟩ : ∃ ids' : Fin NVLANS → Fin 256, (fun i => (ids' i).val) = ids :=
    ⟨fun i => ⟨ids i, Nat.lt_succ_of_le (h i)⟩, rfl⟩
  have hno : ¬∃ i, 255 < (ids i).val := fun ⟨i, hi⟩ => by omega
  -- all bits are cleared first, and then each VLAN sets that of its group
  have hclear : Usage.Used ∅ s.stgsClear.usage := by
    intro stg
    refine ⟨fun hact => ?_, fun ⟨i, hi, _⟩ => absurd hi (Set.notMem_empty i)⟩
    exact absurd ((s.stgsClear_active stg).symm.trans hact) Bool.false_ne_true
  have hsweep := hclear.foldl (List.nodup_finRange NVLANS) (fun i _ => Set.notMem_empty i) ids
  have hmap : ∀ v, (((List.finRange NVLANS).foldl (fun s i => (s.vlanSetStpId c i (ids i).val).2)
      s.stgsClear).usage).map v = ids v := by
    intro v
    rw [foldl_usage, Usage.foldl_move_map, if_pos (List.mem_finRange v)]
  refine ⟨_, if_neg hno, ⟨?_, fun d hd v => ?_⟩, fun v => congrArg Fin.val (hmap v)⟩
  · have huniv : ∅ ∪ {i | i ∈ List.finRange NVLANS} = Set.univ :=
      Set.eq_univ_of_forall fun i => Set.mem_union_right ∅ (List.mem_finRange i)
    rw [huniv, ← foldl_usage (c := c)] at hsweep
    exact hsweep
  · rw [foldl_bound ids _ hd, if_pos (List.mem_finRange v)]
    exact (hmap v).symm

/-! ## Runs -/

/-- A call, or a VLAN that is added. -/
inductive Op (NVLANS : ℕ)
  | setFdbMap (ids : Fin NVLANS → ℕ)
  | setStpId (v : Fin NVLANS) (id : ℕ)
  | add (v : Fin NVLANS)

/-- The groups after a call. -/
def call (c : StpConf) (s : StpGroups NVLANS) : Op NVLANS → StpGroups NVLANS
  | .setFdbMap ids => (s.vlanSetFdbMap c ids).2
  | .setStpId v id => (s.vlanSetStpId c v id).2
  | .add v => s.vlanAdd c v

/-- A step of a run. -/
def step (c : StpConf) (s : StpGroups NVLANS) (op : Op NVLANS) : Option (StpGroups NVLANS) :=
  some (call c s op)

/-- **Step.** A call keeps book and hardware in step. -/
theorem Mapped.call (h : Mapped c s) (op : Op NVLANS) : Mapped c (call c s op) := by
  cases op with
  | setFdbMap ids =>
    by_cases hids : ∃ i, 255 < ids i
    · have hsame : StpGroups.call c s (.setFdbMap ids) = s :=
        congrArg Prod.snd (vlanSetFdbMap_of_lt hids)
      rw [hsame]
      exact h
    · obtain ⟨s', heq, hmapped, -⟩ := vlanSetFdbMap_of_le c s fun i =>
        not_lt.mp fun hi => hids ⟨i, hi⟩
      have hset : StpGroups.call c s (.setFdbMap ids) = s' := congrArg Prod.snd heq
      rw [hset]
      exact hmapped
  | setStpId v id => exact h.setStpId v id
  | add v =>
    refine ⟨h.used, fun d hd v' => ?_⟩
    dsimp only [StpGroups.call, vlanAdd]
    split_ifs with hv
    · rw [hv.2]
    · exact h.bound d hd v'

/-- From the first map that is set on, whatever the groups were before it, a bit is set exactly when
a VLAN is mapped to the group, and the hardware has the groups of all VLANs. In every state a map
with an invalid group changes nothing, and any other map is set as a whole. -/
theorem active_iff_mapped (c : StpConf) (s₀ s₁ : StpGroups NVLANS) (ids₀ : Fin NVLANS → ℕ)
    (hfirst : s₀.vlanSetFdbMap c ids₀ = (.ST_OK, s₁))
    (hr : Guarded.Reach (step c) (fun _ _ => True) s₁ s) :
    (∀ stg, s.stgIsActive stg = true ↔ ∃ v, s.stp_id v = stg) ∧
    (∀ d ∈ c.devs, ∀ v, s.bound d v = s.stp_id v) ∧
    ∀ ids, if ∃ v, 255 < ids v then s.vlanSetFdbMap c ids = (.ST_BAD_VALUE, s)
      else ∃ s', s.vlanSetFdbMap c ids = (.ST_OK, s') ∧ ∀ v, (s'.stp_id v).val = ids v := by
  have hi : Mapped c s := by
    refine hr.invariant (Mapped c) ?_ fun s op s' h _ hs => Option.some_inj.mp hs ▸ h.call op
    -- the first map is the one that makes the bits right
    by_cases hids : ∃ i, 255 < ids₀ i
    · rw [vlanSetFdbMap_of_lt hids] at hfirst
      exact Status.noConfusion (congrArg Prod.fst hfirst)
    · obtain ⟨s', heq, hmapped, -⟩ := vlanSetFdbMap_of_le c s₀ fun i =>
        not_lt.mp fun hi => hids ⟨i, hi⟩
      rw [heq] at hfirst
      rwa [← (Prod.mk.inj hfirst).2]
  refine ⟨fun stg => (hi.used stg).trans ?_, hi.bound, fun ids => ?_⟩
  · exact exists_congr fun v => and_iff_right (Set.mem_univ v)
  · split_ifs with hids
    · exact vlanSetFdbMap_of_lt hids
    · obtain ⟨s', heq, -, hall⟩ := vlanSetFdbMap_of_le c s fun i =>
        not_lt.mp fun hi => hids ⟨i, hi⟩
      exact ⟨s', heq, hall⟩

/-- The groups of a unit that starts. -/
def zeros : StpGroups 4094 where
  stp_id _ := 0
  stgs _ := 0
  bound _ _ := 0
  forwards _ _ _ := false

/-- VLAN 8 moves to group 200 after the first map. -/
theorem active_iff_mapped_moved : ∃ s₁ s : StpGroups 4094,
    zeros.vlanSetFdbMap ⟨[0], fun _ => [27]⟩ (fun _ => 0) = (.ST_OK, s₁) ∧
    Guarded.Reach (step ⟨[0], fun _ => [27]⟩) (fun _ _ => True) s₁ s ∧
    ((∀ stg, s.stgIsActive stg = true ↔ ∃ v, s.stp_id v = stg) ∧
      (∀ d ∈ [0], ∀ v, s.bound d v = s.stp_id v) ∧
      ∀ ids, if ∃ v, 255 < ids v then s.vlanSetFdbMap ⟨[0], fun _ => [27]⟩ ids = (.ST_BAD_VALUE, s)
        else ∃ s', s.vlanSetFdbMap ⟨[0], fun _ => [27]⟩ ids = (.ST_OK, s') ∧
          ∀ v, (s'.stp_id v).val = ids v) ∧
    s.stgIsActive 200 = true := by
  obtain ⟨s₁, hfirst, -, -⟩ := vlanSetFdbMap_of_le ⟨[0], fun _ => [27]⟩ zeros
    (fun _ => Nat.zero_le 255 : ∀ _, 0 ≤ 255)
  have hreach : Guarded.Reach (step ⟨[0], fun _ => [27]⟩) (fun _ _ => True) s₁
      (call ⟨[0], fun _ => [27]⟩ s₁ (.setStpId 7 200)) := Guarded.Reach.init.snoc _ trivial rfl
  have hall := active_iff_mapped _ _ _ _ hfirst hreach
  refine ⟨s₁, _, hfirst, hreach, hall, (hall.1 200).mpr ⟨7, ?_⟩⟩
  exact (congrFun (s₁.vlanSetStpId_stp_id _ 7 200) 7).trans (update_self ..)

end StpGroups

end Presteramgr
