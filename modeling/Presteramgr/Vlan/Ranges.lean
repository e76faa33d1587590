import Mathlib.Data.List.Range
import Presteramgr.Lib.Calls
import Presteramgr.Port.Translation

/-!
# Lists of VLANs from clients (`vlan.c`)

A client names VLANs in an array. A number up to 10000 is a VLAN; a number above is the first VLAN
of a range, plus 10000, and the number after it is the last one, plus 10000. Three functions walk
over such an array, each with an operation of its own. They end at the first VLAN for which it
fails, and they do not check whether a first VLAN has a number after it.

## Main definitions

* `rangeLoop`: the walk, with `vlanAddRange`, `vlanDeleteRange` and `vlanSetCpuRange`;
* `encoded`: the VLANs that an array encodes;
* `unended`: the array ends with the first VLAN of a range;
* `Decodes`: a walk returns and has called the operation for what is encoded.

## Main results

* `rangeLoop_eq`: what a walk does;
* `ranges_decode_iff`: when the walks do what they should.
-/

namespace Presteramgr

open Function (update)

/-- `vid_t`. -/
abbrev Vid := UInt16

/-- `IS_IN_RANGE`. -/
def isInRange (vid : Vid) : Prop := 10000 < vid.toNat

instance (vid : Vid) : Decidable (isInRange vid) := Nat.decLt 10000 vid.toNat

/-! ## The walk -/

section Loop

variable {σ : Type*} (op : ℕ → σ → Status × σ)

/-- The values of `v` in the loop from `first - 10000` while it is at most `last - 10000`. -/
def vidsBetween (first last : Vid) : List ℕ :=
  List.range' (first.toNat - 10000) (last.toNat + 1 - first.toNat)

/-- The loop over an array of `size` elements, `none` standing for an access after its end. Each
round takes as many elements off the array as it takes off `size`. -/
def rangeLoop : List Vid → σ → Option (Status × σ)
  | [], s => some (.ST_OK, s)
  | x :: arr, s =>
    if isInRange x then
      match arr with
      | [] => none
      | y :: arr =>
        let r := Calls.run .ST_OK op (vidsBetween x y) s
        if r.1 = .ST_OK then rangeLoop arr r.2 else some r
    else
      let r := op x.toNat s
      if r.1 = .ST_OK then rangeLoop arr r.2 else some r

/-- The VLANs that an array encodes, in its order. -/
def encoded : List Vid → List ℕ
  | [] => []
  | x :: arr =>
    if isInRange x then
      match arr with
      | [] => []
      | y :: arr => vidsBetween x y ++ encoded arr
    else x.toNat :: encoded arr

/-- The array ends with the first VLAN of a range. -/
def unended : List Vid → Bool
  | [] => false
  | x :: arr =>
    if isInRange x then
      match arr with
      | [] => true
      | _ :: arr => unended arr
    else unended arr

variable {op}

/-- The operation is called for what is encoded, until it fails; if it does not fail, an array that
ends with the first VLAN of a range is read after its end. -/
theorem rangeLoop_eq (arr : List Vid) (s : σ) : rangeLoop op arr s =
    if unended arr ∧ (Calls.run .ST_OK op (encoded arr) s).1 = .ST_OK then none
    else some (Calls.run .ST_OK op (encoded arr) s) := by
  induction arr using encoded.induct generalizing s with
  | case1 => exact (if_neg fun h => Bool.false_ne_true h.1).symm
  -- the array ends within a range
  | case2 x hx =>
    simp only [rangeLoop, encoded, unended, if_pos hx]
    exact (if_pos ⟨trivial, rfl⟩).symm
  -- a range: its VLANs, and the rest if they were all right
  | case3 x hx y arr ih =>
    simp only [rangeLoop, encoded, unended, if_pos hx, Calls.run_append]
    by_cases hok : (Calls.run .ST_OK op (vidsBetween x y) s).1 = .ST_OK
    · simp only [if_pos hok, ih]
    · simp only [if_neg hok]
      exact (if_neg fun h => hok h.2).symm
  | case4 x arr hx ih =>
    rw [rangeLoop.eq_def, encoded.eq_def, unended.eq_def]
    simp only [if_neg hx, Calls.run]
    by_cases hok : (op x.toNat s).1 = .ST_OK
    · rw [if_pos hok, if_pos hok]
      exact ih _
    · rw [if_neg hok, if_neg hok]
      exact (if_neg fun h => hok h.2).symm

/-! ## What a walk should do -/

/-- The walk reads the array only and returns, and the VLANs for which it calls the operation are
those that the array encodes. -/
def Decodes (op : ℕ → σ → Status × σ) (arr : List Vid) (s : σ) (result : Option (Status × σ)) :
    Prop :=
  ∃ st calls s', result = some (st, s') ∧
    rangeLoop (Calls.logged op) arr ([], s) = some (st, calls, s') ∧ ∀ v, v ∈ calls ↔
      v ∈ encoded arr

/-- If the array ends with the first VLAN of a range, the operation fails for a VLAN encoded before;
and after the first VLAN that it fails for no other VLANs are encoded than before. -/
def Ended (op : ℕ → σ → Status × σ) (arr : List Vid) (s : σ) : Prop :=
  (unended arr → ∃ pre v post, Calls.FailsFirst .ST_OK op (encoded arr) s pre v post) ∧
    ∀ pre v post, Calls.FailsFirst .ST_OK op (encoded arr) s pre v post → ∀ w ∈ post,
      w ∈ pre ∨ w = v

theorem decodes_iff (arr : List Vid) (s : σ) :
    Decodes op arr s (rangeLoop op arr s) ↔ Ended op arr s := by
  have hlogged : rangeLoop (Calls.logged op) arr ([], s) =
      if unended arr ∧ (Calls.run .ST_OK op (encoded arr) s).1 = .ST_OK then none
      else some ((Calls.run .ST_OK op (encoded arr) s).1, Calls.made .ST_OK op (encoded arr) s,
        (Calls.run .ST_OK op (encoded arr) s).2) := by
    rw [rangeLoop_eq, Calls.run_logged, List.nil_append]
  by_cases hread : unended arr ∧ (Calls.run .ST_OK op (encoded arr) s).1 = .ST_OK
  · rw [if_pos hread] at hlogged
    constructor
    · rintro ⟨st, calls, s', -, hcalls, -⟩
      exact absurd (hlogged.symm.trans hcalls).symm (Option.some_ne_none _)
    · intro h
      obtain ⟨pre, v, post, hfails⟩ := h.1 hread.1
      exact absurd hread.2 hfails.made_eq.2
  · rw [if_neg hread] at hlogged
    have hplain : rangeLoop op arr s = some (Calls.run .ST_OK op (encoded arr) s) := by
      rw [rangeLoop_eq, if_neg hread]
    -- no call is made for a VLAN that is not named
    have hsub : ∀ v, v ∈ Calls.made .ST_OK op (encoded arr) s → v ∈ encoded arr := fun v hv =>
      (Calls.made_prefix (encoded arr) s).subset hv
    constructor
    · rintro ⟨st, calls, s', -, hcalls, hall⟩
      have hmade : Calls.made .ST_OK op (encoded arr) s = calls :=
        congrArg (fun r => r.2.1) (Option.some_inj.mp (hlogged.symm.trans hcalls))
      refine ⟨fun hun => ?_, fun pre v post hfails w hw => ?_⟩
      · exact (Calls.ok_or_fails _ s).resolve_left fun h => hread ⟨hun, h.1⟩
      · have hin : w ∈ encoded arr := by
          rw [hfails.split]
          exact List.mem_append_right pre (List.mem_cons_of_mem v hw)
        have hcall := (hall w).mpr hin
        rw [← hmade, hfails.made_eq.1] at hcall
        exact (List.mem_append.mp hcall).imp_right List.mem_singleton.mp
    · rintro ⟨-, hall⟩
      refine ⟨_, _, _, hplain, hlogged, fun w => ⟨hsub w, fun hw => ?_⟩⟩
      have hcases := @Calls.ok_or_fails _ _ _ _ .ST_OK op (encoded arr) s
      obtain ⟨-, hmade⟩ | ⟨pre, v, post, hfails⟩ := hcases
      · rwa [hmade]
      · rw [hfails.made_eq.1]
        rw [hfails.split] at hw
        obtain hpre | hrest := List.mem_append.mp hw
        · exact List.mem_append_left _ hpre
        · obtain rfl | hpost := List.mem_cons.mp hrest
          · exact List.mem_append_right pre (List.mem_singleton.mpr rfl)
          · have hsame := hall pre v post hfails w hpost
            exact List.mem_append.mpr (hsame.imp_right List.mem_singleton.mpr)

end Loop

/-! ## The operations -/

/-- What the hardware makes of writing and of invalidating the entry of a VLAN. -/
structure VlanHw where
  write : ℕ → GtStatus
  invalidate : ℕ → GtStatus

/-- `vlans`, at each VLAN: `state == VS_ACTIVE`, `c_cpu` and `mac_addr_set`. -/
structure VlanFlags where
  active : ℕ → Bool
  c_cpu : ℕ → Bool
  mac_addr_set : ℕ → Bool

namespace VlanFlags

variable (hw : VlanHw) (vid : ℕ) (s : VlanFlags)

/-- `vlan_set_cpu`. `pdsa_vlan_if_op` returns `ST_OK`. -/
def vlanSetCpu (cpu : Bool) : Status × VlanFlags :=
  if ¬vlanValid vid then (.ST_BAD_VALUE, s)
  else if s.c_cpu vid = cpu then (.ST_OK, s)
  else
    let s := { s with c_cpu := update s.c_cpu vid cpu }
    (.ST_OK, if cpu then s else { s with mac_addr_set := update s.mac_addr_set vid false })

/-- `vlan_add`. -/
def vlanAdd : Status × VlanFlags :=
  if ¬vlanValid vid then (.ST_BAD_VALUE, s)
  else
    match hw.write vid with
    | .GT_OK => (.ST_OK, { s with active := update s.active vid true })
    | .GT_HW_ERROR => (.ST_HW_ERROR, s)
    | .other => (.ST_HEX, s)

/-- `vlan_delete`. -/
def vlanDelete : Status × VlanFlags :=
  if ¬vlanValid vid then (.ST_BAD_VALUE, s)
  else
    match hw.invalidate vid with
    | .GT_OK => vlanSetCpu vid { s with active := update s.active vid false } false
    | _ => (.ST_HEX, s)

variable (arr : List Vid)

/-- `vlan_add_range`. -/
def vlanAddRange : Option (Status × VlanFlags) := rangeLoop (vlanAdd hw) arr s

/-- `vlan_delete_range`. -/
def vlanDeleteRange : Option (Status × VlanFlags) := rangeLoop (vlanDelete hw) arr s

/-- `vlan_set_cpu_range`. -/
def vlanSetCpuRange (cpu : Bool) : Option (Status × VlanFlags) :=
  rangeLoop (fun vid s => vlanSetCpu vid s cpu) arr s

variable {hw vid s arr}

/-- Adding valid VLANs makes them active, and leaves the others. -/
theorem run_vlanAdd {l : List ℕ} (hvalid : ∀ v ∈ l, vlanValid v ∧ hw.write v = .GT_OK) :
    ∃ s', Calls.run .ST_OK (vlanAdd hw) l s = (.ST_OK, s') ∧
      ∀ v, s'.active v = true ↔ v ∈ l ∨ s.active v = true := by
  induction l generalizing s with
  | nil => exact ⟨s, rfl, fun v => (or_iff_right List.not_mem_nil).symm⟩
  | cons x l ih =>
    obtain ⟨hx, hl⟩ := List.forall_mem_cons.mp hvalid
    have hadd : vlanAdd hw x s = (.ST_OK, { s with active := update s.active x true }) := by
      unfold vlanAdd
      rw [if_neg (not_not.mpr hx.1), hx.2]
    obtain ⟨s', hrun, hactive⟩ := ih hl (s := { s with active := update s.active x true })
    refine ⟨s', ?_, fun v => ?_⟩
    · rw [Calls.run, hadd, if_pos rfl, hrun]
    · rw [hactive, List.mem_cons, or_comm (a := v = x), or_assoc]
      refine or_congr_right ?_
      by_cases hv : v = x
      · subst hv
        simp
      · simp [hv]

/-- Of an array whose ranges end and whose VLANs are valid, all VLANs become active. -/
theorem vlanAddRange_of_valid (hend : unended arr = false)
    (hvalid : ∀ v ∈ encoded arr, vlanValid v ∧ hw.write v = .GT_OK) :
    ∃ s', s.vlanAddRange hw arr = some (.ST_OK, s') ∧
      ∀ v, s'.active v = true ↔ v ∈ encoded arr ∨ s.active v = true := by
  obtain ⟨s', hrun, hactive⟩ := run_vlanAdd (s := s) hvalid
  refine ⟨s', ?_, hactive⟩
  unfold vlanAddRange
  rw [rangeLoop_eq, hend, if_neg fun h => Bool.false_ne_true h.1, hrun]

variable (hw s arr)

/-- The three walks read the array only and treat exactly the VLANs that it encodes if and only if
no first VLAN of a range that stands last is reached, and behind the first VLAN that fails no VLAN is
encoded that was not encoded before. -/
theorem ranges_decode_iff :
    (Decodes (vlanAdd hw) arr s (s.vlanAddRange hw arr) ↔ Ended (vlanAdd hw) arr s) ∧
    (Decodes (vlanDelete hw) arr s (s.vlanDeleteRange hw arr) ↔ Ended (vlanDelete hw) arr s) ∧
    ∀ cpu, Decodes (fun vid s => vlanSetCpu vid s cpu) arr s (s.vlanSetCpuRange arr cpu) ↔
      Ended (fun vid s => vlanSetCpu vid s cpu) arr s :=
  ⟨decodes_iff arr s, decodes_iff arr s, fun _ => decodes_iff arr s⟩

/-- An array that is one first VLAN is read after its end. -/
theorem not_ranges_decode : ¬∀ (hw : VlanHw) (s : VlanFlags) (arr : List Vid),
    Decodes (vlanAdd hw) arr s (s.vlanAddRange hw arr) ∧
    Decodes (vlanDelete hw) arr s (s.vlanDeleteRange hw arr) ∧
    ∀ cpu, Decodes (fun vid s => vlanSetCpu vid s cpu) arr s (s.vlanSetCpuRange arr cpu) := by
  intro h
  obtain ⟨st, calls, s', hresult, -⟩ :=
    (h ⟨fun _ => .GT_OK, fun _ => .GT_OK⟩
      ⟨fun _ => false, fun _ => false, fun _ => false⟩ [10001]).1
  have hread : vlanAddRange ⟨fun _ => .GT_OK, fun _ => .GT_OK⟩
      ⟨fun _ => false, fun _ => false, fun _ => false⟩ [10001] = none := by
    rfl
  exact absurd (hread.symm.trans hresult).symm (Option.some_ne_none _)

end VlanFlags

end Presteramgr
