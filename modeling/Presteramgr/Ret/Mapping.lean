import Presteramgr.Lib.Packed
import Presteramgr.Ret.Frame

/-!
# The mapping of one group

The members of a group whose gateway is valid lie in the first indices of its run, and the route
entries at these indices forward to the gateways. The reaction of the group to a gateway that has
changed keeps the mapping.

## Main definitions

* `Re.entry` and `entry`: the route entry that a gateway should have;
* `Mapped ent uc g`: the members of `g` are mapped to the entries `ent`.

## Main results

* `mapped_retGroupGwChanged`: the reaction of one group;
* `mapped_foldl_retGroupGwChanged`: the reaction of all groups of a gateway.
-/

namespace Presteramgr

open Function (update update_self update_of_ne)

/-- The route entry of a gateway: it forwards to the next hop when the gateway is valid. -/
def Re.entry (env : RouteEnv) (re : Re) : Option UcRoute :=
  if re.valid then (env.vifGetn re.vif_id).map fun vif => .route vif re.nh_idx re.gw.vid else none

@[inherit_doc Re.entry]
def Router.entry (env : RouteEnv) (s : Router) (gw : Gw) : Option UcRoute :=
  (s.findGw gw).bind (Re.entry env)

/-- The members of a group with their indices. -/
def memberSlots : Packed.Slots ReIdx Gw where
  key := ReIdx.gw
  slot := ReIdx.idx
  set m idx := { m with idx := idx }
  key_set _ _ := rfl
  slot_set _ _ := rfl

/-- The members that have an entry lie in the first indices of the group, which hold their entries,
and the other members have the index that drops. -/
structure Mapped (ent : Gw → Option UcRoute) (uc : ℤ → UcRoute) (g : ReGroup) : Prop where
  unique : Keyed.Unique ReIdx.gw g.re_idx
  count : g.re_count = g.re_idx.length
  first : g.re_idx ≠ [] → DROP_RE_IDX < g.first_idx
  filled : Packed.Filled memberSlots (fun gw => (ent gw).isSome = true) g.first_idx
    (g.numOfPaths + 1) DROP_RE_IDX g.re_idx
  entries : ∀ m ∈ g.re_idx, ∀ rt, ent m.gw = some rt → uc m.idx = rt

namespace Mapped

variable {ent ent' : Gw → Option UcRoute} {uc uc' : ℤ → UcRoute} {g : ReGroup} {m : ReIdx}
  {rt : UcRoute} (h : Mapped ent uc g)

include h

/-- The indices of members that have an entry are those of the run. -/
theorem mem_run (hm : m ∈ g.re_idx) (he : (ent m.gw).isSome = true) : m.idx ∈ g.run := by
  have hrange : g.first_idx ≤ m.idx ∧ m.idx < g.first_idx + (g.numOfPaths + 1) :=
    h.filled.range m hm he
  have hlen := h.filled.le_length h.unique
  rw [ReGroup.run, Ret.mem_idxRun, h.count, Int.toNat_natCast]
  omega

/-- A member in the last slot has an entry. -/
theorem ent_of_last (hm : m ∈ g.re_idx) : ∀ z ∈ g.re_idx, z.idx = g.first_idx + g.numOfPaths →
    0 ≤ g.numOfPaths → (ent z.gw).isSome = true := by
  intro z hz hidx hn
  by_contra hno
  have hoff : z.idx = DROP_RE_IDX := h.filled.off z hz hno
  have := h.first (List.ne_nil_of_mem hm)
  omega

/-- Only the entries of the members and the contents of the run count. -/
theorem congr (hent : ∀ m ∈ g.re_idx, ent' m.gw = ent m.gw)
    (huc : ∀ i ∈ g.run, uc' i = uc i) : Mapped ent' uc' g := by
  refine ⟨h.unique, h.count, h.first, h.filled.congr fun m hm => ?_, fun m hm rt he => ?_⟩
  · show (ent' m.gw).isSome = true ↔ (ent m.gw).isSome = true
    rw [hent m hm]
  · rw [hent m hm] at he
    rw [huc m.idx (h.mem_run hm (Option.isSome_of_eq_some he))]
    exact h.entries m hm rt he

/-- The member that moves when the one of `gw` leaves is that of the last slot. -/
theorem lastMember_eq_some_iff (hm : m ∈ g.re_idx) (he : (ent m.gw).isSome = true) {z : ReIdx} :
    g.lastMember m.gw = some z ↔
      z ∈ g.re_idx ∧ z.gw ≠ m.gw ∧ z.idx = g.first_idx + g.numOfPaths := by
  have hrange : g.first_idx ≤ m.idx ∧ m.idx < g.first_idx + (g.numOfPaths + 1) :=
    h.filled.range m hm he
  have hfirst := h.first (List.ne_nil_of_mem hm)
  have hlast := h.ent_of_last hm
  have hset : (g.setIdx (·.gw = m.gw) DROP_RE_IDX).re_idx = Keyed.modify ReIdx.gw g.re_idx m.gw
      fun m => { m with idx := DROP_RE_IDX } := h.unique.modifyFirst_eq
  -- the member of `m.gw` has left its slot
  have hmem : ∀ z : ReIdx, z.idx = g.first_idx + g.numOfPaths →
      (z ∈ (g.setIdx (·.gw = m.gw) DROP_RE_IDX).re_idx ↔ z ∈ g.re_idx ∧ z.gw ≠ m.gw) := by
    intro z hz
    rw [hset, Keyed.mem_modify_iff]
    refine or_iff_right ?_
    rintro ⟨x, -, -, rfl⟩
    simp only at hz
    omega
  unfold ReGroup.lastMember
  split_ifs with hzero
  · refine ⟨fun hno => absurd hno (by simp), fun ⟨hz, hne, hidx⟩ => absurd ?_ hne⟩
    exact h.filled.inj z hz m hm (hlast z hz hidx (by omega)) he (by
      show z.idx = m.idx
      omega)
  · constructor
    · intro hf
      have hidx : z.idx = g.first_idx + g.numOfPaths := by simpa using List.find?_some hf
      have hz := (hmem z hidx).mp (List.mem_of_find?_eq_some hf)
      exact ⟨hz.1, hz.2, hidx⟩
    · intro ⟨hz, hne, hidx⟩
      cases hf : (g.setIdx (·.gw = m.gw) DROP_RE_IDX).re_idx.find?
          (·.idx = g.first_idx + g.numOfPaths) with
      | none =>
        have hno := List.find?_eq_none.mp hf z ((hmem z hidx).mpr ⟨hz, hne⟩)
        exact absurd hidx (by simpa using hno)
      | some w =>
        have hwidx : w.idx = g.first_idx + g.numOfPaths := by simpa using List.find?_some hf
        have hw := ((hmem w hwidx).mp (List.mem_of_find?_eq_some hf)).1
        have hgw : w.gw = z.gw := h.filled.inj w hw z hz (hlast w hw hwidx (by omega))
          (hlast z hz hidx (by omega)) (hwidx.trans hidx.symm)
        rw [h.unique.eq_of_mem hw hz hgw]

/-- When the member of `gw` leaves its slot, the one of the last slot takes it. -/
theorem re_idx_disable (hm : m ∈ g.re_idx) (he : (ent m.gw).isSome = true) :
    (g.disable m.gw m.idx).re_idx = Packed.deactivate memberSlots g.re_idx m.gw m.idx DROP_RE_IDX
      (g.first_idx + (g.numOfPaths + 1) - 1) := by
  have hset : (g.setIdx (·.gw = m.gw) DROP_RE_IDX).re_idx = Keyed.modify ReIdx.gw g.re_idx m.gw
      fun m => { m with idx := DROP_RE_IDX } := h.unique.modifyFirst_eq
  have hlast : g.first_idx + (g.numOfPaths + 1) - 1 = g.first_idx + g.numOfPaths := by omega
  have hnone : ∀ z, g.lastMember m.gw = some z ↔
      z ∈ g.re_idx ∧ z.gw ≠ m.gw ∧ z.idx = g.first_idx + g.numOfPaths :=
    fun z => h.lastMember_eq_some_iff hm he
  unfold ReGroup.disable Packed.deactivate
  rw [hlast]
  by_cases hzero : g.numOfPaths = 0
  · -- the only member in a slot leaves it
    have hno : ∀ z ∈ (g.setIdx (·.gw = m.gw) DROP_RE_IDX).re_idx,
        decide (z.idx = g.first_idx + g.numOfPaths) = false := by
      intro z hz
      rw [hset] at hz
      rw [decide_eq_false_iff_not]
      intro hidx
      rcases Keyed.mem_modify_iff.mp hz with ⟨x, -, -, rfl⟩ | ⟨hz, hne⟩
      · have := h.first (List.ne_nil_of_mem hm)
        simp only at hidx
        omega
      · have hsome := (hnone z).mpr ⟨hz, hne, hidx⟩
        simp [ReGroup.lastMember, hzero] at hsome
    simp only [if_pos hzero]
    rw [hset] at hno ⊢
    exact (Keyed.modifyFirst_of_forall_not hno).symm
  · simp only [if_neg hzero]
    show Keyed.modifyFirst _ _ (g.setIdx (·.gw = m.gw) DROP_RE_IDX).re_idx = _
    rw [hset]
    rfl

end Mapped

namespace Router

variable {env : RouteEnv} {s : Router} {g : ReGroup} {re : Re} {gw : Gw} {gid idx : ℤ}
  {ent : Gw → Option UcRoute} {rt : UcRoute} {changed : Bool}

/-! ### Writes -/

/-- The route entry of a valid gateway is written. -/
theorem retSetReToIdx_of_entry (he : re.entry env = some rt) :
    s.retSetReToIdx env re idx = s.ucRouteEntriesWrite idx rt := by
  unfold Re.entry at he
  unfold retSetReToIdx
  split_ifs at he
  obtain ⟨vif, hvif, rfl⟩ := Option.map_eq_some_iff.mp he
  rw [hvif]

theorem retSetReToIdxGw_of_entry (he : s.entry env gw = some rt) :
    s.retSetReToIdxGw env gw idx = s.ucRouteEntriesWrite idx rt := by
  obtain ⟨re, hf, hre⟩ := Option.bind_eq_some_iff.mp he
  unfold retSetReToIdxGw
  rw [hf]
  exact retSetReToIdx_of_entry hre

theorem retGroupLttTcamSet_eq (env : RouteEnv) (s : Router) (ix : RowColum)
    (interface : PclInterface) (g : ReGroup) :
    ∃ t, (s.retGroupLttTcamSet env ix interface g).2 = { s with ltt := t } := by
  unfold retGroupLttTcamSet
  split
  · -- one row of each device
    dsimp only
    generalize List.range env.ndevs = devs
    induction devs generalizing s with
    | nil => exact ⟨_, rfl⟩
    | cons d devs ih =>
      obtain ⟨t, ht⟩ := ih (s := s.lttWrite d ix g.lttEntry)
      exact ⟨t, ht⟩
  · split
    · exact ⟨_, rfl⟩
    · split_ifs
      · exact ⟨_, rfl⟩
      · exact ⟨_, rfl⟩
  · exact ⟨_, rfl⟩

/-- The prefixes and LTT rows of a group are all that an update of its LPM table writes. -/
theorem retGroupUpdateLpmTable_eq (env : RouteEnv) (s : Router) (g : ReGroup) :
    ∃ l t, s.retGroupUpdateLpmTable env g = { s with lpm := l, ltt := t } := by
  unfold retGroupUpdateLpmTable
  generalize g.pfx_pbr = els
  induction els generalizing s with
  | nil => exact ⟨_, _, rfl⟩
  | cons el els ih =>
    obtain ⟨l, t, hrest⟩ := ih (s := updateElem env g s el)
    cases el with
    | pfx addr alen => exact ⟨l, t, hrest⟩
    | pbr ix interface =>
      obtain ⟨t', hone⟩ := retGroupLttTcamSet_eq env s ix interface g
      refine ⟨l, t, ?_⟩
      rw [List.foldl_cons, hrest]
      show ({ (s.retGroupLttTcamSet env ix interface g).2 with lpm := l, ltt := t } : Router) = _
      rw [hone]

theorem retSetReToIdx_eq (env : RouteEnv) (s : Router) (re : Re) (idx : ℤ) :
    ∃ u, s.retSetReToIdx env re idx = { s with ucRoute := u } := by
  unfold retSetReToIdx
  split
  · exact ⟨_, rfl⟩
  · exact ⟨_, rfl⟩

theorem retSetReToIdxGw_eq (env : RouteEnv) (s : Router) (gw : Gw) (idx : ℤ) :
    ∃ u, s.retSetReToIdxGw env gw idx = { s with ucRoute := u } := by
  unfold retSetReToIdxGw
  split
  · exact ⟨_, rfl⟩
  · exact retSetReToIdx_eq env s _ idx

/-- What the reaction of a group to a gateway does: the group changes and its entry stays, or its
entry is written anew for its elements. -/
theorem retGroupGwChanged_eq (env : RouteEnv) (s : Router) (gid : ℤ) (re : Re) (changed : Bool) :
    ∃ (f : ReGroup → ReGroup) (u : ℤ → UcRoute), (∀ x, (f x).static = x.static) ∧
    ((s.retGroupGwChanged env gid re changed = { s.modifyGroup gid f with ucRoute := u } ∧
        ∀ g, s.findGroup gid = some g → (f g).lttEntry = g.lttEntry) ∨
      ∃ g, s.findGroup gid = some g ∧ s.retGroupGwChanged env gid re changed =
        ({ s.modifyGroup gid f with ucRoute := u } : Router).retGroupUpdateLpmTable env (f g)) := by
  have hid : s.modifyGroup gid id = s := by
    have hsame : Keyed.modify ReGroup.group_id s.re_group gid id = s.re_group := by
      simp [Keyed.modify]
    unfold modifyGroup
    rw [hsame]
  have hkeep : ∃ (f : ReGroup → ReGroup) (u : ℤ → UcRoute), (∀ x, (f x).static = x.static) ∧
      s = { s.modifyGroup gid f with ucRoute := u } ∧
      ∀ g, s.findGroup gid = some g → (f g).lttEntry = g.lttEntry :=
    ⟨id, s.ucRoute, fun _ => rfl, hid.symm, fun _ _ => rfl⟩
  unfold retGroupGwChanged
  cases hfind : s.findGroup gid with
  | none =>
    obtain ⟨f, u, hf, heq, -⟩ := hkeep
    exact ⟨f, u, hf, .inl ⟨heq, fun g hg => absurd hg (Option.some_ne_none g).symm⟩⟩
  | some g =>
    rw [hfind] at hkeep
    obtain rfl : g.group_id = gid := Keyed.key_of_find hfind
    dsimp only
    split_ifs
    · -- the gateway takes one more path
      obtain ⟨u, hset⟩ := retSetReToIdx_eq env (s.modifyGroup g.group_id (·.enable re.gw)) re
        g.nextIdx
      refine ⟨(·.enable re.gw), u, fun _ => ReGroup.static_enable, .inr ⟨g, rfl, ?_⟩⟩
      unfold retGroupGwChangedEnable
      dsimp only
      rw [hset]
    · -- the route entry of its path is written
      unfold retGroupGwChangedEnableChanged
      cases g.re_idx.find? (·.gw = re.gw) with
      | none =>
        obtain ⟨f, u, hf, heq⟩ := hkeep
        exact ⟨f, u, hf, .inl heq⟩
      | some out =>
        obtain ⟨u, hset⟩ := retSetReToIdx_eq env s re out.idx
        refine ⟨id, u, fun _ => rfl, .inl ⟨?_, fun _ _ => rfl⟩⟩
        rw [hid]
        exact hset
    · -- the gateway leaves the group, when it is a member
      unfold retGroupGwChangedDisable
      cases g.re_idx.find? (·.gw = re.gw) with
      | none =>
        obtain ⟨f, u, hf, heq⟩ := hkeep
        exact ⟨f, u, hf, .inl heq⟩
      | some out =>
        dsimp only
        split_ifs with hn
        · exact ⟨(·.setIdx (·.gw = re.gw) DROP_RE_IDX), s.ucRoute, fun _ => ReGroup.static_setIdx,
            .inl ⟨rfl, fun _ hg => by cases hg; rfl⟩⟩
        · -- the gateway leaves its path, which the last one takes
          cases g.lastMember re.gw with
          | none =>
            exact ⟨(·.disable re.gw out.idx), s.ucRoute, fun _ => ReGroup.static_disable,
              .inr ⟨g, rfl, rfl⟩⟩
          | some last =>
            obtain ⟨u, hset⟩ := retSetReToIdxGw_eq env
              (s.modifyGroup g.group_id (·.disable re.gw out.idx)) last.gw out.idx
            refine ⟨(·.disable re.gw out.idx), u, fun _ => ReGroup.static_disable,
              .inr ⟨g, rfl, ?_⟩⟩
            dsimp only
            rw [hset]
    · -- the mapping of the gateway does not change
      obtain ⟨f, u, hf, heq⟩ := hkeep
      exact ⟨f, u, hf, .inl heq⟩

/-! ### One group -/

/-- What the reaction of a group to a gateway does: the group is mapped again, and route entries
are written in its run only. -/
def Remapped (env : RouteEnv) (s : Router) (g : ReGroup) (s' : Router) : Prop :=
  ∃ f u l t, s' = { s with
      re_group := Keyed.modify ReGroup.group_id s.re_group g.group_id f
      ucRoute := u
      lpm := l
      ltt := t } ∧
    (∀ x, (f x).static = x.static) ∧ Mapped (s.entry env) u (f g) ∧
    ∀ i ∉ g.run, u i = s.ucRoute i

/-- A member that has an entry now takes the next index. -/
theorem remapped_enable (hok : Mapped ent s.ucRoute g)
    (hent : s.entry env = update ent re.gw (re.entry env)) (hm : re.gw ∈ g.re_idx.map ReIdx.gw)
    (hold : ent re.gw = none) (hnew : re.entry env = some rt) :
    Remapped env s g (s.retGroupGwChangedEnable env g re) := by
  obtain ⟨m, hm, hmgw⟩ := List.mem_map.mp hm
  -- the gateway gets the first free slot of the run
  have hnext : g.nextIdx = g.first_idx + (g.numOfPaths + 1) := by
    unfold ReGroup.nextIdx
    split_ifs with hn <;> omega
  have hmod : (g.enable re.gw).re_idx = Keyed.modify ReIdx.gw g.re_idx re.gw fun m =>
      { m with idx := g.first_idx + (g.numOfPaths + 1) } := by
    rw [← hnext]
    exact hok.unique.modifyFirst_eq
  -- one member more has an entry
  have hact : ∀ gw, (s.entry env gw).isSome = true ↔ (ent gw).isSome = true ∨ gw = re.gw :=
    fun gw => by
      rw [hent]
      by_cases hgw : gw = re.gw
      · simp [hgw, hnew]
      · simp [hgw]
  have hfilled := hok.filled.activate hm hmgw (by simp [hold]) hact
  obtain ⟨l, t, hlpm⟩ := retGroupUpdateLpmTable_eq env
    ((s.modifyGroup g.group_id (·.enable re.gw)).retSetReToIdx env re g.nextIdx) (g.enable re.gw)
  refine ⟨(·.enable re.gw), update s.ucRoute g.nextIdx rt, l, t, ?_, fun _ =>
    ReGroup.static_enable, ⟨?_, ?_, fun _ => hok.first (List.ne_nil_of_mem hm), ?_, ?_⟩, ?_⟩
  · unfold retGroupGwChangedEnable
    rw [hlpm, retSetReToIdx_of_entry hnew]
    rfl
  · rw [hmod]
    exact hok.unique.modify fun _ => rfl
  · rw [hmod, Keyed.modify, List.length_map]
    exact hok.count
  · rw [hmod]
    exact hfilled
  · -- the entry of the member is the one written, and those of the others are elsewhere
    intro z hz rt' he
    rw [hmod] at hz
    rcases Keyed.mem_modify_iff.mp hz with ⟨x, -, hxgw, rfl⟩ | ⟨hz, hzgw⟩
    · rw [hent] at he
      simp only [hxgw, update_self, hnew] at he
      rw [hnext, ← Option.some_inj.mp he]
      exact update_self ..
    · rw [hent, update_of_ne hzgw] at he
      have hrange := hok.filled.range z hz (Option.isSome_of_eq_some he)
      have hne : z.idx ≠ g.nextIdx := by
        rw [hnext]
        exact hrange.2.ne
      rw [update_of_ne hne]
      exact hok.entries z hz rt' he
  · -- there is room for the member, as it did not lie in a slot before
    intro i hi
    refine update_of_ne (fun heq => hi ?_) _ _
    have hlen := hfilled.le_length (hok.unique.modify fun _ => rfl)
    have hn := hok.filled.nonneg
    rw [Keyed.modify, List.length_map] at hlen
    rw [ReGroup.run, Ret.mem_idxRun, hok.count, Int.toNat_natCast, heq, hnext]
    omega

/-- The entry of a member is written where the member lies. -/
theorem remapped_enableChanged (hok : Mapped ent s.ucRoute g)
    (hent : s.entry env = update ent re.gw (re.entry env)) (hm : re.gw ∈ g.re_idx.map ReIdx.gw)
    (hold : (ent re.gw).isSome = true) (hnew : re.entry env = some rt) :
    Remapped env s g (s.retGroupGwChangedEnableChanged env g re) := by
  obtain ⟨m, hm, hmgw⟩ := List.mem_map.mp hm
  have hfind : g.re_idx.find? (·.gw = re.gw) = some m :=
    hok.unique.find_eq_some_iff.mpr ⟨hm, hmgw⟩
  have hold' : (ent m.gw).isSome = true := by rw [hmgw, hold]
  have hentgw : ∀ z : ReIdx, (s.entry env z.gw).isSome = true ↔ (ent z.gw).isSome = true :=
    fun z => by
      rw [hent]
      by_cases hgw : z.gw = re.gw
      · simp [hgw, hnew, hold]
      · simp [hgw]
  refine ⟨id, update s.ucRoute m.idx rt, s.lpm, s.ltt, ?_, fun _ => rfl,
    ⟨hok.unique, hok.count, hok.first, hok.filled.congr fun z _ => hentgw z, ?_⟩, ?_⟩
  · have hid : Keyed.modify ReGroup.group_id s.re_group g.group_id id = s.re_group := by
      simp [Keyed.modify]
    unfold retGroupGwChangedEnableChanged
    rw [hfind, hid]
    exact retSetReToIdx_of_entry hnew
  · intro z hz rt' he
    rw [hent] at he
    by_cases hgw : z.gw = re.gw
    · obtain rfl : z = m := hok.unique.eq_of_mem hz hm (hgw.trans hmgw.symm)
      rw [hgw, update_self, hnew, Option.some_inj] at he
      rw [update_self, he]
    · rw [update_of_ne hgw] at he
      have hne : z.idx ≠ m.idx := fun heq => hgw <|
        (hok.filled.inj z hz m hm (Option.isSome_of_eq_some he) hold' heq).trans hmgw
      rw [update_of_ne hne]
      exact hok.entries z hz rt' he
  · exact fun i hi => update_of_ne (fun heq : i = m.idx => hi (heq ▸ hok.mem_run hm hold')) _ _

/-- The entry of the member that moves is written again. -/
theorem retSetReToIdxGw_lastMember {m : ReIdx} (hok : Mapped ent s.ucRoute g)
    (hent : s.entry env = update ent m.gw none) (hm : m ∈ g.re_idx)
    (hold : (ent m.gw).isSome = true) : ∃ u,
      (match g.lastMember m.gw with
        | none => s
        | some last => s.retSetReToIdxGw env last.gw m.idx) = { s with ucRoute := u } ∧
      (∀ z rt, g.lastMember m.gw = some z → ent z.gw = some rt → u m.idx = rt) ∧
      ∀ i, i ≠ m.idx → u i = s.ucRoute i := by
  have hrange : g.first_idx ≤ m.idx ∧ m.idx < g.first_idx + (g.numOfPaths + 1) :=
    hok.filled.range m hm hold
  cases hl : g.lastMember m.gw with
  | none => exact ⟨s.ucRoute, rfl, fun _ _ hno => absurd hno (by simp), fun _ _ => rfl⟩
  | some last =>
    obtain ⟨hmem, hne, hidx⟩ := (hok.lastMember_eq_some_iff hm hold).mp hl
    obtain ⟨rt, hrt⟩ := Option.isSome_iff_exists.mp
      (hok.ent_of_last hm last hmem hidx (by omega))
    have he : s.entry env last.gw = some rt := by rw [hent, update_of_ne hne, hrt]
    refine ⟨update s.ucRoute m.idx rt, retSetReToIdxGw_of_entry he, fun z rt' hz he' => ?_,
      fun i hi => update_of_ne hi _ _⟩
    obtain rfl := Option.some_inj.mp hz
    rw [update_self]
    exact Option.some_inj.mp (hrt.symm.trans he')

/-- A member that has no entry any more leaves its slot, and the last one takes it. -/
theorem remapped_disable (hok : Mapped ent s.ucRoute g)
    (hent : s.entry env = update ent re.gw (re.entry env)) (hm : re.gw ∈ g.re_idx.map ReIdx.gw)
    (hold : (ent re.gw).isSome = true) (hnew : re.entry env = none) :
    Remapped env s g (s.retGroupGwChangedDisable env g re) := by
  obtain ⟨m, hm, hmgw⟩ := List.mem_map.mp hm
  rw [← hmgw] at hent hold
  -- the member that the gateway has in the group
  have hfind : g.re_idx.find? (·.gw = re.gw) = some m :=
    hok.unique.find_eq_some_iff.mpr ⟨hm, hmgw⟩
  have hrange : g.first_idx ≤ m.idx ∧ m.idx < g.first_idx + (g.numOfPaths + 1) :=
    hok.filled.range m hm hold
  have hfirst := hok.first (List.ne_nil_of_mem hm)
  have hlast := fun z => hok.lastMember_eq_some_iff hm hold (z := z)
  have hmod := hok.re_idx_disable hm hold
  have hstat : (g.disable m.gw m.idx).static = g.static := ReGroup.static_disable
  have hunique : Keyed.Unique ReIdx.gw (g.disable m.gw m.idx).re_idx := by
    have hgws : (g.disable m.gw m.idx).re_idx.map ReIdx.gw = g.re_idx.map ReIdx.gw :=
      congrArg (fun x => x.2.2.2.1) hstat
    rw [Keyed.Unique, hgws]
    exact hok.unique
  have hlen : (g.disable m.gw m.idx).re_idx.length = g.re_idx.length := by
    have hgws : (g.disable m.gw m.idx).re_idx.map ReIdx.gw = g.re_idx.map ReIdx.gw :=
      congrArg (fun x => x.2.2.2.1) hstat
    simpa using congrArg List.length hgws
  have hact : ∀ gw, (s.entry env gw).isSome = true ↔ (ent gw).isSome = true ∧ gw ≠ m.gw :=
    fun gw => by
      rw [hent, hnew]
      by_cases hgw : gw = m.gw
      · simp [hgw]
      · simp [hgw]
  -- the places of the members stay packed when the last one moves into the gap
  have hfilled := hok.filled.deactivate hok.unique hm rfl hold hfirst hact
  have hent' : (s.modifyGroup g.group_id (·.disable m.gw m.idx)).entry env =
      update ent m.gw none := hent.trans (by rw [hnew])
  obtain ⟨u, hu, hmoved, hframe⟩ := retSetReToIdxGw_lastMember
    (s := s.modifyGroup g.group_id (·.disable m.gw m.idx)) hok hent' hm hold
  obtain ⟨l, t, hlpm⟩ := retGroupUpdateLpmTable_eq env
    { s.modifyGroup g.group_id (·.disable m.gw m.idx) with ucRoute := u } (g.disable m.gw m.idx)
  refine ⟨(·.disable m.gw m.idx), u, l, t, ?_, fun _ => ReGroup.static_disable, ?_, ?_⟩
  · unfold retGroupGwChangedDisable
    rw [hfind]
    dsimp only
    rw [if_neg (by omega), ← hmgw]
    exact (congrArg (·.retGroupUpdateLpmTable env (g.disable m.gw m.idx)) hu).trans hlpm
  · -- the mapping of the group after the change
    have hcount : (g.disable m.gw m.idx).re_count = g.re_count := congrArg (fun x => x.2.1) hstat
    have hfirst' : (g.disable m.gw m.idx).first_idx = g.first_idx :=
      congrArg (fun x => x.2.2.1) hstat
    have hpaths : (g.disable m.gw m.idx).numOfPaths + 1 = g.numOfPaths + 1 - 1 := by
      show g.numOfPaths - 1 + 1 = _
      omega
    refine ⟨hunique, by rw [hcount, hlen, hok.count], fun _ => hfirst' ▸ hfirst, ?_, ?_⟩
    · rw [hpaths, hfirst', hmod]
      exact hfilled
    · intro z hz rt he
      rw [hmod] at hz
      rw [hent, hnew] at he
      rcases (Packed.mem_deactivate hok.unique hok.filled hm rfl hold hfirst).mp hz with
        rfl | ⟨w, hw, hwgw, rfl⟩
      · simp [memberSlots] at he
      · have hwgw : w.gw ≠ m.gw := hwgw
        -- the member that has moved shows its entry at the new place
        split_ifs at he ⊢ with hwlast
        · have hwidx : w.idx = g.first_idx + g.numOfPaths := by
            have : w.idx = g.first_idx + (g.numOfPaths + 1) - 1 := hwlast
            omega
          have he : ent w.gw = some rt := by
            simpa [memberSlots, hwgw] using he
          exact hmoved w rt ((hlast w).mpr ⟨hw, hwgw, hwidx⟩) he
        · -- the other members show theirs where they did
          rw [update_of_ne hwgw] at he
          have hne : w.idx ≠ m.idx := fun heq => hwgw <|
            hok.filled.inj w hw m hm (Option.isSome_of_eq_some he) hold heq
          rw [hframe w.idx hne]
          exact hok.entries w hw rt he
  · exact fun i hi => hframe i fun heq => hi (heq ▸ hok.mem_run hm hold)

/-- The reaction of a group, whichever way its gateway has changed. -/
theorem remapped_retGroupGwChanged (hf : s.findGroup gid = some g) (hok : Mapped ent s.ucRoute g)
    (hent : s.entry env = update ent re.gw (re.entry env)) (hm : re.gw ∈ g.re_idx.map ReIdx.gw)
    (hvalid : re.valid = (re.entry env).isSome) (hch : changed = ((ent re.gw).isSome != re.valid)) :
    Remapped env s g (s.retGroupGwChanged env gid re changed) := by
  unfold retGroupGwChanged
  rw [hf]
  dsimp only
  cases hnew : re.entry env with
  | some rt =>
    have hv : re.valid = true := by rw [hvalid, hnew, Option.isSome_some]
    cases hold : ent re.gw with
    | none =>
      rw [if_pos ⟨hv, by simp [hch, hold, hv]⟩]
      exact remapped_enable hok hent hm hold hnew
    | some rt' =>
      rw [if_neg (by simp [hch, hold, hv]), if_pos hv]
      exact remapped_enableChanged hok hent hm (by rw [hold, Option.isSome_some]) hnew
  | none =>
    have hv : re.valid = false := by rw [hvalid, hnew, Option.isSome_none]
    rw [if_neg (by simp [hv]), if_neg (by simp [hv])]
    cases hold : ent re.gw with
    | none =>
      -- the gateway was not valid before either
      have hsame : s.entry env = ent := by rw [hent, hnew, ← hold, Function.update_eq_self]
      have hid : Keyed.modify ReGroup.group_id s.re_group g.group_id id = s.re_group := by
        simp [Keyed.modify]
      rw [if_neg (by simp [hch, hold, hv])]
      exact ⟨id, s.ucRoute, s.lpm, s.ltt, by rw [hid], fun _ => rfl, hsame ▸ hok, fun _ _ => rfl⟩
    | some rt' =>
      rw [if_pos (by simp [hch, hold, hv])]
      exact remapped_disable hok hent hm (by rw [hold, Option.isSome_some]) hnew

/-! ### All groups of a gateway -/

/-- The runs of different groups have no index in common. -/
def RunsDisjoint (s : Router) : Prop :=
  ∀ g ∈ s.re_group, ∀ g' ∈ s.re_group, g.group_id ≠ g'.group_id → g.run.Disjoint g'.run

/-- The groups of a gateway react one after another. Those that have are mapped to the new entries,
those that have not to the old ones. -/
theorem mapped_foldl_retGroupGwChanged (l : List ℤ) (s : Router) (hl : l.Nodup)
    (hgroups : Keyed.Unique ReGroup.group_id s.re_group) (hruns : s.RunsDisjoint)
    (hent : s.entry env = update ent re.gw (re.entry env))
    (hvalid : re.valid = (re.entry env).isSome) (hch : changed = ((ent re.gw).isSome != re.valid))
    (hm : ∀ g ∈ s.re_group, g.group_id ∈ l → re.gw ∈ g.re_idx.map ReIdx.gw)
    (hin : ∀ g ∈ s.re_group, g.group_id ∈ l → Mapped ent s.ucRoute g)
    (hout : ∀ g ∈ s.re_group, g.group_id ∉ l → Mapped (s.entry env) s.ucRoute g) :
    ∀ g ∈ (l.foldl (fun s gid => s.retGroupGwChanged env gid re changed) s).re_group,
      Mapped (s.entry env)
        (l.foldl (fun s gid => s.retGroupGwChanged env gid re changed) s).ucRoute g := by
  induction l generalizing s with
  | nil => exact fun g hg => hout g hg List.not_mem_nil
  | cons gid l ih =>
  obtain ⟨hgid, hl'⟩ := List.nodup_cons.mp hl
  rw [List.foldl_cons]
  cases hf : s.findGroup gid with
  | none =>
    have hne := Keyed.find_eq_none_iff.mp hf
    have hsame : s.retGroupGwChanged env gid re changed = s := by rw [retGroupGwChanged, hf]
    rw [hsame]
    exact ih s hl' hgroups hruns hent (fun g hg hgl => hm g hg (List.mem_cons_of_mem _ hgl))
      (fun g hg hgl => hin g hg (List.mem_cons_of_mem _ hgl))
      fun g hg hgl => hout g hg (by simp [hne g hg, hgl])
  | some g =>
    have hg := Keyed.mem_of_find hf
    obtain rfl : g.group_id = gid := Keyed.key_of_find hf
    obtain ⟨f, u, lpm, ltt, hs', hstat, hmapped, hframe⟩ := remapped_retGroupGwChanged hf
      (hin g hg List.mem_cons_self) hent (hm g hg List.mem_cons_self) hvalid hch
    have hkey : ∀ x, (f x).group_id = x.group_id := fun x => ReGroup.static_group_id (hstat x)
    -- a group is the one that has reacted, or another one that was there before
    have hcases : ∀ x ∈ (s.retGroupGwChanged env g.group_id re changed).re_group,
        x = f g ∨ x ∈ s.re_group ∧ x.group_id ≠ g.group_id := fun x hx => by
      rw [hs'] at hx
      rcases Keyed.mem_modify_iff.mp hx with ⟨y, hy, hyg, rfl⟩ | hx
      · exact .inl (congrArg f (hgroups.eq_of_mem hy hg hyg))
      · exact .inr hx
    have huc : ∀ x ∈ s.re_group, x.group_id ≠ g.group_id → ∀ i ∈ x.run, u i = s.ucRoute i :=
      fun x hx hne i hi => hframe i (hruns x hx g hg hne hi)
    have hentry : (s.retGroupGwChanged env g.group_id re changed).entry env = s.entry env := by
      rw [hs']
      rfl
    have huc' : (s.retGroupGwChanged env g.group_id re changed).ucRoute = u := by rw [hs']
    have hrun : (f g).run = g.run := ReGroup.run_of_static (hstat g)
    rw [← hentry]
    refine ih _ hl' ?_ ?_ (hentry.trans hent) (fun x hx hxl => ?_) (fun x hx hxl => ?_)
      fun x hx hxl => ?_
    · rw [hs']
      exact hgroups.modify hkey
    · intro x hx y hy hne
      rcases hcases x hx with rfl | ⟨hx, hxg⟩
      · rcases hcases y hy with rfl | ⟨hy, hyg⟩
        · exact absurd rfl hne
        · rw [hrun]
          exact hruns g hg y hy (hyg.symm)
      · rcases hcases y hy with rfl | ⟨hy, hyg⟩
        · rw [hrun]
          exact hruns x hx g hg hxg
        · exact hruns x hx y hy hne
    · rcases hcases x hx with rfl | ⟨hx, -⟩
      · exact absurd (hkey g ▸ hxl) hgid
      · exact hm x hx (List.mem_cons_of_mem _ hxl)
    · rcases hcases x hx with rfl | ⟨hx, hxg⟩
      · exact absurd (hkey g ▸ hxl) hgid
      · rw [huc']
        exact (hin x hx (List.mem_cons_of_mem _ hxl)).congr (fun _ _ => rfl) (huc x hx hxg)
    · rw [huc', hentry]
      rcases hcases x hx with rfl | ⟨hx, hxg⟩
      · exact hmapped
      · exact (hout x hx (by simp [hxg, hxl])).congr (fun _ _ => rfl) (huc x hx hxg)

end Router

end Presteramgr
