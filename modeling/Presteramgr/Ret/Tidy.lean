import Presteramgr.Ret.Mapping

/-!
# Groups, their ids, and the lists of the gateways

A gateway that enters or leaves a group changes the table of gateways only, and a prefix or policy
that enters a group the groups. What the tables say of each other holds after any calls, whatever
their outcomes.

## Main definitions

* `joinRet` and `leaveRet`: the table of gateways after `ret_add` and `ret_unref`;
* `enterGroup`: what `ret_group_add` and `ret_group_add_pbr` do before they write to the hardware;
* `Listed`: the gateways list groups that they are members of;
* `Tidy`: the groups have the ids that are taken, list something, and have the gateways that list
  them.

## Main results

* `Tidy.enterGroup`, `Tidy.retGroupDelElem` and `Tidy.congr`.
-/

namespace Presteramgr

open Router (mem_retAddGroupToList nodup_retAddGroupToList retAddGroupToList_ne_nil)

/-! ## The table of gateways -/

/-- The table of gateways after `ret_add`. -/
def joinRet (l : List Re) (gw : Gw) (gid : ℤ) : List Re :=
  match Keyed.find Re.gw l gw with
  | some _ => Keyed.modify Re.gw l gw fun re =>
      { re with group_ids := retAddGroupToList re.group_ids gid }
  | none => ⟨gw, false, 0, 0, 0, retAddGroupToList [] gid⟩ :: l

/-- The table of gateways after `ret_unref`. -/
def leaveRet (l : List Re) (gw : Gw) (gid : ℤ) : List Re :=
  match Keyed.find Re.gw l gw with
  | none => l
  | some re =>
    let l := Keyed.modify Re.gw l gw fun re =>
      { re with group_ids := retRemoveGroupFromList re.group_ids gid }
    if retRemoveGroupFromList re.group_ids gid = [] then Keyed.del Re.gw l gw else l

/-- Gateways are listed once, and the groups that they list are among those that they are members
of. -/
structure Listed (Member : Gw → ℤ → Prop) (l : List Re) : Prop where
  unique : Keyed.Unique Re.gw l
  nonempty : ∀ re ∈ l, re.group_ids ≠ []
  nodup : ∀ re ∈ l, re.group_ids.Nodup
  member : ∀ re ∈ l, ∀ gid ∈ re.group_ids, Member re.gw gid

namespace Listed

variable {Member Member' : Gw → ℤ → Prop} {l l' : List Re} {gw : Gw} {gid : ℤ}

/-- Members of some groups are members of larger ones. -/
theorem mono (h : Listed Member l)
    (himp : ∀ re ∈ l, ∀ gid ∈ re.group_ids, Member re.gw gid → Member' re.gw gid) :
    Listed Member' l :=
  ⟨h.unique, h.nonempty, h.nodup, fun re hre gid hgid =>
    himp re hre gid hgid (h.member re hre gid hgid)⟩

/-- What the table is besides the lists and the gateways does not count. -/
theorem congr (h : Listed Member l)
    (hl : l'.map Re.lists = l.map Re.lists) :
    Listed Member l' := by
  have hmem : ∀ re ∈ l', ∃ re₀ ∈ l, re₀.gw = re.gw ∧ re₀.group_ids = re.group_ids := by
    intro re hre
    have hpair : re.lists ∈ l.map Re.lists := hl ▸ List.mem_map_of_mem hre
    obtain ⟨re₀, hre₀, heq⟩ := List.mem_map.mp hpair
    exact ⟨re₀, hre₀, congrArg Prod.fst heq, congrArg Prod.snd heq⟩
  have hgws : l'.map Re.gw = l.map Re.gw := by
    simpa only [List.map_map, Function.comp_def, Re.lists] using congrArg (List.map Prod.fst) hl
  refine ⟨?_, fun re hre => ?_, fun re hre => ?_, fun re hre gid hgid => ?_⟩
  · rw [Keyed.Unique, hgws]
    exact h.unique
  · obtain ⟨re₀, hre₀, -, hids⟩ := hmem re hre
    exact hids ▸ h.nonempty re₀ hre₀
  · obtain ⟨re₀, hre₀, -, hids⟩ := hmem re hre
    exact hids ▸ h.nodup re₀ hre₀
  · obtain ⟨re₀, hre₀, hgw, hids⟩ := hmem re hre
    exact hgw ▸ h.member re₀ hre₀ gid (hids ▸ hgid)

/-- A gateway that enters a group lists it. -/
theorem join (h : Listed Member l) (gw : Gw) (gid : ℤ) :
    Listed (fun g i => Member g i ∨ g = gw ∧ i = gid) (joinRet l gw gid) := by
  unfold joinRet
  cases hfind : Keyed.find Re.gw l gw with
  | none =>
    have hne := Keyed.find_eq_none_iff.mp hfind
    refine ⟨h.unique.cons hne, ?_, ?_, ?_⟩
    · rintro re (_ | ⟨_, hre⟩)
      · exact retAddGroupToList_ne_nil [] gid
      · exact h.nonempty re hre
    · rintro re (_ | ⟨_, hre⟩)
      · exact List.nodup_singleton gid
      · exact h.nodup re hre
    · rintro re (_ | ⟨_, hre⟩) i hi
      · exact .inr ⟨rfl, List.mem_singleton.mp hi⟩
      · exact .inl (h.member re hre i hi)
  | some re₀ =>
    refine ⟨h.unique.modify fun _ => rfl, fun re hre => ?_, fun re hre => ?_, fun re hre i hi => ?_⟩
    all_goals rcases Keyed.mem_modify_iff.mp hre with ⟨re, hmem, hgw, rfl⟩ | ⟨hmem, -⟩
    · exact retAddGroupToList_ne_nil re.group_ids gid
    · exact h.nonempty re hmem
    · exact nodup_retAddGroupToList (h.nodup re hmem)
    · exact h.nodup re hmem
    · rcases mem_retAddGroupToList.mp hi with hi | hi
      · exact .inl (h.member re hmem i hi)
      · exact .inr ⟨hgw, hi⟩
    · exact .inl (h.member re hmem i hi)

/-- A gateway that leaves a group does not list it any more. -/
theorem leave (h : Listed Member l) (gw : Gw) (gid : ℤ) :
    Listed (fun g i => Member g i ∧ ¬(g = gw ∧ i = gid)) (leaveRet l gw gid) := by
  unfold leaveRet
  cases hfind : Keyed.find Re.gw l gw with
  | none =>
    have hne := Keyed.find_eq_none_iff.mp hfind
    exact h.mono fun re hre gid _ hmem => ⟨hmem, fun hx => hne re hre hx.1⟩
  | some re₀ =>
    obtain ⟨hre₀, rfl⟩ := h.unique.find_eq_some_iff.mp hfind
    have hnew : ∀ i ∈ retRemoveGroupFromList re₀.group_ids gid, Member re₀.gw i ∧ i ≠ gid :=
      fun i hi => by
      obtain ⟨hne, hi⟩ := (h.nodup re₀ hre₀).mem_erase_iff.mp hi
      exact ⟨h.member re₀ hre₀ i hi, hne⟩
    dsimp only
    split_ifs with hnil
    · have hkeep : ∀ re : Re, ({ re with
          group_ids := retRemoveGroupFromList re.group_ids gid } : Re).gw = re.gw := fun _ => rfl
      rw [h.unique.del_modify hkeep]
      have hother : ∀ re ∈ Keyed.del Re.gw l re₀.gw, re ∈ l ∧ re.gw ≠ re₀.gw :=
        fun re hre => h.unique.mem_del_iff.mp hre
      exact ⟨h.unique.del, fun re hre => h.nonempty re (hother re hre).1,
        fun re hre => h.nodup re (hother re hre).1, fun re hre i hi =>
          ⟨h.member re (hother re hre).1 i hi, fun hx => (hother re hre).2 hx.1⟩⟩
    · refine ⟨h.unique.modify fun _ => rfl, fun re hre => ?_, fun re hre => ?_,
        fun re hre i hi => ?_⟩
      all_goals rcases (Keyed.Unique.mem_modify_self_iff h.unique hre₀).mp hre with rfl | ⟨hmem, hne⟩
      · exact hnil
      · exact h.nonempty re hmem
      · exact (h.nodup re₀ hre₀).erase gid
      · exact h.nodup re hmem
      · exact ⟨(hnew i hi).1, fun hx => (hnew i hi).2 hx.2⟩
      · exact ⟨h.member re hmem i hi, fun hx => hne hx.1⟩

/-- The gateways of a new group enter it. -/
theorem foldl_join (h : Listed Member l) (gws : List Gw) (gid : ℤ) :
    Listed (fun g i => Member g i ∨ g ∈ gws ∧ i = gid) (gws.foldl (joinRet · · gid) l) := by
  induction gws generalizing l Member with
  | nil => exact h.mono fun _ _ _ _ hmem => .inl hmem
  | cons gw gws ih =>
    refine (ih (h.join gw gid)).mono fun re _ i _ hmem => ?_
    rcases hmem with (hmem | ⟨hgw, hi⟩) | ⟨hgw, hi⟩
    · exact .inl hmem
    · exact .inr ⟨hgw ▸ List.mem_cons_self, hi⟩
    · exact .inr ⟨List.mem_cons_of_mem gw hgw, hi⟩

/-- The gateways of a group leave it. -/
theorem foldl_leave (h : Listed Member l) (gws : List Gw) (gid : ℤ) :
    Listed (fun g i => Member g i ∧ ¬(g ∈ gws ∧ i = gid)) (gws.foldl (leaveRet · · gid) l) := by
  induction gws generalizing l Member with
  | nil => exact h.mono fun _ _ _ _ hmem => ⟨hmem, fun hx => List.not_mem_nil hx.1⟩
  | cons gw gws ih =>
    refine (ih (h.leave gw gid)).mono fun re _ i _ hmem => ⟨hmem.1.1, fun hx => ?_⟩
    rcases List.mem_cons.mp hx.1 with hgw | hgw
    · exact hmem.1.2 ⟨hgw, hx.2⟩
    · exact hmem.2 ⟨hgw, hx.2⟩

end Listed

/-! ## Gateways without an address -/

/-- A gateway that lists no group with `p` has no address. -/
def Idle (p : ℤ → Prop) (l : List Re) : Prop :=
  ∀ re ∈ l, (∀ gid ∈ re.group_ids, ¬p gid) → re.valid = false

namespace Idle

variable {p : ℤ → Prop} {l : List Re} {gid : ℤ}

/-- A gateway that joins a group keeps the idle ones. -/
theorem join (h : Idle p l) (gw : Gw) (gid : ℤ) : Idle p (joinRet l gw gid) := by
  unfold joinRet
  cases Keyed.find Re.gw l gw with
  | none =>
    rintro re (_ | ⟨_, hre⟩) hno
    · rfl
    · exact h re hre hno
  | some re₀ =>
    intro re hre hno
    rcases Keyed.mem_modify_iff.mp hre with ⟨re, hmem, -, rfl⟩ | ⟨hmem, -⟩
    · exact h re hmem fun i hi => hno i (mem_retAddGroupToList.mpr (.inl hi))
    · exact h re hmem hno

/-- A gateway that leaves a group keeps the idle ones. -/
theorem leave (h : Idle p l) (gw : Gw) (hgid : ¬p gid) : Idle p (leaveRet l gw gid) := by
  have hmod : Idle p (Keyed.modify Re.gw l gw fun re =>
      { re with group_ids := retRemoveGroupFromList re.group_ids gid }) := by
    intro re hre hno
    rcases Keyed.mem_modify_iff.mp hre with ⟨re, hmem, -, rfl⟩ | ⟨hmem, -⟩
    · refine h re hmem fun i hi => ?_
      by_cases heq : i = gid
      · exact heq ▸ hgid
      · exact hno i ((List.mem_erase_of_ne heq).mpr hi)
    · exact h re hmem hno
  unfold leaveRet
  cases Keyed.find Re.gw l gw with
  | none => exact h
  | some re₀ =>
    dsimp only
    split_ifs
    · exact fun re hre => hmod re (Keyed.mem_of_mem_del hre)
    · exact hmod

/-- The gateways of a new group join one after the other. -/
theorem foldl_join (h : Idle p l) (gws : List Gw) (gid : ℤ) :
    Idle p (gws.foldl (joinRet · · gid) l) := by
  induction gws generalizing l with
  | nil => exact h
  | cons gw gws ih => exact ih (h.join gw gid)

/-- The gateways of a deleted group leave one after the other. -/
theorem foldl_leave (h : Idle p l) (gws : List Gw) (hgid : ¬p gid) :
    Idle p (gws.foldl (leaveRet · · gid) l) := by
  induction gws generalizing l with
  | nil => exact h
  | cons gw gws ih => exact ih (h.leave gw hgid)

end Idle

namespace Router

variable {env : RouteEnv} {s s' : Router} {gw : Gw} {gid : ℤ} {gws : List Gw} {el : RoutePfxPbr}
  {junk : ℕ → ℤ}

/-! ## Gateways enter and leave -/

/-- `ret_add` counts what it puts into the table. -/
theorem retAdd_eq (s : Router) (gw : Gw) (gid : ℤ) : ∃ c,
    (s.retAdd gw gid).2 = { s with ret := joinRet s.ret gw gid, re_cnt := c } ∧
    c - (joinRet s.ret gw gid).length = s.re_cnt - s.ret.length := by
  unfold retAdd joinRet findGw
  cases Keyed.find Re.gw s.ret gw with
  | some re => exact ⟨s.re_cnt, rfl, by rw [Keyed.length_modify]⟩
  | none =>
    refine ⟨s.re_cnt + 1, rfl, ?_⟩
    rw [List.length_cons]
    omega

/-- `ret_unref` counts what it takes from the table. A gateway without an address holds no next
hop. -/
theorem retUnref_eq (s : Router) (gw : Gw) (gid : ℤ) : ∃ c n,
    (s.retUnref gw gid).2 = { s with ret := leaveRet s.ret gw gid, re_cnt := c, nh := n } ∧
    c - (leaveRet s.ret gw gid).length = s.re_cnt - s.ret.length ∧
    ((∀ re ∈ s.ret, retRemoveGroupFromList re.group_ids gid = [] → re.valid = false) →
      n = s.nh) := by
  unfold retUnref leaveRet findGw
  cases hfind : Keyed.find Re.gw s.ret gw with
  | none => exact ⟨_, _, rfl, rfl, fun _ => rfl⟩
  | some re =>
    have hkeep : ∀ re : Re, ({ re with
        group_ids := retRemoveGroupFromList re.group_ids gid } : Re).gw = re.gw := fun _ => rfl
    have hlen := Keyed.length_del (Keyed.find_modify_self hkeep hfind)
    rw [Keyed.length_modify] at hlen
    dsimp only
    split_ifs with hnil hvalid
    · refine ⟨_, _, rfl, ?_, fun hno => ?_⟩
      · show s.re_cnt - 1 - _ = s.re_cnt - s.ret.length
        omega
      · exact absurd (hno re (Keyed.mem_of_find hfind) hnil)
          (by rw [hvalid]; exact Bool.noConfusion)
    · refine ⟨_, _, rfl, ?_, fun _ => rfl⟩
      show s.re_cnt - 1 - _ = s.re_cnt - s.ret.length
      omega
    · exact ⟨_, _, rfl, by rw [Keyed.length_modify], fun _ => rfl⟩

/-- The loop over the gateways of a new group writes no route entry but those of `idxs`. -/
theorem foldl_addMember_eq (env : RouteEnv) (gid : ℤ) (idxs : ℕ → ℤ) (gws : List Gw)
    (acc : Router × ℕ × List ReIdx) : ∃ c u,
    (gws.foldl (addMember env gid idxs) acc).1 = { acc.1 with
      ret := gws.foldl (joinRet · · gid) acc.1.ret, re_cnt := c, ucRoute := u } ∧
    c - (gws.foldl (joinRet · · gid) acc.1.ret).length = acc.1.re_cnt - acc.1.ret.length ∧
    ∀ i, (∀ k < acc.2.1 + gws.length, idxs k ≠ i) → u i = acc.1.ucRoute i := by
  induction gws generalizing acc with
  | nil => exact ⟨_, _, rfl, rfl, fun _ _ => rfl⟩
  | cons gw gws ih =>
    obtain ⟨s, start, members⟩ := acc
    obtain ⟨c, hadd, hc⟩ := retAdd_eq s gw gid
    have hone : ∃ u, (addMember env gid idxs (s, start, members) gw).1 =
        { s with ret := joinRet s.ret gw gid, re_cnt := c, ucRoute := u } ∧
        (∀ i, (∀ k < start + (gw :: gws).length, idxs k ≠ i) → u i = s.ucRoute i) ∧
        (addMember env gid idxs (s, start, members) gw).2.1 ≤ start + 1 := by
      unfold addMember
      dsimp only
      rw [hadd]
      split_ifs
      · unfold retSetReToIdx
        split
        · exact ⟨_, rfl, fun _ _ => rfl, le_rfl⟩
        · refine ⟨_, rfl, fun i hi => ?_, le_rfl⟩
          exact Function.update_of_ne (hi start (by rw [List.length_cons]; omega)).symm ..
      · exact ⟨_, rfl, fun _ _ => rfl, Nat.le_succ start⟩
    obtain ⟨u, hs, hu, hstart⟩ := hone
    obtain ⟨c', u', hs', hc', hu'⟩ := ih (addMember env gid idxs (s, start, members) gw)
    rw [hs] at hs' hc' hu'
    refine ⟨c', u', hs', hc'.trans hc, fun i hi => ?_⟩
    rw [hu' i fun k hk => hi k ?_]
    · exact hu i hi
    · show k < start + (gws.length + 1)
      omega

/-- The loop over the members of a group that is deleted. -/
theorem foldl_retUnref_gws (gid : ℤ) (l : List ReIdx) (s : Router) : ∃ c n,
    l.foldl (fun s el => (s.retUnref el.gw gid).2) s = { s with
      ret := (l.map ReIdx.gw).foldl (leaveRet · · gid) s.ret, re_cnt := c, nh := n } ∧
    c - ((l.map ReIdx.gw).foldl (leaveRet · · gid) s.ret).length = s.re_cnt - s.ret.length ∧
    ∀ p : ℤ → Prop, ¬p gid → Idle p s.ret → n = s.nh := by
  induction l generalizing s with
  | nil => exact ⟨_, _, rfl, rfl, fun _ _ _ => rfl⟩
  | cons el l ih =>
    obtain ⟨c, n, hs, hc, hn⟩ := retUnref_eq s el.gw gid
    obtain ⟨c', n', hs', hc', hn'⟩ := ih (s.retUnref el.gw gid).2
    rw [hs] at hs' hc' hn'
    refine ⟨c', n', ?_, hc'.trans hc, fun p hp hidle => ?_⟩
    · rw [List.foldl_cons, hs]
      exact hs'
    · refine (hn' p hp (hidle.leave el.gw hp)).trans (hn fun re hre hnil => ?_)
      refine hidle re hre fun i hi hpi => ?_
      have hne : i ≠ gid := fun heq => hp (heq ▸ hpi)
      have hin : i ∈ retRemoveGroupFromList re.group_ids gid := (List.mem_erase_of_ne hne).mpr hi
      rw [hnil] at hin
      exact List.not_mem_nil hin

/-! ## Elements enter and leave a group -/

/-- What `ret_group_add` and `ret_group_add_pbr` do before they write to the hardware: the group
with the gateways, as it was before, and the state. -/
def enterGroup (env : RouteEnv) (s : Router) (gws : List Gw) (el : RoutePfxPbr) (junk : ℕ → ℤ) :
    ReGroup × Router :=
  match s.re_group.find? fun g => compareLists gws g.re_idx with
  | some g => (g, s.modifyGroup g.group_id (·.addElem el))
  | none =>
    let (g, s) := s.newGroup env gws el junk
    (g, { s with re_group := s.re_group ++ [g] })

/-- `ret_group_add` enters the group and writes the prefix. -/
theorem retGroupAdd_eq (env : RouteEnv) (s : Router) (gws : List Gw) (ip : Ip4) (alen : ℕ)
    (junk : ℕ → ℤ) : s.retGroupAdd env gws ip alen junk =
      ((s.enterGroup env gws (.pfx ip alen) junk).1.group_id,
        (s.enterGroup env gws (.pfx ip alen) junk).2.lpmIpv4UcPrefixAdd ip alen
          (s.enterGroup env gws (.pfx ip alen) junk).1.lttEntry) := by
  unfold retGroupAdd enterGroup
  cases s.re_group.find? fun g => compareLists gws g.re_idx with
  | some g => rfl
  | none => rfl

/-- `ret_group_add_pbr` enters the group and writes the row. -/
theorem retGroupAddPbr_eq (env : RouteEnv) (s : Router) (gws : List Gw) (ix : RowColum)
    (interface : PclInterface) (junk : ℕ → ℤ) : ∃ t,
    s.retGroupAddPbr env gws ix interface junk =
      ((s.enterGroup env gws (.pbr ix interface) junk).1.group_id,
        { (s.enterGroup env gws (.pbr ix interface) junk).2 with ltt := t }) := by
  unfold retGroupAddPbr enterGroup
  cases s.re_group.find? fun g => compareLists gws g.re_idx with
  | some g =>
    dsimp only
    cases (s.modifyGroup g.group_id (·.addElem (.pbr ix interface))).re_group.head? with
    | none => exact ⟨_, rfl⟩
    | some head =>
      obtain ⟨t, ht⟩ := retGroupLttTcamSet_eq env
        (s.modifyGroup g.group_id (·.addElem (.pbr ix interface))) ix interface head
      exact ⟨t, congrArg (Prod.mk g.group_id) ht⟩
  | none =>
    dsimp only
    obtain ⟨t, ht⟩ := retGroupLttTcamSet_eq env (s.newGroup env gws (.pbr ix interface) junk).2 ix
      interface (s.newGroup env gws (.pbr ix interface) junk).1
    refine ⟨t, ?_⟩
    rw [ht]

/-- Taking indices changes the list of used ones only. -/
theorem popIdxs_eq (s : Router) (count : ℕ) (junk : ℕ → ℤ) :
    ∃ used, (s.popIdxs count junk).2 = { s with ret_indexes_used := used } := by
  unfold popIdxs
  cases Ret.resPop s.ret_indexes_used count with
  | none => exact ⟨s.ret_indexes_used, rfl⟩
  | some p => exact ⟨p.2, rfl⟩

/-- A group is known by its gateways, or it is made. -/
theorem enterGroup_cases (env : RouteEnv) (s : Router) (gws : List Gw) (el : RoutePfxPbr)
    (junk : ℕ → ℤ) :
    (∃ g ∈ s.re_group, compareLists gws g.re_idx = true ∧
      (s.re_group.find? fun g => compareLists gws g.re_idx) = some g ∧
      s.enterGroup env gws el junk = (g, s.modifyGroup g.group_id (·.addElem el))) ∨
    (s.re_group.find? fun g => compareLists gws g.re_idx) = none ∧
    ∃ (g : ReGroup) (c : ℤ) (u : ℤ → UcRoute),
      g.group_id = getNewGroupId s.group_id ∧ g.re_count = gws.length ∧
      g.first_idx = (s.popIdxs gws.length junk).1 0 ∧ g.re_idx.map ReIdx.gw = gws ∧
      g.pfx_pbr = [el] ∧
      s.enterGroup env gws el junk = (g, { (s.popIdxs gws.length junk).2 with
        group_id := s.group_id ++ [getNewGroupId s.group_id]
        ret := gws.foldl (joinRet · · (getNewGroupId s.group_id)) s.ret
        re_cnt := c
        re_group := s.re_group ++ [g]
        ucRoute := u }) ∧
      c - (gws.foldl (joinRet · · (getNewGroupId s.group_id)) s.ret).length =
        s.re_cnt - s.ret.length ∧
      ∀ i, (∀ k < gws.length, (s.popIdxs gws.length junk).1 k ≠ i) → u i = s.ucRoute i := by
  unfold enterGroup
  cases hfind : s.re_group.find? fun g => compareLists gws g.re_idx with
  -- a group with these gateways is there
  | some g =>
    exact .inl ⟨g, List.mem_of_find?_eq_some hfind,
      List.find?_some (p := fun g : ReGroup => compareLists gws g.re_idx) hfind, rfl, rfl⟩
  -- a new group is made
  | none =>
    refine .inr ⟨rfl, ?_⟩
    obtain ⟨-, -, -, -, hid, hcount, hfirst, hgws, hpfx⟩ := newGroup_spec env s gws el junk
    -- taking the indices and taking the identifier do not meet
    have hpop : ∃ used, s.popIdxs gws.length junk =
        ((s.popIdxs gws.length junk).1, { s with ret_indexes_used := used }) ∧
        ({ s with group_id := s.group_id ++ [getNewGroupId s.group_id] } : Router).popIdxs
          gws.length junk = ((s.popIdxs gws.length junk).1, { s with
            ret_indexes_used := used, group_id := s.group_id ++ [getNewGroupId s.group_id] }) := by
      unfold popIdxs
      cases Ret.resPop s.ret_indexes_used gws.length with
      | none => exact ⟨_, rfl, rfl⟩
      | some p => exact ⟨_, rfl, rfl⟩
    obtain ⟨used, hpop, hpop'⟩ := hpop
    obtain ⟨c, u, hs, hc, hu⟩ := foldl_addMember_eq env (getNewGroupId s.group_id)
      (s.popIdxs gws.length junk).1 gws ({ s with
        ret_indexes_used := used, group_id := s.group_id ++ [getNewGroupId s.group_id] }, 0, [])
    have hnew : (s.newGroup env gws el junk).2 = { s with
        ret_indexes_used := used
        group_id := s.group_id ++ [getNewGroupId s.group_id]
        ret := gws.foldl (joinRet · · (getNewGroupId s.group_id)) s.ret
        re_cnt := c
        ucRoute := u } := by
      unfold newGroup
      dsimp only
      rw [hpop']
      exact hs
    refine ⟨(s.newGroup env gws el junk).1, c, u, hid, hcount, hfirst, hgws, hpfx, ?_, hc,
      fun i hi => hu i fun k hk => hi k (by simpa using hk)⟩
    dsimp only
    rw [hnew, hpop]

/-- A group that lists nothing any more lets its gateways go and gives its indices and its id
back. -/
theorem retGroupDel2_eq (s : Router) (g : ReGroup) : ∃ c n,
    s.retGroupDel2 g = { s with
      ret_indexes_used := Ret.resPushCountFirst s.ret_indexes_used g.re_count g.first_idx
      ret := (g.re_idx.map ReIdx.gw).foldl (leaveRet · · g.group_id) s.ret
      re_cnt := c
      nh := n
      group_id := s.group_id.erase g.group_id } ∧
    c - ((g.re_idx.map ReIdx.gw).foldl (leaveRet · · g.group_id) s.ret).length =
      s.re_cnt - s.ret.length ∧
    ∀ p : ℤ → Prop, ¬p g.group_id → Idle p s.ret → n = s.nh := by
  obtain ⟨c, n, hs, hc, hn⟩ := foldl_retUnref_gws g.group_id g.re_idx s
  refine ⟨c, n, ?_, hc, hn⟩
  unfold retGroupDel2
  dsimp only
  rw [hs]

/-- An element leaves its group, and the group goes with the last one. -/
theorem retGroupDelElem_cases (s : Router) (gid : ℤ) (el : RoutePfxPbr)
    (hu : Keyed.Unique ReGroup.group_id s.re_group) :
    (s.findGroup gid = none ∧ s.retGroupDelElem gid el = s) ∨
    ∃ g, s.findGroup gid = some g ∧
      ((g.pfx_pbr.erase el ≠ [] ∧
        s.retGroupDelElem gid el = s.modifyGroup gid (·.removeElem el)) ∨
      (g.pfx_pbr.erase el = [] ∧ ∃ c n,
        s.retGroupDelElem gid el = { s with
          ret_indexes_used := Ret.resPushCountFirst s.ret_indexes_used g.re_count g.first_idx
          ret := (g.re_idx.map ReIdx.gw).foldl (leaveRet · · gid) s.ret
          re_cnt := c
          nh := n
          group_id := s.group_id.erase gid
          re_group := Keyed.del ReGroup.group_id s.re_group gid } ∧
        c - ((g.re_idx.map ReIdx.gw).foldl (leaveRet · · gid) s.ret).length =
          s.re_cnt - s.ret.length ∧
        ∀ p : ℤ → Prop, ¬p gid → Idle p s.ret → n = s.nh)) := by
  unfold retGroupDelElem
  cases hfind : s.findGroup gid with
  | none => exact .inl ⟨rfl, rfl⟩
  | some g =>
    have hgid : g.group_id = gid := Keyed.key_of_find hfind
    refine .inr ⟨g, rfl, ?_⟩
    dsimp only
    split_ifs with hnil
    · refine .inr ⟨hnil, ?_⟩
      obtain ⟨c, n, hs, hc, hn⟩ := retGroupDel2_eq (s.modifyGroup gid (·.removeElem el))
        (g.removeElem el)
      have hdel : Keyed.del ReGroup.group_id (s.modifyGroup gid (·.removeElem el)).re_group gid =
          Keyed.del ReGroup.group_id s.re_group gid := hu.del_modify fun _ => rfl
      have hid : (g.removeElem el).group_id = gid := hgid
      rw [hid] at hs hc hn
      refine ⟨c, n, ?_, hc, hn⟩
      rw [hs]
      dsimp only
      rw [hdel]
      rfl
    · exact .inl ⟨hnil, rfl⟩

/-! ## The tables agree -/

/-- The gateway is a member of the group. -/
def IsMember (s : Router) (gw : Gw) (gid : ℤ) : Prop :=
  ∃ g ∈ s.re_group, g.group_id = gid ∧ gw ∈ g.re_idx.map ReIdx.gw

/-- The groups have the ids that are taken, list elements once, and have the gateways that list
them. -/
structure Tidy (s : Router) : Prop where
  ids : s.re_group.map ReGroup.group_id = s.group_id
  nodup : s.group_id.Nodup
  pos : ∀ gid ∈ s.group_id, 0 < gid
  elems : ∀ g ∈ s.re_group, g.pfx_pbr ≠ [] ∧ g.pfx_pbr.Nodup
  listed : Listed s.IsMember s.ret

namespace Tidy

/-- No group identifier is in use twice. -/
theorem groups (h : s.Tidy) : Keyed.Unique ReGroup.group_id s.re_group := by
  rw [Keyed.Unique, h.ids]
  exact h.nodup

/-- The identifier of a group is a used one. -/
theorem mem_ids (h : s.Tidy) {g : ReGroup} (hg : g ∈ s.re_group) : g.group_id ∈ s.group_id :=
  h.ids ▸ List.mem_map_of_mem hg

/-- No group has the id 0. -/
theorem findGroup_zero (h : s.Tidy) : s.findGroup 0 = none :=
  Keyed.find_eq_none_iff.mpr fun _ hg => (h.pos _ (h.mem_ids hg)).ne'

/-- What the groups map, and the addresses of the gateways, do not count. -/
theorem congr (h : s.Tidy) (hg : s'.re_group.map ReGroup.static = s.re_group.map ReGroup.static)
    (hid : s'.group_id = s.group_id)
    (hret : s'.ret.map Re.lists = s.ret.map Re.lists) : s'.Tidy := by
  have hids : s'.re_group.map ReGroup.group_id = s.re_group.map ReGroup.group_id := by
    have hfst := congrArg (List.map Prod.fst) hg
    simpa only [List.map_map, Function.comp_def, ReGroup.static] using hfst
  refine ⟨by rw [hids, hid, h.ids], hid ▸ h.nodup, hid ▸ h.pos, fun g hmem => ?_, ?_⟩
  · have hstat : g.static ∈ s.re_group.map ReGroup.static := hg ▸ List.mem_map_of_mem hmem
    obtain ⟨g₀, hg₀, heq⟩ := List.mem_map.mp hstat
    have hpfx : g₀.pfx_pbr = g.pfx_pbr := congrArg (·.2.2.2.2) heq
    exact hpfx ▸ h.elems g₀ hg₀
  · refine (h.listed.congr hret).mono fun re _ gid _ hmem => ?_
    obtain ⟨g₀, hg₀, hgid, hgw⟩ := hmem
    have hstat : g₀.static ∈ s'.re_group.map ReGroup.static := hg ▸ List.mem_map_of_mem hg₀
    obtain ⟨g, hg, heq⟩ := List.mem_map.mp hstat
    have hgws : g.re_idx.map ReIdx.gw = g₀.re_idx.map ReIdx.gw := congrArg (·.2.2.2.1) heq
    exact ⟨g, hg, (ReGroup.static_group_id heq).trans hgid, hgws ▸ hgw⟩

/-- The lists are tidy in the beginning. -/
theorem init (uc : ℤ → UcRoute) (arp : ℕ → Mac) (ltt : ℕ × RowColum → Ltt) :
    (Router.init uc arp ltt).Tidy :=
  ⟨rfl, List.nodup_nil, nofun, nofun, List.nodup_nil, nofun, nofun, nofun⟩

/-- A change of the lists of the groups that keeps them without repetitions. -/
theorem modifyGroup (h : s.Tidy) {f : ReGroup → ReGroup} (hf : ∀ g, (f g).group_id = g.group_id)
    (hgws : ∀ g, (f g).re_idx = g.re_idx)
    (helems : ∀ g ∈ s.re_group, g.group_id = gid → (f g).pfx_pbr ≠ [] ∧ (f g).pfx_pbr.Nodup) :
    (s.modifyGroup gid f).Tidy := by
  refine ⟨(Keyed.map_modify ReGroup.group_id hf).trans h.ids, h.nodup, h.pos, fun g hg => ?_, ?_⟩
  · rcases Keyed.mem_modify_iff.mp hg with ⟨g, hmem, hgid, rfl⟩ | ⟨hmem, -⟩
    · exact helems g hmem hgid
    · exact h.elems g hmem
  · refine h.listed.mono fun re _ id _ hmem => ?_
    obtain ⟨g, hg, hgid, hgw⟩ := hmem
    by_cases heq : g.group_id = gid
    · refine ⟨f g, Keyed.mem_modify_iff.mpr (.inl ⟨g, hg, heq, rfl⟩), (hf g).trans hgid, ?_⟩
      rwa [hgws]
    · exact ⟨g, Keyed.mem_modify_iff.mpr (.inr ⟨hg, heq⟩), hgid, hgw⟩

/-- An element enters a group. -/
theorem enterGroup (h : s.Tidy) (env : RouteEnv) (gws : List Gw) (el : RoutePfxPbr)
    (junk : ℕ → ℤ) : (s.enterGroup env gws el junk).2.Tidy := by
  rcases s.enterGroup_cases env gws el junk with ⟨g, hg, -, -, heq⟩ | ⟨-, g, c, u, hid, -, -, hgws,
    hpfx, heq, -, -⟩
  · rw [heq]
    refine h.modifyGroup (fun _ => ?_) (fun _ => ?_) fun x hx _ => ?_
    all_goals unfold ReGroup.addElem; split_ifs with hel
    · rfl
    · rfl
    · rfl
    · rfl
    · exact h.elems x hx
    · refine ⟨List.append_ne_nil_of_right_ne_nil _ (List.cons_ne_nil el []), ?_⟩
      refine List.nodup_append.mpr ⟨(h.elems x hx).2, List.nodup_singleton el, ?_⟩
      exact fun a ha b hb hab => hel (List.mem_singleton.mp hb ▸ hab ▸ ha)
  · rw [heq]
    refine ⟨?_, ?_, ?_, ?_, ?_⟩
    · rw [List.map_append, h.ids, List.map_singleton, hid]
    · refine List.nodup_append.mpr ⟨h.nodup, List.nodup_singleton _, fun a ha b hb hab => ?_⟩
      exact getNewGroupId_not_mem s.group_id (List.mem_singleton.mp hb ▸ hab ▸ ha)
    · intro gid hgid
      rcases List.mem_append.mp hgid with hgid | hgid
      · exact h.pos gid hgid
      · exact List.mem_singleton.mp hgid ▸ getNewGroupId_pos s.group_id
    · intro x hx
      rcases List.mem_append.mp hx with hx | hx
      · exact h.elems x hx
      · rw [List.mem_singleton.mp hx, hpfx]
        exact ⟨List.cons_ne_nil el [], List.nodup_singleton el⟩
    · refine (h.listed.foldl_join gws _).mono fun re _ gid _ hmem => ?_
      rcases hmem with ⟨x, hx, hgid, hgw⟩ | ⟨hgw, hgid⟩
      · exact ⟨x, List.mem_append_left [g] hx, hgid, hgw⟩
      · exact ⟨g, List.mem_append_right _ (List.mem_singleton_self g), hid.trans hgid.symm,
          hgws ▸ hgw⟩

/-- An element leaves a group. -/
theorem retGroupDelElem (h : s.Tidy) (gid : ℤ) (el : RoutePfxPbr) :
    (s.retGroupDelElem gid el).Tidy := by
  rcases s.retGroupDelElem_cases gid el h.groups with ⟨-, heq⟩ | ⟨g, hfind, ⟨hne, heq⟩ |
    ⟨hnil, c, n, heq, -, -⟩⟩
  · rw [heq]
    exact h
  · rw [heq]
    obtain ⟨hg, hgid⟩ := h.groups.find_eq_some_iff.mp hfind
    refine h.modifyGroup (fun _ => rfl) (fun _ => rfl) fun x hx hxid => ?_
    obtain rfl := h.groups.eq_of_mem hx hg (hxid.trans hgid.symm)
    exact ⟨hne, (h.elems x hx).2.erase el⟩
  · obtain ⟨hg, rfl⟩ := h.groups.find_eq_some_iff.mp hfind
    rw [heq]
    refine ⟨?_, h.nodup.erase _, fun id hid => h.pos id (List.mem_of_mem_erase hid),
      fun x hx => h.elems x (Keyed.mem_of_mem_del hx), ?_⟩
    · exact Keyed.map_del.trans (congrArg (List.erase · g.group_id) h.ids)
    · refine (h.listed.foldl_leave _ _).mono fun re _ id _ hmem => ?_
      obtain ⟨⟨x, hx, rfl, hgw⟩, hno⟩ := hmem
      refine ⟨x, Keyed.mem_del_of_ne hx fun hxid => hno ?_, rfl, hgw⟩
      obtain rfl := h.groups.eq_of_mem hx hg hxid
      exact ⟨hgw, rfl⟩

/-- The group that an element enters is one with the gateways, or it is new. -/
theorem enterGroup_fst (h : s.Tidy) (env : RouteEnv) (gws : List Gw) (el : RoutePfxPbr)
    (junk : ℕ → ℤ) :
    ((s.enterGroup env gws el junk).1 ∈ s.re_group ∧
      compareLists gws (s.enterGroup env gws el junk).1.re_idx = true) ∨
    (∀ g ∈ s.re_group, g.group_id ≠ (s.enterGroup env gws el junk).1.group_id ∧
      compareLists gws g.re_idx = false) ∧
      (s.enterGroup env gws el junk).1.re_idx.map ReIdx.gw = gws ∧
      (s.enterGroup env gws el junk).1.pfx_pbr = [el] := by
  rcases s.enterGroup_cases env gws el junk with ⟨g, hg, hgws, -, heq⟩ | ⟨hno, g, c, u, hid, -, -,
    hgws, hpfx, heq, -, -⟩
  · rw [heq]
    exact .inl ⟨hg, hgws⟩
  · rw [heq]
    refine .inr ⟨fun x hx => ⟨fun hxid => ?_, ?_⟩, hgws, hpfx⟩
    · exact getNewGroupId_not_mem s.group_id (hid ▸ hxid ▸ h.mem_ids hx)
    · simpa using List.find?_eq_none.mp hno x hx

/-- The groups after an element has entered one: the group has it, and the others are as before. -/
theorem mem_enterGroup (h : s.Tidy) (env : RouteEnv) (gws : List Gw) (el : RoutePfxPbr)
    (junk : ℕ → ℤ) (g' : ReGroup) : g' ∈ (s.enterGroup env gws el junk).2.re_group ↔
      (g' ∈ s.re_group ∧ g'.group_id ≠ (s.enterGroup env gws el junk).1.group_id) ∨
        g' = (s.enterGroup env gws el junk).1.addElem el := by
  rcases s.enterGroup_cases env gws el junk with ⟨g, hg, -, -, heq⟩ | ⟨-, g, c, u, hid, -, -, -,
    hpfx, heq, -, -⟩
  · rw [heq]
    refine Keyed.mem_modify_iff.trans (Iff.trans ?_ Or.comm)
    refine or_congr_left ⟨?_, fun heq => ⟨g, hg, rfl, heq.symm⟩⟩
    rintro ⟨x, hx, hxid, rfl⟩
    rw [h.groups.eq_of_mem hx hg hxid]
  · rw [heq]
    have hadd : g.addElem el = g := if_pos (hpfx ▸ List.mem_singleton_self el)
    rw [hadd]
    refine List.mem_append.trans (or_congr (iff_self_and.mpr fun hmem heq => ?_) List.mem_singleton)
    exact getNewGroupId_not_mem s.group_id (hid ▸ heq ▸ h.mem_ids hmem)

/-- The groups after an element has left one. -/
theorem mem_retGroupDelElem (h : s.Tidy) (gid : ℤ) (el : RoutePfxPbr) (g' : ReGroup) :
    g' ∈ (s.retGroupDelElem gid el).re_group ↔ (g' ∈ s.re_group ∧ g'.group_id ≠ gid) ∨
      ∃ g ∈ s.re_group, g.group_id = gid ∧ g' = g.removeElem el ∧ g'.pfx_pbr ≠ [] := by
  rcases s.retGroupDelElem_cases gid el h.groups with ⟨hfind, heq⟩ | ⟨g, hfind, ⟨hne, heq⟩ |
    ⟨hnil, c, n, heq, -, -⟩⟩
  · rw [heq]
    have hno := Keyed.find_eq_none_iff.mp hfind
    refine ⟨fun hg => .inl ⟨hg, hno g' hg⟩, ?_⟩
    rintro (⟨hg, -⟩ | ⟨g, hg, hgid, -, -⟩)
    · exact hg
    · exact absurd hgid (hno g hg)
  · obtain ⟨hg, hgid⟩ := h.groups.find_eq_some_iff.mp hfind
    rw [heq]
    refine Keyed.mem_modify_iff.trans (Iff.trans ?_ Or.comm)
    refine or_congr_left ⟨?_, ?_⟩
    · rintro ⟨x, hx, hxid, rfl⟩
      obtain rfl := h.groups.eq_of_mem hx hg (hxid.trans hgid.symm)
      exact ⟨x, hx, hxid, rfl, hne⟩
    · rintro ⟨x, hx, hxid, rfl, -⟩
      exact ⟨x, hx, hxid, rfl⟩
  · obtain ⟨hg, hgid⟩ := h.groups.find_eq_some_iff.mp hfind
    rw [heq]
    refine h.groups.mem_del_iff.trans (iff_self_or.mpr ?_)
    rintro ⟨x, hx, hxid, rfl, hne⟩
    obtain rfl := h.groups.eq_of_mem hx hg (hxid.trans hgid.symm)
    exact absurd hnil hne

/-- The address of a gateway changes. -/
theorem of_fanned (h : s.Tidy) {r : List Re} {n : NhTable}
    (hf : Fanned { s with ret := r, nh := n } s')
    (hr : r.map Re.lists = s.ret.map Re.lists) : s'.Tidy := by
  obtain ⟨g, u, l, t, rfl, hg⟩ := hf
  exact h.congr hg rfl hr

/-- **Step.** A MAC address keeps the lists tidy. -/
theorem retSetMacAddr (h : s.Tidy) (env : RouteEnv) (gw : Gw) (addr : Mac) (vif_id : ℕ)
    (arpOk : Bool) : (s.retSetMacAddr env gw addr vif_id arpOk).2.Tidy := by
  obtain ⟨r, n, hf, hr⟩ := retSetMacAddr_fanned env s gw addr vif_id arpOk
  exact h.of_fanned hf hr

/-- **Step.** A lost MAC address keeps the lists tidy. -/
theorem retUnsetMacAddr (h : s.Tidy) (env : RouteEnv) (gw : Gw) :
    (s.retUnsetMacAddr env gw).2.Tidy := by
  obtain ⟨r, n, hf, hr⟩ := retUnsetMacAddr_fanned env s gw
  exact h.of_fanned hf hr

end Tidy

/-- An element that leaves keeps the routes and the hardware tables. -/
theorem Tidy.retGroupDelElem_frame (h : s.Tidy) (gid : ℤ) (el : RoutePfxPbr) :
    (s.retGroupDelElem gid el).fib = s.fib ∧ (s.retGroupDelElem gid el).ucRoute = s.ucRoute ∧
    (s.retGroupDelElem gid el).lpm = s.lpm := by
  rcases s.retGroupDelElem_cases gid el h.groups with ⟨-, heq⟩ |
    ⟨g, -, ⟨-, heq⟩ | ⟨-, c, n, heq, -, -⟩⟩
  all_goals rw [heq]; exact ⟨rfl, rfl, rfl⟩

end Router

end Presteramgr
