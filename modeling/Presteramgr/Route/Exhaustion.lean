import Presteramgr.Route.Multicast

/-!
# Multicast routes when the tables are full

A `route_mc_add` that finds no pair or no index must fail and leave everything as it was. The calls
on the way to a new entry pass the failure on. Those that append a node to a chain do not.

## Main definitions

* `McRoutes.RunsOut`: a pair or an index is asked for, and there is none;
* `McRoutes.Appends`: the call finds an entry, and would append to its chain.

## Main results

* `add_fails_iff`: such a call fails and changes nothing exactly if it does not append;
* `add_of_appends`: if it does, it counts a node that is not there.
-/

namespace Presteramgr

open Function (update update_self)

namespace McRoutes

variable {s : McRoutes} {t : McArgs} {w : McWrites} {re : Mcre}

/-- The call finds an entry for its group, source and source VLAN. -/
def Appends (s : McRoutes) (t : McArgs) : Prop := s.mc.mcreFind t.key ≠ -1

instance (s : McRoutes) (t : McArgs) : Decidable (s.Appends t) :=
  inferInstanceAs (Decidable (_ ≠ _))

/-- A new pair is asked for when a node is appended to the chain: the last pair is full. -/
def NeedsPair (m : Mll) (head : ℤ) : Prop :=
  head < 0 ∨ ∃ last ∈ Mll.findLastPair m.mll_pt m.mll_ts head, (m.mll_pt last).svid ≠ 0

/-- During the call `mll_get` or `res_pop` finds nothing free. -/
def RunsOut (s : McRoutes) (t : McArgs) : Prop :=
  mcgValid t.via ∧
    ((¬s.Appends t ∧ (Ret.resPop s.mc.ret_indexes_used 1 = none ∨ s.mc.mll.Exhausted)) ∨
      (s.Appends t ∧ s.mc.mll.Exhausted ∧
        ∃ re ∈ s.mc.hashFind (s.mc.mcre_key_bp (s.mc.mcreFind t.key)),
          NeedsPair s.mc.mll re.mll_idx))

/-- The call fails and leaves every chain, every count, the free pairs and the indices as they
were. -/
def Fails (s : McRoutes) (t : McArgs) (w : McWrites) : Prop :=
  ∃ st s', s.routeMcAdd t w = some (st, s') ∧ st ≠ .ST_OK ∧ s' = s

theorem via_ne (hvia : mcgValid t.via) : t.via ≠ 0xFFFF := fun hdrop => by
  rw [hdrop] at hvia
  exact absurd hvia (by decide)

/-- An index that is popped and pushed back. -/
theorem resPush_resPop {used ids used' : List ℤ} (hpop : Ret.resPop used 1 = some (ids, used')) :
    Ret.resPush used' 1 [ids.headI] = used := by
  obtain ⟨-, -, rfl, first, hids, -, -, hfree⟩ := Ret.resPop_spec hpop
  have hone : ids = [first] := by simp [hids, Ret.idxRun]
  rw [hone] at hfree ⊢
  have herase : Ret.resPush (used ++ [first]) 1 [first] = (used ++ [first]).erase first := rfl
  rw [List.headI_cons, herase, List.erase_append_right _ (hfree first List.mem_cons_self),
    List.erase_cons_head, List.append_nil]

/-- `mcre_new` passes the failure on, and gives the index back. -/
theorem mcreNew_of_runsOut {m : McState} (key : McreKey) (mcg vid : ℕ) (wrOk reOk : Bool)
    (hout : Ret.resPop m.ret_indexes_used 1 = none ∨ m.mll.Exhausted) :
    m.mcreNew key mcg vid wrOk reOk = some (none, m) := by
  unfold McState.mcreNew
  cases hpop : Ret.resPop m.ret_indexes_used 1 with
  | none => rfl
  | some p =>
    have hfull : m.mll.Exhausted := hout.resolve_left (by rw [hpop]; exact Option.some_ne_none p)
    obtain ⟨ids, used'⟩ := p
    obtain ⟨-, -, -, first, hids, hfirst, -⟩ := Ret.resPop_spec hpop
    have hhead : ids.headI = first := by simp [hids, Ret.idxRun]
    have hneg : -ids.headI < 0 := by
      unfold FIRST_REGULAR_RE_IDX at hfirst
      omega
    have hcreate : m.mll.addNode (-ids.headI) mcg vid wrOk = some (-1, m.mll) := by
      unfold Mll.addNode Mll.createPair
      rw [if_pos hneg, Mll.mllGet_exhausted hfull]
      rfl
    dsimp only
    rw [hcreate, Option.map_some, if_pos rfl, resPush_resPop hpop]

/-- A call that does not append fails and changes nothing. -/
theorem fails_of_not_appends (hvia : mcgValid t.via) (hno : ¬s.Appends t)
    (hout : Ret.resPop s.mc.ret_indexes_used 1 = none ∨ s.mc.mll.Exhausted) : s.Fails t w := by
  have hfind : s.mc.mcreFind t.key = -1 := not_not.mp hno
  have hcreate : s.mc.mcreCreate t.key t.via t.vid w.wrOk w.reOk = some (-1, s.mc) := by
    unfold McState.mcreCreate
    rw [mcreNew_of_runsOut t.key t.via t.vid w.wrOk w.reOk hout]
    rfl
  refine ⟨.ST_BAD_STATE, s, ?_, by decide, rfl⟩
  unfold routeMcAdd
  rw [if_neg (via_ne hvia), if_pos hvia, if_pos hfind, hcreate]
  rfl

/-- Appending returns, whether there is a pair or not. -/
theorem addNode_of_needsPair {m : Mll} {head : ℤ} (hneeds : NeedsPair m head) (mcg vid : ℕ)
    (wrOk : Bool) : ∃ res m', m.addNode head mcg vid wrOk = some (res, m') := by
  unfold Mll.addNode
  by_cases hneg : head < 0
  · rw [if_pos hneg]
    exact ⟨_, _, rfl⟩
  · obtain ⟨last, hlast, -⟩ := hneeds.resolve_left hneg
    rw [if_neg hneg, Mll.appendNode, Option.mem_def.mp hlast]
    exact ⟨_, _, rfl⟩

/-- A call that appends returns `ST_OK` and counts one node more, although there is no pair for
it. -/
theorem add_of_appends (hout : s.RunsOut t) (happ : s.Appends t) (w : McWrites) :
    ∃ re s', s.mc.hashFind (s.mc.mcre_key_bp (s.mc.mcreFind t.key)) = some re ∧
      s.routeMcAdd t w = some (.ST_OK, s') ∧
      s'.mc.mcret = { re with refc := re.refc + 1 } :: Keyed.del Mcre.key s.mc.mcret re.key := by
  obtain ⟨hvia, ⟨hno, -⟩ | ⟨-, -, re, hre, hneeds⟩⟩ := hout
  · exact absurd happ hno
  obtain ⟨res, m', hadd⟩ := addNode_of_needsPair hneeds t.via t.vid w.wrOk
  have hnode : s.mc.mcreAddNode (s.mc.mcreFind t.key) t.via t.vid w.wrOk =
      some (0, (({ s.mc with mll := m' }).hashDel re).hashAdd { re with refc := re.refc + 1 }) := by
    unfold McState.mcreAddNode
    rw [Option.mem_def.mp hre, Option.bind_some, hadd]
    rfl
  refine ⟨re, ⟨(({ s.mc with mll := m' }).hashDel re).hashAdd { re with refc := re.refc + 1 }, s.lpm⟩,
    Option.mem_def.mp hre, ?_, rfl⟩
  unfold routeMcAdd
  rw [if_neg (via_ne hvia), if_pos hvia, if_neg happ, hnode]
  rfl

/-- A call that finds no pair or no index fails, and leaves every chain, every count, the free pairs
and the indices as they were, if and only if it does not append to a chain. -/
theorem add_fails_iff (hout : s.RunsOut t) : s.Fails t w ↔ ¬s.Appends t := by
  constructor
  · rintro ⟨st, s', hadd, hst, -⟩ happ
    obtain ⟨re, s'', -, hok, -⟩ := add_of_appends hout happ w
    exact hst (Prod.mk.inj (Option.some_inj.mp (hadd.symm.trans hok))).1
  · intro hno
    obtain ⟨hvia, ⟨-, hfull⟩ | ⟨happ, -⟩⟩ := hout
    · exact fails_of_not_appends hvia hno hfull
    · exact absurd happ hno

instance (m : Mll) (head : ℤ) : Decidable (NeedsPair m head) :=
  inferInstanceAs (Decidable (_ ∨ ∃ last ∈ Mll.findLastPair m.mll_pt m.mll_ts head, _ ≠ _))

instance (m : Mll) : Decidable m.Exhausted := inferInstanceAs (Decidable (_ ≤ _))

instance (s : McRoutes) (t : McArgs) : Decidable (s.RunsOut t) :=
  inferInstanceAs (Decidable (_ ∧ ((_ ∧ (_ = _ ∨ _)) ∨ (_ ∧ _ ∧
    ∃ re ∈ s.mc.hashFind (s.mc.mcre_key_bp (s.mc.mcreFind t.key)), _))))

/-- The receiver of a group on the VLAN `vid`. -/
def receiver (dst : Ip4) (vid : ℕ) : McOp := .add ⟨vid, dst, 0, 10, 7⟩ ⟨true, true, true⟩

/-- Four receivers of a group, which take the two pairs that can be used of a table of three. -/
def fullRun : List McOp := [receiver 0xe1000001 1, receiver 0xe1000001 2, receiver 0xe1000001 3,
  receiver 0xe1000001 4]

/-- There is no pair for another group. -/
theorem add_fails_iff_fullRun : ∃ r : McRun,
    Guarded.run McRun.step (fun _ _ => True) (.start 3 fun _ => ⟨⟨0, 0, false⟩, ⟨0, 0, false⟩, 0⟩)
      fullRun = some r ∧ r.routes.Fails ⟨1, 0xe1000002, 0, 10, 7⟩ ⟨true, true, true⟩ := by
  have hlast : (Guarded.run McRun.step (fun _ _ => True)
      (.start 3 fun _ => ⟨⟨0, 0, false⟩, ⟨0, 0, false⟩, 0⟩) fullRun).map (fun r =>
        (decide (r.routes.RunsOut ⟨1, 0xe1000002, 0, 10, 7⟩),
          decide (r.routes.Appends ⟨1, 0xe1000002, 0, 10, 7⟩))) = some (true, false) := by
    decide +kernel
  obtain ⟨r, hrun, hshown⟩ := Option.map_eq_some_iff.mp hlast
  obtain ⟨hout, hno⟩ := Prod.mk.inj hshown
  exact ⟨r, hrun, (add_fails_iff (of_decide_eq_true hout)).mpr (of_decide_eq_false hno)⟩

/-- The fifth receiver of the group is counted, and the last pair of the chain is marked as followed
by another one. -/
theorem not_add_fails : ∃ r : McRun, ∃ s' : McRoutes,
    Guarded.run McRun.step (fun _ _ => True) (.start 3 fun _ => ⟨⟨0, 0, false⟩, ⟨0, 0, false⟩, 0⟩)
      fullRun = some r ∧ r.routes.RunsOut ⟨5, 0xe1000001, 0, 10, 7⟩ ∧
      r.routes.routeMcAdd ⟨5, 0xe1000001, 0, 10, 7⟩ ⟨true, true, true⟩ = some (.ST_OK, s') ∧
      s'.mc.mcret.map Mcre.refc = [5] ∧
      ((r.routes.mc.mll.hw 1).secondMllNode.last, (s'.mc.mll.hw 1).secondMllNode.last,
        (s'.mc.mll.hw 1).nextPointer) = (true, false, -1) := by
  have hlast : (Guarded.run McRun.step (fun _ _ => True)
      (.start 3 fun _ => ⟨⟨0, 0, false⟩, ⟨0, 0, false⟩, 0⟩) fullRun).bind (fun r =>
        (r.routes.routeMcAdd ⟨5, 0xe1000001, 0, 10, 7⟩ ⟨true, true, true⟩).map fun q =>
          (decide (r.routes.RunsOut ⟨5, 0xe1000001, 0, 10, 7⟩), q.1, q.2.mc.mcret.map Mcre.refc,
            (r.routes.mc.mll.hw 1).secondMllNode.last, (q.2.mc.mll.hw 1).secondMllNode.last,
            (q.2.mc.mll.hw 1).nextPointer)) =
      some (true, .ST_OK, [5], true, false, -1) := by
    decide +kernel
  obtain ⟨r, hrun, hshown⟩ := Option.bind_eq_some_iff.mp hlast
  obtain ⟨q, hadd, hshown⟩ := Option.map_eq_some_iff.mp hshown
  obtain ⟨hout, hshown⟩ := Prod.mk.inj hshown
  obtain ⟨hst, hshown⟩ := Prod.mk.inj hshown
  obtain ⟨hrefc, hlinks⟩ := Prod.mk.inj hshown
  exact ⟨r, q.2, hrun, of_decide_eq_true hout, hadd.trans (congrArg some (Prod.ext hst rfl)), hrefc,
    hlinks⟩

end McRoutes

end Presteramgr
