import Mathlib.Data.Nat.Bitwise
import Presteramgr.Acl.VlanRules
import Presteramgr.Lib.Guarded
import Presteramgr.Lib.Sweep

/-!
# Runs of calls for VLAN translation (`pcl.c`)

Calls are seen by the translation that `get_vt_ix` gives, the entries of the TCAM that are touched,
and what is pushed on the stack of free indices.

## Main definitions

* `VtRules.Touches`, `VtRules.Writes`: what happens in the TCAM;
* `VtRules.Inv`: what calls keep;
* `VtRules.Gets`: what `get_vt_ix` does;
* `VtRules.Frees`: what a call frees.

## Main results

* `VtRules.proper_iff_apart`.
-/

namespace Presteramgr

open Function (update update_self update_of_ne)

namespace VtRules

section

variable {c : VtUnit} {s t t' : VtRules} {e : VtIx} {pid fromVid toVid d ix key : ℕ}
  {tunnel enable : Bool} {op : VtRuleOp}

/-! ### Keys -/

/-- The key of a rule is its port and its VLAN, twelve bits of it. -/
theorem vtKey_eq (hv : fromVid < 4096) : vtKey pid fromVid = pid * 4096 + fromVid := by
  unfold vtKey
  rw [← Nat.shiftLeft_add_eq_or_of_lt hv, Nat.shiftLeft_eq]

/-- The VLAN is read back from the key. -/
theorem vtKeyVid_vtKey (hv : fromVid < 4096) : vtKeyVid (vtKey pid fromVid) = fromVid := by
  have hmod : vtKeyVid (vtKey pid fromVid) = vtKey pid fromVid % 2 ^ 12 :=
    Nat.and_two_pow_sub_one_eq_mod _ 12
  rw [hmod, vtKey_eq hv]
  omega

/-- The port is read back from the key. -/
theorem vtKeyPid_vtKey (hpid : pid < 2 ^ 16) (hv : fromVid < 4096) :
    vtKeyPid (vtKey pid fromVid) = pid := by
  have hmod : vtKeyPid (vtKey pid fromVid) = vtKey pid fromVid >>> 12 % 2 ^ 16 :=
    Nat.and_two_pow_sub_one_eq_mod _ 16
  rw [hmod, vtKey_eq hv, Nat.shiftRight_eq_div_pow]
  omega

/-- A rule with the key of a call is one of its port. -/
theorem Callable.pid_eq (h : Callable c pid fromVid) (hkey : e.key = vtKey pid fromVid) :
    e.pid = pid := by
  unfold VtIx.pid
  rw [hkey, vtKeyPid_vtKey (h.1.2.trans_lt c.NPORTS_lt) (by have := h.2; omega)]

/-- A rule with the key of a call is one of its VLAN. -/
theorem Callable.vid_eq (h : Callable c pid fromVid) (hkey : e.key = vtKey pid fromVid) :
    e.vid = fromVid := by
  unfold VtIx.vid
  rw [hkey, vtKeyVid_vtKey (by have := h.2; omega)]

/-! ### The hardware -/

/-- The entries of the TCAM that are touched. -/
structure Touches (P : ℕ → ℕ → Prop) (s t : VtRules) : Prop where
  touched : ∀ d ix, (d, ix) ∈ t.touched ↔ (d, ix) ∈ s.touched ∨ P d ix
  tcam : ∀ d ix, ¬P d ix → t.tcam d ix = s.tcam d ix

/-- Entries of the TCAM are touched, and nothing else happens. -/
structure Writes (P : ℕ → ℕ → Prop) (s t : VtRules) : Prop extends Touches P s t where
  rules : t.rules = s.rules
  vt_ix : t.vt_ix = s.vt_ix

namespace Touches

variable {P Q : ℕ → ℕ → Prop}

/-- A step that writes nothing touches nothing. -/
theorem none (htouched : t.touched = s.touched) (htcam : t.tcam = s.tcam) :
    Touches (fun _ _ => False) s t := by
  refine ⟨fun d ix => ?_, fun d ix _ => congrFun (congrFun htcam d) ix⟩
  rw [htouched, or_iff_left id]

/-- Two steps touch what one of them touches. -/
theorem trans (h : Touches P s t) (h' : Touches Q t t') :
    Touches (fun d ix => P d ix ∨ Q d ix) s t' where
  touched d ix := by rw [h'.touched, h.touched, or_assoc]
  tcam d ix hno := (h'.tcam d ix fun hq => hno (.inr hq)).trans
    (h.tcam d ix fun hp => hno (.inl hp))

/-- What is touched may be named in another way. -/
theorem congr (h : Touches P s t) (hpq : ∀ d ix, P d ix ↔ Q d ix) : Touches Q s t := by
  have heq : P = Q := funext fun d => funext fun ix => propext (hpq d ix)
  rw [← heq]
  exact h

/-- A loop touches what its rounds touch. -/
theorem foldl {f : VtRules → VtIx → VtRules} {P : VtIx → ℕ → ℕ → Prop}
    (hf : ∀ s e, Touches (P e) s (f s e)) (es : List VtIx) (s : VtRules) :
    Touches (fun d ix => ∃ e ∈ es, P e d ix) s (es.foldl f s) := by
  induction es generalizing s with
  | nil => exact (Touches.none rfl rfl).congr fun _ _ => by simp
  | cons e es ih =>
    refine ((hf s e).trans (ih (f s e))).congr fun d ix => ?_
    simp

end Touches

namespace Writes

variable {P Q : ℕ → ℕ → Prop}

/-- Two steps write what one of them writes. -/
theorem trans (h : Writes P s t) (h' : Writes Q t t') : Writes (fun d ix => P d ix ∨ Q d ix) s t' :=
  ⟨h.toTouches.trans h'.toTouches, h'.rules.trans h.rules, h'.vt_ix.trans h.vt_ix⟩

/-- What is written may be named in another way. -/
theorem congr (h : Writes P s t) (hpq : ∀ d ix, P d ix ↔ Q d ix) : Writes Q s t :=
  ⟨h.toTouches.congr hpq, h.rules, h.vt_ix⟩

/-- What is written is written already. -/
theorem absorb (h : Writes P s t) (h' : Writes Q t t') (himp : ∀ d ix, Q d ix → P d ix) :
    Writes P s t' :=
  (h.trans h').congr fun d ix => or_iff_left_of_imp (himp d ix)

end Writes

/-- An entry is written in one place. -/
theorem writes_setTcam (s : VtRules) (d ix : ℕ) (rule : Option VtRule) :
    Writes (fun d' ix' => d' = d ∧ ix' = ix) s (s.setTcam d ix rule) := by
  refine ⟨⟨fun d' ix' => ?_, fun d' ix' hno => ?_⟩, rfl, rfl⟩
  · unfold setTcam
    rw [List.mem_append, List.mem_singleton, Prod.mk.injEq]
  · unfold setTcam
    by_cases hd : d' = d
    · subst hd
      have hix : ix' ≠ ix := fun heq => hno ⟨rfl, heq⟩
      simp [hix]
    · simp [hd]

/-- A rule is made invalid on every device. -/
theorem writes_invalidate (c : VtUnit) (s : VtRules) (ix : ℕ) :
    Writes (fun d' ix' => d' < c.NDEVS ∧ ix' = ix) s (s.invalidate c ix) := by
  unfold invalidate
  induction c.NDEVS with
  | zero => exact ⟨(Touches.none rfl rfl).congr fun _ _ => by simp, rfl, rfl⟩
  | succ n ih =>
    rw [List.range_succ, List.foldl_append]
    refine (ih.trans (writes_setTcam _ n ix none)).congr fun d' ix' => ?_
    rw [← or_and_right, Nat.lt_succ_iff_lt_or_eq]

/-- Both rules of a VLAN are made invalid on every device. -/
theorem writes_invalidateVtIx (c : VtUnit) (s : VtRules) (e : VtIx) :
    Writes (fun d ix => d < c.NDEVS ∧ ix ∈ e.ruleIxs) s (s.invalidateVtIx c e) := by
  unfold invalidateVtIx VtIx.ruleIxs VtIx.vid
  dsimp only
  by_cases hv : vtKeyVid e.key ≠ 0
  · rw [if_pos hv, if_pos hv]
    refine ((writes_invalidate c s e.ix.1).trans (writes_invalidate c _ e.ix.2)).congr
      fun d ix => ?_
    rw [← and_or_left, List.mem_cons, List.mem_singleton]
  · rw [if_neg hv, if_neg hv]
    refine (writes_invalidate c s e.ix.1).congr fun d ix => ?_
    rw [List.mem_singleton]

/-- Both rules of a VLAN are switched on every device. -/
theorem writes_pclEnableVt (c : VtUnit) (s : VtRules) (e : VtIx) (enable : Bool) :
    Writes (fun d ix => d < c.NDEVS ∧ ix ∈ e.ruleIxs) s (s.pclEnableVt c e enable) := by
  have hinv := writes_invalidateVtIx c s e
  have hldev : (c.port (vtKeyPid e.key)).ldev < c.NDEVS := c.ldev_lt _
  unfold pclEnableVt
  cases enable with
  | false => exact hinv
  | true =>
    have hin := hinv.absorb (writes_setTcam _ (c.port (vtKeyPid e.key)).ldev e.ix.1
      (some (ingressRule c e))) fun d ix ⟨hd, hix⟩ => by
        rw [hd, hix]
        refine ⟨hldev, ?_⟩
        unfold VtIx.ruleIxs
        split_ifs <;> exact List.mem_cons_self
    dsimp only
    rw [if_pos rfl]
    by_cases hegress : vtKeyVid e.key ≠ 0 ∧ e.toVid ≠ 0 ∧ e.tunnel = false
    · rw [if_pos hegress]
      refine hin.absorb (writes_setTcam _ _ _ _) fun d ix ⟨hd, hix⟩ => ?_
      rw [hd, hix]
      refine ⟨hldev, ?_⟩
      unfold VtIx.ruleIxs VtIx.vid
      rw [if_pos hegress.1]
      exact List.mem_cons_of_mem _ List.mem_cons_self
    · rw [if_neg hegress]
      exact hin

/-- The indices of a list of translations, on every device. -/
theorem exists_ruleIxs (es : List VtIx) (n : ℕ) :
    (∃ e ∈ es, d < n ∧ ix ∈ e.ruleIxs) ↔ d < n ∧ ix ∈ es.flatMap VtIx.ruleIxs := by
  rw [List.mem_flatMap]
  constructor
  · rintro ⟨e, he, hd, hix⟩
    exact ⟨hd, e, he, hix⟩
  · rintro ⟨hd, e, he, hix⟩
    exact ⟨e, he, hd, hix⟩

/-! ### The invariant -/

variable (c s) in
/-- What calls keep: no translation is there twice, and their ports are. -/
structure Inv : Prop where
  unique : Keyed.Unique VtIx.key s.vt_ix
  ports : ∀ e ∈ s.vt_ix, 1 ≤ e.pid ∧ e.pid ≤ c.NPORTS
  divided : s.Divided c
  defaults : s.DefaultsOwn c

/-- A translation without what it does. -/
def view (e : VtIx) : ℕ × ℕ × ℕ := (e.key, e.ix)

/-- The indexes in use on a device depend on the keys and indexes of the rules only. -/
theorem live_flatMap (s : VtRules) (d : ℕ) : (s.live c d).flatMap VtIx.ixs =
    ((s.vt_ix.map view).filter fun x => vtKeyVid x.1 ≠ 0 ∧ (c.port (vtKeyPid x.1)).ldev = d).flatMap
      fun x => [x.2.1, x.2.2] := by
  rw [List.filter_map, List.flatMap_map]
  rfl

/-- What translations do has no part in the invariant. -/
theorem Inv.congr (h : Inv c s) (hrules : t.rules = s.rules)
    (hview : t.vt_ix.map view = s.vt_ix.map view) :
    Inv c t := by
  have hmem (e : VtIx) (he : e ∈ t.vt_ix) : ∃ e' ∈ s.vt_ix, view e' = view e := by
    have hx : view e ∈ t.vt_ix.map view := List.mem_map_of_mem he
    rw [hview] at hx
    exact List.mem_map.mp hx
  have hkeys (s : VtRules) : s.vt_ix.map VtIx.key = (s.vt_ix.map view).map Prod.fst := by
    rw [List.map_map]
    rfl
  refine ⟨?_, fun e he => ?_, fun d => ?_, fun e he hvid => ?_⟩
  · have hu := h.unique
    unfold Keyed.Unique at hu ⊢
    rw [hkeys] at hu ⊢
    rw [hview]
    exact hu
  · obtain ⟨e', he', heq⟩ := hmem e he
    have hkey : e.key = e'.key := (congrArg Prod.fst heq).symm
    unfold VtIx.pid
    rw [hkey]
    exact h.ports e' he'
  · have hd := h.divided d
    rw [live_flatMap] at hd ⊢
    rw [hview, hrules]
    exact hd
  · obtain ⟨e', he', heq⟩ := hmem e he
    obtain ⟨hkey, hix⟩ := Prod.mk.inj heq
    have hown := h.defaults e' he' (by unfold VtIx.vid; rw [hkey]; exact hvid)
    unfold VtIx.ruleIxs VtIx.vid VtIx.pid at hown ⊢
    rw [hkey, hix] at hown
    exact hown

/-- A translation of a VLAN takes indices, or gives them back. -/
theorem pool_perm (hvt : t.vt_ix.Perm (e :: s.vt_ix)) (hvid : e.vid ≠ 0)
    (hat : (s.rules (c.port e.pid).ldev).Perm (e.ixs ++ t.rules (c.port e.pid).ldev))
    (hother : ∀ d ≠ (c.port e.pid).ldev, s.rules d = t.rules d) (d : ℕ) :
    (t.rules d ++ (t.live c d).flatMap VtIx.ixs).Perm
        (s.rules d ++ (s.live c d).flatMap VtIx.ixs) := by
  have hlive : (t.live c d).Perm ((e :: s.vt_ix).filter fun e => e.vid ≠ 0 ∧
      (c.port e.pid).ldev = d) :=
    hvt.filter _
  by_cases hd : (c.port e.pid).ldev = d
  · have hcons : (e :: s.vt_ix).filter (fun e => e.vid ≠ 0 ∧ (c.port e.pid).ldev = d) =
        e :: s.live c d := List.filter_cons_of_pos (decide_eq_true ⟨hvid, hd⟩)
    rw [hcons] at hlive
    subst hd
    set d := (c.port e.pid).ldev
    have hnew : (t.rules d ++ (t.live c d).flatMap VtIx.ixs).Perm
        (t.rules d ++ (e.ixs ++ (s.live c d).flatMap VtIx.ixs)) :=
      (hlive.flatMap_right VtIx.ixs).append_left _
    have hswap : (t.rules d ++ (e.ixs ++ (s.live c d).flatMap VtIx.ixs)).Perm
        ((e.ixs ++ t.rules d) ++ (s.live c d).flatMap VtIx.ixs) := by
      rw [← List.append_assoc]
      exact List.perm_append_comm.append_right _
    exact hnew.trans (hswap.trans (hat.symm.append_right _))
  · have hskip : (e :: s.vt_ix).filter (fun e => e.vid ≠ 0 ∧
        (c.port e.pid).ldev = d) = s.live c d :=
      List.filter_cons_of_neg (by simp [hd])
    rw [hskip] at hlive
    rw [hother d (Ne.symm hd)]
    exact (hlive.flatMap_right VtIx.ixs).append_left _

/-- A default translation takes no index of the pool. -/
theorem live_perm_of_default (hvt : t.vt_ix.Perm (e :: s.vt_ix)) (hvid : e.vid = 0) (d : ℕ) :
    (t.live c d).Perm (s.live c d) := by
  have hskip : (e :: s.vt_ix).filter (fun e => e.vid ≠ 0 ∧ (c.port e.pid).ldev = d) = s.live c d :=
    List.filter_cons_of_neg (by simp [hvid])
  have hlive : (t.live c d).Perm ((e :: s.vt_ix).filter fun e => e.vid ≠ 0 ∧
      (c.port e.pid).ldev = d) :=
    hvt.filter _
  rwa [hskip] at hlive

/-- Free indexes and indexes in use are reserved for the VLAN rules. -/
theorem vt_reserved (hd : s.Divided c) (hix : ix ∈ s.rules d ∨ ∃ e ∈ s.live c d, ix ∈ e.ixs) :
    c.Reserved d ix .vt := by
  have hmem : ix ∈ s.rules d ++ (s.live c d).flatMap VtIx.ixs := by
    rw [List.mem_append, List.mem_flatMap]
    exact hix
  exact List.mem_range'_1.mp ((hd d).mem_iff.mp hmem)

/-- The rules of a device are those of its ports that are not for the default VLAN. -/
theorem mem_live : e ∈ s.live c d ↔ e ∈ s.vt_ix ∧ e.vid ≠ 0 ∧ (c.port e.pid).ldev = d := by
  unfold live
  rw [List.mem_filter, decide_eq_true_iff]

/-- Free indexes and indexes in use are all different. -/
theorem Divided.nodup (hd : s.Divided c) (d : ℕ) :
    (s.rules d ++ (s.live c d).flatMap VtIx.ixs).Nodup :=
  (hd d).nodup_iff.mpr List.nodup_range'

/-- An index of a translation is that of no other one, and not free. -/
theorem Divided.eq_of_mem (hd : s.Divided c) {e' : VtIx} (he : e ∈ s.live c d)
    (he' : e' ∈ s.live c d)
    (hix : ix ∈ e.ixs) (hix' : ix ∈ e'.ixs) : e = e' := by
  have hpair := (List.nodup_flatMap.mp (List.nodup_append.mp (hd.nodup d)).2.1).2
  by_contra hne
  have hsymm : Std.Symm (Function.onFun List.Disjoint VtIx.ixs) :=
    ⟨fun _ _ h => List.Disjoint.symm h⟩
  exact hpair.forall he he' hne hix hix'

/-- An index in use is not free. -/
theorem Divided.not_free (hd : s.Divided c) (he : e ∈ s.live c d) (hix : ix ∈ e.ixs) :
    ix ∉ s.rules d := fun hfree =>
  (List.nodup_append.mp (hd.nodup d)).2.2 ix hfree ix (List.mem_flatMap.mpr ⟨e, he, hix⟩) rfl

/-! ### The device of the port -/

/-- A free index is for nothing else. -/
theorem not_foreign_of_free (hd : s.Divided c) (hix : ix ∈ s.rules d) : ¬s.Foreign c pid d ix := by
  rintro (⟨u, hu, hvt, -⟩ | ⟨e, he, -, hmem⟩)
  · exact hvt (hu.unique (vt_reserved hd (.inl hix)))
  · exact hd.not_free he hmem hix

/-- The index of the default translation of a port is for nothing else. -/
theorem not_foreign_def (hd : s.Divided c) (hpid : 1 ≤ pid ∧ pid ≤ c.NPORTS) :
    ¬s.Foreign c pid (c.port pid).ldev (c.vtPortIpclDefRuleIx pid) := by
  have hres : c.Reserved (c.port pid).ldev (c.vtPortIpclDefRuleIx pid) (.vtDef pid true) :=
    ⟨hpid, rfl, rfl⟩
  rintro (⟨u, hu, -, hdef⟩ | ⟨e, he, -, hmem⟩)
  · exact hdef true (hu.unique hres)
  · exact RuleUse.noConfusion (hres.unique (vt_reserved hd (.inr ⟨e, he, hmem⟩)))

/-- The indices of a translation are for nothing else. -/
theorem Inv.not_foreign (h : Inv c s) (he : e ∈ s.vt_ix) (hix : ix ∈ e.ruleIxs) :
    ¬s.Foreign c e.pid (c.port e.pid).ldev ix := by
  by_cases hvid : e.vid = 0
  · rw [h.defaults e he hvid, List.mem_singleton] at hix
    rw [hix]
    exact not_foreign_def h.divided (h.ports e he)
  · unfold VtIx.ruleIxs at hix
    rw [if_pos hvid] at hix
    have hlive : e ∈ s.live c (c.port e.pid).ldev := mem_live.mpr ⟨he, hvid, rfl⟩
    rintro (⟨u, hu, hvt, -⟩ | ⟨e', he', hpid, hmem⟩)
    · exact hvt (hu.unique (vt_reserved h.divided (.inr ⟨e, hlive, hix⟩)))
    · exact hpid (congrArg VtIx.pid (h.divided.eq_of_mem he' hlive hmem hix))

/-! ### Calls -/

/-- `get_vt_ix` finds the translation, makes a new one, or fails. -/
inductive Gets (c : VtUnit) (s : VtRules) (pid fromVid : ℕ) (alloc : Bool) :
  Option VtIx → VtRules → Prop
  | found (e e' : VtIx) (t : VtRules) : Keyed.find VtIx.key s.vt_ix (vtKey pid fromVid) = some e →
      view e' = view e → e' ∈ t.vt_ix → t.vt_ix.map view = s.vt_ix.map view → t.rules = s.rules →
      t.touched = s.touched → t.tcam = s.tcam → Gets c s pid fromVid alloc (some e') t
  | taken (e : VtIx) (n₀ n₁ : ℕ) (rest : List ℕ) (t : VtRules) : alloc = true → fromVid ≠ 0 →
      Keyed.find VtIx.key s.vt_ix (vtKey pid fromVid) = none → e.key = vtKey pid fromVid →
      e.ix = (n₀, n₁) → s.rules (c.port pid).ldev = n₀ :: n₁ :: rest →
      t.rules = update s.rules (c.port pid).ldev rest → t.vt_ix = s.vt_ix ++ [e] →
      t.touched = s.touched → t.tcam = s.tcam → Gets c s pid fromVid alloc (some e) t
  | default (e : VtIx) (t : VtRules) : alloc = true → fromVid = 0 →
      Keyed.find VtIx.key s.vt_ix (vtKey pid fromVid) = none → e.key = vtKey pid fromVid →
      e.ix = (c.vtPortIpclDefRuleIx pid, 0) → t.rules = s.rules → t.vt_ix = s.vt_ix ++ [e] →
      t.touched = s.touched → t.tcam = s.tcam → Gets c s pid fromVid alloc (some e) t
  | fails (t : VtRules) : t = s → Keyed.find VtIx.key s.vt_ix (vtKey pid fromVid) = none →
      (alloc = true → s.ruleIxsFor c pid fromVid = []) → Gets c s pid fromVid alloc none t

/-- What finding or making the entry of a rule does. -/
theorem gets_getVtIx (hu : Keyed.Unique VtIx.key s.vt_ix) (alloc : Bool) :
    Gets c s pid fromVid alloc
    (s.getVtIx c pid fromVid toVid tunnel alloc).1
        (s.getVtIx c pid fromVid toVid tunnel alloc).2 := by
  unfold getVtIx
  cases hfind : Keyed.find VtIx.key s.vt_ix (vtKey pid fromVid) with
  | some e =>
    have hkey := Keyed.key_of_find hfind
    refine .found e _ _ hfind rfl ?_ (Keyed.map_modify view fun _ => rfl) rfl rfl rfl
    rw [← hkey]
    exact (hu.mem_modify_self_iff (Keyed.mem_of_find hfind)).mpr (.inl rfl)
  | none =>
    dsimp only
    cases alloc with
    | false => exact .fails _ rfl hfind fun h => absurd h (by decide)
    | true =>
      rw [if_pos rfl]
      by_cases hv : fromVid ≠ 0
      · rw [if_pos hv]
        unfold pclAllocRules
        match hrules : s.rules (c.port pid).ldev with
        | n₀ :: n₁ :: rest =>
          exact .taken _ n₀ n₁ rest _ rfl hv hfind rfl rfl hrules rfl rfl rfl rfl
        | [] => exact .fails _ rfl hfind fun _ => by simp [ruleIxsFor, hfind, hv, hrules]
        | [n] => exact .fails _ rfl hfind fun _ => by simp [ruleIxsFor, hfind, hv, hrules]
      · rw [if_neg hv]
        exact .default _ _ rfl (not_not.mp hv) hfind rfl rfl rfl rfl rfl rfl

namespace Gets

variable {alloc : Bool} {o : Option VtIx}

/-- The invariant is kept. -/
theorem inv (hg : Gets c s pid fromVid alloc o t) (hc : Callable c pid fromVid) (h : Inv c s) :
    Inv c t := by
  cases hg with
  | found e e' t _ _ _ hview hrules => exact h.congr hrules hview
  | fails _ heq => exact heq ▸ h
  | taken e n₀ n₁ rest t _ hv hfind hkey hix hold hrules hvt =>
    have hpid := hc.pid_eq hkey
    have hvid : e.vid ≠ 0 := (hc.vid_eq hkey).symm ▸ hv
    have hperm : t.vt_ix.Perm (e :: s.vt_ix) := hvt ▸ List.perm_append_singleton e s.vt_ix
    refine ⟨?_, fun x hx => ?_, fun d => ?_, fun x hx hzero => ?_⟩
    · rw [hvt]
      exact h.unique.snoc fun y hy => hkey ▸ Keyed.find_eq_none_iff.mp hfind y hy
    · rcases List.mem_cons.mp (hperm.mem_iff.mp hx) with rfl | hx
      · rw [hpid]
        exact hc.1
      · exact h.ports x hx
    · refine (pool_perm hperm hvid ?_ (fun d hd => ?_) d).trans (h.divided d)
      · unfold VtIx.ixs
        rw [hpid, hold, hrules, update_self, hix]
        exact .refl _
      · rw [hrules, update_of_ne (hpid ▸ hd)]
    · rcases List.mem_cons.mp (hperm.mem_iff.mp hx) with rfl | hx
      · exact absurd hzero hvid
      · exact h.defaults x hx hzero
  | default e t _ hv hfind hkey hix hrules hvt =>
    have hpid := hc.pid_eq hkey
    have hvid : e.vid = 0 := (hc.vid_eq hkey).trans hv
    have hperm : t.vt_ix.Perm (e :: s.vt_ix) := hvt ▸ List.perm_append_singleton e s.vt_ix
    refine ⟨?_, fun x hx => ?_, fun d => ?_, fun x hx hzero => ?_⟩
    · rw [hvt]
      exact h.unique.snoc fun y hy => hkey ▸ Keyed.find_eq_none_iff.mp hfind y hy
    · rcases List.mem_cons.mp (hperm.mem_iff.mp hx) with rfl | hx
      · rw [hpid]
        exact hc.1
      · exact h.ports x hx
    · rw [hrules]
      exact (((live_perm_of_default hperm hvid d).flatMap_right VtIx.ixs).append_left _).trans
        (h.divided d)
    · rcases List.mem_cons.mp (hperm.mem_iff.mp hx) with rfl | hx
      · unfold VtIx.ruleIxs
        rw [if_neg (not_not_intro hvid), hix, hpid]
      · exact h.defaults x hx hzero

/-- Finding the entry of a rule writes nothing to the hardware. -/
theorem touches (hg : Gets c s pid fromVid alloc o t) : Touches (fun _ _ => False) s t := by
  cases hg with
  | found e e' t _ _ _ _ _ htouched htcam => exact .none htouched htcam
  | taken e n₀ n₁ rest t _ _ _ _ _ _ _ _ htouched htcam => exact .none htouched htcam
  | default e t _ _ _ _ _ _ _ htouched htcam => exact .none htouched htcam
  | fails _ heq => exact .none (heq ▸ rfl) (heq ▸ rfl)

/-- The indices of the translation are those that are expected. -/
theorem ruleIxs_eq (hg : Gets c s pid fromVid true (some e) t) (hc : Callable c pid fromVid) :
    e.ruleIxs = s.ruleIxsFor c pid fromVid := by
  unfold ruleIxsFor
  cases hg with
  | found e₀ _ _ hfind hview =>
    obtain ⟨hkey, hix⟩ := Prod.mk.inj hview
    rw [hfind]
    unfold VtIx.ruleIxs VtIx.vid
    rw [hkey, hix]
  | taken _ n₀ n₁ rest _ _ hv hfind hkey hix hold =>
    have hvid : e.vid ≠ 0 := (hc.vid_eq hkey).symm ▸ hv
    rw [hfind, hold]
    dsimp only
    unfold VtIx.ruleIxs
    rw [if_pos hvid, if_pos hv, hix]
  | default _ _ _ hv hfind hkey hix =>
    have hvid : e.vid = 0 := (hc.vid_eq hkey).trans hv
    rw [hfind]
    dsimp only
    unfold VtIx.ruleIxs
    rw [if_neg (not_not_intro hvid), if_neg (not_not_intro hv), hix]

end Gets

/-- A translation is set up. -/
theorem pclSetupVt_spec (h : Inv c s) (hc : Callable c pid fromVid) (toVid : ℕ)
    (tunnel enable : Bool) : Inv c (s.pclSetupVt c pid fromVid toVid tunnel enable).2 ∧
      Touches (fun d ix => d < c.NDEVS ∧ enable = true ∧ ix ∈ s.ruleIxsFor c pid fromVid) s
        (s.pclSetupVt c pid fromVid toVid tunnel enable).2 := by
  have hgets : Gets c s pid fromVid enable (s.getVtIx c pid fromVid toVid tunnel enable).1
      (s.getVtIx c pid fromVid toVid tunnel enable).2 := gets_getVtIx h.unique enable
  unfold pclSetupVt
  generalize s.getVtIx c pid fromVid toVid tunnel enable = r at hgets
  obtain ⟨o, t⟩ := r
  have hinv := hgets.inv hc h
  cases o with
  | none =>
    refine ⟨hinv, hgets.touches.congr fun d ix => ?_⟩
    cases hgets with
    | fails _ _ _ hno =>
      rw [false_iff]
      rintro ⟨-, htrue, hix⟩
      rw [hno htrue] at hix
      exact absurd hix List.not_mem_nil
  | some e =>
    cases enable with
    | false =>
      refine ⟨hinv, hgets.touches.congr fun d ix => ?_⟩
      simp
    | true =>
      have hw := writes_pclEnableVt c t e true
      refine ⟨hinv.congr hw.rules (congrArg _ hw.vt_ix), (hgets.touches.trans hw.toTouches).congr
        fun d ix => ?_⟩
      rw [hgets.ruleIxs_eq hc]
      simp

section Free

variable {dev : ℕ}

/-- The indexes of a rule go back in front of the free ones. -/
theorem freeVtIx_rules (c : VtUnit) (s : VtRules) (dev : ℕ) (e : VtIx) :
    (s.freeVtIx c dev e).rules = update s.rules dev (e.ix.2 :: e.ix.1 :: s.rules dev) ∧
      (s.freeVtIx c dev e).vt_ix = Keyed.del VtIx.key s.vt_ix e.key := by
  have hw := writes_invalidateVtIx c s e
  unfold freeVtIx pclFreeRules
  dsimp only
  rw [hw.rules, hw.vt_ix]
  exact ⟨rfl, rfl⟩

/-- Freeing a rule touches its two indexes on each device. -/
theorem touches_freeVtIx (c : VtUnit) (dev : ℕ) (s : VtRules) (e : VtIx) :
    Touches (fun d ix => d < c.NDEVS ∧ ix ∈ e.ruleIxs) s (s.freeVtIx c dev e) :=
  ⟨(writes_invalidateVtIx c s e).touched, (writes_invalidateVtIx c s e).tcam⟩

/-- The translation of a VLAN is freed. -/
theorem Inv.free (h : Inv c s) (he : e ∈ s.vt_ix) (hvid : e.vid ≠ 0)
    (hdev : (c.port e.pid).ldev = dev) :
    Inv c (s.freeVtIx c dev e) := by
  obtain ⟨hrules, hvt⟩ := freeVtIx_rules c s dev e
  have hmem (x : VtIx) (hx : x ∈ (s.freeVtIx c dev e).vt_ix) : x ∈ s.vt_ix :=
    Keyed.mem_of_mem_del (hvt ▸ hx)
  have hperm : s.vt_ix.Perm (e :: (s.freeVtIx c dev e).vt_ix) :=
    hvt ▸ Keyed.perm_cons_del (h.unique.find_eq_some_iff.mpr ⟨he, rfl⟩)
  refine ⟨hvt ▸ h.unique.del, fun x hx => h.ports x (hmem x hx), fun d => ?_,
    fun x hx => h.defaults x (hmem x hx)⟩
  subst hdev
  refine ((pool_perm hperm hvid ?_ fun d hd => ?_) d).symm.trans (h.divided d)
  · rw [hrules, update_self]
    exact .swap _ _ _
  · rw [hrules, update_of_ne hd]

/-- Translations of VLANs are freed. -/
theorem Inv.foldl_free (h : Inv c s) {es : List VtIx} (hu : Keyed.Unique VtIx.key es)
    (hes : ∀ e ∈ es, e ∈ s.vt_ix ∧ e.vid ≠ 0 ∧ (c.port e.pid).ldev = dev) :
    Inv c (es.foldl (fun s e => s.freeVtIx c dev e) s) := by
  induction es generalizing s with
  | nil => exact h
  | cons e es ih =>
    obtain ⟨hne, hu⟩ := Keyed.unique_cons.mp hu
    obtain ⟨he, hvid, hdev⟩ := hes e List.mem_cons_self
    refine ih (h.free he hvid hdev) hu fun x hx => ?_
    obtain ⟨hx', hrest⟩ := hes x (List.mem_cons_of_mem e hx)
    rw [(freeVtIx_rules c s dev e).2]
    exact ⟨Keyed.mem_del_of_ne hx' (hne x hx), hrest⟩

/-- What is freed is on the stack afterwards. -/
theorem mem_foldl_free {es : List VtIx} (hix : ix ∈ s.rules dev ∨ ∃ e ∈ es, ix ∈ e.ixs) :
    ix ∈ (es.foldl (fun s e => s.freeVtIx c dev e) s).rules dev := by
  induction es generalizing s with
  | nil =>
    rcases hix with hix | ⟨e, he, -⟩
    · exact hix
    · exact absurd he List.not_mem_nil
  | cons e es ih =>
    apply ih
    rw [(freeVtIx_rules c s dev e).1, update_self]
    rcases hix with hix | ⟨e', he', hix⟩
    · exact .inl (List.mem_cons_of_mem _ (List.mem_cons_of_mem _ hix))
    · rcases List.mem_cons.mp he' with rfl | he'
      · left
        unfold VtIx.ixs at hix
        rcases List.mem_cons.mp hix with rfl | hix
        · exact List.mem_cons_of_mem _ List.mem_cons_self
        · rw [List.mem_singleton.mp hix]
          exact List.mem_cons_self
      · exact .inr ⟨e', he', hix⟩

/-- The index of a default translation is not in the pool. -/
theorem Inv.not_divided (h : Inv c s) (he : e ∈ s.vt_ix) (hvid : e.vid = 0)
    (hix : e.ix.1 ∈ t.rules (c.port e.pid).ldev) : ¬t.Divided c := by
  intro hd
  have hown := h.defaults e he hvid
  unfold VtIx.ruleIxs at hown
  rw [if_neg (not_not_intro hvid)] at hown
  have hdef : c.Reserved (c.port e.pid).ldev e.ix.1 (.vtDef e.pid true) :=
    ⟨h.ports e he, rfl, List.head_eq_of_cons_eq hown⟩
  exact RuleUse.noConfusion (hdef.unique (vt_reserved hd (.inl hix)))

end Free

/-- Translations on a port are freed, as those of a call. -/
theorem freed_spec (h : Inv c s) (op : VtRuleOp) : Keyed.Unique VtIx.key (s.freed c op) ∧
    ∀ e ∈ s.freed c op, e ∈ s.vt_ix ∧ e.pid = op.pid := by
  unfold freed
  cases op with
  | setup => exact ⟨Keyed.unique_nil, fun e he => absurd he List.not_mem_nil⟩
  | enable => exact ⟨Keyed.unique_nil, fun e he => absurd he List.not_mem_nil⟩
  | clear pid =>
    refine ⟨h.unique.sublist (List.filter_sublist.map _), fun e he => ?_⟩
    obtain ⟨he, hpid⟩ := List.mem_filter.mp he
    exact ⟨he, of_decide_eq_true hpid⟩
  | remove pid fromVid tunnel =>
    dsimp only
    by_cases hc : Callable c pid fromVid
    · rw [if_pos hc]
      cases hfind : Keyed.find VtIx.key s.vt_ix (vtKey pid fromVid) with
      | none => exact ⟨Keyed.unique_nil, fun e he => absurd he List.not_mem_nil⟩
      | some e =>
        refine ⟨List.nodup_singleton _, fun x hx => ?_⟩
        obtain rfl := List.mem_singleton.mp hx
        exact ⟨Keyed.mem_of_find hfind, hc.pid_eq (Keyed.key_of_find hfind)⟩
    · rw [if_neg hc]
      exact ⟨Keyed.unique_nil, fun e he => absurd he List.not_mem_nil⟩

/-- A call frees its translations on the device of the port, and then touches what it touches. -/
structure Frees (c : VtUnit) (s : VtRules) (op : VtRuleOp) (t : VtRules) : Prop where
  inv : (∀ e ∈ freed c s op, e.vid ≠ 0) → Inv c t
  pushed : ∀ e ∈ freed c s op, e.ix.1 ∈ t.rules (c.port op.pid).ldev
  touches : Touches (fun d ix => d < c.NDEVS ∧ ix ∈ s.ruleIxsOf c op) s t

/-- `pcl_remove_vt` frees the rule of its port and VLAN. -/
theorem frees_remove (h : Inv c s) (pid fromVid : ℕ) (tunnel : Bool) :
    Frees c s (.remove pid fromVid tunnel)
      (if Callable c pid fromVid then (s.pclRemoveVt c pid fromVid tunnel).2 else s) := by
  by_cases hc : Callable c pid fromVid
  · rw [if_pos hc]
    have hgets : Gets c s pid fromVid false (s.getVtIx c pid fromVid 0 tunnel false).1
        (s.getVtIx c pid fromVid 0 tunnel false).2 := gets_getVtIx h.unique false
    have hfreed : s.freed c (.remove pid fromVid tunnel) =
        (Keyed.find VtIx.key s.vt_ix (vtKey pid fromVid)).toList := if_pos hc
    -- the rule is looked for and not made
    unfold pclRemoveVt
    generalize s.getVtIx c pid fromVid 0 tunnel false = r at hgets
    obtain ⟨o, t⟩ := r
    cases hgets with
    | taken _ _ _ _ _ hno => exact absurd hno (by decide)
    | default _ _ hno => exact absurd hno (by decide)
    -- no rule is found
    | fails _ heq hfind =>
      rw [heq]
      have hnil : s.freed c (.remove pid fromVid tunnel) = [] := by rw [hfreed, hfind]; rfl
      refine ⟨fun _ => h, fun e he => ?_, (Touches.none rfl rfl).congr fun d ix => ?_⟩
      · rw [hnil] at he
        exact absurd he List.not_mem_nil
      · unfold ruleIxsOf
        dsimp only
        rw [hnil]
        simp
    -- the rule that is found goes with its two indexes
    | found e e' _ hfind hview hmem hviews hrules htouched htcam =>
      have hone : s.freed c (.remove pid fromVid tunnel) = [e] := by rw [hfreed, hfind]; rfl
      obtain ⟨hkey, hix⟩ := Prod.mk.inj hview
      have hpid : e'.pid = pid := hc.pid_eq (hkey.trans (Keyed.key_of_find hfind))
      have hvid : e'.vid = e.vid := congrArg vtKeyVid hkey
      have hixs : e'.ruleIxs = e.ruleIxs := by
        unfold VtIx.ruleIxs
        rw [hvid, hix]
      dsimp only
      refine ⟨fun hall => ?_, fun x hx => ?_, ?_⟩
      · refine (h.congr hrules hviews).free hmem ?_ (by rw [hpid])
        rw [hvid]
        exact hall e (hone ▸ List.mem_singleton_self e)
      · rw [hone] at hx
        obtain rfl := List.mem_singleton.mp hx
        rw [(freeVtIx_rules c t _ e').1, hix]
        show x.ix.1 ∈ update t.rules (c.port pid).ldev _ (c.port pid).ldev
        rw [update_self]
        exact List.mem_cons_of_mem _ List.mem_cons_self
      · refine ((Touches.none htouched htcam).trans (touches_freeVtIx c _ t e')).congr
          fun d ix => ?_
        unfold ruleIxsOf
        dsimp only
        rw [hone, hixs]
        simp
  · -- the call is refused before it reaches the rules
    rw [if_neg hc]
    have hnil : s.freed c (.remove pid fromVid tunnel) = [] := if_neg hc
    refine ⟨fun _ => h, fun e he => ?_, (Touches.none rfl rfl).congr fun d ix => ?_⟩
    · rw [hnil] at he
      exact absurd he List.not_mem_nil
    · unfold ruleIxsOf
      dsimp only
      rw [hnil]
      simp

/-- A number that names a port names the one of the configuration. -/
theorem portPtr_eq {port : Port} (hport : c.portPtr pid = some port) :
    port = c.port pid ∧ 1 ≤ pid ∧ pid ≤ c.NPORTS := by
  unfold AclConf.portPtr at hport
  split_ifs at hport with hvalid
  exact ⟨(Option.some_inj.mp hport).symm, hvalid⟩

/-- `pcl_port_clear_vt` frees the rules of its port. -/
theorem frees_clear (h : Inv c s) (hs : s.pclPortClearVt c pid = some t) :
    Frees c s (.clear pid) t := by
  have hall := freed_spec h (.clear pid)
  unfold pclPortClearVt at hs
  have hfilter (hne : pid ≠ c.ALL_PORTS) :
      (s.vt_ix.filter fun e => pid = c.ALL_PORTS ∨ vtKeyPid e.key = pid) =
          s.freed c (.clear pid) := by
    refine List.filter_congr fun e _ => ?_
    simp only [hne, false_or]
    rfl
  split at hs
  · next hnil =>
    obtain rfl := Option.some_inj.mp hs
    have hempty : s.freed c (.clear pid) = [] := by
      by_cases hne : pid = c.ALL_PORTS
      · have hvt : s.vt_ix = [] := by
          rw [← hnil]
          exact (List.filter_eq_self.mpr fun e _ => decide_eq_true (.inl hne)).symm
        unfold freed
        dsimp only
        rw [hvt]
        rfl
      · rw [← hfilter hne, hnil]
    refine ⟨fun _ => h, fun e he => ?_, (Touches.none rfl rfl).congr fun d ix => ?_⟩
    · rw [hempty] at he
      exact absurd he List.not_mem_nil
    · unfold ruleIxsOf
      dsimp only
      rw [hempty]
      simp
  · next e es heq =>
    obtain ⟨port, hport, rfl⟩ := Option.map_eq_some_iff.mp hs
    obtain ⟨rfl, hvalid⟩ := portPtr_eq hport
    have hne : pid ≠ c.ALL_PORTS := fun hno => c.ALL_PORTS_invalid (hno ▸ hvalid)
    rw [hfilter hne] at heq
    rw [← heq]
    refine ⟨fun hspec => h.foldl_free hall.1 fun e he => ?_, fun e he => ?_, ?_⟩
    · obtain ⟨hmem, hpid⟩ := hall.2 e he
      exact ⟨hmem, hspec e he, by rw [hpid]; rfl⟩
    · exact mem_foldl_free (.inr ⟨e, he, List.mem_cons_self⟩)
    · refine (Touches.foldl (touches_freeVtIx c (c.port pid).ldev) _ s).congr fun d ix => ?_
      exact exists_ruleIxs _ _

/-- A call, seen from the state before. -/
theorem step_frees (h : Inv c s) (hs : s.step c op = some t) :
    Frees c { s with touched := [] } op t := by
  have h₀ : Inv c { s with touched := [] } := h.congr rfl rfl
  unfold step at hs
  cases op with
  | setup pid fromVid toVid tunnel enable =>
    obtain rfl := Option.some_inj.mp hs
    have hno (e : VtIx) (he : e ∈ freed c { s with touched := [] }
        (.setup pid fromVid toVid tunnel enable)) :
        False := absurd he List.not_mem_nil
    by_cases hc : Callable c pid fromVid
    · rw [if_pos hc]
      obtain ⟨hinv, htouch⟩ := pclSetupVt_spec h₀ hc toVid tunnel enable
      refine ⟨fun _ => hinv, fun e he => (hno e he).elim, htouch.congr fun d ix => ?_⟩
      cases enable <;> simp [ruleIxsOf, hc]
    · rw [if_neg hc]
      refine ⟨fun _ => h₀, fun e he => (hno e he).elim, (Touches.none rfl rfl).congr fun d ix => ?_⟩
      simp [ruleIxsOf, hc]
  | remove pid fromVid tunnel =>
    obtain rfl := Option.some_inj.mp hs
    exact frees_remove h₀ pid fromVid tunnel
  | enable pid enable =>
    obtain rfl := Option.some_inj.mp hs
    have hw (s : VtRules) (e : VtIx) := writes_pclEnableVt c s e enable
    have hrules := Sweep.foldl_keeps (fun s : VtRules => s.rules) (fun s e _ => (hw s e).rules)
      (l := s.vt_ix.filter fun e => vtKeyPid e.key = pid) { s with touched := [] }
    have hvt := Sweep.foldl_keeps (fun s : VtRules => s.vt_ix) (fun s e _ => (hw s e).vt_ix)
      (l := s.vt_ix.filter fun e => vtKeyPid e.key = pid) { s with touched := [] }
    refine ⟨fun _ => h.congr hrules (congrArg _ hvt), fun e he => absurd he List.not_mem_nil, ?_⟩
    refine (Touches.foldl (fun s e => (hw s e).toTouches) _ { s with touched := [] }).congr
      fun d ix => ?_
    exact exists_ruleIxs _ _
  | clear pid => exact frees_clear h₀ hs

/-- What a call touches on the device of the port is for nothing else. -/
theorem Inv.not_foreign_of_ruleIxsOf (h : Inv c s) (hix : ix ∈ s.ruleIxsOf c op) :
    ¬s.Foreign c op.pid (c.port op.pid).ldev ix := by
  have hown (e : VtIx) (he : e ∈ s.vt_ix) (hpid : e.pid = op.pid) (hmem : ix ∈ e.ruleIxs) :
      ¬s.Foreign c op.pid (c.port op.pid).ldev ix := hpid ▸ h.not_foreign he hmem
  have hfreed (hmem : ix ∈ (s.freed c op).flatMap VtIx.ruleIxs) :
      ¬s.Foreign c op.pid (c.port op.pid).ldev ix := by
    obtain ⟨e, he, hmem⟩ := List.mem_flatMap.mp hmem
    obtain ⟨hvt, hpid⟩ := (freed_spec h op).2 e he
    exact hown e hvt hpid hmem
  -- which indexes are touched depends on the call
  cases op with
  | remove => exact hfreed hix
  | clear => exact hfreed hix
  | enable pid enable =>
    obtain ⟨e, he, hmem⟩ := List.mem_flatMap.mp hix
    obtain ⟨he, hpid⟩ := List.mem_filter.mp he
    exact hown e he (of_decide_eq_true hpid) hmem
  | setup pid fromVid toVid tunnel enable =>
    unfold ruleIxsOf at hix
    dsimp only at hix
    split_ifs at hix with hc
    · unfold ruleIxsFor at hix
      -- a rule that is there keeps its indexes
      cases hfind : Keyed.find VtIx.key s.vt_ix (vtKey pid fromVid) with
      | some e =>
        rw [hfind] at hix
        exact hown e (Keyed.mem_of_find hfind) (hc.1.pid_eq (Keyed.key_of_find hfind)) hix
      | none =>
        rw [hfind] at hix
        dsimp only at hix
        by_cases hv : fromVid ≠ 0
        · -- the indices are taken from the stack
          rw [if_pos hv] at hix
          match hrules : s.rules (c.port pid).ldev with
          | n₀ :: n₁ :: rest =>
            rw [hrules] at hix
            refine not_foreign_of_free h.divided ?_
            show ix ∈ s.rules (c.port pid).ldev
            rw [hrules]
            rcases List.mem_cons.mp hix with rfl | hix
            · exact List.mem_cons_self
            · rw [List.mem_singleton.mp hix]
              exact List.mem_cons_of_mem _ List.mem_cons_self
          | [] =>
            rw [hrules] at hix
            exact absurd hix List.not_mem_nil
          | [n] =>
            rw [hrules] at hix
            exact absurd hix List.not_mem_nil
        · -- the rule of the default VLAN has the index reserved for its port
          rw [if_neg hv] at hix
          rw [List.mem_singleton.mp hix]
          exact not_foreign_def h.divided hc.1.1
    · -- the call is refused and touches nothing
      exact absurd hix List.not_mem_nil

/-- A call is proper if and only if it is apart. -/
theorem Inv.proper_iff (h : Inv c s) (hs : s.step c op = some t) :
    (s.Proper c op t ↔ s.Apart c op) ∧ (s.Apart c op → Inv c t) := by
  obtain ⟨hinv, hpushed, htouches⟩ := step_frees h hs
  have hfreed : freed c { s with touched := [] } op = s.freed c op := by cases op <;> rfl
  have hixs : ruleIxsOf c { s with touched := [] } op = s.ruleIxsOf c op := by cases op <;> rfl
  rw [hfreed] at hinv hpushed
  rw [hixs] at htouches
  have htouched (d ix : ℕ) : (d, ix) ∈ t.touched ↔ d < c.NDEVS ∧ ix ∈ s.ruleIxsOf c op := by
    rw [htouches.touched d ix]
    exact or_iff_right List.not_mem_nil
  refine ⟨⟨fun hp => ⟨fun e he hvid => ?_, fun ix hix d hd _ => ?_⟩, fun hok => ?_⟩,
    fun hok => hinv hok.1⟩
  · -- the index of a default translation was pushed on the stack
    obtain ⟨hvt, hpid⟩ := (freed_spec h op).2 e he
    exact h.not_divided hvt hvid (hpid ▸ hpushed e he) hp.divided
  · exact hp.touched d ix ((htouched d ix).mpr ⟨hd, hix⟩)
  · have hafter := hinv hok.1
    refine ⟨hafter.divided, hafter.defaults, fun d ix hix => ?_, fun d ix hno => ?_⟩
    · obtain ⟨hd, hix⟩ := (htouched d ix).mp hix
      by_cases hdev : d = (c.port op.pid).ldev
      · rw [hdev]
        exact h.not_foreign_of_ruleIxsOf hix
      · exact hok.2 ix hix d hd hdev
    · exact htouches.tcam d ix fun hat => hno ((htouched d ix).mpr hat)

/-- In the beginning all reserved indexes are free. -/
theorem init_inv (c : VtUnit) (other : ℕ → ℕ → Option ℕ) : Inv c (init c other) := by
  refine ⟨Keyed.unique_nil, fun e he => absurd he List.not_mem_nil, fun d => ?_,
    fun e he => absurd he List.not_mem_nil⟩
  exact .of_eq (List.append_nil _)

end

/-- In every run of calls that are apart the free indices and those of the translations divide the
pools, and the next call is proper if and only if it is apart. -/
theorem proper_iff_apart (c : VtUnit) (other : ℕ → ℕ → Option ℕ) (s : VtRules)
    (hr : Guarded.Reach (step c) (Apart c) (init c other) s) :
    (s.Divided c ∧ s.DefaultsOwn c) ∧
      ∀ op t, s.step c op = some t → (s.Proper c op t ↔ s.Apart c op) := by
  have hinv : Inv c s := hr.invariant (Inv c) (init_inv c other) fun _ _ _ h hok hs =>
    (h.proper_iff hs).2 hok
  exact ⟨⟨hinv.divided, hinv.defaults⟩, fun op t hs => (hinv.proper_iff hs).1⟩

/-- On a unit with one device calls are apart that free no default translation. -/
theorem apart_of_one_device {c : VtUnit} {s : VtRules} {op : VtRuleOp} (hone : c.NDEVS = 1)
    (h : ∀ e ∈ s.freed c op, e.vid ≠ 0) : s.Apart c op := by
  refine ⟨h, fun ix _ d hd hne => absurd ?_ hne⟩
  have hldev : (c.port op.pid).ldev < c.NDEVS := c.ldev_lt _
  omega

/-- A unit with one device and one port. -/
def onePort : VtUnit where
  NDEVS := 1
  NPORTS := 1
  port _ := ⟨0, false⟩
  stack_id := 0
  stack_pri_port := 0
  stack_sec_port := 0
  NPORTS_pos := Nat.one_pos
  ldev_lt _ := Nat.one_pos
  lport _ := 0
  ALL_PORTS := 0
  NPORTS_lt := by decide
  ALL_PORTS_invalid := by decide

/-- Two VLANs are translated, and the rest is dropped; one of the VLANs is no longer translated
then. -/
def translated : List VtRuleOp :=
  [.setup 1 10 20 false true, .setup 1 0 0 false true, .setup 1 11 21 true true, .enable 1 false,
    .remove 1 10 false]

/-- The run on one port, its free indexes and those of its rules. -/
theorem proper_iff_apart_onePort :
    ∃ s : VtRules, s.Divided onePort ∧ (s.rules 0).take 3 = [32, 31, 35] ∧
    s.vt_ix.map VtIx.ix = [(331, 0), (33, 34)] := by
  have hlast : (Guarded.run (step onePort) (fun s op => ∀ e ∈ s.freed onePort op, e.vid ≠ 0)
      (init onePort fun _ _ => none) translated).map (fun s =>
        ((s.rules 0).take 3, s.vt_ix.map VtIx.ix)) = some ([32, 31, 35], [(331, 0), (33, 34)]) := by
    decide +kernel
  obtain ⟨s, hs, hshown⟩ := Option.map_eq_some_iff.mp hlast
  obtain ⟨hrules, hixs⟩ := Prod.mk.inj hshown
  have hr := (Guarded.Reach.init.of_run hs).mono fun s op h => apart_of_one_device rfl h
  exact ⟨s, (proper_iff_apart onePort (fun _ _ => none) s hr).1.1, hrules, hixs⟩

/-- The default translation of a port is removed, and index 0 is free for the translation of
VLANs. -/
theorem not_pools_divided : ¬∀ (c : VtUnit) (other : ℕ → ℕ → Option ℕ) (s : VtRules),
    Guarded.Reach (step c) (fun _ _ => True) (init c other) s → s.Divided c := by
  intro h
  have hlast : (Guarded.run (step onePort) (fun _ _ => True) (init onePort fun _ _ => none)
      [.setup 1 0 0 false true, .remove 1 0 false]).map (fun s => (s.rules 0).take 2) =
        some [0, 331] := by
    decide +kernel
  obtain ⟨s, hs, hshown⟩ := Option.map_eq_some_iff.mp hlast
  have hmem : 0 ∈ s.rules 0 := (List.take_sublist 2 _).subset (hshown ▸ List.mem_cons_self)
  have hres := vt_reserved
      (h onePort (fun _ _ => none) s (Guarded.Reach.init.of_run hs)) (.inl hmem)
  exact absurd hres.1 (by decide)

end VtRules

end Presteramgr
