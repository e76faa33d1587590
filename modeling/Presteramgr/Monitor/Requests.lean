import Presteramgr.Lib.Guarded
import Presteramgr.Monitor.Sessions

/-!
# Runs of requests for sessions

What a request does with a session is put together from the parts of `Monitor.Sessions`, and over
runs.

## Main results

* `Monitor.step_consistent_iff`: a request keeps all consistent if and only if it is sound;
* `Monitor.consistent_iff_sound`: over runs.
-/

namespace Presteramgr

namespace Monitor

variable {c : MonConf} {m t : Monitor} {x : Session} {f : Session → Session} {num : ℕ}

/-! ### Requests -/

/-- Changes of a session that is not enabled. -/
theorem consistent_modify_of_disabled (h : m.Inv c) (hx : x ∈ m.sessions) (hoff : x.enabled = false)
    (hoff' : (f x).enabled = false) : Consistent c (m.setSession x.num f) ↔ Consistent c m := by
  have hsessions : (m.setSession x.num f).sessions = Keyed.modify Session.num m.sessions x.num f :=
    rfl
  refine consistent_congr (fun y => ?_) ?_ rfl rfl rfl
  · rw [enabled_modify h.unique hx hsessions,
      or_iff_left fun hy => Bool.false_ne_true (hoff'.symm.trans hy.2)]
    refine and_iff_left_of_imp ?_
    rintro hy rfl
    exact Bool.false_ne_true (hoff.symm.trans hy.2)
  · have hcount := enabledCount_modify h.unique hx hsessions
    rwa [if_neg (by rw [hoff]; exact Bool.false_ne_true),
      if_neg (by rw [hoff']; exact Bool.false_ne_true)] at hcount

/-- A request to enable or disable a session, and whether it is then enabled. -/
theorem sessionEnable_iff (h : m.Inv c) (hx : x ∈ m.sessions) {enable : Bool} {st : Status}
    (hs : sessionEnable c m x.num x enable = some (st, t)) :
    (Consistent c t ↔ if enable = true then x.enabled = false →
        ¬(1 < m.n_en_s ∨ m.taken Option.isNone x.mirrors = true) → m.AgreesWith c x
      else x.enabled = true → m.CanStop c x) ∧
    ∃ b, t.sessions = Keyed.modify Session.num m.sessions x.num (fun y => { y with enabled := b }) ∧
      (enable = false → b = false) := by
  have hself (hm : t = m) : ∃ b, t.sessions =
      Keyed.modify Session.num m.sessions x.num (fun y => { y with enabled := b }) ∧
        b = x.enabled := by
    refine ⟨x.enabled, ?_, rfl⟩
    rw [hm]
    refine (h.unique.modify_self hx ?_).symm
    rfl
  unfold sessionEnable at hs
  by_cases heq : x.enabled = enable
  · -- nothing is to be done
    rw [if_pos heq] at hs
    obtain ⟨-, rfl⟩ := Prod.mk.inj (Option.some_inj.mp hs)
    refine ⟨iff_of_true h.toConsistent ?_, ?_⟩
    · rw [heq]
      cases enable
      · exact fun h => absurd h Bool.false_ne_true
      · exact fun h => absurd h.symm Bool.false_ne_true
    · obtain ⟨b, hb, hbx⟩ := hself rfl
      exact ⟨b, hb, fun hfalse => hbx.trans (heq.trans hfalse)⟩
  · -- the session changes from one to the other
    rw [if_neg heq] at hs
    cases enable with
    | true =>
      have hoff : x.enabled = false := Bool.eq_false_of_not_eq_true heq
      rw [if_pos rfl] at hs
      -- a third session, or one that mirrors what another does, is refused
      by_cases hbusy : 1 < m.n_en_s ∨ m.taken Option.isNone x.mirrors = true
      · rw [if_pos hbusy] at hs
        obtain ⟨-, rfl⟩ := Prod.mk.inj (Option.some_inj.mp hs)
        obtain ⟨b, hb, -⟩ := hself rfl
        exact ⟨iff_of_true h.toConsistent fun _ hno => absurd hbusy hno, b, hb,
          fun h => absurd h.symm Bool.false_ne_true⟩
      · rw [if_neg hbusy] at hs
        obtain ⟨compat, hcompat, hs⟩ := Option.bind_eq_some_iff.mp hs
        obtain rfl := dstCompat_eq_true (.inl rfl) hcompat
        obtain ⟨t', ht, heq'⟩ := Option.map_eq_some_iff.mp hs
        obtain ⟨-, rfl⟩ := Prod.mk.inj heq'
        obtain ⟨hw₁, hw', -, -, hspec⟩ := turnOn_spec ht
        refine ⟨(turnOn_consistent_iff h hx hoff hbusy ht).trans
          ⟨fun h _ _ => h, fun h => h hoff hbusy⟩,
          true, ?_, fun h => absurd h.symm Bool.false_ne_true⟩
        rw [hspec]
    -- the session is switched off, and the other one keeps what is its own
    | false =>
      have hon : x.enabled = true := Bool.eq_true_of_not_eq_false heq
      rw [if_neg Bool.false_ne_true] at hs
      obtain ⟨t', ht, heq'⟩ := Option.map_eq_some_iff.mp hs
      obtain ⟨-, rfl⟩ := Prod.mk.inj heq'
      obtain ⟨hw₁, m₁, hw', -, -, hspec⟩ := turnOff_spec ht
      refine ⟨(turnOff_consistent_iff h hx hon ht).trans ⟨fun h _ => h, fun h => h hon⟩, false, ?_,
        fun _ => rfl⟩
      rw [hspec]

/-- A session that is not enabled is deleted. -/
theorem consistent_del (hu : Keyed.Unique Session.num m.sessions)
    (hoff : ∀ y ∈ m.sessions, y.num = num → y.enabled = false) :
    Consistent c { m with sessions := Keyed.del Session.num m.sessions num } ↔ Consistent c m := by
  refine consistent_congr (fun y => ?_) ?_ rfl rfl rfl
  · unfold Enabled
    dsimp only
    rw [hu.mem_del_iff]
    refine ⟨fun hy => ⟨hy.1.1, hy.2⟩, fun hy => ⟨⟨hy.1, fun hn => ?_⟩, hy.2⟩⟩
    exact Bool.false_ne_true ((hoff y hy.1 hn).symm.trans hy.2)
  · unfold enabledCount
    dsimp only
    cases hfind : Keyed.find Session.num m.sessions num with
    | none =>
      rw [Keyed.del, List.eraseP_of_forall_not fun y hy hn => ?_]
      exact Keyed.find_eq_none_iff.mp hfind y hy (of_decide_eq_true hn)
    | some y =>
      rw [(Keyed.perm_cons_del hfind).countP_eq, List.countP_cons_of_neg]
      rw [hoff y (Keyed.mem_of_find hfind) (Keyed.key_of_find hfind)]
      exact Bool.false_ne_true

/-- Nothing is asked of a session that is not there. -/
theorem forall_sGet_none {P : Session → Prop} (hget : m.sGet num = none) :
    ∀ x ∈ m.sGet num, P x := by
  rw [hget]
  exact fun x hx => absurd hx (Option.not_mem_none x)

/-- What is asked of the session with a number is asked of the one that is there. -/
theorem forall_sGet_some {P : Session → Prop} (hget : m.sGet num = some x) :
    (∀ y ∈ m.sGet num, P y) ↔ P x := by
  rw [hget]
  exact ⟨fun h => h x rfl, fun h y hy => Option.some_inj.mp hy ▸ h⟩

/-- Adding a session keeps the unit consistent in any case. -/
theorem add_consistent_iff (h : m.Inv c) : Consistent c (m.monSessionAdd num).2 ↔ True := by
  refine iff_true_intro ?_
  unfold monSessionAdd
  split
  · exact h.toConsistent
  · have hB (y : Session) :
        Enabled { m with sessions := { num := num } :: m.sessions } y ↔ m.Enabled y := by
      unfold Enabled
      rw [List.mem_cons]
      refine and_congr_left fun hy => or_iff_right ?_
      rintro rfl
      exact Bool.false_ne_true hy
    refine (consistent_congr hB ?_ rfl rfl rfl).mpr h.toConsistent
    unfold enabledCount
    exact List.countP_cons_of_neg (fun hy => Bool.false_ne_true hy)

/-- Deleting a session keeps the unit consistent exactly when its mirroring can be stopped. -/
theorem del_consistent_iff (h : m.Inv c) {st : Status} (hs : monSessionDel c m num = some (st, t)) :
    Consistent c t ↔ ∀ x ∈ m.sGet num, x.enabled = true → m.CanStop c x := by
  unfold monSessionDel at hs
  cases hget : m.sGet num with
  | none =>
    rw [hget] at hs
    obtain ⟨-, rfl⟩ := Prod.mk.inj (Option.some_inj.mp hs)
    exact iff_of_true h.toConsistent fun x hx => absurd hx (Option.not_mem_none x)
  | some x =>
    obtain ⟨hx, rfl⟩ := h.unique.find_eq_some_iff.mp hget
    rw [hget] at hs
    obtain ⟨⟨st', t'⟩, hoff, heq⟩ := Option.map_eq_some_iff.mp hs
    obtain ⟨-, rfl⟩ := Prod.mk.inj heq
    obtain ⟨hiff, b, hsessions, hb⟩ := sessionEnable_iff h hx hoff
    obtain rfl := hb rfl
    have hu' : Keyed.Unique Session.num t'.sessions := by
      rw [hsessions]
      exact h.unique.modify fun y => rfl
    have hoff : ∀ y ∈ t'.sessions, y.num = x.num → y.enabled = false := by
      rw [hsessions]
      intro y hy hn
      rcases Keyed.mem_modify_iff.mp hy with ⟨z, -, -, rfl⟩ | ⟨-, hne⟩
      · rfl
      · exact absurd hn hne
    refine (consistent_del hu' hoff).trans (hiff.trans ?_)
    rw [if_neg Bool.false_ne_true]
    exact ⟨fun h y hy => Option.some_inj.mp hy ▸ h, fun h => h x rfl⟩

/-- Setting the sources keeps the unit consistent exactly when the request is sound. -/
theorem setSrc_consistent_iff (h : m.Inv c) {src : List MonIf} {st : Status}
    (hs : monSessionSetSrc c m num src = some (st, t)) :
    Consistent c t ↔ m.Sound c (.setSrc num src) := by
  unfold monSessionSetSrc at hs
  cases hget : m.sGet num with
  | none =>
    rw [hget] at hs
    obtain ⟨-, rfl⟩ := Prod.mk.inj (Option.some_inj.mp hs)
    exact iff_of_true h.toConsistent (forall_sGet_none hget)
  | some x =>
    refine Iff.trans ?_ (forall_sGet_some hget).symm
    obtain ⟨hx, rfl⟩ := h.unique.find_eq_some_iff.mp hget
    rw [hget] at hs
    dsimp only at hs
    by_cases hvalid : ∀ y ∈ src, y.Valid
    swap
    · rw [if_pos hvalid] at hs
      obtain ⟨-, rfl⟩ := Prod.mk.inj (Option.some_inj.mp hs)
      exact iff_of_true h.toConsistent fun _ hv => absurd hv hvalid
    rw [if_neg (not_not_intro hvalid)] at hs
    -- where the session is enabled, the sources are replaced after the checks
    have hdone (hbusy : ¬(src ≠ [] ∧
        m.taken (fun en => en.all (· = x.num)) (fun r => src.any fun y => y.mirrors r) = true))
        (hon : x.enabled = true) (ht : replaceSrc c m x.num x src = some t) :
        Consistent c t ↔ (x.enabled = true → (∀ y ∈ src, y.Valid) → x.src ≠ [] →
          ¬(src ≠ [] ∧
            m.taken (fun en => en.all (· = x.num)) (fun r => src.any fun y => y.mirrors r) = true) →
          PortsLeft c x src ∧ m.TagKept c x (if src = [] then none else c.tagPort x)) :=
      (replaceSrc_consistent_iff h hx hon hbusy ht).trans
        ⟨fun h _ _ hsrc _ => h hsrc, fun h hsrc => h hon hvalid hsrc hbusy⟩
    by_cases hcheck : src ≠ [] ∧ x.enabled = true
    · rw [if_pos hcheck] at hs
      by_cases htaken : m.taken (fun en => en.all (· = x.num))
        (fun r => src.any fun y => y.mirrors r) = true
      · rw [if_pos htaken] at hs
        obtain ⟨-, rfl⟩ := Prod.mk.inj (Option.some_inj.mp hs)
        exact iff_of_true h.toConsistent fun _ _ _ hno => absurd ⟨hcheck.1, htaken⟩ hno
      · rw [if_neg htaken] at hs
        obtain ⟨compat, hcompat, hs⟩ := Option.bind_eq_some_iff.mp hs
        obtain rfl := dstCompat_eq_true (.inl rfl) hcompat
        obtain ⟨t', ht, heq⟩ := Option.map_eq_some_iff.mp hs
        obtain ⟨-, rfl⟩ := Prod.mk.inj heq
        exact hdone (fun h => htaken h.2) hcheck.2 ht
    · rw [if_neg hcheck] at hs
      obtain ⟨t', ht, heq⟩ := Option.map_eq_some_iff.mp hs
      obtain ⟨-, rfl⟩ := Prod.mk.inj heq
      by_cases hon : x.enabled = true
      · exact hdone (fun h => hcheck ⟨h.1, hon⟩) hon ht
      · -- nothing is done with the hardware
        have hoff : x.enabled = false := Bool.eq_false_of_not_eq_true hon
        unfold replaceSrc stopSrc startSrc at ht
        rw [if_neg fun h => hon h.2] at ht
        obtain rfl : m.setSession x.num (·.withSrc src) = t' := by
          rw [Option.bind_eq_bind, Option.bind_some, if_neg fun h => hon h.2] at ht
          exact Option.some_inj.mp ht
        exact iff_of_true ((consistent_modify_of_disabled h hx hoff hoff).mpr h.toConsistent)
          fun h => absurd h hon

/-- Setting the destination keeps the unit consistent exactly when the request is sound. -/
theorem setDst_consistent_iff (h : m.Inv c) {dst : Option MonIf} {dst_vid : ℕ} {st : Status}
    (hs : monSessionSetDst c m num dst dst_vid = some (st, t)) :
    Consistent c t ↔ m.Sound c (.setDst num dst dst_vid) := by
  unfold monSessionSetDst at hs
  cases hget : m.sGet num with
  | none =>
    rw [hget] at hs
    obtain ⟨-, rfl⟩ := Prod.mk.inj (Option.some_inj.mp hs)
    exact iff_of_true h.toConsistent (forall_sGet_none hget)
  | some x =>
    refine Iff.trans ?_ (forall_sGet_some hget).symm
    obtain ⟨hx, rfl⟩ := h.unique.find_eq_some_iff.mp hget
    rw [hget] at hs
    dsimp only at hs
    by_cases hvalid : dst.isSome = true ∧ (dst_vid = 0 ∨ vlanValid dst_vid)
    swap
    · rw [if_pos hvalid] at hs
      obtain ⟨-, rfl⟩ := Prod.mk.inj (Option.some_inj.mp hs)
      exact iff_of_true h.toConsistent fun _ hsome hvid => absurd ⟨hsome, hvid⟩ hvalid
    rw [if_neg (not_not_intro hvalid)] at hs
    by_cases hon : x.enabled = true
    · rw [if_pos hon] at hs
      obtain ⟨compat, hcompat, hs⟩ := Option.bind_eq_some_iff.mp hs
      obtain rfl := dstCompat_eq_true (.inr rfl) hcompat
      obtain ⟨t', ht, heq⟩ := Option.map_eq_some_iff.mp hs
      obtain ⟨-, rfl⟩ := Prod.mk.inj heq
      exact (replaceDst_consistent_iff h hx hon ht).trans
        ⟨fun h _ _ _ => h, fun h => h hon hvalid.1 hvalid.2⟩
    · have hoff : x.enabled = false := Bool.eq_false_of_not_eq_true hon
      rw [if_neg hon] at hs
      obtain ⟨-, rfl⟩ := Prod.mk.inj (Option.some_inj.mp hs)
      exact iff_of_true ((consistent_modify_of_disabled h hx hoff hoff).mpr h.toConsistent)
        fun h => absurd h hon

/-- Enabling or disabling keeps the unit consistent exactly when the request is sound. -/
theorem enable_consistent_iff (h : m.Inv c) {enable : Bool} {st : Status}
    (hs : monSessionEnable c m num enable = some (st, t)) :
    Consistent c t ↔ m.Sound c (.enable num enable) := by
  unfold monSessionEnable at hs
  cases hget : m.sGet num with
  | none =>
    rw [hget] at hs
    obtain ⟨-, rfl⟩ := Prod.mk.inj (Option.some_inj.mp hs)
    refine iff_of_true h.toConsistent ?_
    cases enable
    · exact forall_sGet_none hget
    · exact forall_sGet_none hget
  | some x =>
    rw [hget] at hs
    obtain ⟨hx, rfl⟩ := h.unique.find_eq_some_iff.mp hget
    refine (sessionEnable_iff h hx hs).1.trans ?_
    cases enable
    · rw [if_neg Bool.false_ne_true]
      unfold Sound
      dsimp only
      rw [forall_sGet_some hget]
    · rw [if_pos rfl]
      unfold Sound
      dsimp only
      rw [forall_sGet_some hget]

/-- A request keeps all consistent if and only if it is sound. -/
theorem step_consistent_iff (h : m.Inv c) (op : MonOp) (hs : step c m op = some t) :
    Consistent c t ↔ m.Sound c op := by
  obtain ⟨⟨st, t'⟩, hreq, rfl⟩ := Option.map_eq_some_iff.mp hs
  cases op with
  | add num =>
    have heq : m.monSessionAdd num = (st, t') := Option.some_inj.mp hreq
    rw [← heq]
    exact add_consistent_iff h
  | enable num enable => exact enable_consistent_iff h hreq
  | del num => exact del_consistent_iff h hreq
  | setSrc num src => exact setSrc_consistent_iff h hreq
  | setDst num dst dst_vid => exact setDst_consistent_iff h hreq

/-! ### Runs -/

/-- The numbers and flags of the sessions are right. -/
structure Tidy (m : Monitor) : Prop where
  unique : Keyed.Unique Session.num m.sessions
  flags : ∀ x ∈ m.sessions, x.Flags

/-- The sessions alone decide whether they are tidy. -/
theorem Tidy.congr (h : m.Tidy) (hs : t.sessions = m.sessions) : t.Tidy :=
  ⟨hs ▸ h.unique, fun x hx => h.flags x (hs ▸ hx)⟩

/-- A change of one session that keeps its number and its flags in order. -/
theorem Tidy.modify (h : m.Tidy) (hs : t.sessions = Keyed.modify Session.num m.sessions num f)
    (hnum : ∀ x, (f x).num = x.num) (hflags : ∀ x : Session, x.Flags → (f x).Flags) : t.Tidy := by
  refine ⟨hs ▸ h.unique.modify hnum, fun y hy => ?_⟩
  rw [hs] at hy
  rcases Keyed.mem_modify_iff.mp hy with ⟨x, hx, -, rfl⟩ | ⟨hy, -⟩
  · exact hflags x (h.flags x hx)
  · exact h.flags y hy

/-- What is written to the hardware leaves the sessions alone. -/
theorem onHw_sessions {g : MonHw → Option MonHw} (h : m.onHw g = some t) :
    t.sessions = m.sessions := by
  obtain ⟨hw, -, rfl⟩ := Option.map_eq_some_iff.mp h
  rfl

/-- `__mon_session_stop_src` leaves the sessions alone. -/
theorem stopSrc_sessions (h : stopSrc c m num x = some t) : t.sessions = m.sessions := by
  unfold stopSrc at h
  split_ifs at h
  · obtain ⟨m₁, hm₁, h⟩ := Option.bind_eq_some_iff.mp h
    obtain ⟨hw, -, rfl⟩ := Option.map_eq_some_iff.mp h
    have hsessions : m₁.sessions = m.sessions := onHw_sessions hm₁
    exact hsessions
  · rw [← Option.some_inj.mp h]

/-- `__mon_session_start_src` leaves the sessions alone. -/
theorem startSrc_sessions (h : startSrc c m num x = some t) : t.sessions = m.sessions := by
  unfold startSrc at h
  split_ifs at h
  · obtain ⟨m₁, hm₁, h⟩ := Option.bind_eq_some_iff.mp h
    have hsessions : t.sessions = m₁.sessions := onHw_sessions h
    obtain ⟨hw, -, rfl⟩ := Option.map_eq_some_iff.mp hm₁
    exact hsessions
  · rw [← Option.some_inj.mp h]

/-- The sessions are tidy after new sources. -/
theorem Tidy.replaceSrc {src : List MonIf} (h : m.Tidy)
    (ht : Monitor.replaceSrc c m num x src = some t) :
    t.Tidy := by
  obtain ⟨m₁, hm₁, ht⟩ := Option.bind_eq_some_iff.mp ht
  have hs : t.sessions = Keyed.modify Session.num m.sessions num (·.withSrc src) := by
    rw [startSrc_sessions ht, ← stopSrc_sessions hm₁]
    rfl
  exact h.modify hs (fun _ => rfl) fun _ _ _ => rfl

/-- The sessions are tidy after a new destination. -/
theorem Tidy.withDst {dst : Option MonIf} {dst_vid : ℕ} (h : m.Tidy)
    (hs : t.sessions = Keyed.modify Session.num m.sessions num (·.withDst dst dst_vid)) : t.Tidy :=
  h.modify hs (fun _ => rfl) fun _ hx => hx

/-- Requests keep the numbers and flags right. -/
theorem Inv.tidy_step (h : m.Inv c) (op : MonOp) (hs : step c m op = some t) : t.Tidy := by
  have htidy : m.Tidy := ⟨h.unique, h.flags⟩
  -- a request that is refused leaves the sessions as they were
  have hself {st st' : Status} {t' : Monitor} (heq : some (st, m) = some (st', t')) : t'.Tidy :=
    (Prod.mk.inj (Option.some_inj.mp heq)).2 ▸ htidy
  obtain ⟨⟨st, t'⟩, hreq, rfl⟩ := Option.map_eq_some_iff.mp hs
  cases op with
  | add num =>
    have heq : m.monSessionAdd num = (st, t') := Option.some_inj.mp hreq
    unfold monSessionAdd at heq
    cases hget : m.sGet num with
    | some x =>
      rw [hget] at heq
      exact hself (congrArg some heq)
    | none =>
      rw [hget] at heq
      obtain ⟨-, rfl⟩ := Prod.mk.inj heq
      refine ⟨h.unique.cons (Keyed.find_eq_none_iff.mp hget), fun x hx => ?_⟩
      rcases List.mem_cons.mp hx with rfl | hx
      · exact fun r => rfl
      · exact h.flags x hx
  | enable num enable =>
    unfold request monSessionEnable at hreq
    dsimp only at hreq
    cases hget : m.sGet num with
    | none =>
      rw [hget] at hreq
      exact hself hreq
    | some x =>
      obtain ⟨hx, rfl⟩ := h.unique.find_eq_some_iff.mp hget
      rw [hget] at hreq
      obtain ⟨-, b, hsessions, -⟩ := sessionEnable_iff h hx hreq
      exact htidy.modify hsessions (fun _ => rfl) fun _ hx => hx
  | del num =>
    unfold request monSessionDel at hreq
    dsimp only at hreq
    cases hget : m.sGet num with
    | none =>
      rw [hget] at hreq
      exact hself hreq
    | some x =>
      obtain ⟨hx, rfl⟩ := h.unique.find_eq_some_iff.mp hget
      rw [hget] at hreq
      obtain ⟨⟨st', t₁⟩, hoff, heq⟩ := Option.map_eq_some_iff.mp hreq
      obtain ⟨-, rfl⟩ := Prod.mk.inj heq
      obtain ⟨-, b, hsessions, -⟩ := sessionEnable_iff h hx hoff
      have ht₁ : t₁.Tidy := htidy.modify hsessions (fun _ => rfl) fun _ hx => hx
      exact ⟨ht₁.unique.del, fun y hy => ht₁.flags y (Keyed.mem_of_mem_del hy)⟩
  | setSrc num src =>
    unfold request monSessionSetSrc at hreq
    dsimp only at hreq
    have hmap {x : Session} {t' : Monitor} (hmap : (Monitor.replaceSrc c m num x src).map
        (fun m => (Status.ST_OK, m)) = some (st, t')) : t'.Tidy := by
      obtain ⟨t₁, ht₁, heq⟩ := Option.map_eq_some_iff.mp hmap
      obtain ⟨-, rfl⟩ := Prod.mk.inj heq
      exact htidy.replaceSrc ht₁
    cases hget : m.sGet num with
    | none =>
      rw [hget] at hreq
      exact hself hreq
    | some x =>
      rw [hget] at hreq
      dsimp only at hreq
      -- the sources are checked before anything is changed
      by_cases hvalid : ∀ y ∈ src, y.Valid
      swap
      · rw [if_pos hvalid] at hreq
        exact hself hreq
      rw [if_neg (not_not_intro hvalid)] at hreq
      split_ifs at hreq
      · exact hself hreq
      · obtain ⟨compat, -, hreq⟩ := Option.bind_eq_some_iff.mp hreq
        split_ifs at hreq
        · exact hmap hreq
        · exact hself hreq
      · exact hmap hreq
  | setDst num dst dst_vid =>
    unfold request monSessionSetDst at hreq
    dsimp only at hreq
    cases hget : m.sGet num with
    | none =>
      rw [hget] at hreq
      exact hself hreq
    | some x =>
      rw [hget] at hreq
      dsimp only at hreq
      -- so are the destination and its VLAN
      by_cases hvalid : dst.isSome = true ∧ (dst_vid = 0 ∨ vlanValid dst_vid)
      swap
      · rw [if_pos hvalid] at hreq
        exact hself hreq
      rw [if_neg (not_not_intro hvalid)] at hreq
      split_ifs at hreq
      · obtain ⟨compat, -, hreq⟩ := Option.bind_eq_some_iff.mp hreq
        split_ifs at hreq
        · obtain ⟨t₁, ht₁, heq⟩ := Option.map_eq_some_iff.mp hreq
          obtain ⟨-, rfl⟩ := Prod.mk.inj heq
          obtain ⟨m₁, hm₁, ht₁⟩ := Option.bind_eq_some_iff.mp ht₁
          apply htidy.withDst
          rw [onHw_sessions ht₁, ← onHw_sessions hm₁]
          rfl
        · exact hself hreq
      · obtain ⟨-, rfl⟩ := Prod.mk.inj (Option.some_inj.mp hreq)
        exact htidy.withDst rfl

/-- The start: no sessions, and nothing is mirrored. -/
def init (a : MonDir → ℕ → Analyzer) : Monitor where
  sessions := []
  en _ := none
  n_en_s := 0
  hw := ⟨fun _ _ => false, fun _ _ => false, fun _ => false, fun r d => { a r d with on := false }⟩

/-- In the beginning no session is there and nothing is mirrored. -/
theorem init_inv (a : MonDir → ℕ → Analyzer) : (init a).Inv c := by
  have hno (x : Session) : ¬(init a).Enabled x := fun hx => List.not_mem_nil hx.1
  refine ⟨⟨⟨rfl, Nat.zero_le 2, fun r n => iff_of_false (Option.some_ne_none n).symm ?_⟩,
    fun x _ hx => absurd hx (hno x), ⟨fun d _ v => iff_of_false Bool.false_ne_true ?_,
      fun r p => iff_of_false Bool.false_ne_true ?_⟩,
        ⟨fun r d _ => iff_of_false Bool.false_ne_true ?_,
      fun x _ _ _ hx => absurd hx (hno x)⟩, ⟨fun p hp => absurd hp Bool.false_ne_true,
      fun x _ _ hx => absurd hx (hno x)⟩⟩, Keyed.unique_nil, fun x hx => absurd hx List.not_mem_nil⟩
  · exact fun ⟨x, hx, _⟩ => hno x hx
  · exact fun ⟨x, hx, _⟩ => hno x hx
  · exact fun ⟨x, hx, _⟩ => hno x hx
  · exact fun ⟨x, hx, _⟩ => hno x hx

/-- In every run of sound requests all is consistent, and what the next request leaves is so if and
only if it is sound. -/
theorem consistent_iff_sound (c : MonConf) (a : MonDir → ℕ → Analyzer) (m : Monitor)
    (hr : Guarded.Reach (step c) (Sound c) (init a) m) :
    m.Consistent c ∧ ∀ op t, step c m op = some t → (t.Consistent c ↔ m.Sound c op) := by
  have hinv := hr.invariant (Inv c) (init_inv a) ?_
  · exact ⟨hinv.toConsistent, fun op t hs => step_consistent_iff hinv op hs⟩
  · intro m op t h hok hs
    have htidy := h.tidy_step op hs
    exact ⟨(step_consistent_iff h op hs).mpr hok, htidy.unique, htidy.flags⟩

/-- A unit with 24 ports. -/
def ports24 : MonConf where
  NDEVS := 1
  stack_id := 1
  vifGet num dummy := if num = 1 ∧ 1 ≤ dummy ∧ dummy ≤ 24 then .local ⟨0, dummy⟩ else .missing
  physDev d := d

/-- A port of the unit, as a source or destination. -/
def portIf (type : MonIfType) (n : ℕ) : MonIf := ⟨type, 1, 1, n⟩

/-- Analyzers that are not set. -/
def unset : MonDir → ℕ → Analyzer := fun _ _ => ⟨false, ⟨0, 0⟩, 0⟩

/-- Two sessions with different destinations, of which one gets other sources and is disabled. -/
def twoSessions : List MonOp :=
  [.add 1, .add 2, .setSrc 1 [portIf .MI_SRC_PORT_RX 1, portIf .MI_SRC_PORT_RX 2],
    .setDst 1 (some (portIf (.other 0) 23)) 0, .enable 1 true, .setSrc 2 [portIf .MI_SRC_PORT_TX 1],
    .setDst 2 (some (portIf (.other 0) 24)) 10, .enable 2 true, .setSrc 1 [⟨.MI_SRC_VLAN, 1, 8, 0⟩],
    .enable 1 false]

/-- The condition is met where a second session is disabled while a first one goes on. -/
theorem consistent_iff_sound_two : ∃ m t : Monitor, m.Consistent ports24 ∧ m.n_en_s = 1 ∧
    m.hw.tag ⟨0, 24⟩ = true ∧ step ports24 m (.enable 2 false) = some t ∧ t.Consistent ports24 := by
  have hlast : (Guarded.run (step ports24) (Sound ports24) (init unset) twoSessions).map (fun m =>
      (m.n_en_s, m.hw.tag ⟨0, 24⟩, decide (m.Sound ports24 (.enable 2 false)),
        (step ports24 m (.enable 2 false)).isSome)) = some (1, true, true, true) := by
    decide +kernel
  obtain ⟨m, hm, hshown⟩ := Option.map_eq_some_iff.mp hlast
  obtain ⟨hn, hshown⟩ := Prod.mk.inj hshown
  obtain ⟨htag, hshown⟩ := Prod.mk.inj hshown
  obtain ⟨hsound, hsome⟩ := Prod.mk.inj hshown
  obtain ⟨t, ht⟩ := Option.isSome_iff_exists.mp hsome
  obtain ⟨hcons, hiff⟩ := consistent_iff_sound ports24 unset m (Guarded.Reach.init.of_run hm)
  exact ⟨m, t, hcons, hn, htag, ht, (hiff (.enable 2 false) t ht).mpr (of_decide_eq_true hsound)⟩

/-- A session without a destination is enabled and disabled, and its port is still mirrored. -/
theorem not_consistent : ¬∀ (c : MonConf) (a : MonDir → ℕ → Analyzer) (m : Monitor),
    Guarded.Reach (step c) (fun _ _ => True) (init a) m → m.Consistent c := by
  intro h
  have hlast : (Guarded.run (step ports24) (fun _ _ => True) (init unset)
      [.add 1, .setSrc 1 [portIf .MI_SRC_PORT_RX 1], .enable 1 true, .enable 1 false]).map (fun m =>
        (m.enabledCount, m.hw.port .rx ⟨0, 1⟩)) = some (0, true) := by
    decide +kernel
  obtain ⟨m, hm, hshown⟩ := Option.map_eq_some_iff.mp hlast
  obtain ⟨hcount, hport⟩ := Prod.mk.inj hshown
  have hcons := h ports24 unset m (Guarded.Reach.init.of_run hm)
  obtain ⟨x, hx, -⟩ := (hcons.sources.port .rx ⟨0, 1⟩).mp hport
  exact List.countP_eq_zero.mp hcount x hx.1 hx.2

end Monitor

end Presteramgr
