import Presteramgr.Monitor.Model

/-!
# What the hardware mirrors

The hardware is as a set of sessions asks for when the VLANs and ports that are mirrored are the
sources of these sessions, the analyzers are set to their destinations, and the ports that tag are
among their tagged destinations. A session enters or leaves such a set: the lemmas say what the
functions of the source then have to have done.

## Main definitions

* `MonConf.target`: the destination of a session and its port;
* `MonConf.vlans` and `MonConf.ports`: what is mirrored for a list of sources;
* `Sources`, `Analyzers`, `Tagging`: the three parts of the hardware, for a set of sessions;
* `Exclusive`: no two of the sessions mirror in the same direction.

## Main results

* `Sources.add`, `Sources.remove`, `Analyzers.add`, `Analyzers.remove`, `Tagging.replace`.
-/

namespace Presteramgr

open Function (update update_self update_of_ne)

namespace MonConf

variable (c : MonConf)

/-- The destination of a session, with its port. -/
def target (x : Session) : Option (MonIf × MonPort) :=
  x.dst.bind fun dst =>
    match c.vifGet dst.num dst.dummy with
    | .local p => some (dst, p)
    | .missing | .noLocal => none

/-- The port of the destination. -/
def dstPort (x : Session) : Option MonPort := (c.target x).map Prod.snd

/-- The port at which the frames of a session are tagged. -/
def tagPort (x : Session) : Option MonPort := if vlanValid x.dst_vid then c.dstPort x else none

/-- The port at which tagging is switched off with the session. -/
def untag (x : Session) : Option MonPort :=
  if vlanValid x.dst_vid then (c.target x).map fun t => Monitor.untagPort c t.1 t.2 else none

/-- The VLANs of a list of sources. -/
def vlans (src : List MonIf) : List ℕ :=
  (src.filter fun x => x.type = .MI_SRC_VLAN).map MonIf.vid

/-- The port that is mirrored in a direction for a source. -/
def port (ready : Bool) (r : MonDir) (x : MonIf) : Option MonPort :=
  if x.type ≠ .MI_SRC_VLAN ∧ x.mirrors r = true then (Monitor.srcPort c ready x).join else none

/-- The ports that are mirrored in a direction for a list of sources. -/
def ports (ready : Bool) (r : MonDir) (src : List MonIf) : List MonPort :=
  src.filterMap (c.port ready r)

end MonConf

/-- Sessions do not mirror in the same direction. -/
def Exclusive (A : Session → Prop) : Prop :=
  ∀ r x y, A x → A y → x.mirrors r = true → y.mirrors r = true → x = y

/-- `rx` and `tx` are what the sources of a session make of them. -/
def Session.Flags (x : Session) : Prop := ∀ r, x.mirrors r = x.src.any fun y => y.mirrors r

/-- The sources of the sessions are mirrored, and nothing else is. -/
structure Sources (c : MonConf) (A : Session → Prop) (hw : MonHw) : Prop where
  vlan : ∀ d < c.NDEVS, ∀ v, hw.vlan d v = true ↔ ∃ x, A x ∧ v ∈ MonConf.vlans x.src
  port : ∀ r p, hw.port r p = true ↔ ∃ x, A x ∧ p ∈ c.ports true r x.src

/-- The analyzers that are used are set to the destinations of the sessions. -/
structure Analyzers (c : MonConf) (A : Session → Prop) (hw : MonHw) : Prop where
  on : ∀ r, ∀ d < c.NDEVS, (hw.analyzer r d).on = true ↔
    ∃ x, A x ∧ x.mirrors r = true ∧ (c.target x).isSome = true
  iface : ∀ x r dst p, A x → x.mirrors r = true → c.target x = some (dst, p) → ∀ d < c.NDEVS,
    (hw.analyzer r d).iface = Monitor.analyzerIface c dst p ∧
      (vlanValid x.dst_vid → (hw.analyzer r d).vid = x.dst_vid)

/-- No port tags but the tagged destinations of the sessions, and those of the sessions that mirror
do. -/
structure Tagging (c : MonConf) (A : Session → Prop) (hw : MonHw) : Prop where
  only : ∀ p, hw.tag p = true → ∃ x, A x ∧ c.tagPort x = some p
  tags : ∀ x r p, A x → x.mirrors r = true → c.tagPort x = some p → hw.tag p = true

variable {c : MonConf} {A B : Session → Prop} {hw hw' : MonHw} {x y : Session} {r : MonDir}
  {p q : MonPort}
  {src : List MonIf} {ready b : Bool}

namespace Monitor

/-! ### Sources -/

/-- What a source is about. -/
theorem writeSrc_spec {z : MonIf} (h : writeSrc c b ready hw z = some hw') :
    (∀ d v, hw'.vlan d v = if d < c.NDEVS ∧ v ∈ MonConf.vlans [z] then b else hw.vlan d v) ∧
    (∀ r p, hw'.port r p = if c.port ready r z = some p then b else hw.port r p) ∧
    hw'.tag = hw.tag ∧ hw'.analyzer = hw.analyzer := by
  -- a port is mirrored in one direction at a time
  have hset (r' : MonDir) (p' : MonPort) (hw : MonHw) (r : MonDir) (p : MonPort) :
      (hw.setPort r' p' b).port r p = if r = r' ∧ p' = p then b else hw.port r p := by
    unfold MonHw.setPort
    by_cases hr : r = r'
    · subst hr
      by_cases hp : p = p'
      · subst hp
        simp
      · simp [hp, Ne.symm hp]
    · simp [hr]
  unfold writeSrc at h
  -- a VLAN is a source on all devices, a port in one direction or in both
  cases htype : z.type with
  | MI_SRC_VLAN =>
    rw [htype] at h
    obtain rfl := Option.some_inj.mp h
    refine ⟨fun d v => ?_, fun r p => ?_, rfl, rfl⟩
    · simp [MonHw.setVlan, MonConf.vlans, htype]
    · simp [MonHw.setVlan, MonConf.port, htype]
  | MI_SRC_PORT_RX =>
    rw [htype] at h
    obtain ⟨p?, hp?, rfl⟩ := Option.map_eq_some_iff.mp h
    refine ⟨fun d v => ?_, fun r p => ?_, ?_, ?_⟩
    · cases p? <;> simp [MonHw.setPort, MonConf.vlans, htype]
    · cases p? <;> cases r <;> simp [hset, MonConf.port, MonIf.mirrors, htype, hp?]
    · cases p? <;> rfl
    · cases p? <;> rfl
  | MI_SRC_PORT_TX =>
    rw [htype] at h
    obtain ⟨p?, hp?, rfl⟩ := Option.map_eq_some_iff.mp h
    refine ⟨fun d v => ?_, fun r p => ?_, ?_, ?_⟩
    · cases p? <;> simp [MonHw.setPort, MonConf.vlans, htype]
    · cases p? <;> cases r <;> simp [hset, MonConf.port, MonIf.mirrors, htype, hp?]
    · cases p? <;> rfl
    · cases p? <;> rfl
  | MI_SRC_PORT_BOTH =>
    rw [htype] at h
    obtain ⟨p?, hp?, rfl⟩ := Option.map_eq_some_iff.mp h
    refine ⟨fun d v => ?_, fun r p => ?_, ?_, ?_⟩
    · cases p? <;> simp [MonHw.setPort, MonConf.vlans, htype]
    · cases p? <;> cases r <;> simp [hset, MonConf.port, MonIf.mirrors, htype, hp?]
    · cases p? <;> rfl
    · cases p? <;> rfl
  | other type =>
    rw [htype] at h
    obtain rfl := Option.some_inj.mp h
    refine ⟨fun d v => ?_, fun r p => ?_, rfl, rfl⟩
    · simp [MonConf.vlans, htype]
    · cases r <;> simp [MonConf.port, MonIf.mirrors, htype]

theorem mem_vlans_cons (z : MonIf) (src : List MonIf) {v : ℕ} :
    v ∈ MonConf.vlans (z :: src) ↔ v ∈ MonConf.vlans [z] ∨ v ∈ MonConf.vlans src := by
  rw [← List.singleton_append]
  simp only [MonConf.vlans, List.filter_append, List.map_append, List.mem_append]

theorem mem_ports_cons (z : MonIf) (src : List MonIf) :
    p ∈ c.ports ready r (z :: src) ↔ c.port ready r z = some p ∨ p ∈ c.ports ready r src := by
  unfold MonConf.ports
  simp only [List.mem_filterMap, List.exists_mem_cons_iff]

/-- What the loop over the sources does. -/
theorem foldlM_writeSrc_spec (h : src.foldlM (writeSrc c b ready) hw = some hw') :
    (∀ d v, hw'.vlan d v = if d < c.NDEVS ∧ v ∈ MonConf.vlans src then b else hw.vlan d v) ∧
    (∀ r p, hw'.port r p = if p ∈ c.ports ready r src then b else hw.port r p) ∧
    hw'.tag = hw.tag ∧ hw'.analyzer = hw.analyzer := by
  induction src generalizing hw with
  | nil =>
    obtain rfl := Option.some_inj.mp h
    refine ⟨fun d v => (if_neg ?_).symm, fun r p => (if_neg ?_).symm, rfl, rfl⟩
    · exact fun hmem => List.not_mem_nil hmem.2
    · exact List.not_mem_nil
  | cons z src ih =>
    rw [List.foldlM_cons] at h
    obtain ⟨hw₁, hz, hsrc⟩ := Option.bind_eq_some_iff.mp h
    obtain ⟨hvlan, hport, htag, hanalyzer⟩ := writeSrc_spec hz
    obtain ⟨hvlan', hport', htag', hanalyzer'⟩ := ih hsrc
    refine ⟨fun d v => ?_, fun r p => ?_, htag'.trans htag, hanalyzer'.trans hanalyzer⟩
    · have hmem : v ∈ MonConf.vlans (z :: src) ↔ _ := mem_vlans_cons z src
      rw [hvlan', hvlan]
      by_cases hz : v ∈ MonConf.vlans [z] <;> by_cases hd : d < c.NDEVS <;> simp [hd, hz, hmem]
    · rw [hport', hport]
      simp only [mem_ports_cons]
      by_cases hz : c.port ready r z = some p <;> simp [hz]

/-! ### Destinations -/

theorem otherActiveSession_ne {m : Monitor} {num o : ℕ} (h : m.otherActiveSession num = some o) :
    o ≠ num := by
  unfold otherActiveSession at h
  split_ifs at h with hrx htx
  · rintro rfl
    exact htx h.symm
  · rintro rfl
    exact hrx h.symm

/-- The pointers that `dst_compat` compares are never equal. -/
theorem dstCompat_eq_true {m : Monitor} {num : ℕ} {ptr : DstPtr} {dst : Option MonIf} {dst_vid : ℕ}
    {compat : Bool} (hptr : ptr = .session num ∨ ptr = .request)
    (h : dstCompat c m (m.otherActiveSession num) ptr dst dst_vid = some compat) :
    compat = true := by
  unfold dstCompat at h
  cases ho : m.otherActiveSession num with
  | none =>
    rw [ho] at h
    exact (Option.some_inj.mp h).symm
  | some o =>
    have hne : DstPtr.session o ≠ ptr := by
      rcases hptr with rfl | rfl
      · exact fun heq => otherActiveSession_ne ho (DstPtr.session.inj heq)
      · exact DstPtr.noConfusion
    rw [ho] at h
    obtain ⟨z, -, h⟩ := Option.bind_eq_some_iff.mp h
    obtain ⟨dst, -, h⟩ := Option.bind_eq_some_iff.mp h
    split_ifs at h
    · exact (Option.some_inj.mp h).symm
    · obtain ⟨zdst, -, h⟩ := Option.bind_eq_some_iff.mp h
      split_ifs at h
      · exact (Option.some_inj.mp h).symm
      · exact (Option.some_inj.mp h).symm

/-- What `mon_configure_dst` does. -/
theorem monConfigureDst_spec (h : monConfigureDst c x hw = some hw') :
    hw'.vlan = hw.vlan ∧ hw'.port = hw.port ∧
    (∀ p, hw'.tag p = if c.tagPort x = some p then true else hw.tag p) ∧
    ∀ r d, hw'.analyzer r d = if x.mirrors r = true ∧ d < c.NDEVS then
      (match c.target x with
        | some (dst, p) => (hw.analyzer r d).use (analyzerIface c dst p)
            (if vlanValid x.dst_vid then some x.dst_vid else none)
        | none => hw.analyzer r d)
      else hw.analyzer r d := by
  unfold monConfigureDst at h
  unfold MonConf.tagPort MonConf.dstPort MonConf.target
  cases hdst : x.dst with
  | none =>
    rw [hdst] at h
    obtain rfl := Option.some_inj.mp h
    exact ⟨rfl, rfl, fun p => by simp, fun r d => (ite_self _).symm⟩
  | some dst =>
    rw [hdst] at h
    simp only [Option.bind_some] at h ⊢
    cases hvif : c.vifGet dst.num dst.dummy with
    | missing =>
      rw [hvif] at h
      obtain rfl := Option.some_inj.mp h
      exact ⟨rfl, rfl, fun p => by simp, fun r d => (ite_self _).symm⟩
    | noLocal =>
      rw [hvif] at h
      exact absurd h (Option.some_ne_none _).symm
    | «local» p =>
      rw [hvif] at h
      obtain rfl := Option.some_inj.mp h
      by_cases hvid : vlanValid x.dst_vid
      · simp only [if_pos hvid]
        refine ⟨rfl, rfl, fun p' => ?_, fun r d => rfl⟩
        unfold onAnalyzers MonHw.setTag
        dsimp only
        by_cases hp : p' = p
        · rw [hp, update_self]
          exact (if_pos rfl).symm
        · rw [update_of_ne hp]
          exact (if_neg fun heq => hp (Option.some_inj.mp heq).symm).symm
      · simp only [if_neg hvid]
        exact ⟨rfl, rfl, fun p' => (if_neg (Option.some_ne_none p').symm).symm, fun r d => rfl⟩

/-- What `mon_deconfigure_dst` does. -/
theorem monDeconfigureDst_spec {m : Monitor} {num : ℕ}
    (h : monDeconfigureDst c m num x hw = some hw') :
    hw'.vlan = hw.vlan ∧ hw'.port = hw.port ∧
    (∀ p, hw'.tag p = if c.untag x = some p then false else hw.tag p) ∧
    ∀ r d, hw'.analyzer r d = if x.mirrors r = true ∧ d < c.NDEVS ∧ (c.target x).isSome = true then
      { hw.analyzer r d with on := false } else hw.analyzer r d := by
  unfold monDeconfigureDst at h
  unfold MonConf.untag MonConf.target
  -- the session has no destination, or one without a port
  cases hdst : x.dst with
  | none =>
    rw [hdst] at h
    obtain rfl := Option.some_inj.mp h
    exact ⟨rfl, rfl, fun p => by simp, fun r d => by simp⟩
  | some dst =>
    rw [hdst] at h
    simp only [Option.bind_some] at h ⊢
    cases hvif : c.vifGet dst.num dst.dummy with
    | missing =>
      rw [hvif] at h
      obtain rfl := Option.some_inj.mp h
      exact ⟨rfl, rfl, fun p => by simp, fun r d => by simp⟩
    | noLocal =>
      rw [hvif] at h
      exact absurd h (Option.some_ne_none _).symm
    | «local» p =>
      rw [hvif] at h
      have hoff : ∀ r d, (onAnalyzers c x (fun a => { a with on := false }) hw).analyzer r d =
          if x.mirrors r = true ∧ d < c.NDEVS ∧
            true = true then { hw.analyzer r d with on := false }
          else hw.analyzer r d := fun r d => if_congr (by simp) rfl rfl
      by_cases hvid : vlanValid x.dst_vid
      · -- the tagging is disabled, whichever session is the other one
        have heq : (onAnalyzers c x (fun a => { a with on := false }) hw).setTag
            (untagPort c dst p) false =
            hw' := by
          simp only [if_pos hvid] at h
          cases ho : m.otherActiveSession num with
          | none =>
            rw [ho] at h
            exact Option.some_inj.mp h
          | some o =>
            rw [ho] at h
            have hne : DstPtr.session o ≠ DstPtr.session num :=
              fun heq => otherActiveSession_ne ho (DstPtr.session.inj heq)
            simp only [if_pos hne] at h
            exact Option.some_inj.mp h
        subst heq
        simp only [if_pos hvid]
        refine ⟨rfl, rfl, fun p' => ?_, hoff⟩
        unfold onAnalyzers MonHw.setTag
        dsimp only
        by_cases hp : p' = untagPort c dst p
        · rw [hp, update_self]
          exact (if_pos rfl).symm
        · rw [update_of_ne hp]
          exact (if_neg fun heq => hp (Option.some_inj.mp heq).symm).symm
      · -- a session without tagging leaves that of the port alone
        simp only [if_neg hvid] at h
        obtain rfl := Option.some_inj.mp h
        simp only [if_neg hvid]
        exact ⟨rfl, rfl, fun p' => (if_neg (Option.some_ne_none p').symm).symm, hoff⟩

end Monitor

/-! ### Sets of sessions -/

theorem MonConf.mirrors_of_mem_ports (h : p ∈ c.ports ready r src) :
    (src.any fun y => y.mirrors r) = true := by
  obtain ⟨z, hz, hport⟩ := List.mem_filterMap.mp h
  unfold MonConf.port at hport
  split_ifs at hport with hr
  exact List.any_eq_true.mpr ⟨z, hz, hr.2⟩

theorem MonConf.mirrors_of_mem_vlans {v : ℕ} (h : v ∈ MonConf.vlans src) :
    (src.any fun y => y.mirrors .rx) = true := by
  obtain ⟨z, hz, -⟩ := List.mem_map.mp h
  obtain ⟨hz, htype⟩ := List.mem_filter.mp hz
  refine List.any_eq_true.mpr ⟨z, hz, ?_⟩
  unfold MonIf.mirrors
  rw [of_decide_eq_true htype]

/-- With a destination, the ports that are configured are those that are deconfigured; without one,
none is. -/
theorem MonConf.ports_false : c.ports false r src = [] := by
  refine List.filterMap_eq_nil_iff.mpr fun z _ => ?_
  have hport : (Monitor.srcPort c false z).join = none := by
    unfold Monitor.srcPort
    cases c.vifGet z.num z.dummy <;> simp
  rw [MonConf.port, hport, ite_self]

/-- The sources of a session more. -/
theorem Sources.add (h : Sources c A hw) (hB : ∀ y, B y ↔ A y ∨ y = x)
    (hvlan : ∀ d v, hw'.vlan d v =
      if d < c.NDEVS ∧ v ∈ MonConf.vlans x.src then true else hw.vlan d v)
    (hport : ∀ r p, hw'.port r p = if p ∈ c.ports true r x.src then true else hw.port r p) :
    Sources c B hw' := by
  have hor (P : Session → Prop) : (∃ y, B y ∧ P y) ↔ (∃ y, A y ∧ P y) ∨ P x := by
    simp only [hB, or_and_right, exists_or, exists_eq_left]
  refine ⟨fun d hd v => ?_, fun r p => ?_⟩
  · rw [hor, hvlan, ← h.vlan d hd]
    by_cases hv : v ∈ MonConf.vlans x.src <;> simp [hv, hd]
  · rw [hor, hport, ← h.port]
    by_cases hp : p ∈ c.ports true r x.src <;> simp [hp]

/-- The sources of a session are replaced. The ports that are not deconfigured have to be sources
again. -/
theorem Sources.replace_iff (h : Sources c A hw) (hx : A x) (hflags : ∀ y, A y → y.Flags)
    (hex : Exclusive A)
    (hB : ∀ P : List MonIf → Prop, ¬P [] →
      ((∃ y, B y ∧ P y.src) ↔ (∃ y, A y ∧ y ≠ x ∧ P y.src) ∨ P src))
    (hvlan : ∀ d v, hw'.vlan d v = if d < c.NDEVS ∧ v ∈ MonConf.vlans src then true else
      if d < c.NDEVS ∧ v ∈ MonConf.vlans x.src then false else hw.vlan d v)
    (hport : ∀ r p, hw'.port r p = if p ∈ c.ports true r src then true else
      if p ∈ c.ports ready r x.src then false else hw.port r p) :
    Sources c B hw' ↔
      (ready = false → ∀ r, ∀ p ∈ c.ports true r x.src, p ∈ c.ports true r src) := by
  -- no other session has the source
  have hothers (r : MonDir) (p : MonPort) (hp : p ∈ c.ports true r x.src) :
      ¬∃ y, A y ∧ y ≠ x ∧ p ∈ c.ports true r y.src := by
    rintro ⟨y, hy, hne, hpy⟩
    apply hne
    refine hex r y x hy hx ?_ ?_
    · rw [hflags y hy r]
      exact MonConf.mirrors_of_mem_ports hpy
    · rw [hflags x hx r]
      exact MonConf.mirrors_of_mem_ports hp
  have hold (r : MonDir) (p : MonPort) : hw.port r p = true ↔
      (∃ y, A y ∧ y ≠ x ∧ p ∈ c.ports true r y.src) ∨ p ∈ c.ports true r x.src := by
    rw [h.port]
    constructor
    · rintro ⟨y, hy, hp⟩
      by_cases hne : y = x
      · exact .inr (hne ▸ hp)
      · exact .inl ⟨y, hy, hne, hp⟩
    · rintro (⟨y, hy, -, hp⟩ | hp)
      · exact ⟨y, hy, hp⟩
      · exact ⟨x, hx, hp⟩
  constructor
  · rintro h' rfl r p hp
    by_contra hno
    have hon : hw'.port r p = true := by
      rw [hport, if_neg hno, if_neg (by rw [MonConf.ports_false]; exact List.not_mem_nil)]
      exact (hold r p).mpr (.inr hp)
    have hex' := (hB (fun src => p ∈ c.ports true r src) List.not_mem_nil).mp ((h'.port r p).mp hon)
    exact hex'.elim (hothers r p hp) hno
  · intro hready
    refine ⟨fun d hd v => ?_, fun r p => ?_⟩
    · rw [hB (fun src => v ∈ MonConf.vlans src) List.not_mem_nil, hvlan]
      by_cases hv : v ∈ MonConf.vlans src
      · simp [hv, hd]
      · by_cases hvx : v ∈ MonConf.vlans x.src
        · have hno : ¬∃ y, A y ∧ y ≠ x ∧ v ∈ MonConf.vlans y.src := by
            rintro ⟨y, hy, hne, hvy⟩
            apply hne
            refine hex .rx y x hy hx ?_ ?_
            · rw [hflags y hy]
              exact MonConf.mirrors_of_mem_vlans hvy
            · rw [hflags x hx]
              exact MonConf.mirrors_of_mem_vlans hvx
          simp [hv, hvx, hd, hno]
        · rw [if_neg fun h => hv h.2, if_neg fun h => hvx h.2, h.vlan d hd, or_iff_left hv]
          constructor
          · rintro ⟨y, hy, hvy⟩
            exact ⟨y, hy, fun heq => hvx (heq ▸ hvy), hvy⟩
          · rintro ⟨y, hy, -, hvy⟩
            exact ⟨y, hy, hvy⟩
    · rw [hB (fun src => p ∈ c.ports true r src) List.not_mem_nil, hport]
      by_cases hp : p ∈ c.ports true r src
      · simp [hp]
      · rw [if_neg hp, or_iff_left hp]
        by_cases hpx : p ∈ c.ports true r x.src
        · -- the port was deconfigured
          have hpr : p ∈ c.ports ready r x.src := by
            cases ready
            · exact absurd (hready rfl r p hpx) hp
            · exact hpx
          rw [if_pos hpr]
          exact iff_of_false Bool.false_ne_true (hothers r p hpx)
        · have hpr : p ∉ c.ports ready r x.src := by
            cases ready
            · rw [MonConf.ports_false]
              exact List.not_mem_nil
            · exact hpx
          rw [if_neg hpr, hold, or_iff_left hpx]

/-- Sessions with the same sources. -/
theorem Sources.congr (h : Sources c A hw) (hvlan : hw'.vlan = hw.vlan) (hport : hw'.port = hw.port)
    (hB : ∀ P : List MonIf → Prop, (∃ y, B y ∧ P y.src) ↔ ∃ y, A y ∧ P y.src) :
    Sources c B hw' := by
  refine ⟨fun d hd v => ?_, fun r p => ?_⟩
  · rw [hvlan, hB fun src => v ∈ MonConf.vlans src]
    exact h.vlan d hd v
  · rw [hport, hB fun src => p ∈ c.ports true r src]
    exact h.port r p

/-- The analyzers of a session more, which no other session uses. -/
theorem Analyzers.add (h : Analyzers c A hw) (hB : ∀ y, B y ↔ A y ∨ y = x)
    (hfree : ∀ r y, A y → x.mirrors r = true → y.mirrors r ≠ true)
    (hanalyzer : ∀ r d, hw'.analyzer r d = if x.mirrors r = true ∧ d < c.NDEVS then
      (match c.target x with
        | some (dst, p) => (hw.analyzer r d).use (Monitor.analyzerIface c dst p)
            (if vlanValid x.dst_vid then some x.dst_vid else none)
        | none => hw.analyzer r d)
      else hw.analyzer r d) : Analyzers c B hw' := by
  have hkeep (r : MonDir) (d : ℕ) (hno : x.mirrors r ≠ true) :
      hw'.analyzer r d = hw.analyzer r d := by
    rw [hanalyzer, if_neg fun h => hno h.1]
  refine ⟨fun r d hd => ?_, fun y r dst p hy hr ht d hd => ?_⟩
  · by_cases hr : x.mirrors r = true
    · -- the analyzer was not used
      have hoff : ¬∃ y, A y ∧ y.mirrors r = true ∧ (c.target y).isSome = true :=
        fun ⟨y, hy, hyr, _⟩ => hfree r y hy hr hyr
      have hor : (∃ y, B y ∧ y.mirrors r = true ∧ (c.target y).isSome = true) ↔
          (c.target x).isSome = true := by
        constructor
        · rintro ⟨y, hy, hyr, ht⟩
          rcases (hB y).mp hy with hy | rfl
          · exact absurd ⟨y, hy, hyr, ht⟩ hoff
          · exact ht
        · exact fun ht => ⟨x, (hB x).mpr (.inr rfl), hr, ht⟩
      rw [hor, hanalyzer, if_pos ⟨hr, hd⟩]
      cases ht : c.target x with
      | none => exact iff_of_false (fun hon => hoff ((h.on r d hd).mp hon)) Bool.false_ne_true
      | some t => exact iff_of_true rfl rfl
    · rw [hkeep r d hr, h.on r d hd]
      refine exists_congr fun y => ⟨fun hy => ⟨(hB y).mpr (.inl hy.1), hy.2⟩, fun hy => ⟨?_, hy.2⟩⟩
      refine ((hB y).mp hy.1).resolve_right ?_
      rintro rfl
      exact hr hy.2.1
  · rcases (hB y).mp hy with hy | rfl
    · rw [hkeep r d fun hxr => hfree r y hy hxr hr]
      exact h.iface y r dst p hy hr ht d hd
    · rw [hanalyzer, if_pos ⟨hr, hd⟩, ht]
      refine ⟨rfl, fun hvid => ?_⟩
      simp [Analyzer.use, hvid]

/-- The analyzers of a session less. -/
theorem Analyzers.remove (h : Analyzers c A hw) (hx : A x) (hex : Exclusive A)
    (hB : ∀ y, B y ↔ A y ∧ y ≠ x)
    (hanalyzer : ∀ r d, hw'.analyzer r d =
      if x.mirrors r = true ∧ d < c.NDEVS ∧ (c.target x).isSome = true then
        { hw.analyzer r d with on := false } else hw.analyzer r d) : Analyzers c B hw' := by
  refine ⟨fun r d hd => ?_, fun y r dst p hy hr ht d hd => ?_⟩
  · by_cases hr : x.mirrors r = true ∧ d < c.NDEVS ∧ (c.target x).isSome = true
    · rw [hanalyzer, if_pos hr]
      refine iff_of_false Bool.false_ne_true ?_
      rintro ⟨y, hy, hyr, -⟩
      obtain ⟨hy, hne⟩ := (hB y).mp hy
      exact hne (hex r y x hy hx hyr hr.1)
    · rw [hanalyzer, if_neg hr, h.on r d hd]
      refine exists_congr fun y => ⟨fun hy => ⟨(hB y).mpr ⟨hy.1, ?_⟩, hy.2⟩,
        fun hy => ⟨((hB y).mp hy.1).1, hy.2⟩⟩
      rintro rfl
      exact hr ⟨hy.2.1, hd, hy.2.2⟩
  · obtain ⟨hy, hne⟩ := (hB y).mp hy
    rw [hanalyzer, if_neg fun hxr => hne (hex r y x hy hx hr hxr.1)]
    exact h.iface y r dst p hy hr ht d hd

/-- A session more, with the tagging of its destination. -/
theorem Tagging.add (h : Tagging c A hw) (hB : ∀ y, B y ↔ A y ∨ y = x)
    (htag : ∀ p, hw'.tag p = if c.tagPort x = some p then true else hw.tag p) :
    Tagging c B hw' := by
  refine ⟨fun p hp => ?_, fun y r p hy hr hyp => ?_⟩
  · rw [htag] at hp
    by_cases hx : c.tagPort x = some p
    · exact ⟨x, (hB x).mpr (.inr rfl), hx⟩
    · rw [if_neg hx] at hp
      obtain ⟨y, hy, hyp⟩ := h.only p hp
      exact ⟨y, (hB y).mpr (.inl hy), hyp⟩
  · rw [htag]
    rcases (hB y).mp hy with hy | rfl
    · rw [h.tags y r p hy hr hyp, ite_self]
    · rw [if_pos hyp]

/-- A session goes, or another comes in its place, and the tagging of one port is switched off, and
that of another on. -/
theorem Tagging.replace_iff {new : Session → Prop} {off on : Option MonPort} (h : Tagging c A hw)
    (hB : ∀ y, B y ↔ A y ∧ y ≠ x ∨ new y)
    (hon : ∀ p, on = some p → ∃ y, new y ∧ c.tagPort y = some p)
    (hnew : ∀ y r p, new y → y.mirrors r = true → c.tagPort y = some p → on = some p)
    (htag : ∀ p, hw'.tag p =
      if on = some p then true else if off = some p then false else hw.tag p) :
    Tagging c B hw' ↔
      (∀ p, c.tagPort x = some p → A x → hw.tag p = true →
        off = some p ∨ ∃ y, B y ∧ c.tagPort y = some p) ∧
      ∀ q, off = some q → ∀ y r, A y → y ≠ x → y.mirrors r = true → c.tagPort y = some q →
        on = some q := by
  constructor
  · intro h'
    refine ⟨fun p hxp hx hp => ?_, fun q hoff y r hy hne hr hyq => ?_⟩
    · by_contra hno
      rw [not_or] at hno
      have hp' : hw'.tag p = true := by
        rw [htag, if_neg hno.1, hp, ite_self]
      obtain ⟨y, hy, hyp⟩ := h'.only p hp'
      exact hno.2 ⟨y, hy, hyp⟩
    · by_contra hno
      have hq := h'.tags y r q ((hB y).mpr (.inl ⟨hy, hne⟩)) hr hyq
      rw [htag, if_neg hno, if_pos hoff] at hq
      exact Bool.false_ne_true hq
  · rintro ⟨hstale, hkept⟩
    refine ⟨fun p hp => ?_, fun y r p hy hr hyp => ?_⟩
    · rw [htag] at hp
      split_ifs at hp with hon' hoff
      · obtain ⟨y, hy, hyp⟩ := hon p hon'
        exact ⟨y, (hB y).mpr (.inr hy), hyp⟩
      · obtain ⟨y, hy, hyp⟩ := h.only p hp
        by_cases hyx : y = x
        · subst hyx
          exact (hstale p hyp hy hp).resolve_left hoff
        · exact ⟨y, (hB y).mpr (.inl ⟨hy, hyx⟩), hyp⟩
    · rw [htag]
      rcases (hB y).mp hy with ⟨hy, hne⟩ | hy
      · split_ifs with hon' hoff
        · rfl
        · exact absurd (hkept p hoff y r hy hne hr hyp) hon'
        · exact h.tags y r p hy hr hyp
      · rw [if_pos (hnew y r p hy hr hyp)]

end Presteramgr
