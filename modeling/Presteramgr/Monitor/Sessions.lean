import Presteramgr.Monitor.Mirrored

/-!
# Sessions and the hardware

`en_rx`, `en_tx` and `n_en_s` are right after every request. What the hardware mirrors, and how it
tags, is right as long as a session has a destination when its ports are to be left, no other
session needs the tagging that is switched off with it, and two sessions do not disagree on the
tagging of one port, for which the check of the source looks at pointers.

## Main definitions

* `Monitor.Consistent`: the pointers and the counter are right, sessions agree on tagging, and the
  hardware is as the enabled sessions ask for;
* `Monitor.Sound`: when a request keeps it so.

## Main results

* `Monitor.turnOn_consistent_iff`, `Monitor.turnOff_consistent_iff`: a session is enabled, or
  disabled;
* `Monitor.replaceSrc_consistent_iff`, `Monitor.replaceDst_consistent_iff`: an enabled session is
  changed.
-/

namespace Presteramgr

namespace Monitor

variable (c : MonConf) (m : Monitor)

/-- The enabled sessions. -/
def Enabled (x : Session) : Prop := x ∈ m.sessions ∧ x.enabled = true

/-- How many sessions are enabled. -/
def enabledCount : ℕ := m.sessions.countP fun x => x.enabled

/-- `n_en_s` counts the enabled sessions, of which there are at most two, and `en_rx` and `en_tx`
are those that mirror. -/
structure Books : Prop where
  count : m.n_en_s = m.enabledCount
  le_two : m.enabledCount ≤ 2
  en : ∀ r n, m.en r = some n ↔ ∃ x, m.Enabled x ∧ x.num = n ∧ x.mirrors r = true

/-- Enabled sessions with one destination port all have it tagged, or all untagged. -/
def Agree : Prop := ∀ x y, m.Enabled x → m.Enabled y → (c.dstPort x).isSome = true →
  c.dstPort y = c.dstPort x → (vlanValid x.dst_vid ↔ vlanValid y.dst_vid)

/-- What is to hold in every state. -/
structure Consistent : Prop where
  books : m.Books
  agree : m.Agree c
  sources : Sources c m.Enabled m.hw
  analyzers : Analyzers c m.Enabled m.hw
  tagging : Tagging c m.Enabled m.hw

/-! ### Conditions -/

/-- The session agrees with the enabled ones on the tagging of the destination. -/
def AgreesWith (x : Session) : Prop := ∀ y ∈ m.sessions, y.enabled = true → y.num ≠ x.num →
  (c.dstPort x).isSome = true → c.dstPort y = c.dstPort x →
    (vlanValid x.dst_vid ↔ vlanValid y.dst_vid)

/-- The session has a destination, or its ports are again among the sources. -/
def PortsLeft (x : Session) (src : List MonIf) : Prop := x.dst.isSome = false →
  (∀ p ∈ c.ports true .rx x.src, p ∈ c.ports true .rx src) ∧
    ∀ p ∈ c.ports true .tx x.src, p ∈ c.ports true .tx src

/-- The port that is tagged for the session is the one whose tagging is switched off, or one that is
tagged anyhow. -/
def TagLeft (x : Session) (on : Option MonPort) : Prop := ∀ p ∈ c.tagPort x, m.hw.tag p = true →
  c.untag x = some p ∨ on = some p ∨
    ∃ y ∈ m.sessions, y.enabled = true ∧ y.num ≠ x.num ∧ c.tagPort y = some p

/-- No other session needs the tagging that is switched off with the session, or it is switched on
again. -/
def TagKept (x : Session) (on : Option MonPort) : Prop := ∀ q ∈ c.untag x, ∀ y ∈ m.sessions,
  y.enabled = true → y.num ≠ x.num → y.mirrors .rx = true ∨ y.mirrors .tx = true →
    c.tagPort y = some q → on = some q

/-- The session can be disabled. -/
def CanStop (x : Session) : Prop := PortsLeft c x [] ∧ m.TagLeft c x none ∧ m.TagKept c x none

/-- A session is enabled only where it agrees with the others on the tagging of its destination, and
disabled or changed where what it leaves can be told from what others need. -/
def Sound : MonOp → Prop
  | .add _ => True
  | .enable num true => ∀ x ∈ m.sGet num, x.enabled = false →
      ¬(1 < m.n_en_s ∨ m.taken Option.isNone x.mirrors = true) → m.AgreesWith c x
  | .enable num false | .del num => ∀ x ∈ m.sGet num, x.enabled = true → m.CanStop c x
  | .setSrc num src => ∀ x ∈ m.sGet num, x.enabled = true → (∀ y ∈ src, y.Valid) → x.src ≠ [] →
      ¬(src ≠ [] ∧ m.taken (fun en => en.all (· = num))
        (fun r => src.any fun y => y.mirrors r) = true) →
        PortsLeft c x src ∧ m.TagKept c x (if src = [] then none else c.tagPort x)
  | .setDst num dst dst_vid => ∀ x ∈ m.sGet num, x.enabled = true → dst.isSome = true →
      dst_vid = 0 ∨ vlanValid dst_vid → m.AgreesWith c (x.withDst dst dst_vid) ∧
        m.TagLeft c x (c.tagPort (x.withDst dst dst_vid)) ∧
        m.TagKept c x (c.tagPort (x.withDst dst dst_vid))

instance (x : Session) : Decidable (m.AgreesWith c x) := inferInstanceAs (Decidable (∀ y ∈ _, _))

instance (x : Session) (src : List MonIf) : Decidable (PortsLeft c x src) :=
  inferInstanceAs (Decidable (_ → (∀ p ∈ _, _) ∧ ∀ p ∈ _, _))

instance (x : Session) (on : Option MonPort) : Decidable (m.TagLeft c x on) :=
  inferInstanceAs (Decidable (∀ p ∈ _, _ → _ ∨ _ ∨ ∃ y ∈ _, _))

instance (x : Session) (on : Option MonPort) : Decidable (m.TagKept c x on) :=
  inferInstanceAs (Decidable (∀ q ∈ _, ∀ y ∈ _, _))

instance (x : Session) : Decidable (m.CanStop c x) := inferInstanceAs (Decidable (_ ∧ _ ∧ _))

instance : ∀ op, Decidable (m.Sound c op)
  | .add _ => isTrue trivial
  | .enable _ true => inferInstanceAs (Decidable (∀ x ∈ _, _ → _ → _))
  | .enable _ false => inferInstanceAs (Decidable (∀ x ∈ _, _ → _))
  | .del _ => inferInstanceAs (Decidable (∀ x ∈ _, _ → _))
  | .setSrc _ _ => inferInstanceAs (Decidable (∀ x ∈ _, _ → _ → _ → _ → _))
  | .setDst _ _ _ => inferInstanceAs (Decidable (∀ x ∈ _, _ → _ → _ → _))

/-- The sessions have different numbers, and `rx` and `tx` are what their sources make of them. -/
structure Inv : Prop extends Consistent c m where
  unique : Keyed.Unique Session.num m.sessions
  flags : ∀ x ∈ m.sessions, x.Flags

variable {c m} {t : Monitor} {x x' y : Session} {f : Session → Session} {num : ℕ}

/-! ### A session changes -/

section

variable (hu : Keyed.Unique Session.num m.sessions) (hx : x ∈ m.sessions)
  (ht : t.sessions = Keyed.modify Session.num m.sessions x.num f)

include hu hx

theorem ne_iff_num_ne (hy : m.Enabled y) : y ≠ x ↔ y.num ≠ x.num :=
  not_congr ⟨fun h => by rw [h], fun h => hu.eq_of_mem hy.1 hx h⟩

include ht

theorem enabled_modify : t.Enabled y ↔ m.Enabled y ∧ y ≠ x ∨ y = f x ∧ (f x).enabled = true := by
  unfold Enabled
  rw [ht, hu.mem_modify_self_iff hx]
  constructor
  · rintro ⟨rfl | ⟨hy, hne⟩, hen⟩
    · exact .inr ⟨rfl, hen⟩
    · exact .inl ⟨⟨hy, hen⟩, (ne_iff_num_ne hu hx ⟨hy, hen⟩).mpr hne⟩
  · rintro (⟨hy, hne⟩ | ⟨rfl, hen⟩)
    · exact ⟨.inr ⟨hy.1, (ne_iff_num_ne hu hx hy).mp hne⟩, hy.2⟩
    · exact ⟨.inl rfl, hen⟩

theorem enabledCount_modify : t.enabledCount + (if x.enabled = true then 1 else 0) =
    m.enabledCount + (if (f x).enabled = true then 1 else 0) := by
  have hfind : Keyed.find Session.num m.sessions x.num = some x := hu.find_eq_some_iff.mpr ⟨hx, rfl⟩
  unfold enabledCount
  rw [ht, (hu.perm_modify hfind).countP_eq, (Keyed.perm_cons_del hfind).countP_eq, List.countP_cons,
    List.countP_cons]
  omega

/-- `en_rx` and `en_tx` after a session has been changed. -/
theorem en_modify (h : ∀ r n, m.en r = some n ↔ ∃ x, m.Enabled x ∧ x.num = n ∧ x.mirrors r = true)
    (hnum : (f x).num = x.num)
    (hen : ∀ r, t.en r = if (f x).enabled = true ∧ (f x).mirrors r = true then some x.num
      else if x.enabled = true ∧ x.mirrors r = true then none else m.en r)
    (hfree : ∀ r, (f x).enabled = true → (f x).mirrors r = true → m.en r = none ∨
      m.en r = some x.num) :
    ∀ r n, t.en r = some n ↔ ∃ y, t.Enabled y ∧ y.num = n ∧ y.mirrors r = true := by
  have hnone {r : MonDir} {y : Session} (hy : m.Enabled y) (hr : y.mirrors r = true) :
      m.en r = some y.num := (h r y.num).mpr ⟨y, hy, rfl, hr⟩
  intro r n
  rw [hen]
  split_ifs with hnew hold
  · rw [Option.some_inj]
    constructor
    · rintro rfl
      exact ⟨f x, (enabled_modify hu hx ht).mpr (.inr ⟨rfl, hnew.1⟩), hnum, hnew.2⟩
    · rintro ⟨y, hy, rfl, hr⟩
      rcases (enabled_modify hu hx ht).mp hy with ⟨hy, hne⟩ | ⟨rfl, -⟩
      · exfalso
        rcases hfree r hnew.1 hnew.2 with hfree | hfree
        · exact absurd (hfree.symm.trans (hnone hy hr)) (Option.some_ne_none _).symm
        · have heq := Option.some_inj.mp (hfree.symm.trans (hnone hy hr))
          exact (ne_iff_num_ne hu hx hy).mp hne heq.symm
      · exact hnum.symm
  · refine iff_of_false not_false ?_
    rintro ⟨y, hy, -, hr⟩
    rcases (enabled_modify hu hx ht).mp hy with ⟨hy, hne⟩ | ⟨rfl, hen⟩
    · have heq := Option.some_inj.mp ((hnone hy hr).symm.trans (hnone ⟨hx, hold.1⟩ hold.2))
      exact (ne_iff_num_ne hu hx hy).mp hne heq
    · exact hnew ⟨hen, hr⟩
  · rw [h]
    constructor
    · rintro ⟨y, hy, hn, hr⟩
      refine ⟨y, (enabled_modify hu hx ht).mpr (.inl ⟨hy, ?_⟩), hn, hr⟩
      rintro rfl
      exact hold ⟨hy.2, hr⟩
    · rintro ⟨y, hy, hn, hr⟩
      rcases (enabled_modify hu hx ht).mp hy with ⟨hy, -⟩ | ⟨rfl, hen⟩
      · exact ⟨y, hy, hn, hr⟩
      · exact absurd ⟨hen, hr⟩ hnew

/-- Sessions agree after a change if and only if the one that is changed agrees with the others. -/
theorem agree_modify (h : m.Agree c) (hnum : (f x).num = x.num) (hen : (f x).enabled = true) :
    t.Agree c ↔ m.AgreesWith c (f x) := by
  have hmem := fun y => @enabled_modify m t x y f hu hx ht
  constructor
  · intro ht y hy hyen hne hsome heq
    refine ht (f x) y ((hmem _).mpr (.inr ⟨rfl, hen⟩))
      ((hmem y).mpr (.inl ⟨⟨hy, hyen⟩, ?_⟩)) hsome heq
    exact (ne_iff_num_ne hu hx ⟨hy, hyen⟩).mpr (hnum ▸ hne)
  · intro hag y z hy hz hsome heq
    rcases (hmem y).mp hy with ⟨hy, hyne⟩ | ⟨rfl, -⟩
    · rcases (hmem z).mp hz with ⟨hz, -⟩ | ⟨rfl, -⟩
      · exact h y z hy hz hsome heq
      · refine (hag y hy.1 hy.2 ?_ (heq ▸ hsome) heq.symm).symm
        exact hnum ▸ (ne_iff_num_ne hu hx hy).mp hyne
    · rcases (hmem z).mp hz with ⟨hz, hzne⟩ | ⟨rfl, -⟩
      · exact hag z hz.1 hz.2 (hnum ▸ (ne_iff_num_ne hu hx hz).mp hzne) hsome heq
      · exact Iff.rfl

end

/-- Sessions that are left agree. -/
theorem Agree.of_subset (h : m.Agree c) (hsub : ∀ y, t.Enabled y → m.Enabled y) : t.Agree c :=
  fun y z hy hz => h y z (hsub y hy) (hsub z hz)

/-- A session is not mirrored in the same direction as another. -/
theorem Books.exclusive (h : m.Books) (hu : Keyed.Unique Session.num m.sessions) :
    Exclusive m.Enabled := by
  intro r x y hx hy hrx hry
  have hxn := (h.en r x.num).mpr ⟨x, hx, rfl, hrx⟩
  have hyn := (h.en r y.num).mpr ⟨y, hy, rfl, hry⟩
  exact hu.eq_of_mem hx.1 hy.1 (Option.some_inj.mp (hxn.symm.trans hyn))

/-- Where no enabled session is changed, all stays consistent. -/
theorem consistent_congr (hB : ∀ y, t.Enabled y ↔ m.Enabled y)
    (hcount : t.enabledCount = m.enabledCount)
    (hn : t.n_en_s = m.n_en_s) (hen : t.en = m.en) (hhw : t.hw = m.hw) :
    Consistent c t ↔ Consistent c m := by
  have hfun : t.Enabled = m.Enabled := funext fun y => propext (hB y)
  have hbooks : t.Books ↔ m.Books := by
    constructor
    · rintro ⟨h₁, h₂, h₃⟩
      exact ⟨hn.symm.trans (h₁.trans (by rw [hcount])), hcount ▸ h₂,
        fun r n => by rw [← hen, ← hfun]; exact h₃ r n⟩
    · rintro ⟨h₁, h₂, h₃⟩
      exact ⟨hn.trans (h₁.trans (by rw [hcount])), hcount.symm ▸ h₂,
        fun r n => by rw [hen, hfun]; exact h₃ r n⟩
  have hagree : t.Agree c ↔ m.Agree c := by
    unfold Agree
    rw [hfun]
  constructor
  · rintro ⟨h₁, h₂, h₃, h₄, h₅⟩
    rw [hfun, hhw] at h₃ h₄ h₅
    exact ⟨hbooks.mp h₁, hagree.mp h₂, h₃, h₄, h₅⟩
  · rintro ⟨h₁, h₂, h₃, h₄, h₅⟩
    rw [← hfun, ← hhw] at h₃ h₄ h₅
    exact ⟨hbooks.mpr h₁, hagree.mpr h₂, h₃, h₄, h₅⟩

/-! ### Sessions go on and off -/

/-- Whether some direction of a session is taken. -/
theorem not_taken {free : Option ℕ → Bool} {mirrors : MonDir → Bool}
    (h : ¬m.taken free mirrors = true)
    (r : MonDir) (hr : mirrors r = true) : free (m.en r) = true := by
  unfold taken at h
  rw [Bool.or_eq_true, not_or] at h
  cases r with
  | rx => simpa [hr] using h.1
  | tx => simpa [hr] using h.2

/-- What the steps of enabling a session make of the state. -/
theorem turnOn_spec (ht : turnOn c m num x = some t) :
    ∃ hw₁ hw', monConfigureDst c x m.hw = some hw₁ ∧
    x.src.foldlM (writeSrc c true true) hw₁ = some hw' ∧
    t = { sessions := Keyed.modify Session.num m.sessions num fun x => { x with enabled := true },
          en := fun r => if x.mirrors r then some num else m.en r, n_en_s := m.n_en_s + 1, hw :=
            hw' } := by
  obtain ⟨m₁, hm₁, ht⟩ := Option.bind_eq_some_iff.mp ht
  obtain ⟨hw₁, hhw₁, rfl⟩ := Option.map_eq_some_iff.mp hm₁
  obtain ⟨m₂, hm₂, ht⟩ := Option.bind_eq_some_iff.mp ht
  obtain ⟨hw₂, hhw₂, rfl⟩ := Option.map_eq_some_iff.mp hm₂
  exact ⟨hw₁, hw₂, hhw₁, hhw₂, (Option.some_inj.mp ht).symm⟩

/-- What those of disabling it make of it. -/
theorem turnOff_spec (ht : turnOff c m num x = some t) : ∃ hw₁ m₁ hw',
    x.src.foldlM (writeSrc c false x.dst.isSome) m.hw = some hw₁ ∧
    monDeconfigureDst c m₁ num x hw₁ = some hw' ∧
    t = { sessions := Keyed.modify Session.num m.sessions num fun x => { x with enabled := false },
          en := fun r => if x.mirrors r then none else m.en r, n_en_s := m.n_en_s - 1, hw :=
            hw' } := by
  obtain ⟨m₁, hm₁, ht⟩ := Option.bind_eq_some_iff.mp ht
  obtain ⟨hw₁, hhw₁, rfl⟩ := Option.map_eq_some_iff.mp hm₁
  obtain ⟨m₂, hm₂, ht⟩ := Option.bind_eq_some_iff.mp ht
  obtain ⟨hw₂, hhw₂, rfl⟩ := Option.map_eq_some_iff.mp hm₂
  exact ⟨hw₁, _, hw₂, hhw₁, hhw₂, (Option.some_inj.mp ht).symm⟩

/-- A session is enabled consistently if and only if it agrees with the others. -/
theorem turnOn_consistent_iff (h : m.Inv c) (hx : x ∈ m.sessions) (hoff : x.enabled = false)
    (hbusy : ¬(1 < m.n_en_s ∨ m.taken Option.isNone x.mirrors = true))
    (ht : turnOn c m x.num x = some t) : Consistent c t ↔ m.AgreesWith c x := by
  obtain ⟨hw₁, hw', hhw₁, hhw', rfl⟩ := turnOn_spec ht
  obtain ⟨hvlan, hport, htag, hanalyzer⟩ := monConfigureDst_spec hhw₁
  obtain ⟨hvlan', hport', htag', hanalyzer'⟩ := foldlM_writeSrc_spec hhw'
  set t : Monitor := ⟨Keyed.modify Session.num m.sessions x.num fun x => { x with enabled := true },
    fun r => if x.mirrors r then some x.num else m.en r, m.n_en_s + 1, hw'⟩
  have hsessions : t.sessions =
    Keyed.modify Session.num m.sessions x.num fun x => { x with enabled := true } := rfl
  obtain ⟨hone, hfree⟩ := not_or.mp hbusy
  have hnone (r : MonDir) (hr : x.mirrors r = true) : m.en r = none :=
    Option.isNone_iff_eq_none.mp (not_taken hfree r hr)
  have hB (y : Session) : t.Enabled y ↔ m.Enabled y ∨ y = { x with enabled := true } := by
    rw [enabled_modify h.unique hx hsessions]
    refine or_congr ⟨And.left, fun hy => ⟨hy, ?_⟩⟩ ⟨And.left, fun hy => ⟨hy, rfl⟩⟩
    rintro rfl
    exact Bool.false_ne_true (hoff.symm.trans hy.2)
  have hcount := enabledCount_modify h.unique hx hsessions
  rw [if_neg (by rw [hoff]; exact Bool.false_ne_true), if_pos rfl] at hcount
  have hbooks : t.Books := by
    refine ⟨?_, ?_, en_modify h.unique hx hsessions h.books.en rfl (fun r => ?_) fun r _ hr => ?_⟩
    · have hle := h.books.count
      change m.n_en_s + 1 = _
      omega
    · have hle := h.books.count
      omega
    · refine if_congr (and_iff_right rfl).symm rfl (if_neg ?_).symm
      exact fun hen => Bool.false_ne_true (hoff.symm.trans hen.1)
    · exact .inl (hnone r hr)
  have hhardware : Sources c t.Enabled t.hw ∧ Analyzers c t.Enabled t.hw ∧
      Tagging c t.Enabled t.hw := by
    refine ⟨h.sources.add hB (fun d v => ?_) (fun r p => ?_),
      h.analyzers.add hB (fun r y hy hr hyr => ?_)
      (fun r d => ?_), h.tagging.add hB (fun p => ?_)⟩
    · rw [hvlan', hvlan]
    · rw [hport', hport]
    · have hyn := (h.books.en r y.num).mpr ⟨y, hy, rfl, hyr⟩
      exact absurd ((hnone r hr).symm.trans hyn) (Option.some_ne_none _).symm
    · rw [hanalyzer']
      exact hanalyzer r d
    · rw [htag']
      exact htag p
  obtain ⟨hsources, hanalyzers, htagging⟩ := hhardware
  exact ⟨fun hcons => (agree_modify h.unique hx hsessions h.agree rfl rfl).mp hcons.agree,
    fun hag => ⟨hbooks, (agree_modify h.unique hx hsessions h.agree rfl rfl).mpr hag,
      hsources, hanalyzers,
      htagging⟩⟩

/-- The conditions on tagging, for the sessions of the table. -/
theorem tagKept_iff (hu : Keyed.Unique Session.num m.sessions) (hx : x ∈ m.sessions)
    (on : Option MonPort) :
    (∀ q, c.untag x = some q → ∀ y r, m.Enabled y → y ≠ x → y.mirrors r = true →
      c.tagPort y = some q → on = some q) ↔ m.TagKept c x on := by
  constructor
  · intro h q hq y hy hen hne hr hyq
    have hyx := (ne_iff_num_ne hu hx ⟨hy, hen⟩).mpr hne
    rcases hr with hr | hr
    · exact h q hq y .rx ⟨hy, hen⟩ hyx hr hyq
    · exact h q hq y .tx ⟨hy, hen⟩ hyx hr hyq
  · intro h q hq y r hy hne hr hyq
    refine h q hq y hy.1 hy.2 ((ne_iff_num_ne hu hx hy).mp hne) ?_ hyq
    cases r
    · exact .inl hr
    · exact .inr hr

theorem tagLeft_iff {new : Session → Prop} {on : Option MonPort}
    (hu : Keyed.Unique Session.num m.sessions)
    (hx : m.Enabled x) (hB : ∀ y, t.Enabled y ↔ m.Enabled y ∧ y ≠ x ∨ new y)
    (hon : ∀ p, on = some p ↔ ∃ y, new y ∧ c.tagPort y = some p) :
    (∀ p, c.tagPort x = some p → m.Enabled x → m.hw.tag p = true →
      c.untag x = some p ∨ ∃ y, t.Enabled y ∧ c.tagPort y = some p) ↔ m.TagLeft c x on := by
  have hiff (p : MonPort) : (∃ y, t.Enabled y ∧ c.tagPort y = some p) ↔ on = some p ∨
      ∃ y ∈ m.sessions, y.enabled = true ∧ y.num ≠ x.num ∧ c.tagPort y = some p := by
    rw [hon]
    constructor
    · rintro ⟨y, hy, hp⟩
      rcases (hB y).mp hy with ⟨hy, hne⟩ | hy
      · exact .inr ⟨y, hy.1, hy.2, (ne_iff_num_ne hu hx.1 hy).mp hne, hp⟩
      · exact .inl ⟨y, hy, hp⟩
    · rintro (⟨y, hy, hp⟩ | ⟨y, hy, hen, hne, hp⟩)
      · exact ⟨y, (hB y).mpr (.inr hy), hp⟩
      · exact ⟨y, (hB y).mpr (.inl ⟨⟨hy, hen⟩, (ne_iff_num_ne hu hx.1 ⟨hy, hen⟩).mpr hne⟩), hp⟩
  constructor
  · intro h p hxp hp
    exact (h p hxp hx hp).imp_right (hiff p).mp
  · intro h p hxp _ hp
    exact (h p hxp hp).imp_right (hiff p).mpr

/-- The condition on the ports, direction by direction. -/
theorem portsLeft_iff {src : List MonIf} : (x.dst.isSome = false →
    ∀ r, ∀ p ∈ c.ports true r x.src, p ∈ c.ports true r src) ↔ PortsLeft c x src := by
  refine forall_congr' fun _ => ⟨fun h => ⟨h .rx, h .tx⟩, fun h r => ?_⟩
  cases r
  · exact h.1
  · exact h.2

/-- A session is disabled consistently if and only if it can be. -/
theorem turnOff_consistent_iff (h : m.Inv c) (hx : x ∈ m.sessions) (hon : x.enabled = true)
    (ht : turnOff c m x.num x = some t) : Consistent c t ↔ m.CanStop c x := by
  obtain ⟨hw₁, m₁, hw', hhw₁, hhw', rfl⟩ := turnOff_spec ht
  obtain ⟨hvlan, hport, htag, hanalyzer⟩ := foldlM_writeSrc_spec hhw₁
  obtain ⟨hvlan', hport', htag', hanalyzer'⟩ := monDeconfigureDst_spec hhw'
  set t : Monitor := ⟨Keyed.modify Session.num m.sessions x.num fun x =>
    { x with enabled := false },
    fun r => if x.mirrors r then none else m.en r, m.n_en_s - 1, hw'⟩
  have hsessions : t.sessions =
    Keyed.modify Session.num m.sessions x.num fun x => { x with enabled := false } := rfl
  have hB (y : Session) : t.Enabled y ↔ m.Enabled y ∧ y ≠ x := by
    rw [enabled_modify h.unique hx hsessions]
    exact or_iff_left fun hy => Bool.false_ne_true hy.2
  have hcount := enabledCount_modify h.unique hx hsessions
  rw [if_pos hon, if_neg Bool.false_ne_true] at hcount
  have hbooks : t.Books := by
    refine ⟨?_, ?_, en_modify h.unique hx hsessions h.books.en rfl (fun r => ?_)
      fun r hfalse _ => ?_⟩
    · have hle := h.books.count
      change m.n_en_s - 1 = _
      omega
    · have hle := h.books.le_two
      omega
    · rw [if_neg fun h => Bool.false_ne_true h.1]
      exact if_congr (and_iff_right hon).symm rfl rfl
    · exact absurd hfalse Bool.false_ne_true
  have hanalyzers : Analyzers c t.Enabled t.hw := by
    refine h.analyzers.remove ⟨hx, hon⟩ (h.books.exclusive h.unique) hB fun r d => ?_
    rw [hanalyzer' r d, hanalyzer]
  have hsources : Sources c t.Enabled t.hw ↔ PortsLeft c x [] := by
    rw [← portsLeft_iff]
    refine h.sources.replace_iff ⟨hx, hon⟩ (fun y hy => h.flags y hy.1) (h.books.exclusive h.unique)
      (fun P hP => ?_) (fun d v => ?_) (fun r p => ?_)
    · rw [or_iff_left hP]
      exact exists_congr fun y => (and_congr_left' (hB y)).trans and_assoc
    · rw [hvlan', hvlan]
      exact (if_neg fun hv => List.not_mem_nil hv.2).symm
    · rw [hport', hport]
      exact (if_neg List.not_mem_nil).symm
  have htagging : Tagging c t.Enabled t.hw ↔ m.TagLeft c x none ∧ m.TagKept c x none := by
    have hB' (y : Session) : t.Enabled y ↔ m.Enabled y ∧ y ≠ x ∨ False := by rw [hB, or_false]
    have hno (p : MonPort) : (none : Option MonPort) = some p ↔ ∃ y, False ∧
        c.tagPort y = some p := by simp
    rw [← tagKept_iff h.unique hx none, ← tagLeft_iff h.unique ⟨hx, hon⟩ hB' hno]
    refine h.tagging.replace_iff hB' (fun p hp => ?_) (fun y r p hy => hy.elim) (fun p => ?_)
    · exact absurd hp (Option.some_ne_none p).symm
    · rw [htag', htag, if_neg (Option.some_ne_none p).symm]
  exact ⟨fun hcons => ⟨hsources.mp hcons.sources, htagging.mp hcons.tagging⟩, fun hstop =>
    ⟨hbooks, h.agree.of_subset fun y hy => ((hB y).mp hy).1, hsources.mpr hstop.1, hanalyzers,
      htagging.mpr hstop.2⟩⟩

/-! ### Sessions are changed -/

/-- What is done for the old sources of a session. Where there are none, nothing is to be done. -/
theorem stop_spec {m₁ : Monitor} (hflags : x.Flags) (hon : x.enabled = true)
    (h : stopSrc c m num x = some m₁) :
    ∃ hw₁, m₁ = { m with hw := hw₁, en := fun r => if x.mirrors r then none else m.en r } ∧
      (∀ d v, hw₁.vlan d v =
        if d < c.NDEVS ∧ v ∈ MonConf.vlans x.src then false else m.hw.vlan d v) ∧
      (∀ r p, hw₁.port r p = if p ∈ c.ports x.dst.isSome r x.src then false else m.hw.port r p) ∧
      (∀ p, hw₁.tag p = if (if x.src = [] then none else c.untag x) = some p then false else m.hw.tag p) ∧
      ∀ r d, hw₁.analyzer r d = if x.mirrors r = true ∧ d < c.NDEVS ∧
        (c.target x).isSome = true then
        { m.hw.analyzer r d with on := false } else m.hw.analyzer r d := by
  unfold stopSrc at h
  by_cases hsrc : x.src = []
  · have hidle (r : MonDir) : x.mirrors r = false := by rw [hflags r, hsrc, List.any_nil]
    rw [if_neg fun h => h.1 hsrc] at h
    obtain rfl := Option.some_inj.mp h
    refine ⟨m.hw, ?_, fun d v => ?_, fun r p => ?_, fun p => ?_, fun r d => ?_⟩
    · have hen : (fun r => if x.mirrors r = true then none else m.en r) = m.en :=
        funext fun r => if_neg (by rw [hidle r]; exact Bool.false_ne_true)
      rw [hen]
    · rw [hsrc]
      exact (if_neg fun hv => List.not_mem_nil hv.2).symm
    · rw [hsrc]
      exact (if_neg List.not_mem_nil).symm
    · rw [if_pos hsrc]
      exact (if_neg (Option.some_ne_none p).symm).symm
    · exact (if_neg fun h => Bool.false_ne_true ((hidle r).symm.trans h.1)).symm
  · rw [if_pos ⟨hsrc, hon⟩] at h
    obtain ⟨m₂, hm₂, h⟩ := Option.bind_eq_some_iff.mp h
    obtain ⟨hw₂, hhw₂, rfl⟩ := Option.map_eq_some_iff.mp hm₂
    obtain ⟨hw₁, hhw₁, rfl⟩ := Option.map_eq_some_iff.mp h
    obtain ⟨hvlan, hport, htag, hanalyzer⟩ := monDeconfigureDst_spec hhw₂
    obtain ⟨hvlan', hport', htag', hanalyzer'⟩ := foldlM_writeSrc_spec hhw₁
    refine ⟨hw₁, rfl, fun d v => ?_, fun r p => ?_, fun p => ?_, fun r d => ?_⟩
    · rw [hvlan', hvlan]
    · rw [hport', hport]
    · rw [htag', htag, if_neg hsrc]
    · rw [hanalyzer', hanalyzer]

/-- What is done for its new sources. -/
theorem start_spec {m₁ : Monitor} {src : List MonIf} (hon : x.enabled = true)
    (h : startSrc c m num (x.withSrc src) = some m₁) :
    ∃ hw₁, m₁ = { m with hw := hw₁, en := fun r =>
      if (x.withSrc src).mirrors r then some num else m.en r } ∧
      (∀ d v, hw₁.vlan d v = if d < c.NDEVS ∧ v ∈ MonConf.vlans src then true else m.hw.vlan d v) ∧
      (∀ r p, hw₁.port r p = if p ∈ c.ports true r src then true else m.hw.port r p) ∧
      (∀ p, hw₁.tag p = if (if src = [] then none else c.tagPort x) = some p then true else m.hw.tag p) ∧
      ∀ r d, hw₁.analyzer r d = if (x.withSrc src).mirrors r = true ∧ d < c.NDEVS then
        (match c.target x with
          | some (dst, p) => (m.hw.analyzer r d).use (analyzerIface c dst p)
              (if vlanValid x.dst_vid then some x.dst_vid else none)
          | none => m.hw.analyzer r d)
        else m.hw.analyzer r d := by
  unfold startSrc at h
  by_cases hsrc : src = []
  · have hidle (r : MonDir) : (x.withSrc src).mirrors r = false := by
      rw [hsrc]
      rfl
    rw [if_neg fun h => h.1 hsrc] at h
    obtain rfl := Option.some_inj.mp h
    refine ⟨m.hw, ?_, fun d v => ?_, fun r p => ?_, fun p => ?_, fun r d => ?_⟩
    · have hen : (fun r => if (x.withSrc src).mirrors r = true then some num else m.en r) = m.en :=
        funext fun r => if_neg (by rw [hidle r]; exact Bool.false_ne_true)
      rw [hen]
    · rw [hsrc]
      exact (if_neg fun hv => List.not_mem_nil hv.2).symm
    · rw [hsrc]
      exact (if_neg List.not_mem_nil).symm
    · rw [if_pos hsrc]
      exact (if_neg (Option.some_ne_none p).symm).symm
    · exact (if_neg fun h => Bool.false_ne_true ((hidle r).symm.trans h.1)).symm
  · rw [if_pos ⟨hsrc, hon⟩] at h
    obtain ⟨m₂, hm₂, h⟩ := Option.bind_eq_some_iff.mp h
    obtain ⟨hw₂, hhw₂, rfl⟩ := Option.map_eq_some_iff.mp hm₂
    obtain ⟨hw₁, hhw₁, rfl⟩ := Option.map_eq_some_iff.mp h
    obtain ⟨hvlan, hport, htag, hanalyzer⟩ := foldlM_writeSrc_spec hhw₂
    obtain ⟨hvlan', hport', htag', hanalyzer'⟩ := monConfigureDst_spec hhw₁
    refine ⟨hw₁, rfl, fun d v => ?_, fun r p => ?_, fun p => ?_, fun r d => ?_⟩
    · rw [hvlan', hvlan]
      rfl
    · rw [hport', hport]
      rfl
    · rw [htag', htag, if_neg hsrc]
      rfl
    · rw [hanalyzer', hanalyzer]
      rfl

/-- The sources of an enabled session are replaced consistently if and only if its old ports and the
tagging of its destination can be left. -/
theorem replaceSrc_consistent_iff {src : List MonIf} (h : m.Inv c) (hx : x ∈ m.sessions)
    (hon : x.enabled = true)
    (hbusy : ¬(src ≠ [] ∧
      m.taken (fun en => en.all (· = x.num)) (fun r => src.any fun y => y.mirrors r) = true))
    (ht : replaceSrc c m x.num x src = some t) : Consistent c t ↔
      (x.src ≠ [] → PortsLeft c x src ∧
          m.TagKept c x (if src = [] then none else c.tagPort x)) := by
  obtain ⟨m₁, hm₁, ht⟩ := Option.bind_eq_some_iff.mp ht
  obtain ⟨hw₁, rfl, hvlan, hport, htag, hanalyzer⟩ := stop_spec (h.flags x hx) hon hm₁
  obtain ⟨hw₂, ht, hvlan', hport', htag', hanalyzer'⟩ := start_spec hon ht
  simp only [setSession] at ht hvlan' hport' htag' hanalyzer'
  have hex := h.books.exclusive h.unique
  have hsessions : t.sessions =
      Keyed.modify Session.num m.sessions x.num (·.withSrc src) := by rw [ht]
  have hen : t.en = fun r => if (x.withSrc src).mirrors r then some x.num else
      if x.mirrors r then none else m.en r := by rw [ht]
  have hn : t.n_en_s = m.n_en_s := by rw [ht]
  have hhw : t.hw = hw₂ := by rw [ht]
  have hB (y : Session) : t.Enabled y ↔ m.Enabled y ∧ y ≠ x ∨ y = x.withSrc src := by
    rw [enabled_modify h.unique hx hsessions]
    exact or_congr_right (and_iff_left hon)
  -- a direction of the new sources is free, or was that of the session
  have hfree (r : MonDir) (hr : (x.withSrc src).mirrors r = true) :
      m.en r = none ∨ m.en r = some x.num := by
    have hsrc : src ≠ [] := by
      rintro rfl
      exact Bool.false_ne_true hr
    have hall := not_taken (fun htaken => hbusy ⟨hsrc, htaken⟩) r hr
    cases hen : m.en r with
    | none => exact .inl rfl
    | some n =>
      rw [hen] at hall
      exact .inr (congrArg some (of_decide_eq_true hall))
  have hbooks : t.Books := by
    have hcount := enabledCount_modify h.unique hx hsessions
    have hon' : (x.withSrc src).enabled = true := hon
    rw [if_pos hon, if_pos hon', Nat.add_right_cancel_iff] at hcount
    refine ⟨?_, ?_, en_modify h.unique hx hsessions h.books.en rfl (fun r => ?_) fun r _ => hfree r⟩
    · rw [hcount, hn]
      exact h.books.count
    · rw [hcount]
      exact h.books.le_two
    · rw [hen]
      exact if_congr (and_iff_right hon').symm rfl (if_congr (and_iff_right hon).symm rfl rfl)
  have hagree : t.Agree c := by
    rw [agree_modify h.unique hx hsessions h.agree rfl hon]
    intro y hy hyen hne
    exact h.agree x y ⟨hx, hon⟩ ⟨hy, hyen⟩
  have hanalyzers : Analyzers c t.Enabled t.hw := by
    rw [hhw]
    have hold : Analyzers c (fun y => m.Enabled y ∧ y ≠ x) hw₁ :=
      h.analyzers.remove ⟨hx, hon⟩ hex (fun _ => Iff.rfl) hanalyzer
    refine hold.add hB (fun r y hy hr hyr => ?_) hanalyzer'
    have hyn := (h.books.en r y.num).mpr ⟨y, hy.1, rfl, hyr⟩
    rcases hfree r hr with hfree | hfree
    · exact absurd (hfree.symm.trans hyn) (Option.some_ne_none _).symm
    · have heq := Option.some_inj.mp (hfree.symm.trans hyn)
      exact (ne_iff_num_ne h.unique hx hy.1).mp hy.2 heq.symm
  have hsources : Sources c t.Enabled t.hw ↔ PortsLeft c x src := by
    rw [← portsLeft_iff, hhw]
    refine h.sources.replace_iff ⟨hx, hon⟩ (fun y hy => h.flags y hy.1) hex (fun P hP => ?_)
      (fun d v => ?_) (fun r p => ?_)
    · simp only [hB, or_and_right, exists_or, exists_eq_left, and_assoc]
      rfl
    · exact (hvlan' d v).trans (by rw [hvlan])
    · exact (hport' r p).trans (by rw [hport])
  have htagging : Tagging c t.Enabled t.hw ↔
      (x.src ≠ [] → m.TagKept c x (if src = [] then none else c.tagPort x)) := by
    have htag'' (p : MonPort) :
        t.hw.tag p = if (if src = [] then none else c.tagPort x) = some p then true
        else if (if x.src = [] then none else c.untag x) = some p then false else m.hw.tag p :=
      by rw [hhw]; exact (htag' p).trans (by rw [htag])
    refine (h.tagging.replace_iff hB (fun p hp => ?_) (fun y r p hy hr hyp => ?_) htag'').trans ?_
    · split_ifs at hp
      exact ⟨x.withSrc src, rfl, hp⟩
    · subst hy
      rw [if_neg fun hsrc => by rw [hsrc] at hr; exact Bool.false_ne_true hr]
      exact hyp
    · rw [← tagKept_iff h.unique hx]
      constructor
      · rintro ⟨-, hkept⟩ hsrc q hq
        exact hkept q (by rw [if_neg hsrc]; exact hq)
      · intro hkept
        refine ⟨fun p hxp _ _ => .inr ⟨x.withSrc src, (hB _).mpr (.inr rfl), hxp⟩, fun q hq => ?_⟩
        split_ifs at hq with hsrc
        exact hkept hsrc q hq
  constructor
  · exact fun hcons hsrc => ⟨hsources.mp hcons.sources, htagging.mp hcons.tagging hsrc⟩
  · intro hleft
    refine ⟨hbooks, hagree, hsources.mpr ?_, hanalyzers, htagging.mpr fun hsrc => (hleft hsrc).2⟩
    by_cases hsrc : x.src = []
    · rw [← portsLeft_iff, hsrc]
      exact fun _ r p hp => absurd hp List.not_mem_nil
    · exact (hleft hsrc).1

/-- The destination of an enabled session is replaced consistently if and only if the new one agrees
with the others, and the tagging of the old one can be left. -/
theorem replaceDst_consistent_iff {dst : Option MonIf} {dst_vid : ℕ} (h : m.Inv c)
    (hx : x ∈ m.sessions)
    (hon : x.enabled = true) (ht : replaceDst c m x.num x dst dst_vid = some t) : Consistent c t ↔
      m.AgreesWith c (x.withDst dst dst_vid) ∧ m.TagLeft c x (c.tagPort (x.withDst dst dst_vid)) ∧
        m.TagKept c x (c.tagPort (x.withDst dst dst_vid)) := by
  obtain ⟨m₁, hm₁, ht⟩ := Option.bind_eq_some_iff.mp ht
  obtain ⟨hw₁, hhw₁, rfl⟩ := Option.map_eq_some_iff.mp hm₁
  obtain ⟨hw₂, hhw₂, ht⟩ := Option.map_eq_some_iff.mp ht
  simp only [setSession] at ht hhw₂
  obtain ⟨hvlan, hport, htag, hanalyzer⟩ := monDeconfigureDst_spec hhw₁
  obtain ⟨hvlan', hport', htag', hanalyzer'⟩ := monConfigureDst_spec hhw₂
  have hex := h.books.exclusive h.unique
  have hsessions : t.sessions =
      Keyed.modify Session.num m.sessions x.num (·.withDst dst dst_vid) := by
    rw [← ht]
  have hen : t.en = m.en := by rw [← ht]
  have hn : t.n_en_s = m.n_en_s := by rw [← ht]
  have hhw : t.hw = hw₂ := by rw [← ht]
  have hon' : (x.withDst dst dst_vid).enabled = true := hon
  -- the enabled sessions afterwards are the others and the changed one
  have hB (y : Session) : t.Enabled y ↔ m.Enabled y ∧ y ≠ x ∨ y = x.withDst dst dst_vid := by
    rw [enabled_modify h.unique hx hsessions]
    exact or_congr_right (and_iff_left hon)
  -- the counts do not see a new destination
  have hbooks : t.Books := by
    have hcount := enabledCount_modify h.unique hx hsessions
    have hself (r : MonDir) (hr : x.mirrors r = true) : m.en r = some x.num :=
      (h.books.en r x.num).mpr ⟨x, ⟨hx, hon⟩, rfl, hr⟩
    rw [if_pos hon, if_pos hon', Nat.add_right_cancel_iff] at hcount
    refine ⟨?_, ?_, en_modify h.unique hx hsessions h.books.en rfl (fun r => ?_) fun r _ hr => ?_⟩
    · rw [hcount, hn]
      exact h.books.count
    · rw [hcount]
      exact h.books.le_two
    · rw [hen]
      by_cases hr : x.mirrors r = true
      · exact (hself r hr).trans (if_pos ⟨hon, hr⟩).symm
      · have hr' : ¬((x.withDst dst dst_vid).enabled = true ∧
            (x.withDst dst dst_vid).mirrors r = true) :=
          fun h => hr h.2
        rw [if_neg hr', if_neg fun h => hr h.2]
    · exact .inr (hself r hr)
  -- the analyzers of the session are taken away and set again
  have hanalyzers : Analyzers c t.Enabled t.hw := by
    rw [hhw]
    have hold : Analyzers c (fun y => m.Enabled y ∧ y ≠ x) hw₁ :=
      h.analyzers.remove ⟨hx, hon⟩ hex (fun _ => Iff.rfl) hanalyzer
    refine hold.add hB (fun r y hy hr hyr => ?_) hanalyzer'
    exact hy.2 (hex r y x hy.1 ⟨hx, hon⟩ hyr hr)
  -- the mirrored sources stay
  have hsources : Sources c t.Enabled t.hw := by
    rw [hhw]
    refine h.sources.congr (hvlan'.trans hvlan) (hport'.trans hport) fun P => ?_
    constructor
    · rintro ⟨y, hy, hP⟩
      rcases (hB y).mp hy with ⟨hy, -⟩ | rfl
      · exact ⟨y, hy, hP⟩
      · exact ⟨x, ⟨hx, hon⟩, hP⟩
    · rintro ⟨y, hy, hP⟩
      by_cases hyx : y = x
      · subst hyx
        exact ⟨_, (hB _).mpr (.inr rfl), hP⟩
      · exact ⟨y, (hB y).mpr (.inl ⟨hy, hyx⟩), hP⟩
  -- only the tagging depends on the new destination
  have htagging : Tagging c t.Enabled t.hw ↔ m.TagLeft c x (c.tagPort (x.withDst dst dst_vid)) ∧
      m.TagKept c x (c.tagPort (x.withDst dst dst_vid)) := by
    have hself (p : MonPort) : c.tagPort (x.withDst dst dst_vid) = some p ↔
        ∃ y, y = x.withDst dst dst_vid ∧ c.tagPort y = some p := by simp
    rw [← tagKept_iff h.unique hx, ← tagLeft_iff h.unique ⟨hx, hon⟩ hB hself, hhw]
    refine h.tagging.replace_iff hB (fun p => (hself p).mp)
      (fun y r p hy _ hyp => hy ▸ hyp) fun p => ?_
    exact (htag' p).trans (by rw [htag])
  constructor
  · intro hcons
    exact ⟨(agree_modify h.unique hx hsessions h.agree rfl hon').mp hcons.agree,
      htagging.mp hcons.tagging⟩
  · rintro ⟨hag, hleft⟩
    exact ⟨hbooks, (agree_modify h.unique hx hsessions h.agree rfl hon').mpr hag, hsources,
      hanalyzers,
      htagging.mpr hleft⟩

end Monitor

end Presteramgr
