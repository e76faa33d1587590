import Presteramgr.Mac.Learning

/-!
# Breaches of security (`sec.c`)

A new address on a locked port is a breach of security. The thread `sec-breach` reports it, and
stops the events of the port for a while; a timer starts them again. Meanwhile the table of
addresses and the configuration of port security change as before. The thread notes in `sb_delay`
what it is going to do with a port before it does it, and other threads may act in between.

## Main definitions

* `SecBreach`: the ports and the table, `sb_delay`, what the thread is about to do, and what it has
  reported;
* `SecBreach.step`: one step of the thread, or of another one;
* `SecBreach.Right`: no port is without its events unless the timer is going to start them;
* `SecBreach.Timely`: port security of a port is not switched off while the timer is about to start
  events.

## Main results

* `SecBreach.right_iff_timely`: in a run of timely steps this holds in every state, and the next
  step keeps it if and only if it is timely;
* `SecBreach.timer_rearms`: the timer starts all events that are due;
* `SecBreach.reports_spaced`: between two reports on a port there is more than its delay.
-/

namespace Presteramgr

open Function (update update_self update_of_ne)

/-! ## Ports -/

namespace PsecPort

variable (p : PsecPort)

/-- `psec_enable_na_sb`, for one port. It does not look whether port security is on. -/
def psecEnableNaSbPort (enable : Bool) : PsecPort :=
  if enable then
    if p.action = .PSECA_RESTRICT ∧ (p.mode = .PSECM_LOCK ∨
        p.mode = .PSECM_MAX_ADDRS ∧ p.maxAddrs ≤ p.naddrs) then
      p.setLearn { p.learn with securBreachNa := true }
    else p
  else p.setLearn { p.learn with securBreachNa := false }

@[simp] theorem psecEnableNaSbPort_toPsec (enable : Bool) :
    (p.psecEnableNaSbPort enable).toPsec = p.toPsec := by
  unfold psecEnableNaSbPort
  split_ifs <;> rfl

/-- The hardware is right for a port, but for its events, which may be off. -/
def Near : Prop := ∃ mute, p.Ok mute

variable {p}

/-- Deleting an address keeps the hardware right but for the events of the port. -/
theorem Near.addrDel (h : p.Near) : p.psecAddrDel.Near := by
  obtain ⟨mute, h⟩ := h
  exact ⟨mute, h.addrDel⟩

/-- A port that reaches its limit gets all that is to be programmed. -/
theorem Near.addrAdd (h : p.Near) : p.psecAddrAdd.Near := by
  obtain ⟨mute, h⟩ := h
  cases mute with
  | false => exact ⟨false, h.addrAdd⟩
  | true =>
    have hmax : 0 < p.psecAddrAdd.maxAddrs :=
      lt_of_lt_of_eq h.max (congrArg Psec.maxAddrs p.psecAddrAdd_toPsec).symm
    by_cases hlimit : p.enabled = true ∧ p.naddrs + 1 = p.maxAddrs
    · refine ⟨false, ?_, hmax⟩
      unfold psecAddrAdd
      dsimp only
      rw [if_pos hlimit]
      obtain ⟨hen, hn⟩ := hlimit
      have hlocked : Psec.Locked { p.toPsec with naddrs := p.naddrs + 1 } := .inr hn.ge
      have hna : p.learn.securBreachNa = false := by
        rw [show p.learn = { p.toPsec.learns with securBreachNa := false } from h.agrees]
      show _ = (PsecPort.psecLimitReached { p with naddrs := p.naddrs + 1 }).toPsec.learns
      rw [psecLimitReached_toPsec, psecLimitReached, if_pos hen]
      exact (@psecDisableLearning_learn { p with naddrs := p.naddrs + 1 }
        (h.agrees.storm hen) fun _ => hna).trans
        (Psec.learns_locked { p.toPsec with naddrs := p.naddrs + 1 } hen hlocked).symm
    · refine ⟨true, ?_, hmax⟩
      unfold psecAddrAdd
      dsimp only
      rw [if_neg hlimit]
      refine h.agrees.congr rfl (Psec.learns_congr rfl rfl fun hen => or_congr_right ?_)
      have hn : p.naddrs + 1 ≠ p.maxAddrs := fun heq => hlimit ⟨hen, heq⟩
      dsimp only
      omega

/-- The events of a port that is disabled are off in any case. -/
theorem Near.fresh_of_disabled (h : p.Near) (hen : p.enabled = false) : p.Ok false := by
  obtain ⟨mute, hagrees, hmax⟩ := h
  refine ⟨?_, hmax⟩
  have hlearn : p.learn = _ := hagrees
  have hlearns := p.toPsec.learns_disabled hen
  rw [hlearns] at hlearn
  show p.learn = p.toPsec.learns
  rw [hlearn, hlearns]
  cases mute <;> rfl

/-- `psec_enable_na_sb` takes the events away. -/
theorem Near.block (h : p.Near) : (p.psecEnableNaSbPort false).Ok true := by
  obtain ⟨mute, hagrees, hmax⟩ := h
  refine ⟨?_, lt_of_lt_of_eq hmax (congrArg Psec.maxAddrs (p.psecEnableNaSbPort_toPsec false)).symm⟩
  show ({ p.learn with securBreachNa := false } : PortLearn) =
    { p.toPsec.learns with securBreachNa := false }
  rw [show p.learn = _ from hagrees]
  cases mute <;> rfl

/-- A port is locked by its mode or at its limit. -/
theorem lockedIff : (p.mode = .PSECM_LOCK ∨ p.mode = .PSECM_MAX_ADDRS ∧ p.maxAddrs ≤ p.naddrs) ↔
    p.toPsec.Locked := by
  unfold Psec.Locked
  cases p.mode <;> simp

/-- `psec_enable_na_sb` starts the events of a port, or leaves it right, unless the port has just
been taken off port security. -/
theorem Near.unblock (h : p.Near)
    (hen : p.action = .PSECA_RESTRICT → p.toPsec.Locked → p.enabled = true) :
    (p.psecEnableNaSbPort true).Ok false := by
  obtain ⟨mute, hagrees, hmax⟩ := h
  have hlearn : p.learn = _ := hagrees
  refine ⟨?_, lt_of_lt_of_eq hmax (congrArg Psec.maxAddrs (p.psecEnableNaSbPort_toPsec true)).symm⟩
  unfold psecEnableNaSbPort
  rw [if_pos rfl, if_congr (and_congr_right' lockedIff) rfl rfl]
  by_cases hbreach : p.action = .PSECA_RESTRICT ∧ p.toPsec.Locked
  · rw [if_pos hbreach]
    have hlearns := p.toPsec.learns_locked (hen hbreach.1 hbreach.2) hbreach.2
    rw [hbreach.1] at hlearns
    show ({ p.learn with securBreachNa := true } : PortLearn) = p.toPsec.learns
    rw [hlearn, hlearns]
    cases mute <;> rfl
  · rw [if_neg hbreach]
    -- such a port has no events
    have hna : p.toPsec.learns.securBreachNa = false := by
      cases hon : p.enabled with
      | false =>
        rw [p.toPsec.learns_disabled hon]
        rfl
      | true =>
        by_cases hl : p.toPsec.Locked
        · rw [p.toPsec.learns_locked hon hl]
          cases hact : p.action with
          | PSECA_FORWARD => rfl
          | PSECA_RESTRICT => exact absurd ⟨hact, hl⟩ hbreach
        · rw [p.toPsec.learns_open hon hl]
          rfl
    show p.learn = p.toPsec.learns
    rw [hlearn]
    cases mute with
    | false => rfl
    | true =>
      rw [if_pos rfl, ← hna]

/-- Events that are started on a port without port security are wrong. -/
theorem enabled_of_unblock (h : (p.psecEnableNaSbPort true).Near)
    (hact : p.action = .PSECA_RESTRICT)
    (hl : p.toPsec.Locked) : p.enabled = true := by
  by_contra hen
  obtain ⟨mute, hagrees, -⟩ := h
  have hlearn : (p.psecEnableNaSbPort true).learn = _ := hagrees
  have hna : (p.psecEnableNaSbPort true).learn.securBreachNa = true := by
    unfold psecEnableNaSbPort
    rw [if_pos rfl, if_congr (and_congr_right' lockedIff) rfl rfl, if_pos ⟨hact, hl⟩]
    rfl
  rw [hlearn, psecEnableNaSbPort_toPsec,
    p.toPsec.learns_disabled (Bool.eq_false_iff.mpr hen)] at hna
  cases mute <;> cases hna

/-- A new action for a port that is locked and stays so is not programmed. -/
theorem Near.enable_iff (h : p.Near) (enable : Bool) (act : PsecAction) (trap : ℕ) :
    (p.psecEnable enable act trap).Near ↔
      (p.enabled = true → enable = true → p.toPsec.Locked → act = p.action) := by
  have hmax : 0 < (p.psecEnable enable act trap).maxAddrs := by
    obtain ⟨_, -, hmax⟩ := h
    exact lt_of_lt_of_eq hmax (congrArg Psec.maxAddrs (p.psecEnable_toPsec enable act trap)).symm
  by_cases hdo : p.enabled ≠ enable
  · -- programmed anew
    refine iff_of_true ⟨false, ?_, hmax⟩ fun hen henable => absurd (hen.trans henable.symm) hdo
    unfold psecEnable
    dsimp only
    rw [if_pos hdo]
    show _ = (PsecPort.psecEnableNow _).toPsec.learns
    rw [psecEnableNow_toPsec]
    refine psecEnableNow_learn fun henable => ?_
    have hoff : p.enabled = false := Bool.eq_false_iff.mpr fun hen => hdo (hen.trans henable.symm)
    show p.learn.securBreachNa = false
    rw [show p.learn = _ from (h.fresh_of_disabled hoff).agrees, p.toPsec.learns_disabled hoff]
    rfl
  · obtain rfl := not_ne_iff.mp hdo
    have hsame : p.psecEnable p.enabled act trap =
        { p with action := act, trapInterval := trap } := by
      unfold psecEnable
      dsimp only
      rw [if_neg hdo]
    rw [hsame] at hmax ⊢
    by_cases hlocked : p.enabled = true ∧ p.toPsec.Locked
    · obtain ⟨hen, hl⟩ := hlocked
      have hold := p.toPsec.learns_locked hen hl
      have hnew := Psec.learns_locked { p.toPsec with action := act, trapInterval := trap } hen hl
      obtain ⟨mute, hagrees, -⟩ := h
      have hlearn : p.learn = _ := hagrees
      constructor
      · rintro ⟨mute', hagrees', -⟩ - - -
        -- the lock command tells the two actions apart
        have hlearn' : p.learn =
            if mute' then
              { Psec.learns { p.toPsec with action := act, trapInterval := trap } with
                securBreachNa := false }
            else Psec.learns { p.toPsec with action := act, trapInterval := trap } :=
          hagrees'
        rw [hold] at hlearn
        rw [hnew, hlearn] at hlearn'
        have hcmd : (lockedLearn p.action).lockCmd = (lockedLearn act).lockCmd := by
          have hcmd := congrArg PortLearn.lockCmd hlearn'
          cases mute <;> cases mute' <;> exact hcmd
        cases hact : p.action <;> cases act
        all_goals first | rfl | (rw [hact] at hcmd; cases hcmd)
      · intro hact
        obtain rfl := hact hen hen hl
        exact ⟨mute, hagrees, hmax⟩
    · have hlearns : Psec.learns { p.toPsec with action := act, trapInterval := trap } =
          p.toPsec.learns := by
        cases hen : p.enabled with
        | false =>
          exact (Psec.learns_disabled
            { p.toPsec with action := act, trapInterval := trap } hen).trans
            (p.toPsec.learns_disabled hen).symm
        | true =>
          have hl : ¬p.toPsec.Locked := fun hl => hlocked ⟨hen, hl⟩
          exact (Psec.learns_open
            { p.toPsec with action := act, trapInterval := trap } hen hl).trans
            (p.toPsec.learns_open hen hl).symm
      obtain ⟨mute, hagrees, -⟩ := h
      exact iff_of_true ⟨mute, hagrees.congr rfl hlearns, hmax⟩
        fun hen _ hl => absurd ⟨hen, hl⟩ hlocked

end PsecPort

/-! ## The thread -/

/-- `struct sb_delay`. -/
structure SbDelay where
  port_enabled : Bool
  port_na_blocked : Bool
  tdelay_sb_port_na : ℕ
  tdelay_sb_moved_static : ℕ
  tst_port_na : ℕ
  tst_moved_static : ℕ
deriving DecidableEq, Repr

/-- The events of `CPSS_BRG_SECUR_BREACH_MSG_STC`. -/
inductive SecurBreachCode
  | PORT_NOT_IN_VLAN
  | PORT_NA
  | MOVED_STATIC
  | other (code : ℕ)
deriving DecidableEq, Repr

/-- `CPSS_BRG_SECUR_BREACH_MSG_STC`, with the port that `port_id` gives. -/
structure SecurBreachMsg where
  code : SecurBreachCode
  pid : ℕ
  vlan : ℕ
  macSa : Mac
deriving DecidableEq, Repr

/-- The types of a breach that is reported. -/
inductive SbType
  | SB_PORT_NA
  | SB_MOVED_STATIC
deriving DecidableEq, Repr

/-- `CN_SECURITY_BREACH`, with the time and the delay of the port when the breach was noted. -/
structure BreachReport where
  type : SbType
  pid : ℕ
  vlan : ℕ
  mac : Mac
  ts : ℕ
  delay : ℕ
deriving DecidableEq, Repr

/-- What the thread is about to do: `sect_event_handler` takes away the events of the port of a
breach and looks for its address, `sect_delay_timer` goes over the ports and starts the events of
one. -/
inductive SectPc
  | idle
  | block (msg : SecurBreachMsg) (ts delay : ℕ)
  | query (msg : SecurBreachMsg) (ts delay : ℕ)
  | timer (pid ts : ℕ)
  | unblock (pid ts : ℕ)
deriving DecidableEq, Repr

/-- The ports and the table of addresses, `sb_delay`, the thread, and its reports, the last one
first. -/
structure SecBreach where
  fdb : SecFdb
  sb_delay : ℕ → SbDelay
  pc : SectPc
  sent : List BreachReport

/-- A call of another thread, a breach, the timer, and a step of the thread. -/
inductive SectOp
  | psec (op : PsecOp)
  | breach (msg : SecurBreachMsg) (ts : ℕ)
  | timer (ts : ℕ)
  | thread

namespace SecBreach

variable (c : FdbConf) (NPORTS : ℕ) (s : SecBreach)

/-- `sb_delay` of a port changes. -/
def setDelay (pid : ℕ) (f : SbDelay → SbDelay) : SecBreach :=
  { s with sb_delay := update s.sb_delay pid (f (s.sb_delay pid)) }

/-- `sec_port_na_delay_set`, `sec_moved_static_delay_set` and `sec_port_enable`, which `psec_enable`
calls. -/
def secEnable (pid delay_secs : ℕ) (enable : Bool) : SecBreach :=
  s.setDelay pid fun d => { d with
    tdelay_sb_port_na := delay_secs * 1000 % 2 ^ 32
    tdelay_sb_moved_static := delay_secs * 1000 % 2 ^ 32
    port_enabled := enable }

/-- A call of another thread. -/
def psecCall (op : PsecOp) : Option SecBreach :=
  (s.fdb.step c op).map fun x =>
    let s := { s with fdb := x }
    match op with
    | .enable pid enable _ trap =>
      if (portPtr c pid).isSome ∧ trap ≤ 1000000 then
        s.secEnable pid (if trap = 0 then 30 else trap) enable
      else s
    | _ => s

/-- `sect_event_handler` up to the call of `psec_enable_na_sb`. -/
def sectEventHandler (msg : SecurBreachMsg) (ts : ℕ) : SecBreach :=
  let d := s.sb_delay msg.pid
  match msg.code with
  | .PORT_NOT_IN_VLAN => s
  | .PORT_NA =>
    if msg.vlan = 0xFFF then s
    else if d.tst_port_na + d.tdelay_sb_port_na < ts then
      { s.setDelay msg.pid fun d => { d with tst_port_na := ts, port_na_blocked := true } with
        pc := .block msg ts d.tdelay_sb_port_na }
    else s
  | .MOVED_STATIC =>
    if d.tst_moved_static + d.tdelay_sb_moved_static < ts then
      { s.setDelay msg.pid fun d => { d with tst_moved_static := ts } with
        sent :=
          ⟨.SB_MOVED_STATIC, msg.pid, msg.vlan, msg.macSa, ts, d.tdelay_sb_moved_static⟩ :: s.sent }
    else s
  | .other _ => s

/-- `psec_enable_na_sb`. -/
def psecEnableNaSb (pid : ℕ) (enable : Bool) : SecBreach :=
  match portPtr c pid with
  | none => s
  | some p =>
    { s with
      fdb := { s.fdb with
        ports := update s.fdb.ports p ((s.fdb.ports p).psecEnableNaSbPort enable) } }

/-- `mac2_query`: the table has the address. -/
def mac2Query (vlan : ℕ) (mac : Mac) : Bool :=
  match c.hash (.macAddr vlan mac) with
  | none => false
  | some b => (s.fdb.toFdb.find b (.macAddr vlan mac)).isSome

/-- The next step of the thread. -/
def sectThread : Option SecBreach :=
  match s.pc with
  | .idle => none
  | .block msg ts delay => some { s.psecEnableNaSb c msg.pid false with pc := .query msg ts delay }
  | .query msg ts delay =>
    some { s with
      pc := .idle
      -- an address that the table has is no breach
      sent := if s.mac2Query c msg.vlan msg.macSa then s.sent
        else ⟨.SB_PORT_NA, msg.pid, msg.vlan, msg.macSa, ts, delay⟩ :: s.sent }
  | .timer pid ts =>
    let d := s.sb_delay pid
    if NPORTS < pid then some { s with pc := .idle }
    else if d.port_enabled ∧ d.port_na_blocked ∧ d.tst_port_na + d.tdelay_sb_port_na < ts then
      some { s.setDelay pid fun d =>
        { d with port_na_blocked := false } with pc := .unblock pid ts }
    else some { s with pc := .timer (pid + 1) ts }
  | .unblock pid ts => some { s.psecEnableNaSb c pid true with pc := .timer (pid + 1) ts }

/-- One step. The thread takes the next breach or timer when it is done with the one before. -/
def step : SectOp → Option SecBreach
  | .psec op => s.psecCall c op
  | .breach msg ts => if s.pc = .idle then some (s.sectEventHandler msg ts) else none
  | .timer ts => if s.pc = .idle then some { s with pc := .timer 1 ts } else none
  | .thread => s.sectThread c NPORTS

/-- The state after `sec_start` at time `ts`. -/
def start (stack : ℕ → Option PortLearn) (ts : ℕ) : SecBreach where
  fdb := .init stack
  sb_delay p :=
    if 1 ≤ p ∧ p ≤ NPORTS then ⟨false, false, 30000, 30000, ts, ts⟩
    else ⟨false, false, 0, 0, 0, 0⟩
  pc := .idle
  sent := []

/-! ## The hardware -/

/-- The events of a port are going to be started again. -/
def Blocked (p : ℕ) : Prop := (s.sb_delay p).port_na_blocked = true ∨ ∃ ts, s.pc = .unblock p ts

/-- A port that is no stack port has what a fresh enable would program, but for its events while
they are blocked. -/
def Right (stack : ℕ → Option PortLearn) : Prop :=
  ∀ p, 1 ≤ p → p ≤ c.nports → stack p = none →
    (s.fdb.ports p).Fresh ∨ (s.fdb.ports p).Agrees true ∧ s.Blocked p

/-- When the timer starts the events of a locked port, port security is on. -/
def StartsOn (stack : ℕ → Option PortLearn) : SectPc → Prop
  | .unblock pid _ => 1 ≤ pid → pid ≤ c.nports → stack pid = none →
      (s.fdb.ports pid).action = .PSECA_RESTRICT → (s.fdb.ports pid).toPsec.Locked →
        (s.fdb.ports pid).enabled = true
  | _ => True

/-- A call of `psec_enable` is steady, and the timer starts no events of ports that are off by
then. -/
def Timely (stack : ℕ → Option PortLearn) : SectOp → Prop
  | .psec op => s.fdb.Steady c stack op
  | .thread => s.StartsOn c stack s.pc
  | .breach _ _ => True
  | .timer _ => True

instance (stack : ℕ → Option PortLearn) : ∀ pc, Decidable (s.StartsOn c stack pc)
  | .unblock pid _ =>
    inferInstanceAs (Decidable (1 ≤ pid → pid ≤ c.nports → stack pid = none → _ → _ → _))
  | .idle => isTrue trivial
  | .block _ _ _ => isTrue trivial
  | .query _ _ _ => isTrue trivial
  | .timer _ _ => isTrue trivial

instance (stack : ℕ → Option PortLearn) : ∀ op, Decidable (s.Timely c stack op)
  | .psec (.enable pid enable act trap) => inferInstanceAs
      (Decidable (1 ≤ pid → pid ≤ c.nports → stack pid = none →
      trap ≤ 1000000 → (s.fdb.ports pid).enabled = true → enable = true →
        (s.fdb.ports pid).toPsec.Locked →
      act = (s.fdb.ports pid).action))
  | .psec (.fdb _) => isTrue trivial
  | .psec (.setMaxAddrs _ _) => isTrue trivial
  | .psec (.setMode _ _) => isTrue trivial
  | .thread => inferInstanceAs (Decidable (s.StartsOn c stack s.pc))
  | .breach _ _ => isTrue trivial
  | .timer _ => isTrue trivial

variable {c NPORTS s} {s' : SecBreach} {stack : ℕ → Option PortLearn} {x : SecFdb}

/-! ## Calls of other threads -/

/-- What only `psec_enable` sets. -/
def settings (q : Psec) : Bool × PsecAction × ℕ := (q.enabled, q.action, q.trapInterval)

/-- A call other than `psec_enable` leaves which ports have port security on, the action and the
interval. -/
theorem settings_of_step {op : PsecOp}
    (hop : ∀ pid enable act trap, op ≠ .enable pid enable act trap)
    {x' : SecFdb} (hs : x.step c op = some x') (p : ℕ) :
    settings (x'.ports p).toPsec = settings (x.ports p).toPsec := by
  -- each step of the table keeps what is configured, so `Follow` carries it over
  have hdel : ∀ q : PsecPort, settings q.toPsec = settings (x.ports p).toPsec →
      settings q.psecAddrDel.toPsec = settings (x.ports p).toPsec :=
    fun q hq => (congrArg settings q.psecAddrDel_toPsec).trans hq
  have hadd : ∀ q : PsecPort, settings q.toPsec = settings (x.ports p).toPsec →
      settings q.psecAddrAdd.toPsec = settings (x.ports p).toPsec :=
    fun q hq => (congrArg settings q.psecAddrAdd_toPsec).trans hq
  have hflush : ∀ q : PsecPort, settings q.toPsec = settings (x.ports p).toPsec →
      settings q.psecAfterFlush.toPsec = settings (x.ports p).toPsec := by
    intro q hq
    have hset := congrArg settings q.psecAfterFlush_toPsec
    split_ifs at hset <;> exact hset.trans hq
  have hna : ∀ (b : Bool) (q : PsecPort), settings q.toPsec = settings (x.ports p).toPsec →
      settings (q.psecEnableNaSb b).toPsec = settings (x.ports p).toPsec :=
    fun b q hq => (congrArg settings (q.psecEnableNaSb_toPsec b)).trans hq
  cases op with
  | fdb op =>
    cases op with
    | insert m mo e secure fake =>
      obtain rfl := Option.some_inj.mp hs
      exact SecFdb.follow_insert hdel hadd m mo e secure fake p rfl
    | remove m k sid =>
      obtain rfl := Option.some_inj.mp hs
      exact SecFdb.follow_remove hdel m k sid p rfl
    -- a flush mutes the ports, frees the entries and opens the ports again
    | flush arg =>
      obtain rfl := Option.some_inj.mp hs
      unfold SecFdb.flush
      cases Fdb.flushDst c arg with
      | none => rfl
      | some dst =>
        exact SecFdb.follow_forPorts (hna true) p
          (SecFdb.follow_flushBy hdel hflush arg.vid dst arg.ds p
          (SecFdb.follow_forPorts (hna false) p rfl))
    | flushVif arg =>
      obtain rfl := Option.some_inj.mp hs
      unfold SecFdb.flushVif
      cases Fdb.flushVifDst c arg with
      | none => rfl
      | some dst => exact SecFdb.follow_flushBy hdel hflush arg.vid dst arg.ds p rfl
  | setMaxAddrs pid max =>
    obtain rfl := Option.some_inj.mp hs
    unfold SecFdb.psecSetMaxAddrs
    cases portPtr c pid with
    | none => rfl
    | some q =>
      dsimp only
      by_cases hq : p = q
      · subst hq
        split_ifs <;> simp [settings]
      · split_ifs <;> simp [update_of_ne hq]
  | setMode pid mode =>
    obtain rfl := Option.some_inj.mp hs
    unfold SecFdb.psecSetMode
    cases portPtr c pid with
    | none => rfl
    | some q =>
      dsimp only
      by_cases hq : p = q
      · subst hq
        split_ifs <;> simp [settings]
      · split_ifs <;> simp [update_of_ne hq]
  | enable pid enable act trap => exact absurd rfl (hop pid enable act trap)

/-- A port that is right but for its events stays so, when the ports of the unit are the only
such. -/
theorem near_of_step (hmin : 0 < c.psecMinAddrs) {op : PsecOp}
    (hop : ∀ pid enable act trap, op ≠ .enable pid enable act trap) {x' : SecFdb}
    (hs : x.step c op = some x')
    {p : ℕ} (hp : 1 ≤ p ∧ p ≤ c.nports) (h : (x.ports p).Near) : (x'.ports p).Near := by
  cases op with
  | fdb op =>
    cases op with
    | insert m mo e secure fake =>
      obtain rfl := Option.some_inj.mp hs
      exact SecFdb.follow_insert (P := PsecPort.Near) (fun _ => .addrDel) (fun _ => .addrAdd)
        m mo e secure fake p h
    | remove m k sid =>
      obtain rfl := Option.some_inj.mp hs
      exact SecFdb.follow_remove (P := PsecPort.Near) (fun _ => .addrDel) m k sid p h
    | flush arg =>
      obtain rfl := Option.some_inj.mp hs
      obtain ⟨mute, h⟩ := h
      cases hdst : Fdb.flushDst c arg with
      | none =>
        unfold SecFdb.flush
        rw [hdst]
        exact ⟨mute, h⟩
      | some dst => exact ⟨false, SecFdb.ok_flush hdst hp h⟩
    | flushVif arg =>
      obtain rfl := Option.some_inj.mp hs
      obtain ⟨mute, h⟩ := h
      exact ⟨mute, SecFdb.follow_flushVif arg p h⟩
  | setMaxAddrs pid max =>
    obtain rfl := Option.some_inj.mp hs
    obtain ⟨mute, h⟩ := h
    exact ⟨mute, SecFdb.follow_setMaxAddrs hmin pid max p h⟩
  | setMode pid mode =>
    obtain rfl := Option.some_inj.mp hs
    obtain ⟨mute, h⟩ := h
    exact ⟨mute, SecFdb.follow_setMode pid mode p h⟩
  | enable pid enable act trap => exact absurd rfl (hop pid enable act trap)

/-- `sec_enable` sets whether a port is watched and keeps when its delays end. -/
theorem secEnable_sb_delay (pid delay_secs : ℕ) (enable : Bool) (p : ℕ) :
    ((s.secEnable pid delay_secs enable).sb_delay p).port_na_blocked =
        (s.sb_delay p).port_na_blocked ∧
      ((s.secEnable pid delay_secs enable).sb_delay p).tst_port_na = (s.sb_delay p).tst_port_na ∧
      ((s.secEnable pid delay_secs enable).sb_delay p).tst_moved_static =
        (s.sb_delay p).tst_moved_static ∧
      ((s.secEnable pid delay_secs enable).sb_delay p).port_enabled =
        (if p = pid then enable else (s.sb_delay p).port_enabled) := by
  unfold secEnable setDelay
  dsimp only
  by_cases hp : p = pid
  · subst hp
    rw [update_self, if_pos rfl]
    exact ⟨rfl, rfl, rfl, rfl⟩
  · rw [update_of_ne hp, if_neg hp]
    exact ⟨rfl, rfl, rfl, rfl⟩

/-- A call of `psec_enable` that gets through. -/
def Enables (c : FdbConf) (pid trap : ℕ) : Prop := 1 ≤ pid ∧ pid ≤ c.nports ∧ trap ≤ 1000000

instance (c : FdbConf) (pid trap : ℕ) : Decidable (Enables c pid trap) :=
  inferInstanceAs (Decidable (_ ∧ _ ∧ _))

/-- What a call of another thread does. -/
theorem psecCall_cases {op : PsecOp} (hs : s.psecCall c op = some s') :
    s.fdb.step c op = some s'.fdb ∧
    s'.pc = s.pc ∧ s'.sent = s.sent ∧
    ((∃ pid enable act trap, op = .enable pid enable act trap ∧ Enables c pid trap ∧
        s'.sb_delay = (s.secEnable pid (if trap = 0 then 30 else trap) enable).sb_delay) ∨
      s'.sb_delay = s.sb_delay ∧ ∀ pid enable act trap, op = .enable pid enable act trap →
        ¬Enables c pid trap) := by
  obtain ⟨x, hx, rfl⟩ := Option.map_eq_some_iff.mp hs
  cases op with
  | fdb op => exact ⟨hx, rfl, rfl, .inr ⟨rfl, fun _ _ _ _ heq => (by cases heq)⟩⟩
  | setMaxAddrs pid max => exact ⟨hx, rfl, rfl, .inr ⟨rfl, fun _ _ _ _ heq => (by cases heq)⟩⟩
  | setMode pid mode => exact ⟨hx, rfl, rfl, .inr ⟨rfl, fun _ _ _ _ heq => (by cases heq)⟩⟩
  | enable pid enable act trap =>
    have hiff : ((portPtr c pid).isSome ∧ trap ≤ 1000000) ↔ Enables c pid trap := by
      unfold portPtr Enables
      split_ifs with hp
      · simp [hp.1, hp.2]
      · exact iff_of_false (by simp) fun h => hp ⟨h.1, h.2.1⟩
    dsimp only
    by_cases hcall : Enables c pid trap
    · rw [if_pos (hiff.mpr hcall)]
      exact ⟨hx, rfl, rfl, .inl ⟨pid, enable, act, trap, rfl, hcall, rfl⟩⟩
    · rw [if_neg fun h => hcall (hiff.mp h)]
      refine ⟨hx, rfl, rfl, .inr ⟨rfl, fun _ _ _ _ heq => ?_⟩⟩
      obtain ⟨rfl, rfl, rfl, rfl⟩ := PsecOp.enable.inj heq
      exact hcall

/-- Such a call leaves what is noted of breaches. -/
theorem psecCall_noted {op : PsecOp} (hs : s.psecCall c op = some s') (p : ℕ) :
    (s'.sb_delay p).port_na_blocked = (s.sb_delay p).port_na_blocked ∧
      (s'.sb_delay p).tst_port_na = (s.sb_delay p).tst_port_na ∧
      (s'.sb_delay p).tst_moved_static = (s.sb_delay p).tst_moved_static := by
  obtain ⟨-, -, -, ⟨pid, enable, act, trap, -, -, hsb⟩ | ⟨hsb, -⟩⟩ := psecCall_cases hs
  · obtain ⟨hblocked, hna, hmoved, -⟩ :=
      secEnable_sb_delay (s := s) pid (if trap = 0 then 30 else trap) enable p
    rw [hsb]
    exact ⟨hblocked, hna, hmoved⟩
  · rw [hsb]
    exact ⟨rfl, rfl, rfl⟩

/-- What the thread does with a breach. -/
theorem sectEventHandler_cases (s : SecBreach) (msg : SecurBreachMsg) (ts : ℕ) :
    s.sectEventHandler msg ts = s ∨
    (msg.code = .PORT_NA ∧
      (s.sb_delay msg.pid).tst_port_na + (s.sb_delay msg.pid).tdelay_sb_port_na < ts ∧
      s.sectEventHandler msg ts =
        { s.setDelay msg.pid fun d => { d with tst_port_na := ts, port_na_blocked := true } with
          pc := .block msg ts (s.sb_delay msg.pid).tdelay_sb_port_na }) ∨
    (msg.code = .MOVED_STATIC ∧
      (s.sb_delay msg.pid).tst_moved_static + (s.sb_delay msg.pid).tdelay_sb_moved_static < ts ∧
      s.sectEventHandler msg ts =
        { s.setDelay msg.pid fun d => { d with tst_moved_static := ts } with
          sent := ⟨.SB_MOVED_STATIC, msg.pid, msg.vlan, msg.macSa, ts,
            (s.sb_delay msg.pid).tdelay_sb_moved_static⟩ :: s.sent }) := by
  unfold sectEventHandler
  dsimp only
  cases msg.code with
  | PORT_NOT_IN_VLAN => exact .inl rfl
  | PORT_NA =>
    dsimp only
    by_cases hvlan : msg.vlan = 0xFFF
    · rw [if_pos hvlan]
      exact .inl rfl
    · rw [if_neg hvlan]
      by_cases hdue : (s.sb_delay msg.pid).tst_port_na + (s.sb_delay msg.pid).tdelay_sb_port_na < ts
      · rw [if_pos hdue]
        exact .inr (.inl ⟨rfl, hdue, rfl⟩)
      · rw [if_neg hdue]
        exact .inl rfl
  | MOVED_STATIC =>
    dsimp only
    by_cases hdue : (s.sb_delay msg.pid).tst_moved_static +
        (s.sb_delay msg.pid).tdelay_sb_moved_static < ts
    · rw [if_pos hdue]
      exact .inr (.inr ⟨rfl, hdue, rfl⟩)
    · rw [if_neg hdue]
      exact .inl rfl
  | other code => exact .inl rfl

/-! ## One step -/

variable (c) in
/-- The invariant of runs. -/
structure Inv (stack : ℕ → Option PortLearn) (s : SecBreach) : Prop where
  right : ∀ p, stack p = none → (s.fdb.ports p).Ok false ∨
    (s.fdb.ports p).Ok true ∧ (1 ≤ p ∧ p ≤ c.nports) ∧ s.Blocked p
  enabled : ∀ p, 1 ≤ p → p ≤ c.nports → (s.sb_delay p).port_enabled = (s.fdb.ports p).enabled
  block : ∀ msg ts delay, s.pc = .block msg ts delay → (s.sb_delay msg.pid).port_na_blocked = true

namespace Inv

variable (h : Inv c stack s)

include h

/-- The hardware of a front port is right but for its events. -/
theorem near {p : ℕ} (hp : stack p = none) : (s.fdb.ports p).Near := by
  rcases h.right p hp with hok | ⟨hok, -, -⟩
  · exact ⟨false, hok⟩
  · exact ⟨true, hok⟩

/-- A port of the unit that is near needs no more than that its events are blocked. -/
theorem to_right : s.Right c stack := by
  intro p _ _ hp
  rcases h.right p hp with hok | ⟨hok, -, hblocked⟩
  · exact .inl (PsecPort.agrees_iff_fresh.mp hok.agrees)
  · exact .inr ⟨hok.agrees, hblocked⟩

/-- A step that leaves blocked ports blocked, and after which a port that was right is right, and
one that was near is near. -/
theorem follow (hok : ∀ p, stack p = none → (s.fdb.ports p).Ok false → (s'.fdb.ports p).Ok false)
    (hnear : ∀ p, stack p = none → 1 ≤ p ∧ p ≤ c.nports → (s'.fdb.ports p).Near)
    (hblocked : ∀ p, s.Blocked p → s'.Blocked p)
    (henabled : ∀ p, 1 ≤ p → p ≤ c.nports → (s'.sb_delay p).port_enabled = (s'.fdb.ports p).enabled)
    (hblock : ∀ msg ts delay, s'.pc = .block msg ts delay →
      (s'.sb_delay msg.pid).port_na_blocked = true) :
    Inv c stack s' where
  right p hp := by
    rcases h.right p hp with hfalse | ⟨-, hrange, hb⟩
    · exact .inl (hok p hp hfalse)
    · obtain ⟨mute, hnear⟩ := hnear p hp hrange
      cases mute with
      | false => exact .inl hnear
      | true => exact .inr ⟨hnear, hrange, hblocked p hb⟩
  enabled := henabled
  block := hblock

/-- A steady call of another thread. -/
theorem psec (hmin : 0 < c.psecMinAddrs) {op : PsecOp} (hs : s.psecCall c op = some s')
    (hsteady : s.fdb.Steady c stack op) : Inv c stack s' := by
  obtain ⟨hstep, hpc, -, hsb⟩ := psecCall_cases hs
  have hnoted := psecCall_noted hs
  have hblocked : ∀ p, s.Blocked p → s'.Blocked p := by
    intro p hb
    unfold Blocked
    rwa [(hnoted p).1, hpc]
  have hblock : ∀ msg ts delay, s'.pc = .block msg ts delay →
      (s'.sb_delay msg.pid).port_na_blocked = true := by
    intro msg ts delay heq
    rw [(hnoted msg.pid).1]
    exact h.block msg ts delay (hpc ▸ heq)
  -- of the calls `psec_enable` alone is not a step that keeps what is right
  by_cases hop : ∃ pid enable act trap, op = .enable pid enable act trap
  · obtain ⟨pid, enable, act, trap, rfl⟩ := hop
    have hports : s'.fdb.ports = if Enables c pid trap then
        update s.fdb.ports pid
          ((s.fdb.ports pid).psecEnable enable act (if trap = 0 then 30 else trap))
        else s.fdb.ports :=
      (congrArg SecFdb.ports (Option.some_inj.mp hstep)).symm.trans
        (SecFdb.enable_ports pid enable act trap)
    rcases hsb with ⟨_, _, _, _, heq, hcall, hsb⟩ | ⟨hsb, hno⟩
    · -- the call is carried out: the condition is about this port
      obtain ⟨rfl, rfl, rfl, rfl⟩ := PsecOp.enable.inj heq
      rw [if_pos hcall] at hports
      have hcond (hp : stack pid = none) := hsteady hcall.1 hcall.2.1 hp hcall.2.2
      refine h.follow (fun p hp hok => ?_) (fun p hp hrange => ?_) hblocked
        (fun p hlo hhi => ?_) hblock
      · rw [hports]
        by_cases heq : p = pid
        · subst heq
          rw [update_self]
          refine ⟨(PsecPort.psecEnable_agrees_iff hok.agrees enable act _).mpr (hcond hp), ?_⟩
          exact lt_of_lt_of_eq hok.max
            (congrArg Psec.maxAddrs (PsecPort.psecEnable_toPsec _ enable act _)).symm
        · rwa [update_of_ne heq]
      · rw [hports]
        by_cases heq : p = pid
        · subst heq
          rw [update_self]
          exact ((h.near hp).enable_iff enable act _).mpr (hcond hp)
        · rw [update_of_ne heq]
          exact h.near hp
      · rw [hports, hsb, (secEnable_sb_delay _ _ _ p).2.2.2]
        by_cases heq : p = pid
        · subst heq
          rw [update_self, if_pos rfl]
          exact (congrArg Psec.enabled (PsecPort.psecEnable_toPsec _ enable act _)).symm
        · rw [update_of_ne heq, if_neg heq]
          exact h.enabled p hlo hhi
    · -- the call is refused
      rw [if_neg (hno pid enable act trap rfl)] at hports
      refine h.follow (fun p hp hok => hports ▸ hok) (fun p hp _ => hports ▸ h.near hp) hblocked
        (fun p hlo hhi => ?_) hblock
      rw [hports, hsb]
      exact h.enabled p hlo hhi
  · -- the other calls keep what the thread knows of the ports
    have hother : ∀ pid enable act trap, op ≠ .enable pid enable act trap :=
      fun pid enable act trap heq => hop ⟨pid, enable, act, trap, heq⟩
    refine h.follow (fun p _ hok => SecFdb.follow_step hmin hother hstep p hok)
      (fun p hp hrange => near_of_step hmin hother hstep hrange (h.near hp)) hblocked
      (fun p hlo hhi => ?_) hblock
    have hset : (s'.fdb.ports p).enabled = (s.fdb.ports p).enabled :=
      congrArg Prod.fst (settings_of_step hother hstep p)
    rw [hset]
    rcases hsb with ⟨_, _, _, _, heq, -⟩ | ⟨hsb, -⟩
    · exact absurd heq (hother _ _ _ _)
    · rw [hsb]
      exact h.enabled p hlo hhi

/-- The thread notes a breach, and may note that the events of ports are blocked. -/
theorem noted (hidle : s.pc = .idle) {sb_delay : ℕ → SbDelay} {pc : SectPc}
    {sent : List BreachReport}
    (hdelay : ∀ p, ((s.sb_delay p).port_na_blocked = true → (sb_delay p).port_na_blocked = true) ∧
      (sb_delay p).port_enabled = (s.sb_delay p).port_enabled)
    (hblock : ∀ msg ts delay, pc = .block msg ts delay →
      (sb_delay msg.pid).port_na_blocked = true) :
    Inv c stack { s with sb_delay := sb_delay, pc := pc, sent := sent } := by
  refine h.follow (fun _ _ hok => hok) (fun _ hp _ => h.near hp) (fun p hb => .inl ?_)
    (fun p hlo hhi => ?_) hblock
  · rcases hb with hb | ⟨_, hpc⟩
    · exact (hdelay p).1 hb
    · rw [hidle] at hpc
      cases hpc
  · exact ((hdelay p).2).trans (h.enabled p hlo hhi)

/-- A breach. -/
theorem breach (hidle : s.pc = .idle) (msg : SecurBreachMsg) (ts : ℕ) :
    Inv c stack (s.sectEventHandler msg ts) := by
  obtain heq | ⟨-, -, heq⟩ | ⟨-, -, heq⟩ := s.sectEventHandler_cases msg ts
  · rwa [heq]
  · rw [heq]
    refine h.noted hidle (fun p => ?_) fun _ _ _ hpc => ?_
    · by_cases hp : p = msg.pid
      · subst hp
        simp [setDelay]
      · simp [setDelay, update_of_ne hp]
    · obtain ⟨rfl, -, -⟩ := SectPc.block.inj hpc
      simp [setDelay]
  · rw [heq]
    refine h.noted hidle (fun p => ?_) fun _ _ _ hpc => nomatch hidle.symm.trans hpc
    by_cases hp : p = msg.pid
    · subst hp
      simp [setDelay]
    · simp [setDelay, update_of_ne hp]

/-- The timer. -/
theorem timer (hidle : s.pc = .idle) (ts : ℕ) : Inv c stack { s with pc := .timer 1 ts } := by
  refine h.follow (fun _ _ hok => hok) (fun _ hp _ => h.near hp) (fun p hb => .inl ?_) h.enabled
    fun _ _ _ heq => (by cases heq)
  rcases hb with hb | ⟨_, hpc⟩
  · exact hb
  · rw [hidle] at hpc
    cases hpc

end Inv

/-- `psec_enable_na_sb` on the ports. -/
theorem psecEnableNaSb_ports (pid : ℕ) (enable : Bool) (p : ℕ) :
    (s.psecEnableNaSb c pid enable).fdb.ports p =
    if p = pid ∧ 1 ≤ pid ∧ pid ≤ c.nports then (s.fdb.ports p).psecEnableNaSbPort enable
    else s.fdb.ports p := by
  unfold psecEnableNaSb portPtr
  by_cases hpid : 1 ≤ pid ∧ pid ≤ c.nports
  · rw [if_pos hpid]
    dsimp only
    by_cases hp : p = pid
    · subst hp
      rw [update_self, if_pos ⟨rfl, hpid⟩]
    · rw [update_of_ne hp, if_neg fun hand => hp hand.1]
  · rw [if_neg hpid, if_neg fun hand => hpid hand.2]

@[simp] theorem psecEnableNaSb_sb_delay (pid : ℕ) (enable : Bool) :
    (s.psecEnableNaSb c pid enable).sb_delay = s.sb_delay := by
  unfold psecEnableNaSb
  cases portPtr c pid <;> rfl

@[simp] theorem psecEnableNaSb_sent (pid : ℕ) (enable : Bool) :
    (s.psecEnableNaSb c pid enable).sent = s.sent := by
  unfold psecEnableNaSb
  cases portPtr c pid <;> rfl

/-- `psec_enable_na_sb` changes flags only. -/
theorem psecEnableNaSb_settings (pid : ℕ) (enable : Bool) (p : ℕ) :
    ((s.psecEnableNaSb c pid enable).fdb.ports p).toPsec = (s.fdb.ports p).toPsec := by
  rw [psecEnableNaSb_ports]
  split_ifs
  · exact PsecPort.psecEnableNaSbPort_toPsec _ enable
  · rfl

namespace Inv

variable (h : Inv c stack s)

include h

/-- The thread stops the events of a port. -/
theorem block_step {msg : SecurBreachMsg} {ts delay : ℕ} (hpc : s.pc = .block msg ts delay) :
    Inv c stack { s.psecEnableNaSb c msg.pid false with pc := .query msg ts delay } where
  right p hp := by
    show ((s.psecEnableNaSb c msg.pid false).fdb.ports p).Ok false ∨
      ((s.psecEnableNaSb c msg.pid false).fdb.ports p).Ok true ∧ _
    rw [psecEnableNaSb_ports]
    by_cases hcall : p = msg.pid ∧ 1 ≤ msg.pid ∧ msg.pid ≤ c.nports
    · rw [if_pos hcall]
      obtain ⟨rfl, hrange⟩ := hcall
      refine .inr ⟨(h.near hp).block, hrange, .inl ?_⟩
      rw [psecEnableNaSb_sb_delay]
      exact h.block msg ts delay hpc
    · rw [if_neg hcall]
      refine (h.right p hp).imp_right fun ⟨hok, hrange, hb⟩ => ⟨hok, hrange, .inl ?_⟩
      rw [psecEnableNaSb_sb_delay]
      rcases hb with hb | ⟨_, hpc'⟩
      · exact hb
      · rw [hpc] at hpc'
        cases hpc'
  enabled p hlo hhi := by
    show ((s.psecEnableNaSb c msg.pid false).sb_delay p).port_enabled = _
    rw [psecEnableNaSb_sb_delay, h.enabled p hlo hhi]
    exact (congrArg Psec.enabled (psecEnableNaSb_settings msg.pid false p)).symm
  block _ _ _ heq := by cases heq

/-- The timer goes on to the next port, or is done. -/
theorem next {pid ts : ℕ} (hpc : s.pc = .timer pid ts) (pc : SectPc)
    (hnext : ∀ msg ts delay, pc ≠ .block msg ts delay) : Inv c stack { s with pc := pc } := by
  refine h.follow (fun _ _ hok => hok) (fun _ hp _ => h.near hp) (fun p hb => .inl ?_) h.enabled
    fun msg ts delay heq => absurd heq (hnext msg ts delay)
  rcases hb with hb | ⟨_, hpc'⟩
  · exact hb
  · rw [hpc] at hpc'
    cases hpc'

/-- The timer notes that the events of a port are no longer blocked, before it starts them. -/
theorem due {pid ts : ℕ} (hpc : s.pc = .timer pid ts) :
    Inv c stack { s.setDelay pid fun d => { d with port_na_blocked := false } with
      pc := .unblock pid ts } := by
  refine h.follow (fun _ _ hok => hok) (fun _ hp _ => h.near hp)
    (fun p hb => ?_) (fun p hlo hhi => ?_)
    fun _ _ _ heq => (by cases heq)
  · by_cases hp : p = pid
    · subst hp
      exact .inr ⟨ts, rfl⟩
    · refine .inl ?_
      unfold setDelay
      dsimp only
      rw [update_of_ne hp]
      rcases hb with hb | ⟨_, hpc'⟩
      · exact hb
      · rw [hpc] at hpc'
        cases hpc'
  · refine Eq.trans ?_ (h.enabled p hlo hhi)
    unfold setDelay
    dsimp only
    by_cases hp : p = pid
    · subst hp
      rw [update_self]
    · rw [update_of_ne hp]

/-- The timer starts the events of a port. -/
theorem unblock_step {pid ts : ℕ} (hpc : s.pc = .unblock pid ts)
    (htimely : s.Timely c stack .thread) :
    Inv c stack { s.psecEnableNaSb c pid true with pc := .timer (pid + 1) ts } where
  right p hp := by
    show ((s.psecEnableNaSb c pid true).fdb.ports p).Ok false ∨
      ((s.psecEnableNaSb c pid true).fdb.ports p).Ok true ∧ _
    rw [psecEnableNaSb_ports]
    by_cases hcall : p = pid ∧ 1 ≤ pid ∧ pid ≤ c.nports
    · rw [if_pos hcall]
      obtain ⟨rfl, hlo, hhi⟩ := hcall
      change s.StartsOn c stack s.pc at htimely
      rw [hpc] at htimely
      exact .inl ((h.near hp).unblock fun hact hl => htimely hlo hhi hp hact hl)
    · rw [if_neg hcall]
      refine (h.right p hp).imp_right fun ⟨hok, hrange, hb⟩ => ⟨hok, hrange, .inl ?_⟩
      rw [psecEnableNaSb_sb_delay]
      rcases hb with hb | ⟨_, hpc'⟩
      · exact hb
      · obtain ⟨rfl, -⟩ := SectPc.unblock.inj (hpc.symm.trans hpc')
        exact absurd ⟨rfl, hrange⟩ hcall
  enabled p hlo hhi := by
    show ((s.psecEnableNaSb c pid true).sb_delay p).port_enabled = _
    rw [psecEnableNaSb_sb_delay, h.enabled p hlo hhi]
    exact (congrArg Psec.enabled (psecEnableNaSb_settings pid true p)).symm
  block _ _ _ heq := by cases heq

/-- The thread looks for the address of a breach. -/
theorem query_step {msg : SecurBreachMsg} {ts delay : ℕ} (hpc : s.pc = .query msg ts delay)
    (sent : List BreachReport) : Inv c stack { s with pc := .idle, sent := sent } := by
  refine h.follow (fun _ _ hok => hok) (fun _ hp _ => h.near hp) (fun p hb => .inl ?_) h.enabled
    fun _ _ _ heq => (by cases heq)
  rcases hb with hb | ⟨_, hpc'⟩
  · exact hb
  · rw [hpc] at hpc'
    cases hpc'

/-- A step of the thread. -/
theorem thread (hs : s.sectThread c NPORTS = some s') (htimely : s.Timely c stack .thread) :
    Inv c stack s' := by
  unfold sectThread at hs
  cases hpc : s.pc with
  | idle =>
    rw [hpc] at hs
    cases hs
  | block msg ts delay =>
    rw [hpc] at hs
    obtain rfl := Option.some_inj.mp hs
    exact h.block_step hpc
  | query msg ts delay =>
    rw [hpc] at hs
    obtain rfl := Option.some_inj.mp hs
    exact h.query_step hpc _
  | timer pid ts =>
    rw [hpc] at hs
    dsimp only at hs
    split_ifs at hs
    · obtain rfl := Option.some_inj.mp hs
      exact h.next hpc .idle fun _ _ _ heq => (by cases heq)
    · obtain rfl := Option.some_inj.mp hs
      exact h.due hpc
    · obtain rfl := Option.some_inj.mp hs
      exact h.next hpc (.timer (pid + 1) ts) fun _ _ _ heq => (by cases heq)
  | unblock pid ts =>
    rw [hpc] at hs
    obtain rfl := Option.some_inj.mp hs
    exact h.unblock_step hpc htimely

/-- A timely step. -/
theorem step (hmin : 0 < c.psecMinAddrs) {op : SectOp} (hs : s.step c NPORTS op = some s')
    (htimely : s.Timely c stack op) : Inv c stack s' := by
  cases op with
  | psec op => exact h.psec hmin hs htimely
  | breach msg ts =>
    rw [SecBreach.step] at hs
    split_ifs at hs with hidle
    obtain rfl := Option.some_inj.mp hs
    exact h.breach hidle msg ts
  | timer ts =>
    rw [SecBreach.step] at hs
    split_ifs at hs with hidle
    obtain rfl := Option.some_inj.mp hs
    exact h.timer hidle ts
  | thread => exact h.thread hs htimely

end Inv

/-- The invariant holds after the start. -/
theorem Inv.start (NPORTS ts : ℕ) : Inv c stack (start NPORTS stack ts) where
  right _ hp := .inl (SecFdb.sound_init _ hp)
  enabled p _ _ := by
    show (if 1 ≤ p ∧ p ≤ NPORTS then _ else _ : SbDelay).port_enabled = false
    split_ifs <;> rfl
  block _ _ _ heq := by cases heq

/-- In a run of timely steps every port that is no stack port has what a fresh enable would program,
but for its events while they are blocked, and the next step keeps this if and only if it is timely.
-/
theorem right_iff_timely {ts : ℕ} (hmin : 0 < c.psecMinAddrs)
    (hr : Guarded.Reach (SecBreach.step c NPORTS) (fun s op => s.Timely c stack op)
      (start NPORTS stack ts) s) :
    s.Right c stack ∧
      ∀ op s', s.step c NPORTS op = some s' → (s'.Right c stack ↔ s.Timely c stack op) := by
  have hinv : Inv c stack s :=
    hr.invariant (Inv c stack) (Inv.start NPORTS ts) fun _ _ _ h hok hs => h.step hmin hs hok
  refine ⟨hinv.to_right, fun op s' hs =>
    ⟨fun hright => ?_, fun htimely => (hinv.step hmin hs htimely).to_right⟩⟩
  -- what is right after the step is near, as the limits of the ports can be reached
  have hnear : ∀ p, 1 ≤ p → p ≤ c.nports → stack p = none → 0 < (s'.fdb.ports p).maxAddrs →
      (s'.fdb.ports p).Near := by
    intro p hlo hhi hp hmax
    rcases hright p hlo hhi hp with hfresh | ⟨hagrees, -⟩
    · exact ⟨false, PsecPort.agrees_iff_fresh.mpr hfresh, hmax⟩
    · exact ⟨true, hagrees, hmax⟩
  cases op with
  | breach msg ts => trivial
  | timer ts => trivial
  | psec op =>
    by_cases hop : ∃ pid enable act trap, op = .enable pid enable act trap
    · obtain ⟨pid, enable, act, trap, rfl⟩ := hop
      intro hlo hhi hp htrap
      have hcall : s.psecCall c (.enable pid enable act trap) = some s' := hs
      have hstep := (psecCall_cases hcall).1
      have hports : s'.fdb.ports pid =
          (s.fdb.ports pid).psecEnable enable act (if trap = 0 then 30 else trap) := by
        rw [(congrArg SecFdb.ports (Option.some_inj.mp hstep)).symm.trans
          (SecFdb.enable_ports pid enable act trap), if_pos ⟨hlo, hhi, htrap⟩, update_self]
      obtain ⟨_, -, hmax⟩ := hinv.near hp
      have hmax' := lt_of_lt_of_eq hmax
        (congrArg Psec.maxAddrs
          (PsecPort.psecEnable_toPsec _ enable act (if trap = 0 then 30 else trap))).symm
      have hn := hnear pid hlo hhi hp (by rwa [hports])
      rw [hports] at hn
      exact ((hinv.near hp).enable_iff enable act _).mp hn
    · cases op with
      | enable pid enable act trap => exact absurd ⟨pid, enable, act, trap, rfl⟩ hop
      | fdb op => trivial
      | setMaxAddrs pid max => trivial
      | setMode pid mode => trivial
  | thread =>
    show s.StartsOn c stack s.pc
    cases hpc : s.pc with
    | unblock pid ts =>
      intro hlo hhi hp hact hl
      have heq : s'.fdb.ports pid = (s.fdb.ports pid).psecEnableNaSbPort true := by
        have hs' : s.sectThread c NPORTS = some s' := hs
        unfold sectThread at hs'
        rw [hpc] at hs'
        obtain rfl := Option.some_inj.mp hs'
        exact (psecEnableNaSb_ports pid true pid).trans (if_pos ⟨rfl, hlo, hhi⟩)
      obtain ⟨_, -, hmax⟩ := hinv.near hp
      have hmax' := lt_of_lt_of_eq hmax
        (congrArg Psec.maxAddrs ((s.fdb.ports pid).psecEnableNaSbPort_toPsec true)).symm
      have hn := hnear pid hlo hhi hp (by rwa [heq])
      rw [heq] at hn
      exact PsecPort.enabled_of_unblock hn hact hl
    | idle => trivial
    | block msg ts delay => trivial
    | query msg ts delay => trivial
    | timer pid ts => trivial

/-- Port 1 is locked at once, there is a breach, and port security is switched off when the timer is
about to start the events. -/
def lateOps : List SectOp :=
  [.psec (.enable 1 true .PSECA_RESTRICT 0), .breach ⟨.PORT_NA, 1, 10, 7⟩ 40000, .thread, .thread,
    .timer 80000, .thread, .psec (.enable 1 false .PSECA_RESTRICT 0)]

/-- The events of port 1 are started, although its port security is off. -/
theorem right_iff_timely_lateRun : ∃ s s', Guarded.run (SecBreach.step FdbRun.conf₁ 2)
      (fun s op => s.Timely FdbRun.conf₁ SecFdb.noStack op)
      (start 2 SecFdb.noStack 0) lateOps = some s ∧
    s.step FdbRun.conf₁ 2 .thread = some s' ∧ s.Right FdbRun.conf₁ SecFdb.noStack ∧
    ¬s'.Right FdbRun.conf₁ SecFdb.noStack := by
  have hlate : (Guarded.run (SecBreach.step FdbRun.conf₁ 2)
      (fun s op => s.Timely FdbRun.conf₁ SecFdb.noStack op)
      (start 2 SecFdb.noStack 0) lateOps).map (fun s =>
        ((s.step FdbRun.conf₁ 2 .thread).isSome,
          decide (s.Timely FdbRun.conf₁ SecFdb.noStack .thread))) =
      some (true, false) := by decide +kernel
  obtain ⟨s, hrun, hs⟩ := Option.map_eq_some_iff.mp hlate
  obtain ⟨s', hs'⟩ := Option.isSome_iff_exists.mp (congrArg Prod.fst hs)
  obtain ⟨hright, hiff⟩ := right_iff_timely (by decide) (Guarded.Reach.init.of_run hrun)
  have hnot := of_decide_eq_false (congrArg Prod.snd hs)
  exact ⟨s, s', hrun, hs', hright, fun h => hnot ((hiff .thread s' hs').mp h)⟩

/-! ## The timer -/

/-- The events of a port are to be started at time `ts`. -/
def Due (d : SbDelay) (ts : ℕ) : Prop :=
  d.port_enabled ∧ d.port_na_blocked ∧ d.tst_port_na + d.tdelay_sb_port_na < ts

instance (d : SbDelay) (ts : ℕ) : Decidable (Due d ts) := inferInstanceAs (Decidable (_ ∧ _ ∧ _))

/-- The thread takes a step. -/
def ThreadStep (c : FdbConf) (NPORTS : ℕ) (s s' : SecBreach) : Prop :=
  s.sectThread c NPORTS = some s'

/-- The thread goes over the ports from `pid` on. Afterwards it has noted of all that are due that
their events are not blocked. -/
theorem timer_run {pid ts n : ℕ} (hpc : s.pc = .timer pid ts) (hn : pid + n = NPORTS + 1)
    (hinv : Inv c stack s) :
    ∃ s', Relation.ReflTransGen (ThreadStep c NPORTS) s s' ∧ s'.pc = .idle ∧ Inv c stack s' ∧
      ∀ p, s'.sb_delay p = if (pid ≤ p ∧ p ≤ NPORTS) ∧ Due (s.sb_delay p) ts then
        { s.sb_delay p with port_na_blocked := false } else s.sb_delay p := by
  -- on the ports that the loop has still to look at
  induction n generalizing pid s with
  | zero =>
    refine ⟨{ s with pc := .idle }, .single ?_, rfl,
      hinv.next hpc .idle fun _ _ _ heq => (by cases heq),
      fun p => (if_neg fun h => ?_).symm⟩
    · show s.sectThread c NPORTS = _
      unfold sectThread
      rw [hpc]
      exact if_pos (by omega)
    · omega
  | succ n ih =>
    have hle : ¬NPORTS < pid := by omega
    by_cases hdue : Due (s.sb_delay pid) ts
    · -- the port is noted, and its events are started by the next step
      let s₁ : SecBreach :=
        { s.setDelay pid fun d => { d with port_na_blocked := false } with pc := .unblock pid ts }
      let s₂ : SecBreach := { s₁.psecEnableNaSb c pid true with pc := .timer (pid + 1) ts }
      have h₁ : ThreadStep c NPORTS s s₁ := by
        unfold ThreadStep sectThread
        rw [hpc]
        exact (if_neg hle).trans (if_pos hdue)
      have hinv₁ : Inv c stack s₁ := hinv.due hpc
      have hinv₂ : Inv c stack s₂ := by
        refine hinv₁.unblock_step rfl fun hlo hhi _ _ _ => ?_
        exact (hinv.enabled pid hlo hhi).symm.trans hdue.1
      obtain ⟨s', hrun, hidle, hinv', hdelay⟩ := ih (s := s₂) rfl (by omega) hinv₂
      have h₂ : ThreadStep c NPORTS s₁ s₂ := rfl
      refine ⟨s', .head h₁ (.head h₂ hrun), hidle, hinv', fun p => ?_⟩
      have hs₂ : s₂.sb_delay = s₁.sb_delay := psecEnableNaSb_sb_delay pid true
      rw [hdelay p, hs₂]
      by_cases hp : p = pid
      · subst hp
        rw [if_neg fun h => absurd h.1.1 (by omega), if_pos ⟨⟨le_rfl, by omega⟩, hdue⟩]
        exact update_self ..
      · have hs₁ : s₁.sb_delay p = s.sb_delay p := update_of_ne hp ..
        rw [hs₁]
        refine if_congr (and_congr_left' ?_) rfl rfl
        omega
    · -- the port stays muted, and the loop goes on
      let s₁ : SecBreach := { s with pc := .timer (pid + 1) ts }
      have h₁ : ThreadStep c NPORTS s s₁ := by
        unfold ThreadStep sectThread
        rw [hpc]
        exact (if_neg hle).trans (if_neg hdue)
      obtain ⟨s', hrun, hidle, hinv', hdelay⟩ := ih (s := s₁) rfl (by omega)
        (hinv.next hpc (.timer (pid + 1) ts) fun _ _ _ heq => (by cases heq))
      refine ⟨s', .head h₁ hrun, hidle, hinv', fun p => ?_⟩
      rw [hdelay p]
      by_cases hp : p = pid
      · subst hp
        rw [if_neg fun h => absurd h.1.1 (by omega), if_neg fun h => hdue h.2]
      · refine if_congr (and_congr_left' ?_) rfl rfl
        omega

/-- Once the timer has gone over the ports, the events of a port are not held back any longer than
its delay. -/
theorem timer_rearms {ts₀ : ℕ} (hmin : 0 < c.psecMinAddrs) (hports : c.nports ≤ NPORTS)
    (hr : Guarded.Reach (SecBreach.step c NPORTS) (fun s op => s.Timely c stack op)
      (start NPORTS stack ts₀) s)
    (hidle : s.pc = .idle) (ts : ℕ) :
    ∃ s₁ s', s.step c NPORTS (.timer ts) = some s₁ ∧
      Relation.ReflTransGen (ThreadStep c NPORTS) s₁ s' ∧
      s'.pc = .idle ∧ ∀ p, 1 ≤ p → p ≤ c.nports → stack p = none → (s'.fdb.ports p).Fresh ∨
        (s'.fdb.ports p).Agrees true ∧
          ts ≤ (s.sb_delay p).tst_port_na + (s.sb_delay p).tdelay_sb_port_na := by
  have hinv : Inv c stack s :=
    hr.invariant (Inv c stack) (Inv.start NPORTS ts₀) fun _ _ _ h hok hs => h.step hmin hs hok
  obtain ⟨s', hrun, hidle', hinv', hdelay⟩ :=
    timer_run (s := { s with pc := .timer 1 ts }) rfl (Nat.add_comm 1 NPORTS) (hinv.timer hidle ts)
  refine ⟨_, s', if_pos hidle, hrun, hidle', fun p hlo hhi hp => ?_⟩
  rcases hinv'.right p hp with hok | ⟨hok, -, hb⟩
  · exact .inl (PsecPort.agrees_iff_fresh.mp hok.agrees)
  · have hblocked : (s'.sb_delay p).port_na_blocked = true := by
      rcases hb with hb | ⟨_, hpc⟩
      · exact hb
      · rw [hidle'] at hpc
        cases hpc
    have hnot : ¬Due (s.sb_delay p) ts := by
      intro hdue
      rw [hdelay p, if_pos ⟨⟨hlo, hhi.trans hports⟩, hdue⟩] at hblocked
      cases hblocked
    have hsame : s'.sb_delay p = s.sb_delay p := (hdelay p).trans (if_neg fun h => hnot h.2)
    by_cases hen : (s'.fdb.ports p).enabled = true
    · refine .inr ⟨hok.agrees, not_lt.mp fun hlt => hnot ⟨?_, ?_, hlt⟩⟩
      · rw [← hsame, hinv'.enabled p hlo hhi]
        exact hen
      · rw [← hsame]
        exact hblocked
    · exact .inl (PsecPort.agrees_iff_fresh.mp
        ((hinv'.near hp).fresh_of_disabled (Bool.eq_false_iff.mpr hen)).agrees)

/-- There is a breach on port 1. -/
def breachOps : List SectOp :=
  [.psec (.enable 1 true .PSECA_RESTRICT 0), .breach ⟨.PORT_NA, 1, 10, 7⟩ 40000, .thread, .thread]

/-- The events of port 1 are stopped, and the timer starts them. -/
theorem timer_rearms_breachRun : ∃ s s₁ s', Guarded.run (SecBreach.step FdbRun.conf₁ 2)
      (fun s op => s.Timely FdbRun.conf₁ SecFdb.noStack op)
      (start 2 SecFdb.noStack 0) breachOps = some s ∧
    ¬(s.fdb.ports 1).Fresh ∧ s.step FdbRun.conf₁ 2 (.timer 80000) = some s₁ ∧
    Relation.ReflTransGen (ThreadStep FdbRun.conf₁ 2) s₁ s' ∧ s'.pc = .idle ∧
      (s'.fdb.ports 1).Fresh := by
  have hbreach : (Guarded.run (SecBreach.step FdbRun.conf₁ 2)
      (fun s op => s.Timely FdbRun.conf₁ SecFdb.noStack op) (start 2 SecFdb.noStack 0)
      breachOps).map (fun s =>
        (decide ((s.fdb.ports 1).learn = (s.fdb.ports 1).fresh), decide (s.pc = .idle),
          decide (80000 ≤ (s.sb_delay 1).tst_port_na + (s.sb_delay 1).tdelay_sb_port_na))) =
      some (false, true, false) := by decide +kernel
  obtain ⟨s, hrun, hs⟩ := Option.map_eq_some_iff.mp hbreach
  obtain ⟨s₁, s', hs₁, hthread, hidle, hports⟩ := timer_rearms (by decide) (by decide)
    (Guarded.Reach.init.of_run hrun) (of_decide_eq_true (congrArg (·.2.1) hs)) 80000
  have hblocked := of_decide_eq_false (congrArg Prod.fst hs)
  have hdue := of_decide_eq_false (congrArg (·.2.2) hs)
  exact ⟨s, s₁, s', hrun, hblocked, hs₁, hthread, hidle,
    (hports 1 (by decide) (by decide) rfl).resolve_right fun h => hdue h.2⟩

/-! ## Reports -/

/-- The time of the last breach of a type on a port. -/
def lastBreach (s : SecBreach) (pid : ℕ) : SbType → ℕ
  | .SB_PORT_NA => (s.sb_delay pid).tst_port_na
  | .SB_MOVED_STATIC => (s.sb_delay pid).tst_moved_static

/-- More than the delay of the port is between two reports. -/
def Apart (later earlier : BreachReport) : Prop :=
  later.type = earlier.type → later.pid = earlier.pid → earlier.ts + later.delay < later.ts

variable (c) in
/-- The delays of a port are its trap interval, which is no less than a second. -/
def Delayed (s : SecBreach) : Prop := ∀ p, 1 ≤ p → p ≤ c.nports → 1 ≤ (s.fdb.ports p).trapInterval ∧
  (s.sb_delay p).tdelay_sb_port_na = 1000 * (s.fdb.ports p).trapInterval ∧
  (s.sb_delay p).tdelay_sb_moved_static = 1000 * (s.fdb.ports p).trapInterval

/-- The invariant of the reports. A breach that the thread works on is the last one of its port. -/
structure Spaced (s : SecBreach) : Prop where
  apart : s.sent.Pairwise Apart
  last : ∀ r ∈ s.sent, r.ts ≤ s.lastBreach r.pid r.type
  pending : ∀ msg ts delay, s.pc = .block msg ts delay ∨ s.pc = .query msg ts delay →
    (s.sb_delay msg.pid).tst_port_na = ts ∧
      ∀ r ∈ s.sent, r.type = .SB_PORT_NA → r.pid = msg.pid → r.ts + delay < ts

/-- **Step.** A call of the table keeps the delays. -/
theorem Delayed.psec (h : s.Delayed c) {op : PsecOp} (hs : s.psecCall c op = some s') :
    s'.Delayed c := by
  obtain ⟨hstep, -, -, hsb⟩ := psecCall_cases hs
  intro p hlo hhi
  by_cases hop : ∃ pid enable act trap, op = .enable pid enable act trap
  · obtain ⟨pid, enable, act, trap, rfl⟩ := hop
    have hports : s'.fdb.ports = if Enables c pid trap then
        update s.fdb.ports pid
          ((s.fdb.ports pid).psecEnable enable act (if trap = 0 then 30 else trap))
        else s.fdb.ports :=
      (congrArg SecFdb.ports (Option.some_inj.mp hstep)).symm.trans
        (SecFdb.enable_ports pid enable act trap)
    rcases hsb with ⟨_, _, _, _, heq, hcall, hsb⟩ | ⟨hsb, hno⟩
    · obtain ⟨rfl, rfl, rfl, rfl⟩ := PsecOp.enable.inj heq
      rw [hports, hsb, if_pos hcall, secEnable, setDelay]
      by_cases hp : p = pid
      · subst hp
        simp only [update_self]
        have htrap : (PsecPort.psecEnable (s.fdb.ports p) enable act
            (if trap = 0 then 30 else trap)).trapInterval = if trap = 0 then 30 else trap :=
          congrArg Psec.trapInterval (PsecPort.psecEnable_toPsec _ enable act _)
        have hle := hcall.2.2
        rw [htrap]
        -- the interval in milliseconds fits in 32 bits
        split_ifs <;> omega
      · simp only [update_of_ne hp]
        exact h p hlo hhi
    · rw [hports, hsb, if_neg (hno pid enable act trap rfl)]
      exact h p hlo hhi
  · have hother : ∀ pid enable act trap, op ≠ .enable pid enable act trap :=
      fun pid enable act trap heq => hop ⟨pid, enable, act, trap, heq⟩
    have hset : (s'.fdb.ports p).trapInterval = (s.fdb.ports p).trapInterval :=
      congrArg (·.2.2) (settings_of_step hother hstep p)
    rw [hset]
    rcases hsb with ⟨_, _, _, _, heq, -⟩ | ⟨hsb, -⟩
    · exact absurd heq (hother _ _ _ _)
    · rw [hsb]
      exact h p hlo hhi

/-- A step that leaves the delays and the settings of ports. -/
theorem Delayed.congr (h : s.Delayed c)
    (hna : ∀ p, (s'.sb_delay p).tdelay_sb_port_na = (s.sb_delay p).tdelay_sb_port_na)
    (hmoved : ∀ p, (s'.sb_delay p).tdelay_sb_moved_static = (s.sb_delay p).tdelay_sb_moved_static)
    (hports : ∀ p, (s'.fdb.ports p).toPsec = (s.fdb.ports p).toPsec) : s'.Delayed c := by
  intro p hlo hhi
  rw [hna, hmoved, congrArg Psec.trapInterval (hports p)]
  exact h p hlo hhi

/-- A step that reports nothing and notes no breach. -/
theorem Spaced.congr (h : s.Spaced) (hsent : s'.sent = s.sent)
    (hlast : ∀ p type, s'.lastBreach p type = s.lastBreach p type)
    (hpc : ∀ msg ts delay, s'.pc = .block msg ts delay ∨ s'.pc = .query msg ts delay →
      s.pc = .block msg ts delay ∨ s.pc = .query msg ts delay) : s'.Spaced where
  apart := hsent ▸ h.apart
  last r hr := by
    rw [hlast]
    exact h.last r (hsent ▸ hr)
  pending msg ts delay heq := by
    obtain ⟨hts, hall⟩ := h.pending msg ts delay (hpc msg ts delay heq)
    exact ⟨(hlast msg.pid .SB_PORT_NA).trans hts, hsent ▸ hall⟩

/-- **Step.** A call of the table reports nothing. -/
theorem Spaced.psec (h : s.Spaced) {op : PsecOp} (hs : s.psecCall c op = some s') : s'.Spaced := by
  obtain ⟨-, hpc, hsent, -⟩ := psecCall_cases hs
  have hnoted := psecCall_noted hs
  refine h.congr hsent (fun p type => ?_) fun msg ts delay heq => hpc ▸ heq
  cases type with
  | SB_PORT_NA => exact (hnoted p).2.1
  | SB_MOVED_STATIC => exact (hnoted p).2.2

/-- A breach is later than what is reported, by more than the delay of its port. -/
theorem Spaced.breach (h : s.Spaced) (hidle : s.pc = .idle) (msg : SecurBreachMsg) (ts : ℕ) :
    (s.sectEventHandler msg ts).Spaced := by
  obtain heq | ⟨-, hdue, heq⟩ | ⟨-, hdue, heq⟩ := s.sectEventHandler_cases msg ts
  · rwa [heq]
  · rw [heq]
    refine ⟨h.apart, fun r hr => (h.last r hr).trans ?_, fun msg' ts' delay hpc => ?_⟩
    · by_cases hp : r.pid = msg.pid
      · cases hrt : r.type with
        | SB_PORT_NA =>
          simp only [lastBreach, setDelay, hp, update_self]
          omega
        | SB_MOVED_STATIC => simp [lastBreach, setDelay, hp]
      · cases hrt : r.type <;> simp [lastBreach, setDelay, update_of_ne hp]
    · rcases hpc with hpc | hpc
      · obtain ⟨rfl, rfl, rfl⟩ := SectPc.block.inj hpc
        refine ⟨by simp [setDelay], fun r hr hrt hp => ?_⟩
        have hlast := h.last r hr
        rw [hrt, hp] at hlast
        change r.ts ≤ (s.sb_delay msg.pid).tst_port_na at hlast
        omega
      · cases hpc
  · rw [heq]
    refine ⟨List.pairwise_cons.mpr ⟨fun r hr hrt hp => ?_, h.apart⟩, fun r hr => ?_,
      fun msg' ts' delay hpc => ?_⟩
    · have hlast := h.last r hr
      rw [← hrt, ← hp] at hlast
      change r.ts ≤ (s.sb_delay msg.pid).tst_moved_static at hlast
      change r.ts + (s.sb_delay msg.pid).tdelay_sb_moved_static < ts
      omega
    · rcases List.mem_cons.mp hr with rfl | hr
      · simp [lastBreach, setDelay]
      · refine (h.last r hr).trans ?_
        by_cases hp : r.pid = msg.pid
        · cases hrt : r.type with
          | SB_PORT_NA => simp [lastBreach, setDelay, hp]
          | SB_MOVED_STATIC =>
            simp only [lastBreach, setDelay, hp, update_self]
            omega
        · cases hrt : r.type <;> simp [lastBreach, setDelay, update_of_ne hp]
    · change s.pc = _ ∨ s.pc = _ at hpc
      rw [hidle] at hpc
      rcases hpc with hpc | hpc <;> cases hpc

/-- A breach of an address that the table lacks is reported. -/
theorem Spaced.query (h : s.Spaced) {msg : SecurBreachMsg} {ts delay : ℕ}
    (hpc : s.pc = .query msg ts delay) :
    Spaced { s with
      pc := .idle
      sent := if s.mac2Query c msg.vlan msg.macSa then s.sent
        else ⟨.SB_PORT_NA, msg.pid, msg.vlan, msg.macSa, ts, delay⟩ :: s.sent } := by
  obtain ⟨hts, hall⟩ := h.pending msg ts delay (.inr hpc)
  split_ifs
  · exact h.congr rfl (fun _ _ => rfl) fun _ _ _ heq => (by rcases heq with heq | heq <;> cases heq)
  · refine ⟨List.pairwise_cons.mpr ⟨fun r hr hrt hp => hall r hr hrt.symm hp.symm, h.apart⟩,
      fun r hr => ?_,
      fun _ _ _ heq => (by rcases heq with heq | heq <;> cases heq)⟩
    rcases List.mem_cons.mp hr with rfl | hr
    · exact hts.ge
    · exact h.last r hr

/-- A step of the thread. -/
theorem Spaced.thread (h : s.Spaced) (hs : s.sectThread c NPORTS = some s') : s'.Spaced := by
  unfold sectThread at hs
  cases hpc : s.pc with
  | idle =>
    rw [hpc] at hs
    cases hs
  | block msg ts delay =>
    rw [hpc] at hs
    obtain rfl := Option.some_inj.mp hs
    refine h.congr (psecEnableNaSb_sent msg.pid false) (fun p type => ?_)
      fun msg' ts' delay' heq => ?_
    · cases type <;> simp [lastBreach]
    · rcases heq with heq | heq
      · cases heq
      · obtain ⟨rfl, rfl, rfl⟩ := SectPc.query.inj heq
        exact .inl hpc
  | query msg ts delay =>
    rw [hpc] at hs
    obtain rfl := Option.some_inj.mp hs
    exact h.query hpc
  | timer pid ts =>
    rw [hpc] at hs
    dsimp only at hs
    split_ifs at hs
    · obtain rfl := Option.some_inj.mp hs
      exact h.congr rfl (fun _ _ => rfl)
        fun _ _ _ heq => (by rcases heq with heq | heq <;> cases heq)
    · obtain rfl := Option.some_inj.mp hs
      refine h.congr rfl (fun p type => ?_)
        fun _ _ _ heq => (by rcases heq with heq | heq <;> cases heq)
      by_cases hp : p = pid
      · subst hp
        cases type <;> simp [lastBreach, setDelay]
      · cases type <;> simp [lastBreach, setDelay, update_of_ne hp]
    · obtain rfl := Option.some_inj.mp hs
      exact h.congr rfl (fun _ _ => rfl)
        fun _ _ _ heq => (by rcases heq with heq | heq <;> cases heq)
  | unblock pid ts =>
    rw [hpc] at hs
    obtain rfl := Option.some_inj.mp hs
    refine h.congr (psecEnableNaSb_sent pid true) (fun p type => ?_)
      fun _ _ _ heq => (by rcases heq with heq | heq <;> cases heq)
    cases type <;> simp [lastBreach]

/-- **Step.** A breach keeps the delays. -/
theorem Delayed.breach (h : s.Delayed c) (msg : SecurBreachMsg) (ts : ℕ) :
    (s.sectEventHandler msg ts).Delayed c := by
  obtain heq | ⟨-, -, heq⟩ | ⟨-, -, heq⟩ := s.sectEventHandler_cases msg ts
  · rwa [heq]
  all_goals
    rw [heq]
    refine h.congr (fun p => ?_) (fun p => ?_) fun _ => rfl
    all_goals
      by_cases hp : p = msg.pid
      · subst hp
        simp [setDelay]
      · simp [setDelay, update_of_ne hp]

/-- **Step.** The thread keeps the delays. -/
theorem Delayed.thread (h : s.Delayed c) (hs : s.sectThread c NPORTS = some s') : s'.Delayed c := by
  unfold sectThread at hs
  cases hpc : s.pc with
  | idle =>
    rw [hpc] at hs
    cases hs
  | block msg ts delay =>
    rw [hpc] at hs
    obtain rfl := Option.some_inj.mp hs
    exact h.congr (by simp) (by simp) (psecEnableNaSb_settings msg.pid false)
  | query msg ts delay =>
    rw [hpc] at hs
    obtain rfl := Option.some_inj.mp hs
    exact h.congr (fun _ => rfl) (fun _ => rfl) fun _ => rfl
  | timer pid ts =>
    rw [hpc] at hs
    dsimp only at hs
    split_ifs at hs
    · obtain rfl := Option.some_inj.mp hs
      exact h.congr (fun _ => rfl) (fun _ => rfl) fun _ => rfl
    · obtain rfl := Option.some_inj.mp hs
      refine h.congr (fun p => ?_) (fun p => ?_) fun _ => rfl
      all_goals
        by_cases hp : p = pid
        · subst hp
          simp [setDelay]
        · simp [setDelay, update_of_ne hp]
    · obtain rfl := Option.some_inj.mp hs
      exact h.congr (fun _ => rfl) (fun _ => rfl) fun _ => rfl
  | unblock pid ts =>
    rw [hpc] at hs
    obtain rfl := Option.some_inj.mp hs
    exact h.congr (by simp) (by simp) (psecEnableNaSb_settings pid true)

/-- In the beginning no port is delayed. -/
theorem Delayed.start (hports : c.nports ≤ NPORTS) (ts : ℕ) :
    (start NPORTS stack ts).Delayed c := by
  intro p hlo hhi
  have hdelay : (SecBreach.start NPORTS stack ts).sb_delay p =
      ⟨false, false, 30000, 30000, ts, ts⟩ :=
    if_pos ⟨hlo, hhi.trans hports⟩
  rw [hdelay]
  exact ⟨Nat.le_of_ble_eq_true rfl, rfl, rfl⟩

/-- In the beginning nothing has been reported. -/
theorem Spaced.start (NPORTS ts : ℕ) : (start NPORTS stack ts).Spaced where
  apart := .nil
  last _ hr := absurd hr List.not_mem_nil
  pending _ _ _ heq := by rcases heq with heq | heq <;> cases heq

/-- In every run the delays of a port are its trap interval, in milliseconds, and more than the
delay that the port has by then is between one report of a type on a port and the next. -/
theorem reports_spaced {ts : ℕ} (hports : c.nports ≤ NPORTS)
    (hr : Guarded.Reach (SecBreach.step c NPORTS) (fun _ _ => True) (start NPORTS stack ts) s) :
    s.Delayed c ∧ s.sent.Pairwise Apart := by
  have hinv : s.Delayed c ∧ s.Spaced := by
    refine hr.invariant (fun s => s.Delayed c ∧ s.Spaced) ⟨.start hports ts, .start NPORTS ts⟩
      fun s op s' ⟨hdelayed, hspaced⟩ _ hs => ?_
    cases op with
    | psec op => exact ⟨hdelayed.psec hs, hspaced.psec hs⟩
    | breach msg ts =>
      rw [SecBreach.step] at hs
      split_ifs at hs with hidle
      obtain rfl := Option.some_inj.mp hs
      exact ⟨hdelayed.breach msg ts, hspaced.breach hidle msg ts⟩
    | timer ts =>
      rw [SecBreach.step] at hs
      split_ifs at hs
      obtain rfl := Option.some_inj.mp hs
      exact ⟨hdelayed.congr (fun _ => rfl) (fun _ => rfl) fun _ => rfl,
        hspaced.congr rfl (fun _ _ => rfl)
          fun _ _ _ heq => (by rcases heq with heq | heq <;> cases heq)⟩
    | thread => exact ⟨hdelayed.thread hs, hspaced.thread hs⟩
  exact ⟨hinv.1, hinv.2.apart⟩

/-- Three breaches on port 1, of which the second one comes too early. -/
def reportOps : List SectOp :=
  breachOps ++
    [.breach ⟨.PORT_NA, 1, 10, 8⟩ 60000, .breach ⟨.PORT_NA, 1, 10, 9⟩ 70001, .thread, .thread]

/-- The reports of the run are further apart than their delay. -/
theorem reports_spaced_reportRun :
    ∃ s, Guarded.run (SecBreach.step FdbRun.conf₁ 2) (fun _ _ => True)
      (start 2 SecFdb.noStack 0) reportOps = some s ∧
    s.sent.map (fun r => (r.ts, r.delay)) = [(70001, 30000), (40000, 30000)] ∧
    s.Delayed FdbRun.conf₁ ∧ s.sent.Pairwise Apart := by
  have hreport : (Guarded.run (SecBreach.step FdbRun.conf₁ 2) (fun _ _ => True)
      (start 2 SecFdb.noStack 0) reportOps).map (fun s => s.sent.map fun r => (r.ts, r.delay)) =
      some [(70001, 30000), (40000, 30000)] := by decide +kernel
  obtain ⟨s, hrun, hs⟩ := Option.map_eq_some_iff.mp hreport
  exact ⟨s, hrun, hs, reports_spaced (by decide) (Guarded.Reach.init.of_run hrun)⟩

end SecBreach

end Presteramgr
