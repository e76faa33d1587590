import Presteramgr.Mac.Fdbman

/-!
# One master for each configuration

Any number of units, a configuration for each serial, and the announcements between the units.
The units learn of the configurations in any order, and announcements are late, lost or repeated.

## Main definitions

* `FdbNet`: the units with their `Fdbman` and the announcements sent;
* `FdbNet.OneMaster`: no configuration has two masters, and masters and members agree on it.

## Main results

* `FdbNet.one_master`: this holds in every reachable state.
-/

namespace Presteramgr

open Function (update update_self update_of_ne)

/-- An announcement, a packet with the command `FMC_MASTER_READY`. -/
structure ReadyPkt where
  stackId : ℕ
  serial : ℕ
  devsbmp : Finset ℕ
deriving DecidableEq

/-- The announcement among the messages of `fdbman_set_master`, as unit `u` sends it. -/
def ManOut.ready (u : ℕ) : ManOut → Option ReadyPkt
  | .masterReady serial bmp => some ⟨u, serial, bmp⟩
  | _ => none

/-- The units, and all announcements sent so far. -/
structure FdbNet where
  unit : ℕ → Fdbman
  sent : List ReadyPkt

/-- What happens between the units. -/
inductive FdbNetOp
  /-- Unit `u` is told the configuration with the serial. -/
  | setMaster (u serial : ℕ)
  /-- The announcement reaches unit `u`. -/
  | deliver (u : ℕ) (pkt : ReadyPkt)

namespace FdbNet

variable (conf : ℕ → ℕ × Finset ℕ)

/-- A step: `conf` gives master and devices of the configuration of each serial. -/
def step (s : FdbNet) : FdbNetOp → Option FdbNet
  | .setMaster u serial =>
    let (m, out) := (s.unit u).setMaster u ⟨(conf serial).1, serial, (conf serial).2⟩
    some { unit := update s.unit u m, sent := out.filterMap (ManOut.ready u) ++ s.sent }
  | .deliver u pkt =>
    -- `fdbcomm_tipc_handler` drops a unit's own packets
    if pkt.stackId = u then some s
    else some { s with
      unit := update s.unit u ((s.unit u).masterReady u pkt.stackId pkt.serial pkt.devsbmp) }

/-- All units started, nothing sent. -/
def init : FdbNet where
  unit := Fdbman.start
  sent := []

/-- Only what was sent is delivered. -/
def Allowed (s : FdbNet) : FdbNetOp → Prop
  | .setMaster _ _ => True
  | .deliver _ pkt => pkt ∈ s.sent

/-- No two masters have one serial, except the serial 0 of a unit that knows no configuration. A
master is the master that the configuration with its serial names, and a member has that one. -/
structure OneMaster (s : FdbNet) : Prop where
  unique : ∀ u v, (s.unit u).state = .FST_MASTER → (s.unit v).state = .FST_MASTER →
    (s.unit u).serial = (s.unit v).serial → 0 < (s.unit u).serial → u = v
  master : ∀ u, (s.unit u).state = .FST_MASTER → 0 < (s.unit u).serial →
    (conf (s.unit u).serial).1 = u
  member : ∀ u, (s.unit u).state = .FST_MEMBER →
    (s.unit u).master = (conf (s.unit u).serial).1

/-- What a unit knows agrees with the configurations. -/
structure Agrees (u : ℕ) (m : Fdbman) : Prop where
  settled : m.Settled u
  master : m.state = .FST_MASTER → 0 < m.serial → (conf m.serial).1 = u
  member : m.state = .FST_MEMBER → m.master = (conf m.serial).1

/-- What holds in every state: also the announcements in flight agree with the configurations. -/
structure Inv (s : FdbNet) : Prop where
  unit : ∀ u, Agrees conf u (s.unit u)
  sent : ∀ pkt ∈ s.sent, pkt.stackId = (conf pkt.serial).1

variable {conf} {s : FdbNet} {u : ℕ} {m : Fdbman}

theorem inv_init : Inv conf init where
  unit _ := ⟨Fdbman.settled_start, fun _ hpos => absurd hpos (lt_irrefl 0),
    nofun⟩
  sent _ h := absurd h List.not_mem_nil

/-- A configuration told to a unit. -/
theorem Agrees.setMaster (h : Agrees conf u m) (serial : ℕ) :
    Agrees conf u (m.setMaster u ⟨(conf serial).1, serial, (conf serial).2⟩).1 := by
  refine ⟨Fdbman.settled_setMaster h.settled, ?_, ?_⟩ <;>
    rcases Fdbman.setMaster_cases u m ⟨(conf serial).1, serial, (conf serial).2⟩ with
      ⟨heq, -⟩ | ⟨-, -, ⟨hme, heq⟩ | ⟨-, heq⟩⟩ <;> rw [heq]
  · exact h.master
  · exact fun _ _ => hme.symm
  · exact fun hstate => absurd hstate (Fdbman.pending_ne_master _)
  · exact h.member
  · exact nofun
  · -- a member stays a member of the configuration it has
    intro hstate
    refine h.member ?_
    by_cases hm : m.state = .FST_MASTER
    · simp [hm] at hstate
    · simpa [hm] using hstate

/-- An announcement of the master that the configuration names. -/
theorem Agrees.masterReady (h : Agrees conf u m) {pkt : ReadyPkt}
    (hpkt : pkt.stackId = (conf pkt.serial).1) :
    Agrees conf u (m.masterReady u pkt.stackId pkt.serial pkt.devsbmp) := by
  refine ⟨Fdbman.settled_masterReady h.settled, ?_, ?_⟩ <;>
    rcases Fdbman.masterReady_cases u m pkt.stackId pkt.serial pkt.devsbmp with
      ⟨heq, -⟩ | ⟨hle, hlt, heq⟩ | ⟨-, -, heq⟩ <;> rw [heq]
  · exact h.master
  · -- a master knows no later configuration
    intro hstate _
    have := h.settled.serial_eq hstate
    omega
  · exact nofun
  · exact h.member
  · exact fun _ => hpkt
  · exact fun _ => hpkt

/-- Every step keeps the invariant. -/
theorem Inv.step (h : Inv conf s) {op : FdbNetOp} (hok : Allowed s op) {s' : FdbNet}
    (hs : FdbNet.step conf s op = some s') : Inv conf s' := by
  cases op with
  | setMaster u serial =>
    obtain rfl := Option.some_inj.mp hs
    refine ⟨fun v => ?_, fun pkt hpkt => ?_⟩
    · show Agrees conf v (update s.unit u _ v)
      by_cases hv : v = u
      · subst hv
        rw [update_self]
        exact (h.unit v).setMaster serial
      · rw [update_of_ne hv]
        exact h.unit v
    · rcases List.mem_append.mp hpkt with hnew | hold
      · obtain ⟨o, ho, hready⟩ := List.mem_filterMap.mp hnew
        cases o with
        | masterReady ser bmp =>
          obtain rfl := Option.some_inj.mp hready
          obtain ⟨hme, rfl, -⟩ := Fdbman.setMaster_announces ho
          exact hme
        | _ => simp [ManOut.ready] at hready
      · exact h.sent pkt hold
  | deliver u pkt =>
    simp only [FdbNet.step] at hs
    split_ifs at hs with hown
    · obtain rfl := Option.some_inj.mp hs
      exact h
    · obtain rfl := Option.some_inj.mp hs
      refine ⟨fun v => ?_, h.sent⟩
      show Agrees conf v (update s.unit u _ v)
      by_cases hv : v = u
      · subst hv
        rw [update_self]
        exact (h.unit v).masterReady (h.sent pkt hok)
      · rw [update_of_ne hv]
        exact h.unit v

/-- Whatever the order, delay, loss or repetition of configurations and announcements, no
configuration has two masters, and masters and members agree with it. -/
theorem one_master (conf : ℕ → ℕ × Finset ℕ) (s : FdbNet)
    (hr : Guarded.Reach (FdbNet.step conf) Allowed init s) : OneMaster conf s := by
  have h : Inv conf s :=
    hr.invariant (Inv conf) inv_init fun _ _ _ h hok hs => h.step hok hs
  refine ⟨fun u v hu hv heq hpos => ?_, fun u => (h.unit u).master, fun u => (h.unit u).member⟩
  rw [← (h.unit u).master hu hpos, heq, (h.unit v).master hv (heq ▸ hpos)]

/-- Unit 2 is master of configuration 1 and announces itself to unit 1, which becomes a member. -/
theorem one_master_announced :
    ∃ s, Guarded.Reach (FdbNet.step fun _ => (2, {1, 2})) Allowed init s ∧
    OneMaster (fun _ => (2, {1, 2})) s ∧ (s.unit 1).state = .FST_MEMBER ∧
    (s.unit 2).state = .FST_MASTER ∧ (s.unit 2).serial = 1 := by
  have h₀ : Guarded.Reach (FdbNet.step fun _ => (2, {1, 2})) Allowed init init := .init
  have h₁ := h₀.snoc (.setMaster 2 1) trivial rfl
  have h₂ := h₁.snoc (.deliver 1 ⟨2, 1, {1, 2}⟩) List.mem_cons_self rfl
  exact ⟨_, h₂, one_master _ _ h₂, by decide, by decide, by decide⟩

end FdbNet

end Presteramgr
