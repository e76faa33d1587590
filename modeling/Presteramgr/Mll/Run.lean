import Presteramgr.Lib.Guarded
import Presteramgr.Mll.Table

/-!
# Runs of the multicast table

The pair table as a system: any number of chains, each known to its user by the head that the
last call returned, and for each of them the nodes added to it and not yet deleted.

## Main definitions

* `MllOp`, `MllRun` and `step`: the calls of `add_node` and `del_node` and what they return;
* `Promised`: what the callers of `mll.c` promise;
* `Untells` and `Misleads`: the deletions that leave a stale back link and a wrong hardware link.

## Main results

* `chains_ok`: without `Untells`, every chain is well formed in every reachable state and
  holds exactly its nodes;
* `walks_agree`: without `Misleads`, and as long as no deletion follows a stale back link, both
  tables show the same chains.
-/

namespace Presteramgr

open Function (update)
open Linked Guarded

/-- The calls other files make. -/
inductive MllOp
  /-- `add_node` with a negative predecessor. `wrOk` is the outcome of the hardware write. -/
  | new (pred : ℤ) (mcg vid : ℕ) (wrOk : Bool)
  /-- `add_node` with the head of a chain. -/
  | add (head : ℤ) (mcg vid : ℕ) (wrOk : Bool)
  | del (head : ℤ) (mcg vid : ℕ)

/-- The table, and for the head of each chain the nodes added to the chain and not deleted. -/
structure MllRun where
  mll : Mll
  chains : ℤ → Option (Multiset MllNode)

namespace MllRun

variable {s s' : MllRun} {op : MllOp} {P : ℤ → List ℤ} {ts : ℕ} {hw : ℤ → HwPair}

/-- The empty table. -/
def start (ts : ℕ) (hw : ℤ → HwPair) : MllRun where
  mll := .mllInit ts hw
  chains _ := none

/-- One call. A chain is known by the head the last call returned for it. -/
def step (s : MllRun) : MllOp → Option MllRun
  | .new pred mcg vid wrOk =>
    (s.mll.addNode pred mcg vid wrOk).map fun r =>
      ⟨r.2, if r.1 < 0 then s.chains else update s.chains r.1 (some {(mcg, vid)})⟩
  | .add head mcg vid wrOk =>
    (s.chains head).bind fun ns =>
      (s.mll.addNode head mcg vid wrOk).map fun r =>
        ⟨r.2, update (update s.chains head none) r.1 (some ((mcg, vid) ::ₘ ns))⟩
  | .del head mcg vid =>
    (s.chains head).bind fun ns =>
      (s.mll.delNode head mcg vid).map fun r =>
        ⟨r.2, if r.1 = -3 then s.chains
          else if r.1 = -2 then update s.chains head none
          else update (update s.chains head none) r.1 (some (ns.erase (mcg, vid)))⟩

/-- What callers promise: the VLAN is not zero, an existing chain is named by its head, and a
complete tail is only appended to while a pair can be created. -/
def Promised (s : MllRun) : MllOp → Prop
  | .new pred _ vid _ => pred < 0 ∧ vid ≠ 0
  | .add head _ vid wrOk => (s.chains head).isSome ∧ vid ≠ 0 ∧
      (s.mll.CompleteTail head → ¬s.mll.Exhausted ∧ wrOk = true)
  | .del head _ vid => (s.chains head).isSome ∧ vid ≠ 0

instance (s : MllRun) (op : MllOp) : Decidable (Promised s op) := by
  cases op <;> unfold Promised <;> infer_instance

/-- The call is a deletion that leaves the back link of the next pair stale. -/
def Untells (s : MllRun) : MllOp → Prop
  | .del head mcg vid => ∃ idx, Mll.findPair s.mll.mll_pt mcg vid s.mll.mll_ts head = some idx ∧
      idx ≠ -1 ∧ s.mll.TakesCase8 idx mcg vid
  | _ => False

instance (s : MllRun) (op : MllOp) : Decidable (Untells s op) := by
  cases op with
  | del head mcg vid =>
    exact inferInstanceAs (Decidable (∃ idx ∈ Mll.findPair s.mll.mll_pt mcg vid s.mll.mll_ts head,
      idx ≠ -1 ∧ s.mll.TakesCase8 idx mcg vid))
  | _ => exact .isFalse id

/-- The call is a deletion that overwrites the hardware link of an inner pair. -/
def Misleads (s : MllRun) : MllOp → Prop
  | .del head mcg vid => ∃ idx, Mll.findPair s.mll.mll_pt mcg vid s.mll.mll_ts head = some idx ∧
      idx ≠ -1 ∧ s.mll.TakesCase10 idx mcg vid
  | _ => False

instance (s : MllRun) (op : MllOp) : Decidable (Misleads s op) := by
  cases op with
  | del head mcg vid =>
    exact inferInstanceAs (Decidable (∃ idx ∈ Mll.findPair s.mll.mll_pt mcg vid s.mll.mll_ts head,
      idx ≠ -1 ∧ s.mll.TakesCase10 idx mcg vid))
  | _ => exact .isFalse id

/-- The call is a deletion that finds the pair before through a stale back link. -/
def FollowsStale (s : MllRun) : MllOp → Prop
  | .del head mcg vid => s.mll.FindsStale head mcg vid
  | _ => False

instance (s : MllRun) (op : MllOp) : Decidable (FollowsStale s op) := by
  cases op <;> unfold FollowsStale <;> infer_instance

/-! ### What the chains hold -/

/-- The recorded nodes are the nodes of the chains. -/
def Recorded (s : MllRun) (P : ℤ → List ℤ) : Prop :=
  ∀ x, s.chains x = if P x = [] then none else some (Mll.chainNodes s.mll (P x))

namespace Recorded

variable (hrec : Recorded s P)

include hrec

theorem ne_nil {h : ℤ} (hsome : (s.chains h).isSome) : P h ≠ [] := fun hnil => by
  rw [hrec h, if_pos hnil] at hsome
  simp at hsome

theorem eq_some {h : ℤ} (hP : P h ≠ []) : s.chains h = some (Mll.chainNodes s.mll (P h)) := by
  rw [hrec h, if_neg hP]

/-- The record follows an operation that replaces one chain. -/
theorem rechain {m' : Mll} {h h' : ℤ} {l' : List ℤ} {untold misled : Prop}
    (hr : Mll.Rechained s.mll m' P h h' l' untold misled) {c : Option (Multiset MllNode)}
    (hc : c = if l' = [] then none else some (Mll.chainNodes m' l')) :
    Recorded ⟨m', update (update s.chains h none) h' c⟩ (Mll.rechain P h h' l') := by
  intro x
  simp only [Mll.rechain_apply, Function.update_apply]
  by_cases hx : x = h'
  · simp only [if_pos hx]
    exact hc
  · by_cases hxh : x = h
    · simp only [if_neg hx, if_pos hxh, if_true]
    · simp only [if_neg hx, if_neg hxh]
      rw [hrec x, Mll.chainNodes_congr (hr.keep x hxh)]

end Recorded

/-- A promised call returns. It leaves everything as it was, or replaces one chain. -/
theorem step_spec (hinv : s.mll.MllInv P) (hrec : Recorded s P) (hok : Promised s op)
    (hsplice : ∀ h mcg vid, op = .del h mcg vid → ∀ idx ∈ P h,
      Mll.findPair s.mll.mll_pt mcg vid s.mll.mll_ts h = some idx → s.mll.ReadsPred idx →
      s.mll.Spliced h idx (P h)) :
    step s op = some s ∨ ∃ s' h h' l', step s op = some s' ∧
      Mll.Rechained s.mll s'.mll P h h' l' (Untells s op) (Misleads s op) ∧
      Recorded s' (Mll.rechain P h h' l') := by
  -- one case for each operation: it is refused, or one chain changes
  cases op with
  | new pred mcg vid wrOk =>
    obtain ⟨hpred, hvid⟩ := hok
    rcases hinv.newChain mcg hpred hvid wrOk with heq | ⟨idx, m', heq, h0, hnil, hr, hnodes⟩
    · left
      simp only [step, heq, Option.map_some]
      rfl
    · right
      have hrec' := hrec.rechain hr (c := some {(mcg, vid)}) (by simp [hnodes])
      refine ⟨_, idx, idx, [idx], ?_, hr, hrec'⟩
      have hnone : s.chains idx = none := by rw [hrec idx, if_pos hnil]
      have hneg : ¬idx < 0 := by omega
      simp only [step, heq, Option.map_some, if_neg hneg, Function.update_idem]
  | add head mcg vid wrOk =>
    obtain ⟨hsome, hvid, hroom⟩ := hok
    have hP := hrec.ne_nil hsome
    obtain ⟨m', l', heq, hl', hr, hnodes⟩ := hinv.appendNode hP hvid hroom
    right
    refine ⟨_, head, head, l', ?_, hr, hrec.rechain hr (c := some ((mcg, vid) ::ₘ
      Mll.chainNodes s.mll (P head))) (by rw [if_neg hl', hnodes])⟩
    simp only [step, hrec.eq_some hP, Option.bind_some, heq, Option.map_some]
  | del head mcg vid =>
    obtain ⟨hsome, hvid⟩ := hok
    have hP := hrec.ne_nil hsome
    rcases hinv.delNode hP (fun h0 => absurd (Prod.mk.inj h0).2 hvid)
        (hsplice head mcg vid rfl) with
      ⟨heq, -⟩ | ⟨idx, hidx, hfind, m', h', l', freed, heq, hd⟩
    · left
      simp only [step, hrec.eq_some hP, Option.bind_some, heq, Option.map_some, if_true]
    · right
      have hr := hinv.rechained_of_deleted hd
      have hcount : (Mll.chainNodes s.mll (P head)).erase (mcg, vid) = Mll.chainNodes m' l' := by
        rw [hd.nodes, Multiset.erase_cons_head]
      refine ⟨_, head, h', l', ?_, (hr.mono (fun hu => ⟨idx, hfind, hinv.ne_neg_one hidx, hu⟩)
        fun hm => ⟨idx, hfind, hinv.ne_neg_one hidx, hm⟩), hrec.rechain hr rfl⟩
      simp only [step, hrec.eq_some hP, Option.bind_some, heq, Option.map_some]
      -- the chain is gone, or it is known by its head
      by_cases hl' : l' = []
      · have hsame : update (update s.chains head none) h' none = update s.chains head none := by
          by_cases hh : h' = head
          · rw [hh, Function.update_idem]
          · have hnone : s.chains h' = none := by rw [hrec h', if_pos (hr.fresh hh)]
            rw [Function.update_eq_self_iff, Function.update_of_ne hh, hnone]
        simp only [if_pos hl', hsame]
        rfl
      · have h0 := (hd.chain hl').head_nonneg
        have h3 : ¬h' = -3 := by omega
        have h2 : ¬h' = -2 := by omega
        simp only [if_neg hl', if_neg h3, if_neg h2, hcount]

/-! ### Shadow chains -/

/-- What a state that respects all chains looks like: the pairs of each chain are linked both ways
and hold exactly the nodes recorded for it, no pair is in two chains or in a chain and on the
free stack, and every other pair is free. -/
def ChainsOk (s : MllRun) : Prop :=
  ∃ P : ℤ → List ℤ,
    (∀ h, s.chains h = none → P h = []) ∧
    (∀ h ns, s.chains h = some ns →
      s.mll.ChainOk h (P h) ∧ s.mll.BackOk h (P h) ∧ s.mll.chainNodes (P h) = ns) ∧
    (∀ h h', h ≠ h' → List.Disjoint (P h) (P h')) ∧
    (∀ h, List.Disjoint (P h) s.mll.free) ∧ s.mll.free.Nodup ∧
    ∀ i : ℤ, 0 ≤ i → i < s.mll.mll_ts → i ∈ s.mll.free ∨ ∃ h, i ∈ P h

/-- Every promised call returns, and `del_node` tells what it found: `-3` when no node matches and
`-2` when the last node goes. -/
def CallsReturn (s : MllRun) : Prop :=
  (∀ op, Promised s op → (step s op).isSome) ∧
    ∀ h ns mcg vid, s.chains h = some ns → vid ≠ 0 →
      ∃ r m', s.mll.delNode h mcg vid = some (r, m') ∧
        (r = -3 ↔ (mcg, vid) ∉ ns) ∧ (r = -2 ↔ ns = {(mcg, vid)})

/-- The invariant behind `ChainsOk`. -/
structure BackInv (s : MllRun) (P : ℤ → List ℤ) : Prop where
  inv : s.mll.MllInv P
  recorded : Recorded s P
  back : ∀ h, s.mll.BackOk h (P h)

namespace BackInv

variable (hb : BackInv s P)

include hb

theorem spliced {h idx : ℤ} (hidx : idx ∈ P h) (hread : s.mll.ReadsPred idx) :
    s.mll.Spliced h idx (P h) :=
  hb.inv.spliced_of_back hidx (hb.back h) hread

theorem chainsOk : ChainsOk s := by
  refine ⟨P, fun h hnone => ?_, fun h ns hsome => ?_, hb.inv.disjoint, fun h i hi => ?_,
    hb.inv.freeNodup, hb.inv.cover⟩
  · by_contra hP
    rw [hb.recorded.eq_some hP] at hnone
    simp at hnone
  · have hP := hb.recorded.ne_nil (h := h) (by rw [hsome]; rfl)
    rw [hb.recorded.eq_some hP, Option.some_inj] at hsome
    exact ⟨hb.inv.chain h hP, hb.back h, hsome⟩
  · exact hb.inv.notFree h i hi

theorem callsReturn : CallsReturn s := by
  refine ⟨fun op hok => ?_, fun h ns mcg vid hsome hvid => ?_⟩
  · rcases step_spec hb.inv hb.recorded hok (fun _ _ _ _ idx hidx _ => hb.spliced hidx) with
      heq | ⟨s', _, _, _, heq, _⟩ <;> rw [heq] <;> rfl
  · have hP := hb.recorded.ne_nil (h := h) (by rw [hsome]; rfl)
    rw [hb.recorded.eq_some hP, Option.some_inj] at hsome
    subst hsome
    rcases hb.inv.delNode hP (fun h0 => absurd (Prod.mk.inj h0).2 hvid)
        (fun idx hidx _ => hb.spliced hidx) with
      ⟨heq, hno⟩ | ⟨idx, hidx, hfind, m', h', l', freed, heq, hd⟩
    · refine ⟨_, _, heq, iff_of_true rfl hno, iff_of_false (by decide) fun hone => hno ?_⟩
      rw [hone]
      exact Multiset.mem_singleton_self _
    · refine ⟨_, _, heq, iff_of_false ?_ ?_, ?_⟩
      · split_ifs with hl'
        · decide
        · have := (hd.chain hl').head_nonneg
          omega
      · rw [hd.nodes]
        simp
      · rw [hd.nodes]
        split_ifs with hl'
        · simp [hl']
        · have h0 := (hd.chain hl').head_nonneg
          refine iff_of_false (by omega) fun hone => ?_
          obtain ⟨x, rest, hx⟩ := List.exists_cons_of_ne_nil hl'
          rw [hx, Mll.chainNodes_cons] at hone
          have hcard := congrArg Multiset.card hone
          simp [Mll.pairNodes] at hcard

end BackInv

/-- A call that tells the pair after the deleted one keeps the invariant. -/
theorem BackInv.step (hb : BackInv s P) (hok : Promised s op) (hu : ¬Untells s op)
    (hstep : step s op = some s') : ∃ P', BackInv s' P' := by
  rcases step_spec hb.inv hb.recorded hok (fun _ _ _ _ idx hidx _ => hb.spliced hidx) with
    heq | ⟨s₁, h, h', l', heq, hr, hrec⟩
  · obtain rfl := Option.some_inj.mp (heq.symm.trans hstep)
    exact ⟨P, hb⟩
  · obtain rfl := Option.some_inj.mp (heq.symm.trans hstep)
    refine ⟨_, hr.inv, hrec, fun x => hr.backOk hb.back hu (fun x hx => ?_) x⟩
    exact (hb.inv.chain x hx).head_mem

/-- In every state that promised calls reach without a deletion by case 8, all chains are well
formed and hold their nodes, and every further call returns. -/
theorem chains_ok
    (hr : Reach step (fun s op => Promised s op ∧ ¬Untells s op) (start ts hw) s) :
    ChainsOk s ∧ CallsReturn s := by
  have hinv : ∃ P, BackInv s P := by
    refine hr.invariant (fun s => ∃ P, BackInv s P) ?_ ?_
    · exact ⟨_, Mll.mllInv_init ts hw, fun _ => rfl, fun _ => trivial⟩
    · rintro s op s' ⟨P, hb⟩ ⟨hok, hu⟩ hstep
      exact hb.step hok hu hstep
  obtain ⟨P, hb⟩ := hinv
  exact ⟨hb.chainsOk, hb.callsReturn⟩

/-- Five nodes in three pairs, the first node of the middle pair deleted. -/
private def middleFirst : List MllOp :=
  [.new (-1) 1 1 true, .add 0 2 2 true, .add 0 3 3 true, .add 0 4 4 true, .add 0 5 5 true,
    .del 0 3 3]

/-- Case 8 leaves the tail pointing back to the pair that was freed. -/
theorem not_chains_ok :
    ∃ s, Reach step Promised (start 8 fun _ => ⟨⟨0, 0, false⟩, ⟨0, 0, false⟩, 0⟩) s ∧
      ¬(ChainsOk s ∧ CallsReturn s) := by
  have hrun : (run step Promised (start 8 fun _ => ⟨⟨0, 0, false⟩, ⟨0, 0, false⟩, 0⟩)
      middleFirst).map (fun s => ((s.chains 0).isSome, (s.mll.mll_pt 0).succ,
        (s.mll.mll_pt 2).pred)) = some (true, 2, 1) := by
    decide
  obtain ⟨s, hs, hprobe⟩ := Option.map_eq_some_iff.mp hrun
  refine ⟨s, Reach.init.of_run hs, fun hand => ?_⟩
  obtain ⟨P, -, hchains, -⟩ := hand.1
  simp only [Prod.mk.injEq] at hprobe
  obtain ⟨hlive, hsucc, hpred⟩ := hprobe
  obtain ⟨ns, hns⟩ := Option.isSome_iff_exists.mp hlive
  obtain ⟨hc, hback, -⟩ := hchains 0 ns hns
  -- the pair after the head is the pair 2
  have hmem := (hc.path.succ_mem hc.head_mem).resolve_right (by simp only [hsucc]; decide)
  have heq := hback.pred_succ hc.path hc.nodup hc.neg_one_notMem hc.head_mem hmem
  simp only [hsucc, hpred] at heq
  exact absurd heq (by decide)

/-- A run in which the guard holds: the second node of the head goes. -/
theorem chains_ok_twoPairs : ∃ s : MllRun, s.chains 1 = some {(3, 3), (1, 1)} ∧
    ChainsOk s ∧ CallsReturn s := by
  have hrun : (run step (fun s op => Promised s op ∧ ¬Untells s op)
      (start 8 fun _ => ⟨⟨0, 0, false⟩, ⟨0, 0, false⟩, 0⟩)
      [.new (-1) 1 1 true, .add 0 2 2 true, .add 0 3 3 true, .del 0 2 2]).map (·.chains 1) =
        some (some {(3, 3), (1, 1)}) := by
    decide
  obtain ⟨s, hs, hprobe⟩ := Option.map_eq_some_iff.mp hrun
  exact ⟨s, hprobe, chains_ok (Reach.init.of_run hs)⟩

/-! ### Both tables -/

/-- The packet processor visits the nodes of every chain in the order of the shadow table. -/
def WalksAgree (s : MllRun) : Prop :=
  ∀ h ns, s.chains h = some ns → ∃ w, Mll.swWalk s.mll.mll_pt s.mll.mll_ts h = some w ∧
    Mll.hwWalk s.mll.hw s.mll.mll_ts h = some w

/-- The invariant behind `WalksAgree`. -/
structure HwInv (s : MllRun) (P : ℤ → List ℤ) : Prop where
  inv : s.mll.MllInv P
  recorded : Recorded s P
  hw : ∀ h, s.mll.HwOk (P h)

theorem HwInv.walksAgree (hi : HwInv s P) : WalksAgree s := by
  intro h ns hsome
  have hP := hi.recorded.ne_nil (h := h) (by rw [hsome]; rfl)
  have hc := hi.inv.chain h hP
  have hlen := hi.inv.length_le h
  exact ⟨_, Mll.swWalk_eq hc.path hP hc.nonneg hlen,
    Mll.hwWalk_eq hc.path hP hc.nonneg hc.full (hi.hw h) hlen⟩

/-- A call that follows right back links only and leaves inner hardware links alone keeps the
invariant. -/
theorem HwInv.step (hi : HwInv s P) (hok : Promised s op) (hm : ¬Misleads s op)
    (hf : ¬FollowsStale s op) (hstep : step s op = some s') : ∃ P', HwInv s' P' := by
  have hsplice : ∀ h mcg vid, op = .del h mcg vid → ∀ idx ∈ P h,
      Mll.findPair s.mll.mll_pt mcg vid s.mll.mll_ts h = some idx → s.mll.ReadsPred idx →
      s.mll.Spliced h idx (P h) := by
    rintro h mcg vid rfl idx hidx hfind hread
    exact hi.inv.spliced_of_not_stale hf idx hidx hfind hread
  rcases step_spec hi.inv hi.recorded hok hsplice with heq | ⟨s₁, h, h', l', heq, hr, hrec⟩
  · obtain rfl := Option.some_inj.mp (heq.symm.trans hstep)
    exact ⟨P, hi⟩
  · obtain rfl := Option.some_inj.mp (heq.symm.trans hstep)
    exact ⟨_, hr.inv, hrec, hr.hwOk hi.hw hm⟩

/-- In every state that promised calls reach without a deletion by case 10 in a longer chain and
without one through a stale back link, the two tables show the same chains. -/
theorem walks_agree
    (hr : Reach step (fun s op => Promised s op ∧ ¬Misleads s op ∧ ¬FollowsStale s op)
      (start ts hw) s) :
    WalksAgree s := by
  have hinv : ∃ P, HwInv s P := by
    refine hr.invariant (fun s => ∃ P, HwInv s P) ?_ ?_
    · exact ⟨_, Mll.mllInv_init ts hw, fun _ => rfl, fun _ i hi => by simp at hi⟩
    · rintro s op s' ⟨P, hi⟩ ⟨hok, hm, hf⟩ hstep
      exact hi.step hok hm hf hstep
  obtain ⟨P, hi⟩ := hinv
  exact hi.walksAgree

/-- Six nodes in three pairs, the second node of the head deleted. -/
private def headSecond : List MllOp :=
  [.new (-1) 1 1 true, .add 0 2 2 true, .add 0 3 3 true, .add 0 4 4 true, .add 0 5 5 true,
    .add 0 6 6 true, .del 0 2 2]

/-- Case 10 links the new head to the old one, and the pair between them is never visited. -/
theorem not_walks_agree :
    ∃ s, Reach step Promised (start 8 fun _ => ⟨⟨0, 0, false⟩, ⟨0, 0, false⟩, 0⟩) s ∧
      ¬WalksAgree s := by
  have hrun : (run step Promised (start 8 fun _ => ⟨⟨0, 0, false⟩, ⟨0, 0, false⟩, 0⟩)
      headSecond).map (fun s => ((s.chains 1).isSome, Mll.swWalk s.mll.mll_pt s.mll.mll_ts 1,
        Mll.hwWalk s.mll.hw s.mll.mll_ts 1)) =
      some (true, some [(3, 3), (4, 4), (5, 5), (6, 6), (1, 1)],
        some [(3, 3), (4, 4), (1, 1)]) := by
    decide
  obtain ⟨s, hs, hprobe⟩ := Option.map_eq_some_iff.mp hrun
  simp only [Prod.mk.injEq] at hprobe
  obtain ⟨hlive, hsw, hhw⟩ := hprobe
  refine ⟨s, Reach.init.of_run hs, fun hagree => ?_⟩
  obtain ⟨ns, hns⟩ := Option.isSome_iff_exists.mp hlive
  obtain ⟨w, hw₁, hw₂⟩ := hagree 1 ns hns
  rw [hsw] at hw₁
  rw [hhw, ← hw₁] at hw₂
  exact absurd hw₂ (by decide)

/-- With two pairs the second node of the head can be deleted. -/
theorem walks_agree_twoPairs : ∃ s : MllRun, s.chains 1 = some {(3, 3), (4, 4), (1, 1)} ∧
    WalksAgree s := by
  have hrun : (run step (fun s op => Promised s op ∧ ¬Misleads s op ∧ ¬FollowsStale s op)
      (start 8 fun _ => ⟨⟨0, 0, false⟩, ⟨0, 0, false⟩, 0⟩)
      [.new (-1) 1 1 true, .add 0 2 2 true, .add 0 3 3 true, .add 0 4 4 true,
        .del 0 2 2]).map (·.chains 1) = some (some {(3, 3), (4, 4), (1, 1)}) := by
    decide
  obtain ⟨s, hs, hprobe⟩ := Option.map_eq_some_iff.mp hrun
  exact ⟨s, hprobe, walks_agree (Reach.init.of_run hs)⟩

end MllRun

end Presteramgr
