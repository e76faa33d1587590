import Mathlib.Logic.Function.Basic
import Mathlib.Data.Int.Notation
import Mathlib.Data.List.Basic

/-!
# Multicast link lists (`mll.c`)

A multicast chain is a doubly linked list of pairs. A pair holds one or two `(mcg, vid)` nodes,
its second slot being empty exactly when `svid` is zero. Every chain exists twice: in the shadow
table `mll_pt` and in the ASIC's MLL pair table, which the packet processor walks.

## Main definitions

* `MllPair` and `HwPair`: a pair of the shadow table and of the hardware table;
* `Mll`: the statics of `mll.c` together with the hardware table;
* `addNode` and `delNode`: the two operations other files call;
* `swWalk` and `hwWalk`: the node sequence of a chain in either table.

The two loops of `mll.c` that follow `succ` carry a bound on their iterations and return `none`
when it runs out. A walk longer than the table has entered a cycle, so with the bound `mll_ts`
the result `none` is exactly the loop that never ends.
-/

namespace Presteramgr

open Function (update)

/-- A multicast group and a VLAN, i.e. one receiver of a multicast route. -/
abbrev MllNode := ℕ × ℕ

/-- `struct mll_pair`. -/
structure MllPair where
  pred : ℤ
  succ : ℤ
  fvid : ℕ
  fmcg : ℕ
  svid : ℕ
  smcg : ℕ
deriving DecidableEq, Repr

/-- The two slots of a pair, filled or not. -/
def MllPair.slots (p : MllPair) : MllNode × MllNode := ((p.fmcg, p.fvid), (p.smcg, p.svid))

/-- The pair of an unused table entry. -/
def MllPair.nullnode : MllPair := ⟨-1, -1, 0, 0, 0, 0⟩

/-- One node of a hardware pair. The fields that every node of the program shares are left out. -/
structure HwNode where
  vidx : ℕ
  nextHopVlanId : ℕ
  last : Bool
deriving DecidableEq, Repr

/-- A hardware node as a receiver. -/
def HwNode.node (n : HwNode) : MllNode := (n.vidx, n.nextHopVlanId)

/-- `CPSS_DXCH_IP_MLL_PAIR_STC`. -/
structure HwPair where
  firstMllNode : HwNode
  secondMllNode : HwNode
  nextPointer : ℤ
deriving DecidableEq, Repr

/-- The statics of `mll.c` and the hardware pair table, which is the same on every device. -/
structure Mll where
  /-- Stack pointer: the entries of `mll_st` from here on are free. -/
  mll_sp : ℕ
  /-- Number of pairs in the table. -/
  mll_ts : ℕ
  mll_st : ℕ → ℤ
  mll_pt : ℤ → MllPair
  hw : ℤ → HwPair

namespace Mll

/-- `mll_init` for a table of `ts` pairs. The hardware table holds whatever it held before. -/
def mllInit (ts : ℕ) (hw : ℤ → HwPair) : Mll where
  mll_sp := 0
  mll_ts := ts
  mll_st i := i
  mll_pt _ := .nullnode
  hw := hw

/-- `mll_get`: `-1` when the table is exhausted, the last entry of the stack never being used. -/
def mllGet (m : Mll) : ℤ × Mll :=
  if m.mll_ts - 1 ≤ m.mll_sp then (-1, m)
  else (m.mll_st m.mll_sp, { m with mll_sp := m.mll_sp + 1 })

/-- `mll_put`. -/
def mllPut (m : Mll) (ix : ℤ) : ℤ × Mll :=
  if m.mll_sp = 0 then (-1, m)
  else (0, { m with mll_sp := m.mll_sp - 1, mll_st := update m.mll_st (m.mll_sp - 1) ix })

/-! ### Single assignments to `mll_pt` and to the hardware table -/

/-- `mll_pt[i] = p`. -/
def setPair (m : Mll) (i : ℤ) (p : MllPair) : Mll :=
  { m with mll_pt := update m.mll_pt i p }

/-- `mll_pt[i].succ = v`. -/
def setSucc (m : Mll) (i v : ℤ) : Mll := m.setPair i { m.mll_pt i with succ := v }

/-- `mll_pt[i].pred = v`. -/
def setPred (m : Mll) (i v : ℤ) : Mll := m.setPair i { m.mll_pt i with pred := v }

/-- `mll_pt[i].fvid = vid; mll_pt[i].fmcg = mcg`. -/
def setFirst (m : Mll) (i : ℤ) (mcg vid : ℕ) : Mll :=
  m.setPair i { m.mll_pt i with fvid := vid, fmcg := mcg }

/-- `mll_pt[i].svid = vid; mll_pt[i].smcg = mcg`. -/
def setSecond (m : Mll) (i : ℤ) (mcg vid : ℕ) : Mll :=
  m.setPair i { m.mll_pt i with svid := vid, smcg := mcg }

/-- `cpssDxChIpMLLPairWrite` of a whole pair on every device. -/
def pairWrite (m : Mll) (i : ℤ) (p : HwPair) : Mll :=
  { m with hw := update m.hw i p }

/-! ### Adding -/

/-- `create_pair`. `wrOk` is the outcome of the hardware write. -/
def createPair (m : Mll) (pred : ℤ) (mcg vid : ℕ) (wrOk : Bool) : ℤ × Mll :=
  let first : HwNode := { vidx := mcg, nextHopVlanId := vid, last := true }
  let p : HwPair := { firstMllNode := first, secondMllNode := first, nextPointer := 0 }
  let idx := m.mllGet.1
  let m := m.mllGet.2
  if idx = -1 then (-1, m)
  else if wrOk then
    (idx, (m.pairWrite idx p).setPair idx ⟨pred, -1, vid, mcg, 0, 0⟩)
  else (-1, (m.mllPut idx).2)

/-- The loop of `find_last_pair`, for at most `fuel` pairs. -/
def findLastPair (pt : ℤ → MllPair) : ℕ → ℤ → Option ℤ
  | 0, _ => none
  | fuel + 1, cur =>
    if (pt cur).succ = -1 then some cur else findLastPair pt fuel (pt cur).succ

/-- `pair_set_next_pair`. -/
def pairSetNextPair (m : Mll) (pred succ : ℤ) : Mll :=
  let p := m.hw pred
  let p := { p with secondMllNode.last := false, nextPointer := succ }
  (m.setSucc pred succ).pairWrite pred p

/-- `insert_second_node`. -/
def insertSecondNode (m : Mll) (pair : ℤ) (mcg vid : ℕ) : Mll :=
  let p := m.hw pair
  let p := { p with
    firstMllNode.last := false
    secondMllNode := { vidx := mcg, nextHopVlanId := vid, last := true } }
  (m.pairWrite pair p).setSecond pair mcg vid

/-- `append_node`. -/
def appendNode (m : Mll) (pred : ℤ) (mcg vid : ℕ) (wrOk : Bool) : Option Mll :=
  (findLastPair m.mll_pt m.mll_ts pred).map fun last_pair =>
    if (m.mll_pt last_pair).svid = 0 then m.insertSecondNode last_pair mcg vid
    else
      let r := m.createPair last_pair mcg vid wrOk
      r.2.pairSetNextPair last_pair r.1

/-- `add_node`: a negative `pred` starts a new chain, any other is the head to append to. -/
def addNode (m : Mll) (pred : ℤ) (mcg vid : ℕ) (wrOk : Bool) : Option (ℤ × Mll) :=
  if pred < 0 then some (m.createPair pred mcg vid wrOk)
  else (m.appendNode pred mcg vid wrOk).map fun m => (pred, m)

/-! ### Deleting -/

/-- The loop of `find_pair`, for at most `fuel` pairs: `-1` when the chain ends without a match. -/
def findPair (pt : ℤ → MllPair) (mcg vid : ℕ) : ℕ → ℤ → Option ℤ
  | 0, _ => none
  | fuel + 1, cur =>
    if ((pt cur).fmcg ≠ mcg ∨ (pt cur).fvid ≠ vid) ∧ ((pt cur).smcg ≠ mcg ∨ (pt cur).svid ≠ vid)
    then if (pt cur).succ = -1 then some (-1) else findPair pt mcg vid fuel (pt cur).succ
    else some cur

/-- `SKIP`, `SET_FLAG` and `RESET_FLAG`. -/
inductive FlagCmd
  | skip | set | reset

/-- `SKIP` (or `KEEP_SECD_NODE`) and `CP_SECD_NODE_TO_FIRST_NODE`. -/
inductive SecdCmd
  | skip | cpSecdNodeToFirstNode

/-- `SKIP`, `CP_CUR_FRST_TO_LAST_SECD`, `CP_CUR_SECD_TO_LAST_SECD` and `SET_LAST_NEXT_TO_CUR`. -/
inductive LastCmd
  | skip | cpCurFrstToLastSecd | cpCurSecdToLastSecd | setLastNextToCur

/-- The flag of a node after a flag command. -/
def FlagCmd.apply : FlagCmd → HwNode → HwNode
  | skip, n => n
  | set, n => { n with last := true }
  | reset, n => { n with last := false }

/-- `SKIP` for an index argument. -/
def SKIP : ℤ := -1

/-- `pair_modify_chain`. The two copy commands return before the pair `idx` itself is written. -/
def pairModifyChain (m : Mll) (idx : ℤ) (flag1 flag2 : FlagCmd) (cp_secd : SecdCmd) (next : ℤ)
    (last_idx : ℤ) (last_idx_cmd : LastCmd) : Mll :=
  let p := m.hw idx
  let p := match cp_secd with
    | .cpSecdNodeToFirstNode => { p with firstMllNode := p.secondMllNode }
    | .skip => p
  let p := { p with
    firstMllNode := flag1.apply p.firstMllNode
    secondMllNode := flag2.apply p.secondMllNode }
  let p := if next ≠ SKIP then { p with nextPointer := next } else p
  let last_p := m.hw last_idx
  match last_idx_cmd with
  | .cpCurFrstToLastSecd =>
    m.pairWrite last_idx { last_p with
      firstMllNode.last := false
      secondMllNode := { p.firstMllNode with last := true } }
  | .cpCurSecdToLastSecd =>
    m.pairWrite last_idx { last_p with
      firstMllNode.last := false
      secondMllNode := { p.secondMllNode with last := true } }
  | .setLastNextToCur =>
    (m.pairWrite idx p).pairWrite last_idx
      { last_p with nextPointer := idx, secondMllNode.last := false }
  | .skip => m.pairWrite idx p

/-- `mll_pt[idx] = nullnode; mll_put (idx)`. -/
def freePair (m : Mll) (idx : ℤ) : Mll := ((m.setPair idx .nullnode).mllPut idx).2

/-- The second node of the pair `idx` moved to the first slot, the second one left empty. -/
def secondToFirst (m : Mll) (idx : ℤ) : Mll :=
  (m.setFirst idx (m.mll_pt idx).smcg (m.mll_pt idx).svid).setSecond idx 0 0

/-- Case 1: delete the only node in the head-tail. -/
def delCase1 (m : Mll) (idx : ℤ) : ℤ × Mll := (-2, m.freePair idx)

/-- Case 2: delete the first node in the incomplete tail. -/
def delCase2 (m : Mll) (idx head_idx : ℤ) : ℤ × Mll :=
  let w_idx := (m.mll_pt idx).pred
  let m := m.pairModifyChain w_idx .skip .set .skip SKIP SKIP .skip
  let m := m.freePair idx
  (head_idx, m.setSucc w_idx (-1))

/-- Cases 3 and 6: delete the first node in the complete tail, which is also the head or not. -/
def delCase36 (m : Mll) (idx head_idx : ℤ) : ℤ × Mll :=
  let m := m.pairModifyChain idx .set .skip .cpSecdNodeToFirstNode SKIP SKIP .skip
  (head_idx, m.secondToFirst idx)

/-- Case 4: delete the first node in the head when the tail is complete. -/
def delCase4 (m : Mll) (idx last_idx : ℤ) : ℤ × Mll :=
  let m := m.pairModifyChain idx .set .skip .cpSecdNodeToFirstNode SKIP last_idx .setLastNextToCur
  let m := m.secondToFirst idx
  let succ_idx := (m.mll_pt idx).succ
  let m := m.setPred succ_idx (m.mll_pt idx).pred
  let new_head_idx := (m.mll_pt idx).succ
  let m := m.setSucc idx (-1)
  let m := m.setSucc last_idx idx
  (new_head_idx, m.setPred idx last_idx)

/-- Case 5: delete the first node in the head when the tail is incomplete. -/
def delCase5 (m : Mll) (idx last_idx : ℤ) : ℤ × Mll :=
  let m := m.pairModifyChain idx .skip .set .skip SKIP last_idx .cpCurSecdToLastSecd
  let m := m.setSecond last_idx (m.mll_pt idx).smcg (m.mll_pt idx).svid
  let succ_idx := (m.mll_pt idx).succ
  let m := m.setPred succ_idx (m.mll_pt idx).pred
  let new_head_idx := (m.mll_pt idx).succ
  (new_head_idx, m.freePair idx)

/-- Case 7: delete the first node in a regular pair when the tail is complete. -/
def delCase7 (m : Mll) (idx last_idx head_idx : ℤ) : ℤ × Mll :=
  let w_idx := (m.mll_pt idx).pred
  let succ_idx := (m.mll_pt idx).succ
  let m := m.pairModifyChain w_idx .skip .skip .skip succ_idx SKIP .skip
  let m := m.setSucc w_idx succ_idx
  let m := m.setPred succ_idx w_idx
  let m := m.pairModifyChain idx .set .skip .cpSecdNodeToFirstNode SKIP SKIP .skip
  let m := m.secondToFirst idx
  let m := m.setSucc idx (-1)
  let m := m.pairModifyChain last_idx .skip .reset .skip idx SKIP .skip
  let m := m.setSucc last_idx idx
  (head_idx, m.setPred idx last_idx)

/-- Case 8: delete the first node in a regular pair when the tail is incomplete. Unlike its
siblings this case leaves the back link of the successor alone. -/
def delCase8 (m : Mll) (idx last_idx head_idx : ℤ) : ℤ × Mll :=
  let w_idx := (m.mll_pt idx).pred
  let succ_idx := (m.mll_pt idx).succ
  let m := m.pairModifyChain w_idx .skip .skip .skip succ_idx SKIP .skip
  let m := m.setSucc w_idx succ_idx
  let m := m.pairModifyChain idx .skip .set .skip SKIP last_idx .cpCurSecdToLastSecd
  let m := m.setSecond last_idx (m.mll_pt idx).smcg (m.mll_pt idx).svid
  (head_idx, m.freePair idx)

/-- Case 9: delete the second node in the complete tail. -/
def delCase9 (m : Mll) (idx head_idx : ℤ) : ℤ × Mll :=
  let m := m.pairModifyChain idx .set .skip .skip SKIP SKIP .skip
  (head_idx, m.setSecond idx 0 0)

/-- Case 10: delete the second node in the head when the tail is complete. -/
def delCase10 (m : Mll) (idx last_idx : ℤ) : ℤ × Mll :=
  let new_head_idx := (m.mll_pt idx).succ
  let m := m.setPred new_head_idx (m.mll_pt idx).pred
  let m := m.pairModifyChain new_head_idx .skip .skip .skip idx SKIP .skip
  let m := m.pairModifyChain idx .set .skip .skip SKIP SKIP .skip
  let m := m.pairModifyChain last_idx .skip .reset .skip idx SKIP .skip
  let m := m.setSucc last_idx idx
  let m := m.setPred idx last_idx
  let m := m.setSecond idx 0 0
  (new_head_idx, m.setSucc idx (-1))

/-- Case 11: delete the second node in the head when the tail is incomplete. -/
def delCase11 (m : Mll) (idx last_idx : ℤ) : ℤ × Mll :=
  let m := m.pairModifyChain idx .set .skip .skip SKIP last_idx .cpCurFrstToLastSecd
  let m := m.setSecond last_idx (m.mll_pt idx).fmcg (m.mll_pt idx).fvid
  let succ_idx := (m.mll_pt idx).succ
  let m := m.setPred succ_idx (m.mll_pt idx).pred
  let new_head_idx := (m.mll_pt idx).succ
  (new_head_idx, m.freePair idx)

/-- Case 12: delete the second node in a regular pair when the tail is complete. -/
def delCase12 (m : Mll) (idx last_idx head_idx : ℤ) : ℤ × Mll :=
  let w_idx := (m.mll_pt idx).pred
  let succ_idx := (m.mll_pt idx).succ
  let m := m.pairModifyChain w_idx .skip .skip .skip succ_idx SKIP .skip
  let m := m.setSucc w_idx succ_idx
  let m := m.setPred succ_idx w_idx
  let m := m.pairModifyChain idx .set .skip .skip SKIP SKIP .skip
  let m := m.setSecond idx 0 0
  let m := m.setSucc idx (-1)
  let m := m.pairModifyChain last_idx .skip .reset .skip idx SKIP .skip
  let m := m.setSucc last_idx idx
  (head_idx, m.setPred idx last_idx)

/-- Case 13: delete the second node in a regular pair when the tail is incomplete. -/
def delCase13 (m : Mll) (idx last_idx head_idx : ℤ) : ℤ × Mll :=
  let w_idx := (m.mll_pt idx).pred
  let succ_idx := (m.mll_pt idx).succ
  let m := m.pairModifyChain w_idx .skip .skip .skip succ_idx SKIP .skip
  let m := m.setSucc w_idx succ_idx
  let m := m.setPred succ_idx w_idx
  let m := m.pairModifyChain idx .skip .skip .skip SKIP last_idx .cpCurFrstToLastSecd
  let m := m.setSecond last_idx (m.mll_pt idx).fmcg (m.mll_pt idx).fvid
  (head_idx, m.freePair idx)

/-- `do_del_node`: the case split over the five flags of the source. -/
def doDelNode (m : Mll) (idx : ℤ) (mcg vid : ℕ) (head_idx : ℤ) : Option (ℤ × Mll) :=
  (findLastPair m.mll_pt m.mll_ts idx).map fun last_idx =>
    let single_node := (m.mll_pt idx).svid = 0
    let firstnode := (m.mll_pt idx).fvid = vid ∧ (m.mll_pt idx).fmcg = mcg
    let head := (m.mll_pt idx).pred < 0
    let tail := (m.mll_pt idx).succ < 0
    let complete_tail := (m.mll_pt last_idx).svid ≠ 0
    if firstnode then
      if single_node then
        if head then m.delCase1 idx else m.delCase2 idx head_idx
      else if head then
        if tail then m.delCase36 idx head_idx
        else if complete_tail then m.delCase4 idx last_idx
        else m.delCase5 idx last_idx
      else if tail then m.delCase36 idx head_idx
      else if complete_tail then m.delCase7 idx last_idx head_idx
      else m.delCase8 idx last_idx head_idx
    else if tail then m.delCase9 idx head_idx
    else if head then
      if complete_tail then m.delCase10 idx last_idx else m.delCase11 idx last_idx
    else if complete_tail then m.delCase12 idx last_idx head_idx
    else m.delCase13 idx last_idx head_idx

/-- `del_node`: `-3` when no node matches, otherwise the result of `do_del_node`. -/
def delNode (m : Mll) (head_idx : ℤ) (mcg vid : ℕ) : Option (ℤ × Mll) :=
  match findPair m.mll_pt mcg vid m.mll_ts head_idx with
  | none => none
  | some idx => if idx = -1 then some (-3, m) else m.doDelNode idx mcg vid head_idx

/-! ### Walking a chain -/

/-- The nodes a shadow pair holds. -/
def pairNodes (p : MllPair) : List MllNode :=
  (p.fmcg, p.fvid) :: if p.svid = 0 then [] else [(p.smcg, p.svid)]

/-- The nodes of the shadow chain from `cur` on, for at most `fuel` pairs. -/
def swWalk (pt : ℤ → MllPair) : ℕ → ℤ → Option (List MllNode)
  | 0, _ => none
  | fuel + 1, cur =>
    if (pt cur).succ = -1 then some (pairNodes (pt cur))
    else (swWalk pt fuel (pt cur).succ).map (pairNodes (pt cur) ++ ·)

/-- The nodes the packet processor visits from the pair `cur` on, for at most `fuel` pairs. -/
def hwWalk (hw : ℤ → HwPair) : ℕ → ℤ → Option (List MllNode)
  | 0, _ => none
  | fuel + 1, cur =>
    let p := hw cur
    if p.firstMllNode.last then some [p.firstMllNode.node]
    else if p.secondMllNode.last then some [p.firstMllNode.node, p.secondMllNode.node]
    else (hwWalk hw fuel p.nextPointer).map
      ([p.firstMllNode.node, p.secondMllNode.node] ++ ·)

end Mll

end Presteramgr
