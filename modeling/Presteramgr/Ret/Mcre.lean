import Presteramgr.Lib.Keyed
import Presteramgr.Mll.Model
import Presteramgr.Ret.Indexes
import Presteramgr.Types

/-!
# Multicast route entries (`ret.c`)

A multicast route entry is an allocated index, whose hardware entry points to a chain of receivers.
The table `mcret` finds it by group, source and source VLAN; `mcre_key_bp` leads back from the
index to that key.

## Main definitions

* `Mcre` and `McState`: the entries, and the statics of `ret.c` that belong to them;
* `mcreCreate`, `mcreAddNode`, `mcrePut` and `mcreDelNode`.
-/

namespace Presteramgr

open Function (update)

/-- `struct mcre_key`. -/
structure McreKey where
  dst : Ip4
  src : Ip4
  src_vid : ℕ
deriving DecidableEq, Repr

/-- `struct mcre`. -/
structure Mcre where
  key : McreKey
  refc : ℤ
  idx : ℤ
  mll_idx : ℤ
deriving DecidableEq, Repr

/-- The fields of `CPSS_DXCH_IP_MC_ROUTE_ENTRY_STC` that are not constant in the program. -/
structure McRouteEntry where
  multicastRPFVlan : ℕ
  internalMLLPointer : ℤ
deriving DecidableEq, Repr

/-- The statics of `ret.c` for multicast, the pair table and the hardware route entries. -/
structure McState where
  ret_indexes_used : List ℤ
  mcret : List Mcre
  mcre_key_bp : ℤ → McreKey
  mll : Mll
  mcRoute : ℤ → McRouteEntry

namespace McState

/-- The state before the first route, for a pair table of `ts` pairs. -/
def init (ts : ℕ) (hw : ℤ → HwPair) : McState where
  ret_indexes_used := []
  mcret := []
  mcre_key_bp _ := ⟨0, 0, 0⟩
  mll := .mllInit ts hw
  mcRoute _ := ⟨0, 0⟩

/-- `HASH_FIND` in `mcret`. -/
def hashFind (m : McState) (key : McreKey) : Option Mcre := Keyed.find Mcre.key m.mcret key

/-- `HASH_DEL` of the entry with its key. -/
def hashDel (m : McState) (re : Mcre) : McState :=
  { m with mcret := Keyed.del Mcre.key m.mcret re.key }

/-- `HASH_ADD`. -/
def hashAdd (m : McState) (re : Mcre) : McState := { m with mcret := re :: m.mcret }

/-- `mcre_new`. `wrOk` and `reOk` are the outcomes of the writes of the pair and of the route
entry; the entry returned has no key and no count yet. -/
def mcreNew (m : McState) (key : McreKey) (mcg vid : ℕ) (wrOk reOk : Bool) :
    Option (Option Mcre × McState) :=
  match Ret.resPop m.ret_indexes_used 1 with
  | none => some (none, m)
  | some (ids, used) =>
    let idx := ids.headI
    (m.mll.addNode (-idx) mcg vid wrOk).map fun (mll_idx, mll) =>
      if mll_idx = -1 then
        (none, { m with ret_indexes_used := Ret.resPush used 1 [idx], mll := mll })
      else if reOk then
        (some ⟨⟨0, 0, 0⟩, 0, idx, mll_idx⟩,
          { m with
            ret_indexes_used := used
            mll := mll
            mcRoute := update m.mcRoute idx ⟨key.src_vid, mll_idx⟩
            mcre_key_bp := update m.mcre_key_bp idx key })
      else
        (none, { m with
          ret_indexes_used := Ret.resPush used 1 [idx]
          mll := (mll.mllPut mll_idx).2 })

/-- `mcre_del`. -/
def mcreDel (m : McState) (re : Mcre) : McState :=
  let m := m.hashDel re
  { m with
    mll := (m.mll.mllPut re.mll_idx).2
    ret_indexes_used := Ret.resPush m.ret_indexes_used 1 [re.idx] }

/-- `mcre_find`. -/
def mcreFind (m : McState) (key : McreKey) : ℤ :=
  match m.hashFind key with
  | none => -1
  | some re => re.idx

/-- `mcre_create`. -/
def mcreCreate (m : McState) (key : McreKey) (mcg vid : ℕ) (wrOk reOk : Bool) :
    Option (ℤ × McState) :=
  (m.mcreNew key mcg vid wrOk reOk).map fun
    | (none, m) => (-1, m)
    | (some re, m) => (re.idx, m.hashAdd { re with key := key, refc := 1 })

/-- `mcre_add_node`, which reads through the entry it finds and ignores what `add_node` returns.
`none` when there is no entry. -/
def mcreAddNode (m : McState) (idx : ℤ) (mcg vid : ℕ) (wrOk : Bool) : Option (ℤ × McState) :=
  (m.hashFind (m.mcre_key_bp idx)).bind fun re =>
    (m.mll.addNode re.mll_idx mcg vid wrOk).map fun (_, mll) =>
      (0, (({ m with mll := mll }).hashDel re).hashAdd { re with refc := re.refc + 1 })

/-- `mcre_put`. -/
def mcrePut (m : McState) (key : McreKey) : ℤ × McState :=
  match m.hashFind key with
  | none => (-1, m)
  | some re =>
    let re := { re with refc := re.refc - 1 }
    let m := { m with
      mcret := Keyed.modify Mcre.key m.mcret key fun re => { re with refc := re.refc - 1 } }
    if re.refc = 0 then (0, m.mcreDel re) else (re.refc, m)

/-- `mcre_del_node`. The source VLAN it is passed plays no part. -/
def mcreDelNode (m : McState) (idx : ℤ) (via vid : ℕ) : Option (ℤ × McState) :=
  match m.hashFind (m.mcre_key_bp idx) with
  | none => some (-1, m)
  | some re =>
    (m.mll.delNode re.mll_idx via vid).map fun (new_head, mll) =>
      let m := { m with mll := mll }
      if new_head = -2 then
        let m := m.hashDel re
        (0, { m with ret_indexes_used := Ret.resPush m.ret_indexes_used 1 [re.idx] })
      else if new_head = -3 then (re.refc, m)
      else if new_head ≠ re.mll_idx then
        let c := { m.mcRoute idx with internalMLLPointer := new_head }
        let m := { m with mcRoute := update m.mcRoute idx c }
        let upd_re := { re with refc := re.refc - 1, mll_idx := new_head }
        (upd_re.refc, (m.hashDel re).hashAdd upd_re)
      else
        let upd_re := { re with refc := re.refc - 1 }
        (upd_re.refc, (m.hashDel re).hashAdd upd_re)

end McState

end Presteramgr
