import Presteramgr.Ret.Router

/-!
# Gateways and their groups (`ret.c`, `ret_group.c`)

A group of gateways holds a run of route-entry indices. The gateways whose MAC address is known are
mapped to the first indices of the run, and the prefixes of the group point at these.

## Main definitions

* `retAdd` and `retUnref`: a gateway enters and leaves a group;
* `retGroupAdd`, `retGroupAddPbr`, `retGroupDel` and `retGroupDelPbr`;
* `retGroupGwChanged`: the reaction of one group to a gateway that has changed;
* `retSetMacAddr` and `retUnsetMacAddr`.
-/

namespace Presteramgr

open Function (update)

/-- `ret_add_group_to_list`. -/
def retAddGroupToList (l : List ℤ) (group_id : ℤ) : List ℤ :=
  if group_id ∈ l then l else l ++ [group_id]

/-- `ret_remove_group_from_list`. -/
def retRemoveGroupFromList (l : List ℤ) (group_id : ℤ) : List ℤ := l.erase group_id

/-- The loop of `get_new_group_id` from `i` on, for `fuel` ids. -/
def newGroupIdScan (ids : List ℤ) : ℕ → ℤ → ℤ
  | 0, i => i
  | fuel + 1, i => if i ∈ ids then newGroupIdScan ids fuel (i + 1) else i

/-- `get_new_group_id`: the first id from one on that is not in the list, which ends within as
many rounds as the list is long. -/
def getNewGroupId (ids : List ℤ) : ℤ := newGroupIdScan ids ids.length 1

/-- `compare_lists`. -/
def compareLists (gws : List Gw) (list : List ReIdx) : Bool :=
  gws.length = list.length ∧ ∀ gw ∈ gws, ∃ out ∈ list, out.gw = gw

namespace ReGroup

/-- The LTT entry of the prefixes of a group. -/
def lttEntry (g : ReGroup) : Ltt :=
  if g.numOfPaths = -1 then ⟨DROP_RE_IDX, 0⟩ else ⟨g.first_idx, g.numOfPaths⟩

/-- The search for the element, which is appended when it is not there. -/
def addElem (g : ReGroup) (el : RoutePfxPbr) : ReGroup :=
  if el ∈ g.pfx_pbr then g else { g with pfx_pbr := g.pfx_pbr ++ [el] }

/-- `ret_group_remove_pfx` and `ret_group_remove_pbr`. -/
def removeElem (g : ReGroup) (el : RoutePfxPbr) : ReGroup :=
  { g with pfx_pbr := g.pfx_pbr.erase el }

/-- The index of the path after the last one. -/
def nextIdx (g : ReGroup) : ℤ :=
  if g.numOfPaths = -1 then g.first_idx else g.first_idx + g.numOfPaths + 1

/-- The first member with the gateway, or with the index, gets another index. -/
def setIdx (g : ReGroup) (p : ReIdx → Bool) (idx : ℤ) : ReGroup :=
  { g with re_idx := Keyed.modifyFirst p (fun m => { m with idx := idx }) g.re_idx }

end ReGroup

namespace Router

/-! ### `ret.c` -/

/-- `HASH_FIND_GW` in `ret`. -/
def findGw (s : Router) (gw : Gw) : Option Re := Keyed.find Re.gw s.ret gw

/-- A change of the gateway's entry in place. -/
def modifyGw (s : Router) (gw : Gw) (f : Re → Re) : Router :=
  { s with ret := Keyed.modify Re.gw s.ret gw f }

/-- `ret_add`. -/
def retAdd (s : Router) (gw : Gw) (group_id : ℤ) : Re × Router :=
  match s.findGw gw with
  | some re =>
    ({ re with group_ids := retAddGroupToList re.group_ids group_id },
      s.modifyGw gw fun re => { re with group_ids := retAddGroupToList re.group_ids group_id })
  | none =>
    let re := ⟨gw, false, 0, 0, 0, retAddGroupToList [] group_id⟩
    (re, { s with ret := re :: s.ret, re_cnt := s.re_cnt + 1 })

/-- `ret_unref`. -/
def retUnref (s : Router) (gw : Gw) (group_id : ℤ) : Status × Router :=
  match s.findGw gw with
  | none => (.ST_DOES_NOT_EXIST, s)
  | some re =>
    let s := s.modifyGw gw fun re =>
      { re with group_ids := retRemoveGroupFromList re.group_ids group_id }
    if retRemoveGroupFromList re.group_ids group_id = [] then
      let s := { s with ret := Keyed.del Re.gw s.ret gw }
      let s := if re.valid then { s with nh := (s.nh.nhtUnref re.addr).2 } else s
      (.ST_OK, { s with re_cnt := s.re_cnt - 1 })
    else (.ST_OK, s)

variable (env : RouteEnv)

/-- `ret_set_re_to_idx`. -/
def retSetReToIdx (s : Router) (re : Re) (idx : ℤ) : Router :=
  match env.vifGetn re.vif_id with
  | none => s
  | some vif => s.ucRouteEntriesWrite idx (.route vif re.nh_idx re.gw.vid)

/-- `ret_set_re_to_idx_gw`. -/
def retSetReToIdxGw (s : Router) (gw : Gw) (idx : ℤ) : Router :=
  match s.findGw gw with
  | none => s
  | some re => s.retSetReToIdx env re idx

/-! ### `ret_group.c` -/

/-- `HASH_FIND` in `re_group`. -/
def findGroup (s : Router) (group_id : ℤ) : Option ReGroup :=
  Keyed.find ReGroup.group_id s.re_group group_id

/-- A change of the group in place. -/
def modifyGroup (s : Router) (group_id : ℤ) (f : ReGroup → ReGroup) : Router :=
  { s with re_group := Keyed.modify ReGroup.group_id s.re_group group_id f }

/-- `ret_group_ltt_tcam_set`. -/
def retGroupLttTcamSet (s : Router) (ix : RowColum) (interface : PclInterface) (group : ReGroup) :
    Status × Router :=
  match interface.type with
  | .VLAN => (.ST_OK, (List.range env.ndevs).foldl (fun s d => s.lttWrite d ix group.lttEntry) s)
  | .PORT =>
    match env.portPtr interface.num with
    | none => (.ST_BAD_VALUE, s)
    | some port =>
      if port.stack then (.ST_BAD_VALUE, s)
      else (.ST_OK, s.lttWrite port.ldev ix group.lttEntry)
  | .other _ => (.ST_BAD_VALUE, s)

/-- What `ret_group_update_lpm_table` writes for one element. -/
def updateElem (group : ReGroup) (s : Router) : RoutePfxPbr → Router
  | .pfx addr alen => s.lpmIpv4UcPrefixAdd addr alen group.lttEntry
  | .pbr ix interface => (s.retGroupLttTcamSet env ix interface group).2

/-- `ret_group_update_lpm_table`. -/
def retGroupUpdateLpmTable (s : Router) (group : ReGroup) : Router :=
  group.pfx_pbr.foldl (updateElem env group) s

/-- One round of the loop over the gateways of a new group: the members so far and the number of
those that are valid. -/
def addMember (gid : ℤ) (idxs : ℕ → ℤ) (acc : Router × ℕ × List ReIdx) (gw : Gw) :
    Router × ℕ × List ReIdx :=
  let (s, start, members) := acc
  let (re, s) := s.retAdd gw gid
  if re.valid then
    (s.retSetReToIdx env re (idxs start), start + 1, members ++ [⟨gw, idxs start⟩])
  else (s, start, members ++ [⟨gw, DROP_RE_IDX⟩])

/-- The array `idxs` and the state after `res_pop`. `junk` is what the array holds before; a failed
`res_pop` leaves it there. -/
def popIdxs (s : Router) (count : ℕ) (junk : ℕ → ℤ) : (ℕ → ℤ) × Router :=
  match Ret.resPop s.ret_indexes_used count with
  | none => (junk, s)
  | some (ids, used) => (fun k => ids.getD k (junk k), { s with ret_indexes_used := used })

/-- The new group of `ret_group_add` and `ret_group_add_pbr`, before it is hashed. -/
def newGroup (s : Router) (gws : List Gw) (el : RoutePfxPbr) (junk : ℕ → ℤ) : ReGroup × Router :=
  let gid := getNewGroupId s.group_id
  let s := { s with group_id := s.group_id ++ [gid] }
  let (idxs, s) := s.popIdxs gws.length junk
  let (s, start, members) := gws.foldl (addMember env gid idxs) (s, 0, [])
  (⟨gid, gws.length, idxs 0, start - 1, members, [el]⟩, s)

/-- `ret_group_add`. -/
def retGroupAdd (s : Router) (gws : List Gw) (ip : Ip4) (alen : ℕ) (junk : ℕ → ℤ) : ℤ × Router :=
  match s.re_group.find? fun el => compareLists gws el.re_idx with
  | some el =>
    let s := s.modifyGroup el.group_id (·.addElem (.pfx ip alen))
    (el.group_id, s.lpmIpv4UcPrefixAdd ip alen el.lttEntry)
  | none =>
    let (group_add, s) := s.newGroup env gws (.pfx ip alen) junk
    let s := s.lpmIpv4UcPrefixAdd ip alen group_add.lttEntry
    (group_add.group_id, { s with re_group := s.re_group ++ [group_add] })

/-- `ret_group_add_pbr`. When a group has the gateways already, the LTT row is written for the
first group of the table instead. -/
def retGroupAddPbr (s : Router) (gws : List Gw) (ix : RowColum) (interface : PclInterface)
    (junk : ℕ → ℤ) : ℤ × Router :=
  match s.re_group.find? fun el => compareLists gws el.re_idx with
  | some el =>
    let s := s.modifyGroup el.group_id (·.addElem (.pbr ix interface))
    match s.re_group.head? with
    | none => (el.group_id, s)
    | some re_group => (el.group_id, (s.retGroupLttTcamSet env ix interface re_group).2)
  | none =>
    let (group_add, s) := s.newGroup env gws (.pbr ix interface) junk
    let s := (s.retGroupLttTcamSet env ix interface group_add).2
    (group_add.group_id, { s with re_group := s.re_group ++ [group_add] })

/-- `ret_group_del_2`. -/
def retGroupDel2 (s : Router) (g : ReGroup) : Router :=
  let s := g.re_idx.foldl (fun s el => (s.retUnref el.gw g.group_id).2) s
  { s with
    ret_indexes_used := Ret.resPushCountFirst s.ret_indexes_used g.re_count g.first_idx
    group_id := s.group_id.erase g.group_id }

/-- `ret_group_del` and `ret_group_del_pbr`, by the element that they remove. -/
def retGroupDelElem (s : Router) (group_id : ℤ) (el : RoutePfxPbr) : Router :=
  match s.findGroup group_id with
  | none => s
  | some g =>
    let s := s.modifyGroup group_id (·.removeElem el)
    if (g.removeElem el).pfx_pbr = [] then
      let s := s.retGroupDel2 (g.removeElem el)
      { s with re_group := Keyed.del ReGroup.group_id s.re_group group_id }
    else s

/-- `ret_group_del`. -/
def retGroupDel (s : Router) (group_id : ℤ) (pfx : Ip4) (alen : ℕ) : Router :=
  s.retGroupDelElem group_id (.pfx pfx alen)

/-- `ret_group_del_pbr` of an entry with these fields. -/
def retGroupDelPbr (s : Router) (group_id : ℤ) (ix : RowColum) (interface : PclInterface) :
    Router :=
  s.retGroupDelElem group_id (.pbr ix interface)

end Router

namespace ReGroup

/-- The group after `ret_group_gw_changed_enable`. -/
def enable (g : ReGroup) (gw : Gw) : ReGroup :=
  { g.setIdx (·.gw = gw) g.nextIdx with numOfPaths := g.numOfPaths + 1 }

/-- The member that `ret_group_gw_changed_disable` moves to the index that has become free, if the
group has one on its last path. -/
def lastMember (g : ReGroup) (gw : Gw) : Option ReIdx :=
  if g.numOfPaths = 0 then none
  else (g.setIdx (·.gw = gw) DROP_RE_IDX).re_idx.find? (·.idx = g.first_idx + g.numOfPaths)

/-- The group after `ret_group_gw_changed_disable` of a gateway with the index `idx`, unless it
had no path. -/
def disable (g : ReGroup) (gw : Gw) (idx : ℤ) : ReGroup :=
  let g' := g.setIdx (·.gw = gw) DROP_RE_IDX
  let g' := if g.numOfPaths = 0 then g' else
    g'.setIdx (·.idx = g.first_idx + g.numOfPaths) idx
  { g' with numOfPaths := g.numOfPaths - 1 }

end ReGroup

namespace Router

variable (env : RouteEnv)

/-- `ret_group_gw_changed_enable`. -/
def retGroupGwChangedEnable (s : Router) (g : ReGroup) (re : Re) : Router :=
  let s := s.modifyGroup g.group_id (·.enable re.gw)
  (s.retSetReToIdx env re g.nextIdx).retGroupUpdateLpmTable env (g.enable re.gw)

/-- `ret_group_gw_changed_enable_changed`. -/
def retGroupGwChangedEnableChanged (s : Router) (g : ReGroup) (re : Re) : Router :=
  match g.re_idx.find? (·.gw = re.gw) with
  | none => s
  | some out => s.retSetReToIdx env re out.idx

/-- `ret_group_gw_changed_disable`. -/
def retGroupGwChangedDisable (s : Router) (g : ReGroup) (re : Re) : Router :=
  match g.re_idx.find? (·.gw = re.gw) with
  | none => s
  | some out =>
    if g.numOfPaths = -1 then s.modifyGroup g.group_id (·.setIdx (·.gw = re.gw) DROP_RE_IDX)
    else
      let s := s.modifyGroup g.group_id (·.disable re.gw out.idx)
      let s := match g.lastMember re.gw with
        | none => s
        | some last => s.retSetReToIdxGw env last.gw out.idx
      s.retGroupUpdateLpmTable env (g.disable re.gw out.idx)

/-- `ret_group_gw_changed`. -/
def retGroupGwChanged (s : Router) (group_id : ℤ) (re : Re) (is_changed_valid : Bool) : Router :=
  match s.findGroup group_id with
  | none => s
  | some g =>
    if re.valid ∧ is_changed_valid then s.retGroupGwChangedEnable env g re
    else if re.valid then s.retGroupGwChangedEnableChanged env g re
    else if is_changed_valid then s.retGroupGwChangedDisable env g re
    else s

/-- `ret_set_mac_addr`. The entry is marked valid before its next hop is known. -/
def retSetMacAddr (s : Router) (gw : Gw) (addr : Mac) (vif_id : ℕ) (arpOk : Bool) :
    Status × Router :=
  if env.vifGetn vif_id = none then (.ST_HEX, s)
  else match s.findGw gw with
  | none => (.ST_DOES_NOT_EXIST, s)
  | some re =>
    if re.valid ∧ re.addr = addr ∧ re.vif_id = vif_id then (.ST_OK, s)
    else
      let s := s.modifyGw gw fun re => { re with valid := true, addr := addr, vif_id := vif_id }
      match s.nh.nhtAdd addr arpOk with
      | (none, nh) => (.ST_HEX, { s with nh := nh })
      | (some nh_idx, nh) =>
        let s := { s with nh := nh }.modifyGw gw fun re => { re with nh_idx := nh_idx }
        let re' := { re with valid := true, addr := addr, vif_id := vif_id, nh_idx := nh_idx }
        (.ST_OK, re.group_ids.foldl (fun s gid => s.retGroupGwChanged env gid re' !re.valid) s)

/-- `ret_unset_mac_addr`. -/
def retUnsetMacAddr (s : Router) (gw : Gw) : Status × Router :=
  match s.findGw gw with
  | none => (.ST_DOES_NOT_EXIST, s)
  | some re =>
    if re.valid then
      let s := s.modifyGw gw fun re => { re with valid := false }
      let s := { s with nh := (s.nh.nhtUnref re.addr).2 }
      let re' := { re with valid := false }
      (.ST_OK, re.group_ids.foldl (fun s gid => s.retGroupGwChanged env gid re' true) s)
    else (.ST_OK, s)

end Router

end Presteramgr
