import Mathlib.Data.Finset.Card
import Presteramgr.Lib.Guarded
import Presteramgr.Ret.Run
import Presteramgr.Route.Steps

/-!
# Eight gateways (`control.c`, `route.c`, `fib.c`, `ret_group.c`)

The gateways of a route pass through arrays of eight slots: the one of `struct route`, those of
`route_request_mac_addr`, and the indices of a new group. The count of a message is any byte, and no
function looks at it before it writes.

## Main definitions

* `RtbdRouteMsg`: a message of the routing daemon, and `rcnRoute`, what is done with it;
* `GatewayOp` and `gatewayStep`: messages, packets for unknown addresses, and prefixes that are
  reset;
* `FibNode.Fits`: an entry has from one to eight gateways, each with its VLAN;
* `Router.InBounds`: no access beyond an array, and all entries fit.

## Main results

* `FibNode.Fits.idxReads_bounds`: the group of an entry that fits reads within the array of indices;
* `Router.routeRequestMacAddr_congr`: what the slots from the ninth on hold does not matter;
* `Router.inBounds_iff_counted`: in a run of counted calls all entries fit, and the next call stays
  within the arrays and keeps them so if and only if it is counted;
* `Router.not_inBounds`: a message with nine gateways.
-/

namespace Presteramgr

open Guarded

/-! ## Messages -/

/-- The operations of `struct rtbd_route_msg`. -/
inductive RtbdRouteOp
  | RRTO_ADD
  | RRTO_DEL
  | RRTO_CHANGE
  | other (op : ℕ)
deriving DecidableEq, Repr

/-- `struct rtbd_route_msg` of the type `AF_INET`. -/
structure RtbdRouteMsg where
  op : RtbdRouteOp
  dst : Ip4
  dst_len : ℕ
  gw_count : ℕ
  gw : ℕ → Gw

/-- The local variable `rt` of `rtbd_handler` and of the handler of `SC_INT_RTBD_CMD` when the
gateways of the message are copied. Its other slots hold `junk`. -/
def RtbdRouteMsg.rt (m : RtbdRouteMsg) (junk : Fin 8 → Gw) : Route where
  addr := m.dst
  alen := m.dst_len
  gw_count := m.gw_count
  gw := fun i => if i < m.gw_count then m.gw i else junk i

/-- The loop that copies the gateways: as many as the message says. -/
def RtbdRouteMsg.copyGws (m : RtbdRouteMsg) (junk : Fin 8 → Gw) : Except Fault Route :=
  if 8 < m.gw_count then .error .outOfBounds else .ok (m.rt junk)

namespace Router

variable (env : RouteEnv) (s : Router)

/-- What the two handlers do with a message `RCN_ROUTE`. -/
def rcnRoute (m : RtbdRouteMsg) (junk : Fin 8 → Gw) (junkIdx : ℕ → ℤ) : Except Fault Router :=
  (m.copyGws junk).bind fun rt =>
    match m.op with
    | .RRTO_ADD => s.routeAdd rt
    | .RRTO_DEL => s.routeDel rt
    | .RRTO_CHANGE => s.routeChange env rt junkIdx
    | .other _ => .ok s

end Router

/-- A message of the routing daemon or of the master of the stack, a packet for an unknown address,
or a prefix of a gateway that is reset. -/
inductive GatewayOp
  | rtbd (stack_id master_id : ℕ) (m : RtbdRouteMsg) (junk : Fin 8 → Gw) (junkIdx : ℕ → ℤ)
  | scIntRtbdCmd (m : RtbdRouteMsg) (junk : Fin 8 → Gw) (junkIdx : ℕ → ℤ)
  | routeHandleUdaddr (daddr : Ip4) (junkIdx : ℕ → ℤ)
  | routeResetPrefixes4gw (addr : Ip4) (alen : ℕ) (junk : Route)

namespace Router

/-- One call. The daemon of a unit that is not the master is not listened to. -/
def gatewayCall (env : RouteEnv) (s : Router) : GatewayOp → Except Fault Router
  | .rtbd stack_id master_id m junk junkIdx =>
    if stack_id ≠ master_id then .ok s else s.rcnRoute env m junk junkIdx
  | .scIntRtbdCmd m junk junkIdx => s.rcnRoute env m junk junkIdx
  | .routeHandleUdaddr daddr junkIdx => s.routeHandleUdaddr env daddr junkIdx
  | .routeResetPrefixes4gw addr alen junk => s.routeResetPrefixes4gw addr alen junk

/-- A call that returns. -/
def gatewayStep (env : RouteEnv) (s : Router) (op : GatewayOp) : Option Router :=
  (s.gatewayCall env op).toOption

end Router

/-! ## The indices of a new group -/

/-- The indices of `idxs` that the loop of `ret_group_add` reads, by which gateways are valid, from
the counters `start` and `end` on. -/
def idxReads : ℤ → ℤ → List Bool → List ℤ
  | _, _, [] => []
  | start, last, true :: valid => start :: idxReads (start + 1) last valid
  | start, last, false :: valid => last :: idxReads start (last - 1) valid

/-- The counters close in on each other while the gateways last. -/
theorem idxReads_mem {valid : List Bool} {start last ix : ℤ}
    (hlast : last - start + 1 = valid.length)
    (hix : ix ∈ idxReads start last valid) : start ≤ ix ∧ ix ≤ last := by
  induction valid generalizing start last with
  | nil => exact absurd hix List.not_mem_nil
  | cons v valid ih =>
    rw [List.length_cons, Nat.cast_add, Nat.cast_one] at hlast
    have hlen : (0 : ℤ) ≤ valid.length := Int.natCast_nonneg _
    -- a valid gateway moves the lower counter up, another the upper one down
    cases v with
    | true =>
      rcases List.mem_cons.mp hix with rfl | hix
      · exact ⟨le_rfl, by omega⟩
      · obtain ⟨hlo, hhi⟩ := ih (by omega) hix
        exact ⟨by omega, hhi⟩
    | false =>
      rcases List.mem_cons.mp hix with rfl | hix
      · exact ⟨by omega, le_rfl⟩
      · obtain ⟨hlo, hhi⟩ := ih (by omega) hix
        exact ⟨hlo, by omega⟩

/-- The indices that `ret_group_add` reads for an entry's gateways, of which the valid ones are
those marked in `valid`. -/
def FibNode.idxReads (n : FibNode) (valid : List Bool) : List ℤ :=
  Presteramgr.idxReads 0 (n.gw.length - 1) valid

namespace Router

variable {env : RouteEnv} {junk junk' : ℕ → ℤ}

/-- A round of the loop reads the index of the counter and moves it by one at most. -/
theorem addMember_congr {gid : ℤ} {idxs idxs' : ℕ → ℤ} {acc : Router × ℕ × List ReIdx} (gw : Gw)
    (hidx : idxs acc.2.1 = idxs' acc.2.1) :
    addMember env gid idxs acc gw = addMember env gid idxs' acc gw ∧
      (addMember env gid idxs acc gw).2.1 ≤ acc.2.1 + 1 := by
  unfold addMember
  dsimp only
  rw [hidx]
  refine ⟨rfl, ?_⟩
  split_ifs
  · exact le_rfl
  · exact Nat.le_succ _

/-- The indices behind the members are not read. -/
theorem foldl_addMember_congr {gid : ℤ} {idxs idxs' : ℕ → ℤ} (hidx : ∀ k < 8, idxs k = idxs' k)
    (gws : List Gw) (acc : Router × ℕ × List ReIdx) (hlen : acc.2.1 + gws.length ≤ 8) :
    gws.foldl (addMember env gid idxs) acc = gws.foldl (addMember env gid idxs') acc := by
  induction gws generalizing acc with
  | nil => rfl
  | cons gw gws ih =>
    rw [List.length_cons] at hlen
    obtain ⟨heq, hle⟩ := @addMember_congr env gid idxs idxs' acc gw (hidx acc.2.1 (by omega))
    rw [List.foldl_cons, List.foldl_cons, ih _ (by omega), heq]

/-- `res_pop` fills slots from the first on, and does not look at what is in the array. -/
theorem popIdxs_congr (s : Router) (count : ℕ) (hjunk : ∀ k < 8, junk k = junk' k) :
    (∀ k < 8, (s.popIdxs count junk).1 k = (s.popIdxs count junk').1 k) ∧
      (s.popIdxs count junk).2 = (s.popIdxs count junk').2 := by
  unfold popIdxs
  cases Ret.resPop s.ret_indexes_used count with
  | none => exact ⟨hjunk, rfl⟩
  | some p => exact ⟨fun k hk => congrArg (p.1.getD k) (hjunk k hk), rfl⟩

/-- What lies behind the eight indices makes no difference. -/
theorem newGroup_congr (s : Router) {gws : List Gw} (el : RoutePfxPbr) (hlen : gws.length ≤ 8)
    (hjunk : ∀ k < 8, junk k = junk' k) :
    s.newGroup env gws el junk = s.newGroup env gws el junk' := by
  unfold newGroup
  dsimp only
  obtain ⟨hidx, hpop⟩ :=
    popIdxs_congr { s with group_id := s.group_id ++ [getNewGroupId s.group_id] }
    gws.length hjunk
  rw [hpop, hidx 0 (Nat.zero_lt_succ _),
    foldl_addMember_congr hidx gws _ ((Nat.zero_add _).trans_le hlen)]

/-- What `route_request_mac_addr` does depends on eight slots of `idxs` only. -/
theorem routeRequestMacAddr_congr (s : Router) (ref : FibRef) (e : FibNode) (alen : ℕ)
    (hjunk : ∀ k < 8, junk k = junk' k) :
    s.routeRequestMacAddr env ref e alen junk = s.routeRequestMacAddr env ref e alen junk' := by
  unfold routeRequestMacAddr
  split_ifs with hlists
  · rfl
  · have hlen : (List.zipWith Gw.mk e.gw e.vid).length ≤ 8 := by
      rw [List.length_zipWith]
      omega
    unfold retGroupAdd
    rw [newGroup_congr s _ hlen hjunk]

end Router

/-! ## Entries -/

namespace FibNode

/-- The entry has from one to eight gateways, and as many VLANs. -/
structure Fits (n : FibNode) : Prop where
  vid : n.gw.length = n.vid.length
  pos : 1 ≤ n.gw.length
  le : n.gw.length ≤ 8

instance (n : FibNode) : Decidable n.Fits :=
  decidable_of_iff (n.gw.length = n.vid.length ∧ 1 ≤ n.gw.length ∧ n.gw.length ≤ 8)
    ⟨fun h => ⟨h.1, h.2.1, h.2.2⟩, fun h => ⟨h.vid, h.pos, h.le⟩⟩

/-- The lists of an entry go together, and no gateway is there twice. -/
structure Even (n : FibNode) : Prop where
  vid : n.gw.length = n.vid.length
  ret_key : n.ret_key.length ≤ n.gw.length
  nodup : n.gw.Nodup

variable {n : FibNode}

/-- One more gateway comes with its VLAN. -/
theorem Even.addGw (h : n.Even) (g : Gw) : (n.addGw g).Even := by
  unfold FibNode.addGw
  split_ifs with hmem
  · exact h
  · refine ⟨?_, ?_, ?_⟩
    · dsimp only
      rw [List.length_append, List.length_append, h.vid]
      rfl
    · dsimp only
      rw [List.length_append, List.length_append]
      exact Nat.add_le_add_right h.ret_key 1
    · exact List.nodup_append.mpr ⟨h.nodup, List.nodup_singleton _, fun a ha b hb =>
        fun hab => hmem (List.mem_singleton.mp hb ▸ hab ▸ ha)⟩

/-- More gateways come with their VLANs. -/
theorem Even.addGws (h : n.Even) (gws : List Gw) : (n.addGws gws).Even := by
  induction gws generalizing n with
  | nil => exact h
  | cons g gws ih => exact ih (h.addGw g)

/-- The gateways of a node are those it had and those added. -/
theorem toFinset_addGws (n : FibNode) (gws : List Gw) :
    (n.addGws gws).gw.toFinset = n.gw.toFinset ∪ (gws.map Gw.addr).toFinset := by
  ext a
  rw [Finset.mem_union, List.mem_toFinset, List.mem_toFinset, List.mem_toFinset, mem_addGws_gw,
    List.mem_map]

/-- The number of gateways of an entry that gets more of them. -/
theorem Even.length_addGws (h : n.Even) (gws : List Gw) :
    (n.addGws gws).gw.length = (n.gw.toFinset ∪ (gws.map Gw.addr).toFinset).card := by
  rw [← toFinset_addGws, List.toFinset_card_of_nodup (h.addGws gws).nodup]

end FibNode

/-- The indices of an entry that fits are in the array. -/
theorem FibNode.Fits.idxReads_bounds {n : FibNode} (h : n.Fits) {valid : List Bool}
    (hvalid : valid.length = n.gw.length) {ix : ℤ} (hix : ix ∈ n.idxReads valid) :
    0 ≤ ix ∧ ix < 8 := by
  obtain ⟨hlo, hhi⟩ := idxReads_mem (by rw [hvalid]; omega) hix
  have hle := h.le
  exact ⟨hlo, by omega⟩

/-! ## The table -/

namespace Fib

/-- Every entry fits. -/
def Fits (f : Fib) : Prop := ∀ n ∈ f.nodes, n.Fits

/-- The invariant of runs: prefixes are found by their keys, the default route is that of length 0,
and all entries fit. -/
structure Sized (f : Fib) : Prop where
  unique : Keyed.Unique FibEntry.key f.e
  len_pos : ∀ e ∈ f.e, 0 < e.len
  len_zero : ∀ e, f.dflt = some e → e.len = 0
  node : ∀ n ∈ f.nodes, n.Even ∧ n.Fits

/-- A table within the arrays has nodes that fit into them. -/
theorem Sized.fits {f : Fib} (h : f.Sized) : f.Fits := fun n hn => (h.node n hn).2

variable {f f' : Fib} {rt : Route}

/-- An entry of the table, and the default route. -/
theorem mem_nodes_entry {e : FibEntry} (he : e ∈ f.e) : e.toFibNode ∈ f.nodes :=
  mem_nodes_iff.mpr (.inl ⟨e, he, .inl rfl⟩)

/-- The child of an entry is a node of the table. -/
theorem mem_nodes_child {e : FibEntry} {c : FibNode} (he : e ∈ f.e) (hc : c ∈ e.children) :
    c ∈ f.nodes :=
  mem_nodes_iff.mpr (.inl ⟨e, he, .inr hc⟩)

/-- The default entry is a node of the table. -/
theorem mem_nodes_dflt {e : FibEntry} (he : f.dflt = some e) : e.toFibNode ∈ f.nodes :=
  mem_nodes_iff.mpr (.inr ⟨e, he, rfl⟩)

/-- The nodes that are left after an entry was removed were there before. -/
theorem mem_nodes_of_mem_remove {e : FibEntry} {n : FibNode} (hn : n ∈ (f.remove e).nodes) :
    n ∈ f.nodes := by
  rcases mem_nodes_iff.mp hn with ⟨e', he', hn⟩ | ⟨e', he', hn⟩
  · exact mem_nodes_iff.mpr (.inl ⟨e', mem_of_mem_remove he', hn⟩)
  · refine mem_nodes_iff.mpr (.inr ⟨e', ?_, hn⟩)
    unfold remove at he'
    split_ifs at he'
    exact he'

/-- The entries of a table in which one entry is changed in place. -/
theorem mem_nodes_modify {k : ℕ × Ip4} {g : FibEntry → FibEntry} {n : FibNode}
    (hn : n ∈ (f.modify k g).nodes) : n ∈ f.nodes ∨
      ∃ e ∈ f.e, e.key = k ∧ (n = (g e).toFibNode ∨ n ∈ (g e).children) := by
  rcases mem_nodes_iff.mp hn with ⟨e, he, hn⟩ | hdflt
  · rcases Keyed.mem_modify_iff.mp he with ⟨x, hx, hxk, rfl⟩ | ⟨he, -⟩
    · exact .inr ⟨x, hx, hxk, hn⟩
    · exact .inl (mem_nodes_iff.mpr (.inl ⟨e, he, hn⟩))
  · exact .inl (mem_nodes_iff.mpr (.inr hdflt))

/-- When a group is noted down, only the group of an entry changes. -/
theorem mem_nodes_setGroupId {gid : ℤ} {ref : FibRef} {n : FibNode}
    (hn : n ∈ (f.setGroupId gid ref).nodes) :
    ∃ n₀ ∈ f.nodes, n = n₀ ∨ n = { n₀ with group_id := gid } := by
  cases ref with
  | dflt =>
    rcases mem_nodes_iff.mp hn with hentry | ⟨e, he, rfl⟩
    · exact ⟨n, mem_nodes_iff.mpr (.inl hentry), .inl rfl⟩
    · obtain ⟨e', he', rfl⟩ := Option.map_eq_some_iff.mp he
      exact ⟨_, mem_nodes_dflt he', .inr rfl⟩
  | entry k =>
    rcases mem_nodes_modify hn with hn | ⟨e, he, -, rfl | hn⟩
    · exact ⟨n, hn, .inl rfl⟩
    · exact ⟨_, mem_nodes_entry he, .inr rfl⟩
    · exact ⟨n, mem_nodes_child he hn, .inl rfl⟩
  | child k addr =>
    rcases mem_nodes_modify hn with hn | ⟨e, he, -, rfl | hn⟩
    · exact ⟨n, hn, .inl rfl⟩
    · exact ⟨_, mem_nodes_entry he, .inl rfl⟩
    · rcases Keyed.mem_modify_iff.mp hn with ⟨c, hc, -, rfl⟩ | ⟨hc, -⟩
      · exact ⟨c, mem_nodes_child he hc, .inr rfl⟩
      · exact ⟨n, mem_nodes_child he hc, .inl rfl⟩

/-- A table stays within the arrays when an entry is removed. -/
theorem Sized.remove (h : f.Sized) (e : FibEntry) : (f.remove e).Sized where
  unique := by
    unfold Fib.remove
    split_ifs
    · exact h.unique
    · exact h.unique.del
  len_pos e' he' := h.len_pos e' (mem_of_mem_remove he')
  len_zero e' he' := by
    unfold Fib.remove at he'
    split_ifs at he'
    exact h.len_zero e' he'
  node n hn := h.node n (mem_nodes_of_mem_remove hn)

/-- A change of an entry that keeps its key, and after which it and its children fit. -/
theorem Sized.modify (h : f.Sized) {k : ℕ × Ip4} {g : FibEntry → FibEntry}
    (hkey : ∀ e, (g e).key = e.key)
    (hnode : ∀ e ∈ f.e, e.key = k → ∀ n, n = (g e).toFibNode ∨ n ∈ (g e).children →
      n.Even ∧ n.Fits) :
    (f.modify k g).Sized where
  unique := h.unique.modify hkey
  len_pos e he := by
    rcases Keyed.mem_modify_iff.mp he with ⟨x, hx, -, rfl⟩ | ⟨he, -⟩
    · rw [show (g x).len = x.len from congrArg Prod.fst (hkey x)]
      exact h.len_pos x hx
    · exact h.len_pos e he
  len_zero := h.len_zero
  node n hn := by
    rcases mem_nodes_modify hn with hn | ⟨e, he, hk, hn⟩
    · exact h.node n hn
    · exact hnode e he hk n hn

/-- A group identifier changes no key. -/
theorem map_key_setGroupId (f : Fib) (gid : ℤ) (ref : FibRef) :
    (f.setGroupId gid ref).e.map FibEntry.key = f.e.map FibEntry.key := by
  cases ref with
  | dflt => rfl
  | entry k => exact Keyed.map_modify FibEntry.key fun _ => rfl
  | child k addr => exact Keyed.map_modify FibEntry.key fun _ => rfl

/-- The group of an entry is noted down. -/
theorem Sized.setGroupId (h : f.Sized) (gid : ℤ) (ref : FibRef) : (f.setGroupId gid ref).Sized where
  unique := by
    rw [Keyed.Unique, map_key_setGroupId]
    exact h.unique
  len_pos e he := by
    have hkey : e.key ∈ f.e.map FibEntry.key :=
      map_key_setGroupId f gid ref ▸ List.mem_map_of_mem he
    obtain ⟨x, hx, hxe⟩ := List.mem_map.mp hkey
    have hlen : x.len = e.len := congrArg Prod.fst hxe
    exact hlen ▸ h.len_pos x hx
  len_zero e he := by
    cases ref with
    | dflt =>
      obtain ⟨e', he', rfl⟩ := Option.map_eq_some_iff.mp he
      exact h.len_zero e' he'
    | entry k => exact h.len_zero e he
    | child k addr => exact h.len_zero e he
  node n hn := by
    -- only the group of one entry changes, and no list
    obtain ⟨n₀, hn₀, rfl | rfl⟩ := mem_nodes_setGroupId hn
    · exact h.node n hn₀
    · obtain ⟨heven, hfits⟩ := h.node n₀ hn₀
      exact ⟨⟨heven.vid, heven.ret_key, heven.nodup⟩, ⟨hfits.vid, hfits.pos, hfits.le⟩⟩

/-- The lists of all entries are still there after a change in place that keeps them. -/
theorem fits_of_modify {k : ℕ × Ip4} {g : FibEntry → FibEntry}
    (hg : ∀ e, (g e).gw = e.gw ∧ (g e).vid = e.vid ∧
      ∀ c ∈ e.children, ∃ c' ∈ (g e).children, c'.gw = c.gw ∧ c'.vid = c.vid)
    (hfits : (f.modify k g).Fits) : f.Fits := by
  intro n hn
  -- each entry is still there, with its lists
  obtain ⟨n', hn', hgw, hvid⟩ : ∃ n' ∈ (f.modify k g).nodes, n'.gw = n.gw ∧ n'.vid = n.vid := by
    rcases mem_nodes_iff.mp hn with ⟨e, he, hn⟩ | hdflt
    · by_cases hk : e.key = k
      · have he' : g e ∈ (f.modify k g).e := Keyed.mem_modify_iff.mpr (.inl ⟨e, he, hk, rfl⟩)
        rcases hn with rfl | hn
        · exact ⟨_, mem_nodes_entry he', (hg e).1, (hg e).2.1⟩
        · obtain ⟨c', hc', hgw, hvid⟩ := (hg e).2.2 n hn
          exact ⟨c', mem_nodes_child he' hc', hgw, hvid⟩
      · have he' : e ∈ (f.modify k g).e := Keyed.mem_modify_iff.mpr (.inr ⟨he, hk⟩)
        exact ⟨n, mem_nodes_iff.mpr (.inl ⟨e, he', hn⟩), rfl, rfl⟩
    · exact ⟨n, mem_nodes_iff.mpr (.inr hdflt), rfl, rfl⟩
  obtain ⟨hlen, hpos, hle⟩ := hfits n' hn'
  rw [hgw] at hlen hpos hle
  rw [hvid] at hlen
  exact ⟨hlen, hpos, hle⟩

/-- Entries that do not fit are still there when a group is noted down. -/
theorem fits_of_setGroupId {gid : ℤ} {ref : FibRef} (hfits : (f.setGroupId gid ref).Fits) :
    f.Fits := by
  cases ref with
  | dflt =>
    intro n hn
    rcases mem_nodes_iff.mp hn with hentry | ⟨e, he, rfl⟩
    · exact hfits n (mem_nodes_iff.mpr (.inl hentry))
    · have he' : (f.setGroupId gid .dflt).dflt = some { e with group_id := gid } := by
        rw [setGroupId, he]
        rfl
      obtain ⟨hlen, hpos, hle⟩ := hfits _ (mem_nodes_dflt he')
      exact ⟨hlen, hpos, hle⟩
  | entry k =>
    exact @fits_of_modify f k (fun e => { e with group_id := gid })
      (fun _ => ⟨rfl, rfl, fun c hc => ⟨c, hc, rfl, rfl⟩⟩) hfits
  | child k addr =>
    refine @fits_of_modify f k (fun e => { e with
      children := Keyed.modify FibNode.addr e.children addr fun c => { c with group_id := gid } })
      (fun e => ⟨rfl, rfl, fun c hc => ?_⟩) hfits
    by_cases hc' : c.addr = addr
    · exact ⟨_, Keyed.mem_modify_iff.mpr (.inl ⟨c, hc, hc', rfl⟩), rfl, rfl⟩
    · exact ⟨c, Keyed.mem_modify_iff.mpr (.inr ⟨hc, hc'⟩), rfl, rfl⟩

/-- A host of a connected route has one gateway, itself, and the VLAN of the route. -/
theorem newChild_even {e : FibEntry} (h : e.toFibNode.Even) (hgw : e.gw = [0]) (a : Ip4) :
    (e.newChild a).Even := by
  have hvid : 1 = e.vid.length := by
    have hlen := h.vid
    rwa [hgw] at hlen
  exact ⟨hvid, Nat.zero_le _, List.nodup_singleton _⟩

/-- A child of a connected entry has one gateway. -/
theorem newChild_fits {e : FibEntry} (h : e.toFibNode.Even) (hgw : e.gw = [0]) (a : Ip4) :
    (e.newChild a).Fits := ⟨(newChild_even h hgw a).vid, le_rfl, Nat.one_le_ofNat⟩

/-- An entry that is found by the loop is one of the table. -/
theorem mem_of_scan {n : ℕ} {pfx : Ip4} {e : FibEntry} (hscan : f.scan n pfx = some e) :
    e ∈ f.e := by
  induction n generalizing pfx with
  | zero => cases hscan
  | succ n ih =>
    rw [scan] at hscan
    cases hfind : f.hashFind (n + 1, pfx) with
    | some e' =>
      rw [hfind] at hscan
      obtain rfl := Option.some_inj.mp hscan
      exact Keyed.mem_of_find hfind
    | none =>
      rw [hfind] at hscan
      exact ih hscan

/-- What `fib_route` picks fits, and so does the table, in which a host may be new. -/
theorem Sized.fibRoute (h : f.Sized) (a : Ip4) : (Presteramgr.fibRoute f a).2.Sized ∧
    ∀ ref n, (Presteramgr.fibRoute f a).1 = some (ref, n) → n.Even ∧ n.Fits := by
  have hpick := fibRoute_pick f a
  generalize Presteramgr.fibRoute f a = r at hpick
  obtain ⟨r, f₀⟩ := r
  dsimp only at hpick ⊢
  -- the lookup adds an entry only for a new host of a connected route
  cases hpick with
  | none => exact ⟨h, fun ref n hr => by cases hr⟩
  | dflt e hscan hdflt =>
    refine ⟨h, fun ref n hr => ?_⟩
    cases hr
    exact h.node e.toFibNode (mem_nodes_dflt hdflt)
  | entry e hscan hgw =>
    refine ⟨h, fun ref n hr => ?_⟩
    cases hr
    exact h.node e.toFibNode (mem_nodes_entry (mem_of_scan hscan))
  | child e c hscan hgw hc haddr =>
    refine ⟨h, fun ref n hr => ?_⟩
    cases hr
    exact h.node _ (mem_nodes_child (mem_of_scan hscan) hc)
  | newChild e f' hscan hgw hno hf' =>
    have he := mem_of_scan hscan
    have heven := (h.node e.toFibNode (mem_nodes_entry he)).1
    have hchild := And.intro (newChild_even heven hgw a) (newChild_fits heven hgw a)
    refine ⟨?_, fun ref n hr => ?_⟩
    · rw [hf']
      refine h.modify (fun _ => rfl) fun e' he' _ n hn => ?_
      rcases hn with rfl | hn
      · exact h.node e'.toFibNode (mem_nodes_entry he')
      · rcases List.mem_append.mp hn with hn | hn
        · exact h.node n (mem_nodes_child he' hn)
        · rw [List.mem_singleton.mp hn]
          exact hchild
    · cases hr
      exact hchild

end Fib

/-- The addresses of the gateways of a route. -/
def Route.gwAddrs (rt : Route) : Finset Ip4 :=
  (((List.ofFn rt.gw).take rt.gw_count).map Gw.addr).toFinset

/-- The route has from one to eight gateways. -/
def Route.Counted (rt : Route) : Prop := 1 ≤ rt.gw_count ∧ rt.gw_count ≤ 8

instance (rt : Route) : Decidable rt.Counted := inferInstanceAs (Decidable (_ ∧ _))

namespace Fib

variable {f f' : Fib} {rt : Route}

/-- The addresses of the gateways of the default route. -/
def dfltAddrs (f : Fib) : Finset Ip4 := (f.dflt.getD fibEntryNew).gw.toFinset

/-- A route can be added: there are from one to eight gateways, which for the default route are
those that it has and the new ones, and otherwise do not matter for a prefix that is there. -/
def AddCounted (f : Fib) (rt : Route) : Prop :=
  if rt.alen = 0 then rt.gw_count ≤ 8 ∧ 1 ≤ (f.dfltAddrs ∪ rt.gwAddrs).card ∧
    (f.dfltAddrs ∪ rt.gwAddrs).card ≤ 8
  else f.hashFind rt.key = none → rt.Counted

instance (f : Fib) (rt : Route) : Decidable (f.AddCounted rt) :=
  inferInstanceAs (Decidable (ite _ _ _))

/-- The gateways of a route are those it has room for. -/
theorem card_gwAddrs_le {gws : List Gw} (hgws : rt.gws = .ok gws) :
    (gws.map Gw.addr).toFinset = rt.gwAddrs ∧ rt.gw_count ≤ 8 ∧ rt.gwAddrs.card ≤ 8 := by
  unfold Route.gws at hgws
  split_ifs at hgws with hcount
  obtain rfl := Except.ok.inj hgws
  refine ⟨rfl, hcount, (List.toFinset_card_le _).trans ?_⟩
  rw [List.length_map, List.length_take, List.length_ofFn]
  exact Nat.min_le_right ..

/-- A route has a gateway when it counts one. -/
theorem gwAddrs_nonempty : rt.gwAddrs.Nonempty ↔ 1 ≤ rt.gw_count := by
  unfold Route.gwAddrs
  rw [List.toFinset_nonempty_iff, ne_eq, List.map_eq_nil_iff, List.take_eq_nil_iff, not_or]
  constructor
  · exact fun h => Nat.one_le_iff_ne_zero.mpr h.1
  · exact fun h => ⟨Nat.one_le_iff_ne_zero.mp h, fun hnil => by
      have hlen := congrArg List.length hnil
      rw [List.length_ofFn] at hlen
      cases hlen⟩

/-- What the default route has before gateways are added. -/
theorem Sized.dflt_even (h : f.Sized) : FibNode.Even { (f.dflt.getD fibEntryNew).toFibNode with
    addr := 0, pfx := 0, len := 0 } := by
  cases hd : f.dflt with
  | none => exact ⟨rfl, le_rfl, List.nodup_nil⟩
  | some e =>
    obtain ⟨heven, -⟩ := h.node e.toFibNode (mem_nodes_dflt hd)
    exact ⟨heven.vid, heven.ret_key, heven.nodup⟩

/-- The gateways of a route that has room for them are read. -/
theorem gws_of_le (hcount : rt.gw_count ≤ 8) : rt.gws = .ok ((List.ofFn rt.gw).take rt.gw_count) :=
  if_pos hcount

/-- The gateways of a route that counts more than eight are read beyond the array. -/
theorem gws_of_lt (hcount : 8 < rt.gw_count) :
    rt.gws = .error .outOfBounds := if_neg (not_le.mpr hcount)

/-- The entry of a new prefix. -/
theorem node_fits_iff {gws : List Gw} (hgws : rt.gws = .ok gws) :
    (rt.node.addGws gws).Even ∧ ((rt.node.addGws gws).Fits ↔ 1 ≤ rt.gw_count) := by
  have heven : rt.node.Even := ⟨rfl, le_rfl, List.nodup_nil⟩
  obtain ⟨haddrs, hcount, hcard⟩ := card_gwAddrs_le hgws
  have hlen : (rt.node.addGws gws).gw.length = rt.gwAddrs.card := by
    rw [heven.length_addGws, haddrs]
    exact congrArg Finset.card (Finset.empty_union _)
  refine ⟨heven.addGws gws, ⟨fun h => ?_, fun h => ⟨(heven.addGws gws).vid, ?_, ?_⟩⟩⟩
  · exact gwAddrs_nonempty.mp (Finset.card_pos.mp (hlen ▸ h.pos))
  · rw [hlen]
    exact Finset.card_pos.mpr (gwAddrs_nonempty.mpr h)
  · rw [hlen]
    exact hcard

/-- The default route with more gateways. -/
theorem Sized.dflt_fits_iff (h : f.Sized) {gws : List Gw} (hgws : rt.gws = .ok gws) :
    (FibNode.addGws { (f.dflt.getD fibEntryNew).toFibNode with addr := 0, pfx := 0, len := 0 } gws).Fits ↔
      1 ≤ (f.dfltAddrs ∪ rt.gwAddrs).card ∧ (f.dfltAddrs ∪ rt.gwAddrs).card ≤ 8 := by
  have hlen := h.dflt_even.length_addGws gws
  rw [(card_gwAddrs_le hgws).1] at hlen
  refine ⟨fun hfits => ⟨?_, ?_⟩, fun hcard => ⟨(h.dflt_even.addGws gws).vid, ?_, ?_⟩⟩
  · exact hlen ▸ hfits.pos
  · exact hlen ▸ hfits.le
  · exact hlen ▸ hcard.1
  · exact hlen ▸ hcard.2

/-- A route that is counted is added, and the table stays sized. -/
theorem Sized.fibAdd (h : f.Sized) (halen : rt.alen ≤ 32) (hcounted : f.AddCounted rt) :
    ∃ f', Presteramgr.fibAdd f rt = .ok f' ∧ f'.Sized := by
  unfold AddCounted at hcounted
  by_cases hzero : rt.alen = 0
  · rw [if_pos hzero] at hcounted
    -- the default route is merged with what was there
    have hgws := gws_of_le hcounted.1
    refine ⟨_, (fibAdd_of_zero hzero).mpr ⟨_, hgws, rfl⟩, h.unique, h.len_pos, fun e he => ?_,
      fun n hn => ?_⟩
    · obtain rfl := Option.some_inj.mp he
      exact FibNode.addGws_len ..
    · rcases mem_nodes_iff.mp hn with ⟨e, he, hn⟩ | ⟨e, he, rfl⟩
      · exact h.node n (mem_nodes_iff.mpr (.inl ⟨e, he, hn⟩))
      · obtain rfl := Option.some_inj.mp he
        exact ⟨h.dflt_even.addGws _, (h.dflt_fits_iff hgws).mpr hcounted.2⟩
  · rw [if_neg hzero] at hcounted
    -- a prefix that is there keeps its entry, whatever the message says
    cases hfind : f.hashFind rt.key with
    | some e =>
      refine ⟨f, ?_, h⟩
      have hfind' : f.hashFind (rt.alen, masked rt.alen rt.addr) = some e := hfind
      unfold Presteramgr.fibAdd
      dsimp only
      rw [if_neg (not_lt.mpr halen), if_neg hzero, hfind']
    | none =>
      obtain ⟨hpos, hle⟩ := hcounted hfind
      have hgws := gws_of_le hle
      obtain ⟨heven, hfits⟩ := node_fits_iff hgws
      have hkey : FibEntry.key
          ⟨rt.node.addGws ((List.ofFn rt.gw).take rt.gw_count), []⟩ = rt.key := by
        unfold FibEntry.key
        rw [FibNode.addGws_len, FibNode.addGws_addr]
        rfl
      refine ⟨_, (fibAdd_of_none hzero hfind).mpr ⟨halen, _, hgws, rfl⟩,
        h.unique.cons fun e he => ?_,
        fun e he => ?_, h.len_zero, fun n hn => ?_⟩
      · rw [hkey]
        exact Keyed.find_eq_none_iff.mp hfind e he
      · rcases List.mem_cons.mp he with rfl | he
        · exact Nat.pos_of_ne_zero fun hlen => hzero ((FibNode.addGws_len ..).symm.trans hlen)
        · exact h.len_pos e he
      · rcases mem_nodes_iff.mp hn with ⟨e, he, hn⟩ | ⟨e, he, hn⟩
        · rcases List.mem_cons.mp he with rfl | he
          · rcases hn with rfl | hn
            · exact ⟨heven, hfits.mpr hpos⟩
            · exact absurd hn List.not_mem_nil
          · exact h.node n (mem_nodes_iff.mpr (.inl ⟨e, he, hn⟩))
        · exact h.node n (mem_nodes_iff.mpr (.inr ⟨e, he, hn⟩))

/-- For a prefix that is not there the count of the route decides. -/
theorem addCounted_of_gone (hdflt : rt.alen = 0 → f.dflt = none)
    (hfind : rt.alen ≠ 0 → f.hashFind rt.key = none) : f.AddCounted rt ↔ rt.Counted := by
  unfold AddCounted
  by_cases hzero : rt.alen = 0
  · rw [if_pos hzero, dfltAddrs, hdflt hzero]
    have hempty : ((none : Option FibEntry).getD fibEntryNew).gw.toFinset ∪ rt.gwAddrs = rt.gwAddrs :=
      Finset.empty_union _
    rw [hempty]
    constructor
    · rintro ⟨hle, hpos, -⟩
      exact ⟨gwAddrs_nonempty.mp (Finset.card_pos.mp hpos), hle⟩
    · rintro ⟨hpos, hle⟩
      exact ⟨hle, Finset.card_pos.mpr (gwAddrs_nonempty.mpr hpos),
        (card_gwAddrs_le (gws_of_le hle)).2.2⟩
  · rw [if_neg hzero]
    exact ⟨fun h => h (hfind hzero), fun h _ => h⟩

/-- A route that is added within the arrays, so that the entries fit, is counted. -/
theorem Sized.addCounted (h : f.Sized) (halen : rt.alen ≤ 32)
    (hne : Presteramgr.fibAdd f rt ≠ .error .outOfBounds)
    (hfits : ∀ f', Presteramgr.fibAdd f rt = .ok f' → f'.Fits) : f.AddCounted rt := by
  unfold AddCounted
  by_cases hzero : rt.alen = 0
  · rw [if_pos hzero]
    have hle : rt.gw_count ≤ 8 := by
      refine not_lt.mp fun hlt => hne ?_
      -- more than eight gateways are copied beyond the array
      unfold Presteramgr.fibAdd
      rw [if_neg (not_lt.mpr halen), if_pos hzero, gws_of_lt hlt]
      rfl
    have hgws := gws_of_le hle
    have hf' := hfits _ ((fibAdd_of_zero hzero).mpr ⟨_, hgws, rfl⟩)
    exact ⟨hle, (h.dflt_fits_iff hgws).mp (hf' _ (mem_nodes_iff.mpr (.inr ⟨_, rfl, rfl⟩)))⟩
  · rw [if_neg hzero]
    intro hfind
    have hfind' : f.hashFind (rt.alen, masked rt.alen rt.addr) = none := hfind
    have hle : rt.gw_count ≤ 8 := by
      refine not_lt.mp fun hlt => hne ?_
      unfold Presteramgr.fibAdd
      dsimp only
      rw [if_neg (not_lt.mpr halen), if_neg hzero, hfind', gws_of_lt hlt]
      rfl
    have hgws := gws_of_le hle
    have hf' := hfits _ ((fibAdd_of_none hzero hfind).mpr ⟨halen, _, hgws, rfl⟩)
    exact ⟨(node_fits_iff hgws).2.mp (hf' _ (mem_nodes_iff.mpr
      (.inl ⟨_, List.mem_cons_self, .inl rfl⟩))), hle⟩

end Fib

namespace Router

variable {env : RouteEnv} {s s' : Router} {rt : Route}

/-! ## Calls -/

/-- A call goes beyond no array, and when it returns all entries fit. -/
def InBounds (r : Except Fault Router) : Prop :=
  r ≠ .error .outOfBounds ∧ ∀ s', r = .ok s' → s'.fib.Fits

/-- A call that goes beyond no array, and when it returns the table is sized. -/
def Stays (r : Except Fault Router) : Prop :=
  r ≠ .error .outOfBounds ∧ ∀ s', r = .ok s' → s'.fib.Sized

/-- A call that stays within the arrays accesses nothing outside. -/
theorem Stays.inBounds {r : Except Fault Router} (h : Stays r) : InBounds r :=
  ⟨h.1, fun s' hs' => (h.2 s' hs').fits⟩

/-- A state within the arrays is one to stay in. -/
theorem stays_ok (h : s.fib.Sized) : Stays (.ok s) :=
  ⟨fun heq => (by cases heq), fun _ heq => Except.ok.inj heq ▸ h⟩

/-- A call that runs into an `assert` goes beyond no array. -/
theorem stays_assertion : Stays (.error .assertion) :=
  ⟨fun h => (by cases h), fun _ h => (by cases h)⟩

/-- Announcing a route does not touch the table. -/
theorem announceRoute_fib (s : Router) (rt : Route) (re : Ltt) :
    (s.announceRoute rt re).fib = s.fib := by
  unfold announceRoute
  split_ifs <;> rfl

/-- `route_add` and `route_add_change` of a route that is counted return. -/
theorem announced_ok (h : s.fib.Sized) (re : Ltt) (halen : rt.alen ≤ 32)
    (hcounted : s.fib.AddCounted rt) :
    ∃ s', ((fibAdd s.fib rt).map fun fib => { s with fib := fib }.announceRoute rt re) = .ok s' ∧
      s'.fib.Sized := by
  obtain ⟨f', hadd, hsized⟩ := h.fibAdd halen hcounted
  rw [hadd]
  refine ⟨_, rfl, ?_⟩
  rw [announceRoute_fib]
  exact hsized

/-- `route_add` and `route_add_change` stay within the arrays if and only if the route is
counted. -/
theorem announced_iff (h : s.fib.Sized) (re : Ltt) (halen : rt.alen ≤ 32) :
    InBounds ((fibAdd s.fib rt).map fun fib => { s with fib := fib }.announceRoute rt re) ↔
      s.fib.AddCounted rt := by
  refine ⟨fun hin => h.addCounted halen (fun hoob => hin.1 ?_) fun f' hf' => ?_, fun hcounted => ?_⟩
  · rw [hoob]
    rfl
  · have hfits := hin.2 _ (by rw [hf']; rfl)
    rwa [announceRoute_fib] at hfits
  · obtain ⟨s', hs', hsized⟩ := announced_ok h re halen hcounted
    rw [hs']
    exact (stays_ok hsized).inBounds

/-- A prefix length above 32 stops at an assertion. -/
theorem fibAdd_assertion {f : Fib} (halen : 32 < rt.alen) :
    fibAdd f rt = .error .assertion := if_pos halen

/-- `route_add`. -/
theorem routeAdd_iff (h : s.fib.Sized) (rt : Route) :
    (InBounds (s.routeAdd rt) ↔ (rt.alen ≤ 32 → s.fib.AddCounted rt)) ∧
      ((rt.alen ≤ 32 → s.fib.AddCounted rt) → Stays (s.routeAdd rt)) := by
  by_cases halen : rt.alen ≤ 32
  · refine ⟨(announced_iff h trapEntry halen).trans ⟨fun hc _ => hc, fun hc => hc halen⟩,
      fun hc => ?_⟩
    obtain ⟨s', hs', hsized⟩ := announced_ok h trapEntry halen (hc halen)
    have hadd : s.routeAdd rt = .ok s' := hs'
    rw [hadd]
    exact stays_ok hsized
  · have hadd : s.routeAdd rt = .error .assertion := by
      unfold routeAdd
      rw [fibAdd_assertion (not_le.mp halen)]
      rfl
    rw [hadd]
    exact ⟨iff_of_true stays_assertion.inBounds fun hle => absurd hle halen,
      fun _ => stays_assertion⟩

/-- `route_del` runs into an `assert` or leaves a sized table without the prefix. -/
theorem routeDel_cases (h : s.fib.Sized) (rt : Route) :
    32 < rt.alen ∧ s.routeDel rt = .error .assertion ∨
    rt.alen ≤ 32 ∧ ∃ s', s.routeDel rt = .ok s' ∧ s'.fib.Sized ∧
      (s'.fib.AddCounted rt ↔ rt.Counted) := by
  unfold routeDel fibGet
  by_cases halen : 32 < rt.alen
  · rw [if_pos halen]
    exact .inl ⟨halen, rfl⟩
  · rw [if_neg halen]
    refine .inr ⟨not_lt.mp halen, ?_⟩
    by_cases hzero : rt.alen = 0
    · rw [if_pos hzero]
      cases hdflt : s.fib.dflt with
      | none =>
        exact ⟨s, rfl, h, Fib.addCounted_of_gone (fun _ => hdflt) fun hne => absurd hzero hne⟩
      | some e =>
        refine ⟨_, rfl, ?_⟩
        rw [fibDelEntryWithChildren_fib]
        refine ⟨h.remove e, Fib.addCounted_of_gone (fun _ => ?_) fun hne => absurd hzero hne⟩
        rw [Fib.remove, if_pos (h.len_zero e hdflt)]
    · rw [if_neg hzero]
      cases hfind : s.fib.hashFind (rt.alen, masked rt.alen rt.addr) with
      | none => exact ⟨s, rfl, h, Fib.addCounted_of_gone (fun heq =>
        absurd heq hzero) fun _ => hfind⟩
      | some e =>
        refine ⟨_, rfl, ?_⟩
        rw [fibDelEntryWithChildren_fib]
        refine ⟨h.remove e, Fib.addCounted_of_gone (fun heq => absurd heq hzero) fun _ => ?_⟩
        obtain ⟨hmem, hkey⟩ := h.unique.find_eq_some_iff.mp hfind
        rw [Fib.remove, if_neg (h.len_pos e hmem).ne', hkey]
        refine Keyed.find_eq_none_iff.mpr fun e' he' => ?_
        exact (h.unique.mem_del_iff.mp he').2

/-- `route_handle_udaddr` stays within the arrays. -/
theorem routeHandleUdaddr_stays (h : s.fib.Sized) (env : RouteEnv) (daddr : Ip4) (junk : ℕ → ℤ) :
    Stays (s.routeHandleUdaddr env daddr junk) := by
  obtain ⟨hsized, hnode⟩ := h.fibRoute daddr
  unfold routeHandleUdaddr
  generalize fibRoute s.fib daddr = r at hsized hnode ⊢
  obtain ⟨r, f₀⟩ := r
  dsimp only at hsized hnode ⊢
  cases r with
  | none => exact stays_ok hsized
  | some p =>
    obtain ⟨ref, n⟩ := p
    obtain ⟨heven, hfits⟩ := hnode ref n rfl
    dsimp only
    by_cases hgid : n.group_id ≠ 0
    · rw [if_pos hgid]
      exact stays_ok hsized
    · rw [if_neg hgid]
      unfold routeRequestMacAddr
      -- an entry that fits has lists for eight slots
      have hlists : ¬(8 < n.gw.length ∨ 8 < n.vid.length ∨ 8 < n.ret_key.length) := by
        have hle := hfits.le
        have hvid := hfits.vid
        have hret := heven.ret_key
        omega
      rw [if_neg hlists]
      obtain ⟨_, -, -, hfib, -⟩ := retGroupAdd_cases env { s with fib := f₀ }
        (List.zipWith Gw.mk n.gw n.vid) n.pfx (if n.gw = [] then 32 else n.len) junk
      generalize retGroupAdd env _ _ _ _ junk = r at hfib ⊢
      obtain ⟨gid, s₁⟩ := r
      refine stays_ok ?_
      dsimp only at hfib ⊢
      rw [hfib]
      exact hsized.setGroupId gid ref

/-- Entries that do not fit are still there when `route_handle_udaddr` returns. -/
theorem fits_of_routeHandleUdaddr {daddr : Ip4} {junk : ℕ → ℤ}
    (hin : InBounds (s.routeHandleUdaddr env daddr junk)) : s.fib.Fits := by
  have hpick := Fib.fibRoute_pick s.fib daddr
  have hroute : (fibRoute s.fib daddr).2.Fits → s.fib.Fits := by
    generalize fibRoute s.fib daddr = r at hpick
    obtain ⟨r, f₀⟩ := r
    intro h
    cases hpick with
    | none => exact h
    | dflt => exact h
    | entry => exact h
    | child => exact h
    | newChild e f' hscan hgw hno hf' =>
      have hf₀ : f₀ = s.fib.modify e.key fun e' =>
          { e' with children := e'.children ++ [e.newChild daddr] } := hf'
      have hfits₀ : f₀.Fits := h
      rw [hf₀] at hfits₀
      exact @Fib.fits_of_modify s.fib e.key
        (fun e' => { e' with children := e'.children ++ [e.newChild daddr] })
        (fun _ => ⟨rfl, rfl, fun c hc => ⟨c, List.mem_append_left _ hc, rfl, rfl⟩⟩) hfits₀
  -- noting down a group does not change which entries fit
  refine hroute ?_
  obtain ⟨hoob, hfits⟩ := hin
  unfold routeHandleUdaddr at hoob hfits
  generalize fibRoute s.fib daddr = r at hoob hfits ⊢
  obtain ⟨r, f₀⟩ := r
  dsimp only at hoob hfits ⊢
  cases r with
  | none => exact hfits _ rfl
  | some p =>
    obtain ⟨ref, n⟩ := p
    dsimp only at hoob hfits
    generalize (if n.gw = [] then 32 else n.len) = alen at hoob hfits
    by_cases hgid : n.group_id ≠ 0
    · rw [if_pos hgid] at hfits
      exact hfits _ rfl
    · rw [if_neg hgid] at hoob hfits
      unfold routeRequestMacAddr at hoob hfits
      by_cases hlists : 8 < n.gw.length ∨ 8 < n.vid.length ∨ 8 < n.ret_key.length
      · rw [if_pos hlists] at hoob
        exact absurd rfl hoob
      · rw [if_neg hlists] at hfits
        obtain ⟨_, -, -, hfib, -⟩ := retGroupAdd_cases env { s with fib := f₀ }
          (List.zipWith Gw.mk n.gw n.vid) n.pfx alen junk
        generalize retGroupAdd env _ _ _ _ junk = r at hfib hfits
        obtain ⟨gid, s₁⟩ := r
        have hset : (s₁.fib.setGroupId gid ref).Fits := hfits _ rfl
        have hs₁ : s₁.fib = f₀ := hfib
        rw [hs₁] at hset
        exact Fib.fits_of_setGroupId hset

/-- A call stays within the arrays when it does so with a second one after it, if the second does
not lose entries that do not fit. -/
theorem inBounds_bind {r : Except Fault Router} {next : Router → Except Fault Router}
    (hnext : ∀ s, InBounds (next s) → s.fib.Fits) (hin : InBounds (r.bind next)) : InBounds r := by
  cases r with
  | error fault =>
    refine ⟨fun hoob => hin.1 ?_, fun _ h => (by cases h)⟩
    rw [hoob]
    rfl
  | ok s =>
    refine ⟨fun h => (by cases h), fun s' hs' => ?_⟩
    obtain rfl := Except.ok.inj hs'
    exact hnext s hin

/-- `route_change` adds the route as a new one. -/
theorem routeChange_iff (h : s.fib.Sized) (env : RouteEnv) (rt : Route) (junk : ℕ → ℤ) :
    (InBounds (s.routeChange env rt junk) ↔ (rt.alen ≤ 32 → rt.Counted)) ∧
      ((rt.alen ≤ 32 → rt.Counted) → Stays (s.routeChange env rt junk)) := by
  unfold routeChange
  rcases routeDel_cases h rt with ⟨halen, -⟩ | ⟨halen, s', hdel, hsized, hcounted⟩
  · have hget : fibGet s.fib rt.addr rt.alen = .error .assertion := if_pos halen
    rw [hget]
    exact ⟨iff_of_true stays_assertion.inBounds fun hle => absurd halen (not_lt.mpr hle),
      fun _ => stays_assertion⟩
  · obtain ⟨r, hget⟩ : ∃ r, fibGet s.fib rt.addr rt.alen = .ok r := by
      unfold fibGet
      rw [if_neg (not_lt.mpr halen)]
      split_ifs
      · exact ⟨_, rfl⟩
      · exact ⟨_, rfl⟩
    rw [hget, Except.bind, hdel, Except.bind]
    -- a prefix that was resolved is added as one to drop, and resolved at once
    split_ifs with hgid
    · have hstays : rt.Counted →
          Stays ((s'.routeAddChange rt).bind fun s => s.routeHandleUdaddr env rt.addr junk) := by
        intro hc
        obtain ⟨s₂, hs₂, hsized₂⟩ := announced_ok hsized dropEntry halen (hcounted.mpr hc)
        have hadd : s'.routeAddChange rt = .ok s₂ := hs₂
        rw [hadd]
        exact routeHandleUdaddr_stays hsized₂ env rt.addr junk
      refine ⟨⟨fun hin _ => ?_, fun hc => (hstays (hc halen)).inBounds⟩,
        fun hc => hstays (hc halen)⟩
      exact hcounted.mp ((announced_iff hsized dropEntry halen).mp
        (inBounds_bind (fun _ => fits_of_routeHandleUdaddr) hin))
    · rw [← hcounted]
      exact routeAdd_iff hsized rt

/-- `route_del` and `route_add` of one route. -/
theorem routeDel_routeAdd_iff (h : s.fib.Sized) (rt : Route) :
    (InBounds ((s.routeDel rt).bind fun s => s.routeAdd rt) ↔ (rt.alen ≤ 32 → rt.Counted)) ∧
      ((rt.alen ≤ 32 → rt.Counted) → Stays ((s.routeDel rt).bind fun s => s.routeAdd rt)) := by
  rcases routeDel_cases h rt with ⟨halen, hdel⟩ | ⟨-, s', hdel, hsized, hcounted⟩
  · rw [hdel]
    exact ⟨iff_of_true stays_assertion.inBounds fun hle => absurd halen (not_lt.mpr hle),
      fun _ => stays_assertion⟩
  · rw [hdel, ← hcounted]
    exact routeAdd_iff hsized rt

/-- The route of an entry that fits is counted. -/
theorem fibToRoute_counted {n : FibNode} (hfits : n.Fits) (junk : Route) :
    ∃ rt, fibToRoute n junk = .ok rt ∧ rt.Counted := by
  have hlists : ¬(8 < n.gw.length ∨ 8 < n.vid.length) := by
    have hle := hfits.le
    have hvid := hfits.vid
    omega
  refine ⟨_, if_neg hlists, ?_, ?_⟩
  · exact hfits.vid ▸ hfits.pos
  · exact hfits.vid ▸ hfits.le

/-- `route_reset_prefixes4gw` adds what the local variable holds when the prefix has no entry. -/
theorem routeResetPrefixes4gw_iff (h : s.fib.Sized) (addr : Ip4) (alen : ℕ) (junk : Route) :
    (InBounds (s.routeResetPrefixes4gw addr alen junk) ↔
      (fibGet s.fib addr alen = .ok none → junk.alen ≤ 32 → junk.Counted)) ∧
    ((fibGet s.fib addr alen = .ok none → junk.alen ≤ 32 → junk.Counted) →
      Stays (s.routeResetPrefixes4gw addr alen junk)) := by
  unfold routeResetPrefixes4gw
  cases hget : fibGet s.fib addr alen with
  | error fault =>
    obtain rfl : fault = .assertion := by
      unfold fibGet at hget
      split_ifs at hget
      exact (Except.error.inj hget).symm
    exact ⟨iff_of_true stays_assertion.inBounds fun heq => (by cases heq), fun _ => stays_assertion⟩
  | ok r =>
    cases r with
    | none =>
      -- the local variable was not assigned
      obtain ⟨hin, hstays⟩ := routeDel_routeAdd_iff h junk
      exact ⟨hin.trans ⟨fun hc _ => hc, fun hc => hc rfl⟩, fun hc => hstays (hc rfl)⟩
    | some e =>
      -- the route of an entry that fits is counted
      have hfits : e.toFibNode.Fits := by
        unfold fibGet at hget
        split_ifs at hget
        · exact (h.node _ (Fib.mem_nodes_dflt (Except.ok.inj hget))).2
        · exact (h.node _ (Fib.mem_nodes_entry (Keyed.mem_of_find (Except.ok.inj hget)))).2
      obtain ⟨rt, hrt, hcounted⟩ := fibToRoute_counted hfits junk
      have hstays := (routeDel_routeAdd_iff h rt).2 fun _ => hcounted
      change (InBounds ((fibToRoute e.toFibNode junk).bind _) ↔ _) ∧
        (_ → Stays ((fibToRoute e.toFibNode junk).bind _))
      rw [hrt]
      exact ⟨iff_of_true hstays.inBounds fun heq => (by cases heq), fun _ => hstays⟩

/-! ## Runs -/

/-- A message that is handled: the gateways fit into the array of the route, and the entry that the
route gets or the default route keeps within the bounds. -/
def MsgCounted (s : Router) (m : RtbdRouteMsg) (junk : Fin 8 → Gw) : Prop :=
  m.gw_count ≤ 8 ∧ (m.dst_len ≤ 32 →
    (m.op = .RRTO_ADD → s.fib.AddCounted (m.rt junk)) ∧ (m.op = .RRTO_CHANGE → 1 ≤ m.gw_count))

/-- A counted call: what the handlers get is, and a prefix that is reset has a route, as long as the
local variable does not hold a counted route by chance. -/
def OpCounted (s : Router) : GatewayOp → Prop
  | .rtbd stack_id master_id m junk _ => stack_id = master_id → s.MsgCounted m junk
  | .scIntRtbdCmd m junk _ => s.MsgCounted m junk
  | .routeHandleUdaddr _ _ => True
  | .routeResetPrefixes4gw addr alen junk =>
    fibGet s.fib addr alen = .ok none → junk.alen ≤ 32 → junk.Counted

instance (s : Router) (m : RtbdRouteMsg) (junk : Fin 8 → Gw) : Decidable (s.MsgCounted m junk) :=
  inferInstanceAs (Decidable (_ ∧ (_ → (_ → _) ∧ (_ → _))))

instance (s : Router) (op : GatewayOp) : Decidable (s.OpCounted op) :=
  match op with
  | .rtbd stack_id master_id _ _ _ => inferInstanceAs (Decidable (stack_id = master_id → _))
  | .scIntRtbdCmd m junk _ => inferInstanceAs (Decidable (s.MsgCounted m junk))
  | .routeHandleUdaddr _ _ => inferInstanceAs (Decidable True)
  | .routeResetPrefixes4gw _ _ _ => inferInstanceAs (Decidable (_ → _ → _))

/-- A message stays within the arrays if and only if it is counted. -/
theorem rcnRoute_iff (h : s.fib.Sized) (env : RouteEnv) (m : RtbdRouteMsg) (junk : Fin 8 → Gw)
    (junkIdx : ℕ → ℤ) : (InBounds (s.rcnRoute env m junk junkIdx) ↔ s.MsgCounted m junk) ∧
      (s.MsgCounted m junk → Stays (s.rcnRoute env m junk junkIdx)) := by
  unfold rcnRoute RtbdRouteMsg.copyGws MsgCounted
  by_cases hcount : 8 < m.gw_count
  · rw [if_pos hcount]
    have hnot : ¬m.gw_count ≤ 8 := not_le.mpr hcount
    exact ⟨iff_of_false (fun hin => hin.1 rfl) fun hc => hnot hc.1, fun hc => absurd hc.1 hnot⟩
  · have hle : m.gw_count ≤ 8 := not_lt.mp hcount
    rw [if_neg hcount, Except.bind]
    cases hop : m.op with
    | RRTO_ADD =>
      obtain ⟨hin, hstays⟩ := routeAdd_iff h (m.rt junk)
      refine ⟨hin.trans ⟨fun hc => ⟨hle, fun halen => ⟨fun _ => hc halen, fun heq => by cases heq⟩⟩,
        fun hc halen => (hc.2 halen).1 rfl⟩, fun hc => hstays fun halen => (hc.2 halen).1 rfl⟩
    | RRTO_DEL =>
      have hstays : Stays (s.routeDel (m.rt junk)) := by
        rcases routeDel_cases h (m.rt junk) with ⟨-, hdel⟩ | ⟨-, s', hdel, hsized, -⟩
        · rw [hdel]
          exact stays_assertion
        · rw [hdel]
          exact stays_ok hsized
      refine ⟨iff_of_true hstays.inBounds ⟨hle, fun _ => ⟨fun heq => ?_, fun heq => ?_⟩⟩,
        fun _ => hstays⟩
      · cases heq
      · cases heq
    | RRTO_CHANGE =>
      obtain ⟨hin, hstays⟩ := routeChange_iff h env (m.rt junk) junkIdx
      refine ⟨hin.trans ⟨fun hc => ⟨hle, fun halen => ⟨fun heq => (by cases heq), fun _ => (hc halen).1⟩⟩,
        fun hc halen => ⟨(hc.2 halen).2 rfl, hle⟩⟩, fun hc => hstays fun halen =>
          ⟨(hc.2 halen).2 rfl, hle⟩⟩
    | other op =>
      have hstays := stays_ok h
      refine ⟨iff_of_true hstays.inBounds ⟨hle, fun _ => ⟨fun heq => ?_, fun heq => ?_⟩⟩,
        fun _ => hstays⟩
      · cases heq
      · cases heq

/-- A call stays within the arrays if and only if it is counted. -/
theorem gatewayCall_iff (h : s.fib.Sized) (env : RouteEnv) (op : GatewayOp) :
    (InBounds (s.gatewayCall env op) ↔ s.OpCounted op) ∧
      (s.OpCounted op → Stays (s.gatewayCall env op)) := by
  cases op with
  | rtbd stack_id master_id m junk junkIdx =>
    -- messages to a unit that is not the master are dropped
    by_cases hmaster : stack_id = master_id
    · have hcall : s.gatewayCall env (.rtbd stack_id master_id m junk junkIdx) =
          s.rcnRoute env m junk junkIdx := if_neg (not_not.mpr hmaster)
      rw [hcall]
      obtain ⟨hin, hstays⟩ := rcnRoute_iff h env m junk junkIdx
      exact ⟨hin.trans ⟨fun hc _ => hc, fun hc => hc hmaster⟩, fun hc => hstays (hc hmaster)⟩
    · have hcall : s.gatewayCall env (.rtbd stack_id master_id m junk junkIdx) = .ok s :=
        if_pos hmaster
      rw [hcall]
      exact ⟨iff_of_true (stays_ok h).inBounds fun heq => absurd heq hmaster, fun _ => stays_ok h⟩
  | scIntRtbdCmd m junk junkIdx => exact rcnRoute_iff h env m junk junkIdx
  | routeHandleUdaddr daddr junkIdx =>
    have hstays := routeHandleUdaddr_stays h env daddr junkIdx
    exact ⟨iff_of_true hstays.inBounds trivial, fun _ => hstays⟩
  | routeResetPrefixes4gw addr alen junk => exact routeResetPrefixes4gw_iff h addr alen junk

/-- In a run of counted calls every entry has from one to eight gateways, each with its VLAN, and
the indices of its group are in their array. The next call stays within the arrays, and leaves such
a table, if and only if it is counted. -/
theorem inBounds_iff_counted {uc : ℤ → UcRoute} {arp : ℕ → Mac} {ltt : ℕ × RowColum → Ltt}
    (hr : Reach (gatewayStep env) OpCounted (init uc arp ltt) s) :
    s.fib.Fits ∧ (∀ n ∈ s.fib.nodes, ∀ valid, valid.length = n.gw.length →
      ∀ ix ∈ n.idxReads valid, 0 ≤ ix ∧ ix < 8) ∧
      ∀ op, InBounds (s.gatewayCall env op) ↔ s.OpCounted op := by
  have hinv : s.fib.Sized := by
    refine hr.invariant (fun s => s.fib.Sized) ?_ ?_
    · refine ⟨.nil, fun e he => ?_, fun e he => ?_, fun n hn => ?_⟩
      · exact absurd he List.not_mem_nil
      · cases he
      · exact absurd hn List.not_mem_nil
    · intro s op s' h hok hs
      exact ((gatewayCall_iff h env op).2 hok).2 s' (Except.toOption_eq_some_iff.mp hs)
  exact ⟨hinv.fits, fun n hn valid hvalid ix hix => (hinv.fits n hn).idxReads_bounds hvalid hix,
    fun op => (gatewayCall_iff hinv env op).1⟩

/-- A connected route and a default route that gets a second gateway; a host, a route that is
changed, and one that is reset. -/
theorem inBounds_iff_counted_hosts : ∃ s : Router, (s.fib.nodes.map (·.gw.length) = [2, 1, 1, 2]) ∧
    s.fib.Fits ∧ ∀ op, InBounds (s.gatewayCall .onePort op) ↔ s.OpCounted op := by
  have hrun : (run (gatewayStep .onePort) OpCounted blank
      [.rtbd 1 1 ⟨.RRTO_ADD, 0x0A000000, 24, 1, fun _ => ⟨0, 10⟩⟩ (fun _ => ⟨0, 0⟩) fun _ => 0,
        .rtbd 1 1 ⟨.RRTO_ADD, 0, 0, 1, fun _ => ⟨0x0A000001, 10⟩⟩ (fun _ => ⟨0, 0⟩) fun _ => 0,
        .routeHandleUdaddr 0x0A000005 fun _ => 0,
        .scIntRtbdCmd ⟨.RRTO_ADD, 0, 0, 2, fun i => ⟨0x0A000001 + i, 10⟩⟩
          (fun _ => ⟨0, 0⟩) fun _ => 0,
        .rtbd 1 1 ⟨.RRTO_CHANGE, 0x0B000000, 8, 2, fun i => ⟨0x0A000001 + i, 10⟩⟩ (fun _ => ⟨0, 0⟩)
          fun _ => 0,
        .routeHandleUdaddr 0x0B000005 fun _ => 0,
        .routeResetPrefixes4gw 0x0B000000 8 ⟨0, 0, 0, fun _ => ⟨0, 0⟩⟩]).map (fun s =>
          s.fib.nodes.map (·.gw.length)) = some [2, 1, 1, 2] := by
    decide +kernel
  obtain ⟨s, hs, hprobe⟩ := Option.map_eq_some_iff.mp hrun
  obtain ⟨hfits, -, hcall⟩ := inBounds_iff_counted (Reach.init.of_run hs)
  exact ⟨s, hprobe, hfits, hcall⟩

/-- The first message has nine gateways. -/
theorem not_inBounds : ¬∀ s, Reach (gatewayStep .onePort) (fun _ _ => True) blank s →
    s.fib.Fits ∧ ∀ op, InBounds (s.gatewayCall .onePort op) := by
  intro h
  have hin := (h blank .init).2
      (.rtbd 1 1 ⟨.RRTO_ADD, 0x0B000000, 8, 9, fun i => ⟨0x0A000001 + i, 10⟩⟩
    (fun _ => ⟨0, 0⟩) fun _ => 0)
  exact hin.1 rfl

end Router

end Presteramgr
