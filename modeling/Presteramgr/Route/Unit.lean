import Mathlib.Data.List.GetD
import Presteramgr.Route.Gateways
import Presteramgr.Route.Ipv6Steps

/-!
# The routes of a unit (`route.c`, `arpc.c` and `control.c`)

A unit of a stack gets routes of both families and packets for unknown addresses, and it gets
answers about gateways. Only what it gets for IPv4 routes changes its IPv4 table.

## Main definitions

* `FibNode.Made`: what the entries of a table have in common;
* `RoutingOp` and `Ipv6Routing.unitStep`: the calls of a unit;
* `Ipv6Routing.OpTyped`: a call stays within the arrays.

## Main results

* `Ipv6Routing.unitCall_fib`: only calls for IPv4 routes change the table of IPv4;
* `Ipv6Routing.made_of_reach` and `Ipv6Routing.kept_of_reach`: the tables that runs reach.
-/

namespace Presteramgr

open Guarded (Reach run)

/-! ## Entries -/

/-- An entry as `fib_add` and `fib_route` make it. -/
structure FibNode.Made (n : FibNode) : Prop where
  vid : n.gw.length = n.vid.length
  len : n.len ≤ 32
  addr : n.addr = masked n.len n.pfx
  dflt : n.len = 0 → n.pfx = 0
  vids : ∀ v ∈ n.vid, v < 2 ^ 16

/-- The VLANs of a route are numbers of two bytes. -/
def Route.Typed (rt : Route) : Prop := ∀ i : Fin 8, i.1 < rt.gw_count → (rt.gw i).vid < 2 ^ 16

namespace FibNode

variable {n : FibNode} {gws : List Gw}

/-- The VLANs of a node after more gateways are those it had and those of the gateways. -/
theorem mem_addGws_vid {v : ℕ} (hv : v ∈ (n.addGws gws).vid) :
    v ∈ n.vid ∨ ∃ g ∈ gws, g.vid = v := by
  induction gws generalizing n with
  | nil => exact Or.inl hv
  | cons g gws ih =>
    rcases ih (n := n.addGw g) hv with hv | ⟨g', hg', hv⟩
    · unfold FibNode.addGw at hv
      split_ifs at hv with hmem
      · exact Or.inl hv
      · rcases List.mem_append.mp hv with hv | hv
        · exact Or.inl hv
        · exact Or.inr ⟨g, List.mem_cons_self, (List.mem_singleton.mp hv).symm⟩
    · exact Or.inr ⟨g', List.mem_cons_of_mem _ hg', hv⟩

/-- Gateways and their VLANs are kept in step. -/
theorem length_addGw (h : n.gw.length = n.vid.length) (g : Gw) :
    (n.addGw g).gw.length = (n.addGw g).vid.length := by
  unfold FibNode.addGw
  split_ifs
  · exact h
  · dsimp only
    rw [List.length_append, List.length_append, h]
    rfl

/-- They are in step after any number of gateways. -/
theorem length_addGws (h : n.gw.length = n.vid.length) (gws : List Gw) :
    (n.addGws gws).gw.length = (n.addGws gws).vid.length := by
  induction gws generalizing n with
  | nil => exact h
  | cons g gws ih => exact ih (length_addGw h g)

/-- An entry that gets more gateways. -/
theorem Made.addGws (h : n.Made) (hgws : ∀ g ∈ gws, g.vid < 2 ^ 16) : (n.addGws gws).Made where
  vid := length_addGws h.vid gws
  len := (addGws_len n gws).trans_le h.len
  addr := by
    rw [addGws_addr, addGws_len, addGws_pfx]
    exact h.addr
  dflt hlen := (addGws_pfx n gws).trans (h.dflt ((addGws_len n gws).symm.trans hlen))
  vids v hv := by
    rcases mem_addGws_vid hv with hv | ⟨g, hg, rfl⟩
    · exact h.vids v hv
    · exact hgws g hg

/-- A host of a connected route. -/
theorem Made.newChild {e : FibEntry} (h : e.toFibNode.Made) (hgw : e.gw = [0]) (a : Ip4) :
    (e.newChild a).Made where
  vid := by
    have hlen := h.vid
    rwa [hgw] at hlen
  len := le_rfl
  addr := (masked_thirtyTwo a).symm
  dflt hlen := by cases hlen
  vids := h.vids

end FibNode

/-- The gateways of a typed route have VLANs of sixteen bits. -/
theorem Route.Typed.gws {rt : Route} (h : rt.Typed) {gws : List Gw} (hgws : rt.gws = .ok gws) :
    ∀ g ∈ gws, g.vid < 2 ^ 16 := by
  intro g hg
  unfold Route.gws at hgws
  split_ifs at hgws
  rw [← Except.ok.inj hgws] at hg
  obtain ⟨i, hi, rfl⟩ := List.mem_take_iff_getElem.mp hg
  rw [List.getElem_ofFn]
  exact h _ (lt_min_iff.mp hi).1

namespace Fib

/-- All entries are made. -/
def Made (f : Fib) : Prop := ∀ n ∈ f.nodes, n.Made

/-- What a table within the arrays holds is found by its keys. -/
structure Kept (f : Fib) : Prop where
  sized : f.Sized
  made : f.Made

variable {f f' : Fib} {rt : Route}

/-- Removing an entry makes no new one. -/
theorem Made.remove (h : f.Made) (e : FibEntry) : (f.remove e).Made :=
  fun n hn => h n (mem_nodes_of_mem_remove hn)

/-- A group identifier does not change what an entry was made from. -/
theorem Made.setGroupId (h : f.Made) (gid : ℤ) (ref : FibRef) : (f.setGroupId gid ref).Made := by
  intro n hn
  obtain ⟨n₀, hn₀, rfl | rfl⟩ := mem_nodes_setGroupId hn
  · exact h n hn₀
  · exact ⟨(h n₀ hn₀).vid, (h n₀ hn₀).len, (h n₀ hn₀).addr, (h n₀ hn₀).dflt, (h n₀ hn₀).vids⟩

/-- What a typed route adds is made from it. -/
theorem Made.fibAdd (h : f.Made) (ht : rt.Typed) (hadd : Presteramgr.fibAdd f rt = .ok f') :
    f'.Made := by
  by_cases hzero : rt.alen = 0
  · obtain ⟨gws, hgws, rfl⟩ := (fibAdd_of_zero hzero).mp hadd
    intro n hn
    rcases mem_nodes_iff.mp hn with hentry | ⟨e, he, rfl⟩
    · exact h n (mem_nodes_iff.mpr (.inl hentry))
    · obtain rfl := Option.some_inj.mp he
      refine FibNode.Made.addGws ⟨?_, Nat.zero_le _, (masked_zero 0).symm, fun _ => rfl, ?_⟩
        (ht.gws hgws)
      · cases hdflt : f.dflt with
        | none => rfl
        | some e => exact (h _ (mem_nodes_dflt hdflt)).vid
      · cases hdflt : f.dflt with
        | none => exact fun v hv => absurd hv List.not_mem_nil
        | some e => exact (h _ (mem_nodes_dflt hdflt)).vids
  · cases hfind : f.hashFind rt.key with
    | some e => exact fibAdd_of_some hzero hfind hadd ▸ h
    | none =>
      obtain ⟨halen, gws, hgws, rfl⟩ := (fibAdd_of_none hzero hfind).mp hadd
      intro n hn
      rcases mem_nodes_iff.mp hn with ⟨e, he, hn⟩ | hdflt
      · rcases List.mem_cons.mp he with rfl | he
        · rcases hn with rfl | hn
          · exact FibNode.Made.addGws ⟨rfl, halen, rfl, fun hlen => absurd hlen hzero,
              fun v hv => absurd hv List.not_mem_nil⟩ (ht.gws hgws)
          · exact absurd hn List.not_mem_nil
        · exact h n (mem_nodes_iff.mpr (.inl ⟨e, he, hn⟩))
      · exact h n (mem_nodes_iff.mpr (.inr hdflt))

/-- A lookup changes marks only. -/
theorem Made.fibRoute (h : f.Made) (a : Ip4) : (Presteramgr.fibRoute f a).2.Made := by
  have hpick := fibRoute_pick f a
  generalize Presteramgr.fibRoute f a = r at hpick
  obtain ⟨r, f₀⟩ := r
  cases hpick with
  | none => exact h
  | dflt => exact h
  | entry => exact h
  | child => exact h
  | newChild e f' hscan hgw hno hf' =>
    have hf₀ : f₀ = f.modify e.key fun e' =>
      { e' with children := e'.children ++ [e.newChild a] } := hf'
    rw [hf₀]
    intro n hn
    rcases mem_nodes_modify hn with hn | ⟨e', he', -, rfl | hn⟩
    · exact h n hn
    · exact h e'.toFibNode (mem_nodes_entry he')
    · rcases List.mem_append.mp hn with hn | hn
      · exact h n (mem_nodes_child he' hn)
      · rw [List.mem_singleton.mp hn]
        exact (h _ (mem_nodes_entry (mem_of_scan hscan))).newChild hgw a

end Fib

/-! ## Calls for IPv4 routes -/

/-- The VLANs of a message are numbers of two bytes. -/
def RtbdRouteMsg.Typed (m : RtbdRouteMsg) : Prop := ∀ i < m.gw_count, (m.gw i).vid < 2 ^ 16

/-- The VLANs of the message, and those that a local variable holds, are numbers of two bytes. -/
def GatewayOp.Typed : GatewayOp → Prop
  | .rtbd _ _ m _ _ => m.Typed
  | .scIntRtbdCmd m _ _ => m.Typed
  | .routeHandleUdaddr _ _ => True
  | .routeResetPrefixes4gw _ _ junk => junk.Typed

instance (m : RtbdRouteMsg) : Decidable m.Typed := inferInstanceAs (Decidable (∀ i < m.gw_count, _))

instance (op : GatewayOp) : Decidable op.Typed :=
  match op with
  | .rtbd _ _ m _ _ => inferInstanceAs (Decidable m.Typed)
  | .scIntRtbdCmd m _ _ => inferInstanceAs (Decidable m.Typed)
  | .routeHandleUdaddr _ _ => inferInstanceAs (Decidable True)
  | .routeResetPrefixes4gw _ _ junk =>
    inferInstanceAs (Decidable (∀ i : Fin 8, i.1 < junk.gw_count → _))

namespace Router

variable {env : RouteEnv} {s s' : Router} {rt : Route}

/-- A route that is added and announced keeps the entries made. -/
theorem made_routeAdd (h : s.fib.Made) (ht : rt.Typed) {re : Ltt}
    (hs : ((fibAdd s.fib rt).map fun fib => { s with fib := fib }.announceRoute rt re) = .ok s') :
    s'.fib.Made := by
  obtain ⟨f', hadd, rfl⟩ := Except.map_eq_ok_iff.mp hs
  rw [announceRoute_fib]
  exact h.fibAdd ht hadd

/-- A route that is deleted keeps the other entries. -/
theorem made_routeDel (h : s.fib.Made) (hs : s.routeDel rt = .ok s') : s'.fib.Made := by
  obtain ⟨e, -, rfl⟩ := Except.map_eq_ok_iff.mp hs
  cases e with
  | none => exact h
  | some e =>
    rw [fibDelEntryWithChildren_fib]
    exact h.remove e

/-- `route_handle_udaddr` goes beyond an array, or it looks up the address and may note down a
group. -/
theorem routeHandleUdaddr_outcome (env : RouteEnv) (s : Router) (daddr : Ip4) (junk : ℕ → ℤ) :
    s.routeHandleUdaddr env daddr junk = .error .outOfBounds ∨
      ∃ s', s.routeHandleUdaddr env daddr junk = .ok s' ∧ (s'.fib = (fibRoute s.fib daddr).2 ∨
        ∃ gid ref, s'.fib = (fibRoute s.fib daddr).2.setGroupId gid ref) := by
  unfold routeHandleUdaddr
  generalize fibRoute s.fib daddr = r
  obtain ⟨r, f₀⟩ := r
  cases r with
  | none => exact .inr ⟨_, rfl, .inl rfl⟩
  | some p =>
    obtain ⟨ref, n⟩ := p
    dsimp only
    generalize (if n.gw = [] then 32 else n.len) = alen
    by_cases hgid : n.group_id ≠ 0
    · rw [if_pos hgid]
      exact .inr ⟨_, rfl, .inl rfl⟩
    · rw [if_neg hgid]
      unfold routeRequestMacAddr
      by_cases hlists : 8 < n.gw.length ∨ 8 < n.vid.length ∨ 8 < n.ret_key.length
      · rw [if_pos hlists]
        exact .inl rfl
      · rw [if_neg hlists]
        obtain ⟨_, -, -, hfib, -⟩ := retGroupAdd_cases env { s with fib := f₀ }
          (List.zipWith Gw.mk n.gw n.vid) n.pfx alen junk
        generalize retGroupAdd env _ _ _ _ junk = r at hfib
        obtain ⟨gid, s₁⟩ := r
        have hs₁ : s₁.fib = f₀ := hfib
        refine .inr ⟨_, rfl, .inr ⟨gid, ref, ?_⟩⟩
        dsimp only
        rw [hs₁]

/-- An unresolved destination keeps the entries. -/
theorem made_routeHandleUdaddr (h : s.fib.Made) {daddr : Ip4} {junk : ℕ → ℤ}
    (hs : s.routeHandleUdaddr env daddr junk = .ok s') : s'.fib.Made := by
  rcases routeHandleUdaddr_outcome env s daddr junk with herr | ⟨s₁, hs₁, hfib⟩
  · rw [herr] at hs
    cases hs
  · obtain rfl := Except.ok.inj (hs₁.symm.trans hs)
    rcases hfib with hfib | ⟨gid, ref, hfib⟩
    · exact hfib ▸ h.fibRoute daddr
    · exact hfib ▸ (h.fibRoute daddr).setGroupId gid ref

/-- A changed route keeps the entries made. -/
theorem made_routeChange (h : s.fib.Made) (ht : rt.Typed) {junk : ℕ → ℤ}
    (hs : s.routeChange env rt junk = .ok s') : s'.fib.Made := by
  obtain ⟨e, -, hs⟩ := Except.bind_eq_ok_iff.mp hs
  obtain ⟨s₁, hdel, hs⟩ := Except.bind_eq_ok_iff.mp hs
  have h₁ := made_routeDel h hdel
  split_ifs at hs
  · obtain ⟨s₂, hadd, hs⟩ := Except.bind_eq_ok_iff.mp hs
    exact made_routeHandleUdaddr (made_routeAdd h₁ ht hadd) hs
  · exact made_routeAdd h₁ ht hs

/-- The route of an entry that is made. -/
theorem typed_fibToRoute {n : FibNode} (h : n.Made) {junk : Route}
    (hrt : fibToRoute n junk = .ok rt) :
    rt.Typed := by
  unfold fibToRoute at hrt
  split_ifs at hrt
  rw [← Except.ok.inj hrt]
  intro i hi
  refine h.vids _ ?_
  dsimp only
  rw [List.getD_eq_getElem _ _ hi]
  exact List.getElem_mem hi

/-- The reset of the prefixes of a gateway keeps the entries. -/
theorem made_routeResetPrefixes4gw (h : s.fib.Made) {addr : Ip4} {alen : ℕ} {junk : Route}
    (hjunk : junk.Typed) (hs : s.routeResetPrefixes4gw addr alen junk = .ok s') : s'.fib.Made := by
  obtain ⟨e, he, hs⟩ := Except.bind_eq_ok_iff.mp hs
  obtain ⟨rt, hrt, hs⟩ := Except.bind_eq_ok_iff.mp hs
  obtain ⟨s₁, hdel, hadd⟩ := Except.bind_eq_ok_iff.mp hs
  refine made_routeAdd (made_routeDel h hdel) ?_ hadd
  cases e with
  | none => exact Except.ok.inj hrt ▸ hjunk
  | some e =>
    refine typed_fibToRoute (h e.toFibNode ?_) hrt
    unfold fibGet at he
    split_ifs at he
    · exact Fib.mem_nodes_dflt (Except.ok.inj he)
    · exact Fib.mem_nodes_entry (Keyed.mem_of_find (Except.ok.inj he))

/-- A message of the routing daemon keeps the entries made. -/
theorem made_rcnRoute (h : s.fib.Made) {m : RtbdRouteMsg} {junk : Fin 8 → Gw} {junkIdx : ℕ → ℤ}
    (hm : m.Typed) (hs : s.rcnRoute env m junk junkIdx = .ok s') : s'.fib.Made := by
  obtain ⟨rt, hrt, hs⟩ := Except.bind_eq_ok_iff.mp hs
  have ht : rt.Typed := by
    unfold RtbdRouteMsg.copyGws at hrt
    split_ifs at hrt
    rw [← Except.ok.inj hrt]
    intro i hi
    have hlt : i.1 < m.gw_count := hi
    unfold RtbdRouteMsg.rt
    dsimp only
    rw [if_pos hlt]
    exact hm i hlt
  cases hop : m.op with
  | RRTO_ADD =>
    rw [hop] at hs
    exact made_routeAdd h ht hs
  | RRTO_DEL =>
    rw [hop] at hs
    exact made_routeDel h hs
  | RRTO_CHANGE =>
    rw [hop] at hs
    exact made_routeChange h ht hs
  | other op =>
    rw [hop] at hs
    exact Except.ok.inj hs ▸ h

/-- One call keeps the entries made. -/
theorem made_gatewayCall (h : s.fib.Made) {op : GatewayOp} (ht : op.Typed)
    (hs : s.gatewayCall env op = .ok s') : s'.fib.Made := by
  cases op with
  | rtbd stack_id master_id m junk junkIdx =>
    by_cases hmaster : stack_id = master_id
    · have hcall : s.rcnRoute env m junk junkIdx = .ok s' :=
        (if_neg (not_not.mpr hmaster)).symm.trans hs
      exact made_rcnRoute h ht hcall
    · have hcall : Except.ok s = .ok s' := (if_pos hmaster).symm.trans hs
      exact Except.ok.inj hcall ▸ h
  | scIntRtbdCmd m junk junkIdx => exact made_rcnRoute h ht hs
  | routeHandleUdaddr daddr junkIdx => exact made_routeHandleUdaddr h hs
  | routeResetPrefixes4gw addr alen junk => exact made_routeResetPrefixes4gw h ht hs

end Router

/-! ## The calls of a unit -/

/-- A call for IPv4 routes, an answer about an IPv4 gateway, or a call for IPv6. -/
inductive RoutingOp
  | ipv4 (op : GatewayOp)
  | arpcSetMacAddr (gw : Gw) (mac : Mac) (vif : ℕ) (arpOk : Bool)
  | routeAddV6 (addr : Ip6) (alen vid : ℕ) (gw : Ip6)
  | routeDelV6 (addr : Ip6) (alen : ℕ)
  | routeHandleIpv6Udaddr (daddr : Ip6)
  | ndpcSetMacAddr (gw : GwV6) (mac : Mac) (vif : ℕ) (arpOk reOk : Bool)

/-- `arpc_set_mac_addr`: an answer with an address of zeros is no answer. -/
def Router.arpcSetMacAddr (env : RouteEnv) (s : Router) (gw : Gw) (mac : Mac) (vif : ℕ)
    (arpOk : Bool) :
    Router :=
  if mac = 0 then (s.retUnsetMacAddr env gw).2 else (s.retSetMacAddr env gw mac vif arpOk).2

namespace Ipv6Routing

variable (env : RouteEnv) (t : Ipv6Routing)

/-- One call. -/
def unitCall : RoutingOp → Except Fault Ipv6Routing
  | .ipv4 op => (t.uc.gatewayCall env op).map fun uc => { t with uc := uc }
  | .arpcSetMacAddr gw mac vif arpOk => .ok
    { t with uc := t.uc.arpcSetMacAddr env gw mac vif arpOk }
  | .routeAddV6 addr alen vid gw => (t.routeAddV6 addr alen vid gw).elim (.error .assertion) .ok
  | .routeDelV6 addr alen => (t.routeDelV6 addr alen).elim (.error .assertion) .ok
  | .routeHandleIpv6Udaddr daddr => .ok (t.routeHandleIpv6Udaddr env daddr)
  | .ndpcSetMacAddr gw mac vif arpOk reOk => .ok (t.retIpv6SetMacAddr env gw mac vif arpOk reOk).2

/-- A call that returns. -/
def unitStep (op : RoutingOp) : Option Ipv6Routing := (t.unitCall env op).toOption

end Ipv6Routing

/-- The numbers of the call are in their ranges. -/
def RoutingOp.Typed : RoutingOp → Prop
  | .ipv4 op => op.Typed
  | _ => True

instance : ∀ op : RoutingOp, Decidable op.Typed
  | .ipv4 op => inferInstanceAs (Decidable op.Typed)
  | .arpcSetMacAddr .. | .routeAddV6 .. | .routeDelV6 .. | .routeHandleIpv6Udaddr _
  | .ndpcSetMacAddr .. => .isTrue trivial

/-- A call for IPv4 routes stays within the arrays, and its numbers are in their ranges. -/
def Ipv6Routing.OpTyped (t : Ipv6Routing) : RoutingOp → Prop
  | .ipv4 op => t.uc.OpCounted op ∧ op.Typed
  | _ => True

instance (t : Ipv6Routing) : ∀ op : RoutingOp, Decidable (t.OpTyped op)
  | .ipv4 op => inferInstanceAs (Decidable (t.uc.OpCounted op ∧ op.Typed))
  | .arpcSetMacAddr .. | .routeAddV6 .. | .routeDelV6 .. | .routeHandleIpv6Udaddr _
  | .ndpcSetMacAddr .. => .isTrue trivial

/-! ## Calls for IPv6 -/

namespace Router

variable (env : RouteEnv) (s : Router)

/-- The answer of the ARP daemon does not touch the table. -/
theorem arpcSetMacAddr_fib (gw : Gw) (mac : Mac) (vif : ℕ) (arpOk : Bool) :
    (s.arpcSetMacAddr env gw mac vif arpOk).fib = s.fib := by
  unfold arpcSetMacAddr
  split_ifs
  · exact retUnsetMacAddr_fib env s gw
  · exact retSetMacAddr_fib env s gw mac vif arpOk

/-- An IPv6 gateway that is let go does not touch the IPv4 table. -/
theorem retIpv6Unref_fib (gw : GwV6) (is_def : Bool) :
    (s.retIpv6Unref gw is_def).2.fib = s.fib := by
  obtain ⟨_, _, _, _, _, heq⟩ := retIpv6Unref_eq s gw is_def
  rw [heq]

/-- An IPv6 gateway that is registered does not touch the IPv4 table. -/
theorem retIpv6Add_fib (gw ret_key : GwV6) (is_def : Bool) :
    (s.retIpv6Add env gw is_def ret_key).2.2.fib = s.fib := by
  obtain ⟨_, _, _, heq⟩ := retIpv6Add_eq env s gw ret_key is_def
  rw [heq]

/-- The MAC address of an IPv6 gateway does not touch the IPv4 table. -/
theorem retIpv6SetMacAddr_fib (gw : GwV6) (addr : Mac) (vif_id : ℕ) (arpOk reOk : Bool) :
    (s.retIpv6SetMacAddr env gw addr vif_id arpOk reOk).2.fib = s.fib := by
  have hwrite : ∀ (s' : Router) idx is_def rt, (s'.writeGwV6 idx is_def rt).fib = s'.fib := by
    intro s' idx is_def rt
    obtain ⟨_, heq⟩ := writeGwV6_eq s' idx is_def rt
    rw [heq]
  have htable : ∀ (s' : Router) gw idx, (s'.routeIpv6UpdateTable gw idx).fib = s'.fib := by
    intro s' gw idx
    obtain ⟨_, heq⟩ := routeIpv6UpdateTable_eq s' gw idx
    rw [heq]
  unfold retIpv6SetMacAddr
  cases env.vifGetn vif_id with
  | none => rfl
  | some vif =>
  cases s.findGwV6 gw with
  | none => rfl
  | some re =>
  dsimp only
  split_ifs
  · exact hwrite ..
  · rfl
  cases (s.modifyGwV6 gw fun re =>
    { re with addr := addr, vif_id := vif_id }).nh.nhtAdd addr arpOk with
  | mk nh_idx nh =>
  cases nh_idx with
  | none => rfl
  | some nh_idx =>
  dsimp only
  cases Ret.resPop (s.modifyGwV6 gw fun re =>
      { re with addr := addr, vif_id := vif_id }).ret_indexes_used 1 with
  | none => rfl
  | some p => exact (htable ..).trans (hwrite ..)

end Router

namespace Ipv6Routing

variable {env : RouteEnv} {t t' : Ipv6Routing}

/-- Unregistering an IPv6 prefix does not touch the IPv4 table. -/
theorem routeIpv6Unregister_fib (t : Ipv6Routing) (pfx : RoutePfxV6) (gw : GwV6) :
    (t.routeIpv6Unregister pfx gw).uc.fib = t.uc.fib := by
  obtain ⟨_, heq | heq⟩ := t.uc_routeIpv6Unregister_eq gw pfx
  · rw [heq]
  · rw [heq]
    exact Router.retIpv6Unref_fib ..

/-- Deleting an IPv6 route leaves the table of IPv4. -/
theorem routeDelFibIpv6Entry_fib (t : Ipv6Routing) (e : FibNodeIpv6) :
    (t.routeDelFibIpv6Entry e).uc.fib = t.uc.fib := by
  unfold routeDelFibIpv6Entry
  dsimp only
  rw [routeIpv6Unregister_fib]
  split_ifs <;> rfl

/-- `route_add_v6` does not touch the IPv4 table. -/
theorem routeAddV6_fib {addr : Ip6} {alen vid : ℕ} {gw : Ip6}
    (h : t.routeAddV6 addr alen vid gw = some t') : t'.uc.fib = t.uc.fib := by
  obtain ⟨f, -, rfl⟩ := Option.map_eq_some_iff.mp h
  dsimp only
  split_ifs <;> rfl

/-- `route_del_v6` does not touch the IPv4 table. -/
theorem routeDelV6_fib {addr : Ip6} {alen : ℕ} (h : t.routeDelV6 addr alen = some t') :
    t'.uc.fib = t.uc.fib := by
  obtain ⟨⟨e, f⟩, -, rfl⟩ := Option.map_eq_some_iff.mp h
  cases e with
  | none => rfl
  | some e =>
    exact Sweep.foldl_keeps (fun t : Ipv6Routing => t.uc.fib)
      (fun t n _ => t.routeDelFibIpv6Entry_fib n) (t.setFib f)

/-- An unresolved IPv6 destination does not touch the IPv4 table. -/
theorem routeHandleIpv6Udaddr_fib (env : RouteEnv) (t : Ipv6Routing) (daddr : Ip6) :
    (t.routeHandleIpv6Udaddr env daddr).uc.fib = t.uc.fib := by
  unfold routeHandleIpv6Udaddr
  rcases fibIpv6Route t.uc.fib_ipv6 daddr with ⟨_ | ⟨ref, e⟩, f⟩
  · rfl
  · dsimp only [setFib]
    rw [uc_routeIpv6RequestMacAddr]
    obtain ⟨_, hreg⟩ := Router.routeIpv6Register_eq { t.uc with fib_ipv6 := f } e.udPrefix
      (e.gateway daddr)
    rw [hreg]
    split_ifs
    · exact Router.retIpv6Add_fib ..
    · exact Router.retIpv6Add_fib ..

/-- Only calls for IPv4 routes change the table of IPv4. -/
theorem unitCall_fib {op : RoutingOp} (hop : ∀ op', op ≠ .ipv4 op')
    (h : t.unitCall env op = .ok t') :
    t'.uc.fib = t.uc.fib := by
  cases op with
  | ipv4 op => exact absurd rfl (hop op)
  | arpcSetMacAddr gw mac vif arpOk =>
    rw [← Except.ok.inj h]
    exact Router.arpcSetMacAddr_fib ..
  | routeAddV6 addr alen vid gw =>
    cases hadd : t.routeAddV6 addr alen vid gw with
    | none => simp [unitCall, hadd] at h
    | some t₁ =>
      obtain rfl : t₁ = t' := by simpa [unitCall, hadd] using h
      exact routeAddV6_fib hadd
  | routeDelV6 addr alen =>
    cases hdel : t.routeDelV6 addr alen with
    | none => simp [unitCall, hdel] at h
    | some t₁ =>
      obtain rfl : t₁ = t' := by simpa [unitCall, hdel] using h
      exact routeDelV6_fib hdel
  | routeHandleIpv6Udaddr daddr =>
    rw [← Except.ok.inj h]
    exact routeHandleIpv6Udaddr_fib ..
  | ndpcSetMacAddr gw mac vif arpOk reOk =>
    rw [← Except.ok.inj h]
    exact Router.retIpv6SetMacAddr_fib ..

/-! ## Runs -/

variable {uc : ℤ → UcRoute} {arp : ℕ → Mac} {ltt : ℕ × RowColum → Ltt}

/-- What the calls for IPv4 routes keep, runs keep. -/
theorem fib_of_reach {P : Fib → Prop} {ok : Ipv6Routing → RoutingOp → Prop}
    (hr : Reach (unitStep env) ok (init (.init uc arp ltt)) t) (h : P (Router.init uc arp ltt).fib)
    (hstep : ∀ (s s' : Router) op t, P s.fib → t.uc = s → ok t (.ipv4 op) →
      s.gatewayCall env op = .ok s' → P s'.fib) : P t.uc.fib := by
  refine hr.invariant (fun t => P t.uc.fib) h fun t op t' hfib hok ht' => ?_
  have hcall : t.unitCall env op = .ok t' := Except.toOption_eq_some_iff.mp ht'
  by_cases hop : ∃ op', op = .ipv4 op'
  · obtain ⟨op', rfl⟩ := hop
    obtain ⟨s', hs', rfl⟩ := Except.map_eq_ok_iff.mp hcall
    exact hstep t.uc s' op' t hfib rfl hok hs'
  · rw [unitCall_fib (fun op' heq => hop ⟨op', heq⟩) hcall]
    exact hfib

/-- The empty table has nothing to be made. -/
theorem made_empty : Fib.Made ⟨none, []⟩ := fun _ hn => absurd hn List.not_mem_nil

/-- Whatever the calls were, the entries are made. -/
theorem made_of_reach
    (hr : Reach (unitStep env) (fun _ op => op.Typed) (init (.init uc arp ltt)) t) :
    t.uc.fib.Made :=
  fib_of_reach (P := Fib.Made) hr made_empty fun _ _ _ _ h _ ht hs =>
    Router.made_gatewayCall h ht hs

/-- The empty table is kept. -/
theorem kept_empty : Fib.Kept ⟨none, []⟩ where
  sized := by
    refine ⟨.nil, fun e he => absurd he List.not_mem_nil, fun e he => ?_, fun n hn => ?_⟩
    · cases he
    · exact absurd hn List.not_mem_nil
  made := made_empty

/-- Where all calls stayed within the arrays, the entries fit into them. -/
theorem kept_of_reach (hr : Reach (unitStep env) OpTyped (init (.init uc arp ltt)) t) :
    t.uc.fib.Kept := by
  refine fib_of_reach (P := Fib.Kept) hr kept_empty fun s s' op t h hs hok hcall => ?_
  obtain ⟨hcounted, ht⟩ := hok
  rw [hs] at hcounted
  exact ⟨((Router.gatewayCall_iff h.sized env op).2 hcounted).2 s' hcall,
    Router.made_gatewayCall h.made ht hcall⟩

end Ipv6Routing

end Presteramgr
