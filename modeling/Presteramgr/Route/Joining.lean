import Presteramgr.Route.LongestMatch
import Presteramgr.Route.Replication
import Presteramgr.Route.Unit

/-!
# A unit that joins the stack (`fib.c`, `mac.c` and `control.c`)

The new unit drops its routes of lengths 0 to 31, and adds those that it reads from the messages of
the master, between which other messages may come. Routes of length 32 are neither dropped nor sent.

## Main definitions

* `Router.fibClearRouting`, `Ipv6Routing.joinCall` and `Ipv6Routing.joinUnit`: what the new unit
  does.

## Main results

* `Ipv6Routing.sync_round_trip`: in all runs of the master all accesses stay within the buffers, and
  the unit reads what the master has;
* `Ipv6Routing.replica_agrees`: afterwards the unit has the routes of the master that it read.
-/

namespace Presteramgr

open Function (update update_self update_of_ne)
open Guarded (Reach run)

/-! ## What is sent -/

/-- An entry that is made fits into a record with room for it. -/
theorem FibNode.Made.sendable {L : RtbdLayout} {n : FibNode} (h : n.Made) (hroom : L.HasRoom n) :
    n.Sendable L := ⟨h.vid, hroom, h.len, h.vids⟩

/-- The prefix of an entry. -/
def FibNode.key (n : FibNode) : ℕ × Ip4 := (n.len, n.addr)

namespace Fib

variable {f : Fib} {k : ℕ × Ip4} {e : FibEntry} {n : FibNode}

/-- The routes of lengths 0 to 31. -/
theorem mem_exported : n ∈ exported f ↔
    (∃ e, f.dflt = some e ∧ n = e.toFibNode) ∨ ∃ e ∈ f.e, 0 < e.len ∧ e.len < 32 ∧
      n = e.toFibNode := by
  have hdflt : fibEntries f 0 = f.dflt.toList.map FibEntry.toFibNode := rfl
  have hpos : ∀ i, fibEntries f (i + 1) =
      ((f.e.filter fun e => e.len = i + 1).reverse).map FibEntry.toFibNode :=
    fun _ => rfl
  unfold exported
  rw [List.mem_flatMap]
  constructor
  · rintro ⟨i, hi, hn⟩
    cases i with
    | zero =>
      rw [hdflt] at hn
      obtain ⟨e, he, rfl⟩ := List.mem_map.mp hn
      exact .inl ⟨e, by simpa using he, rfl⟩
    | succ i =>
      rw [hpos] at hn
      obtain ⟨e, he, rfl⟩ := List.mem_map.mp hn
      obtain ⟨he, hlen⟩ := List.mem_filter.mp (List.mem_reverse.mp he)
      have hlen : e.len = i + 1 := of_decide_eq_true hlen
      exact .inr ⟨e, he, hlen ▸ Nat.succ_pos i, hlen ▸ List.mem_range.mp hi, rfl⟩
  · rintro (⟨e, he, rfl⟩ | ⟨e, he, hlo, hhi, rfl⟩)
    · exact ⟨0, by simp, by simp [hdflt, he]⟩
    · refine ⟨e.len, List.mem_range.mpr hhi, ?_⟩
      obtain ⟨i, hi⟩ := Nat.exists_eq_succ_of_ne_zero hlo.ne'
      rw [hi, hpos]
      refine List.mem_map_of_mem (List.mem_reverse.mpr (List.mem_filter.mpr ⟨he, ?_⟩))
      exact decide_eq_true hi

theorem mem_nodes_of_exported (hn : n ∈ exported f) : n ∈ f.nodes := by
  rcases mem_exported.mp hn with ⟨e, he, rfl⟩ | ⟨e, he, -, -, rfl⟩
  · exact mem_nodes_dflt he
  · exact mem_nodes_entry he

namespace Kept

variable (h : f.Kept)

include h

/-- All entries can be sent. -/
theorem sendable (L : RtbdLayout) : ∀ n ∈ exported f, n.Sendable L := fun n hn =>
  (h.made n (mem_nodes_of_exported hn)).sendable
    (L.hasRoom_of_fits (h.sized.fits n (mem_nodes_of_exported hn)))

theorem key_dflt (he : f.dflt = some e) : e.key = (0, 0) ∧ e.pfx = 0 := by
  have hmade := h.made _ (mem_nodes_dflt he)
  have hlen := h.sized.len_zero e he
  have hpfx := hmade.dflt hlen
  have haddr := hmade.addr
  rw [hlen, hpfx, masked_zero] at haddr
  exact ⟨Prod.ext hlen haddr, hpfx⟩

/-- The entry of a prefix has its key. -/
theorem key_of_entryAt (he : f.entryAt k = some e) : e.key = k :=
  Prefixes.key_of_entryAt (fun _ he => (h.key_dflt he).1) he

/-- A route of a length below 32 is among those that are sent. -/
theorem stored_eq_some_iff (hk : k.1 < 32) {r : Stored} :
    f.stored k = some r ↔ ∃ n ∈ exported f, n.key = k ∧ n.stored = r := by
  constructor
  · intro hr
    obtain ⟨e, he, rfl⟩ := Option.map_eq_some_iff.mp hr
    have hkey := h.key_of_entryAt he
    refine ⟨e.toFibNode, mem_exported.mpr ?_, hkey, rfl⟩
    by_cases hzero : k.1 = 0
    · exact .inl ⟨e, (Prefixes.dflt_of_entryAt hzero he).1, rfl⟩
    · have hlen : e.len = k.1 := congrArg Prod.fst hkey
      have hmem := Prefixes.mem_of_entryAt hzero he
      exact .inr ⟨e, hmem, h.sized.len_pos e hmem, hlen ▸ hk, rfl⟩
  · rintro ⟨n, hn, rfl, rfl⟩
    rcases mem_exported.mp hn with ⟨e, he, rfl⟩ | ⟨e, he, hpos, -, rfl⟩
    · have hkey : e.toFibNode.key = (0, 0) := (h.key_dflt he).1
      rw [hkey]
      exact congrArg (Option.map _) he
    · have hentry : f.entryAt e.key = some e :=
        (entryAt_of_pos hpos.ne').trans (h.sized.unique.find_eq_some_iff.mpr ⟨he, rfl⟩)
      exact congrArg (Option.map _) hentry

/-- A table without an entry. -/
theorem stored_remove (he : f.entryAt k = some e) :
    (f.remove e).stored = update f.stored k none := by
  have hkey := h.key_of_entryAt he
  have hlen : e.len = k.1 := congrArg Prod.fst hkey
  have hentry : ∀ k', (f.remove e).entryAt k' = if k' = k then none else f.entryAt k' := by
    intro k'
    unfold remove
    by_cases hk : k.1 = 0
    · obtain ⟨-, rfl⟩ := Prefixes.dflt_of_entryAt hk he
      rw [if_pos (hlen.trans hk)]
      exact Prefixes.entryAt_dflt f.dflt k'
    · rw [if_neg (hlen ▸ hk), hkey]
      exact Prefixes.entryAt_del h.sized.unique hk k'
  ext1 k'
  unfold stored
  rw [hentry]
  by_cases hk : k' = k
  · rw [if_pos hk, hk, update_self]
    rfl
  · rw [if_neg hk, update_of_ne hk]

end Kept

/-- No prefix is sent twice. -/
theorem Kept.nodup (h : f.Kept) : ((exported f).map FibNode.key).Nodup := by
  have hlen : ∀ i, ∀ n ∈ fibEntries f i, n.len = i := by
    intro i n hn
    unfold fibEntries at hn
    split_ifs at hn with hi
    · obtain ⟨e, he, rfl⟩ := List.mem_map.mp hn
      exact (h.sized.len_zero e (by simpa using he)).trans hi.symm
    · obtain ⟨e, he, rfl⟩ := List.mem_map.mp hn
      exact of_decide_eq_true (List.mem_filter.mp (List.mem_reverse.mp he)).2
  unfold exported
  rw [List.map_flatMap, List.nodup_flatMap]
  refine ⟨fun i _ => ?_, ?_⟩
  · unfold fibEntries
    split_ifs
    · cases f.dflt with
      | none => exact List.nodup_nil
      | some e => exact List.nodup_singleton _
    · -- the entries of a length have different addresses
      have hunique : ((f.e.filter fun e => e.len = i).map FibEntry.key).Nodup :=
        h.sized.unique.sublist (List.filter_sublist.map _)
      rw [List.map_map, List.map_reverse, List.nodup_reverse]
      exact hunique
  · refine List.pairwise_lt_range.imp fun {i j} hij => ?_
    intro k hki hkj
    obtain ⟨n, hn, rfl⟩ := List.mem_map.mp hki
    obtain ⟨n', hn', hkey⟩ := List.mem_map.mp hkj
    have hkeylen : n'.len = n.len := congrArg Prod.fst hkey
    rw [hlen i n hn, hlen j n' hn'] at hkeylen
    exact absurd hkeylen hij.ne'

/-- A change of an entry in place that leaves its route. -/
theorem stored_modify {g : FibEntry → FibEntry} (hkey : ∀ e, (g e).key = e.key)
    (hg : ∀ e, (g e).toFibNode.stored = e.toFibNode.stored) (k : ℕ × Ip4) :
    (f.modify k g).stored = f.stored := by
  ext1 k'
  unfold stored entryAt Prefixes.entryAt
  by_cases hk : k'.1 = 0
  · rw [if_pos hk, if_pos hk]
    rfl
  · rw [if_neg hk, if_neg hk]
    unfold modify
    dsimp only
    rw [Keyed.find_modify hkey, Option.map_map]
    refine congrArg (Option.map · _) (funext fun e => ?_)
    rw [Function.comp_apply]
    split_ifs
    · exact hg e
    · rfl

theorem stored_setGroupId (f : Fib) (gid : ℤ) (ref : FibRef) :
    (f.setGroupId gid ref).stored = f.stored := by
  cases ref with
  | dflt =>
    ext1 k
    unfold stored entryAt Prefixes.entryAt setGroupId
    by_cases hk : k.1 = 0
    · rw [if_pos hk, if_pos hk]
      split_ifs
      · exact Option.map_map ..
      · rfl
    · rw [if_neg hk, if_neg hk]
  | entry k =>
    unfold setGroupId
    exact stored_modify (by exact fun _ => rfl) (by exact fun _ => rfl) k
  | child k addr =>
    unfold setGroupId
    exact stored_modify (by exact fun _ => rfl) (by exact fun _ => rfl) k

theorem stored_fibRoute (f : Fib) (a : Ip4) : (fibRoute f a).2.stored = f.stored := by
  rcases route_cases f a with hsame | ⟨e, -, -, -, hroute⟩
  · rw [hsame]
  · rw [hroute]
    exact stored_modify (by exact fun _ => rfl) (by exact fun _ => rfl) e.key

end Fib

namespace Router

variable {env : RouteEnv} {s s' : Router} {rt : Route}

/-! ## Single calls -/

/-- `route_del` takes the prefix away. -/
theorem routeDel_stored (h : s.fib.Kept) (halen : rt.alen ≤ 32) : ∃ s', s.routeDel rt = .ok s' ∧
    s'.fib.Kept ∧ s'.fib.stored = update s.fib.stored rt.key none := by
  rcases routeDel_cases h.sized rt with ⟨hlt, -⟩ | ⟨-, s', hdel, hsized, -⟩
  · exact absurd hlt (not_lt.mpr halen)
  refine ⟨s', hdel, ⟨hsized, made_routeDel h.made hdel⟩, ?_⟩
  obtain ⟨r, hget, rfl⟩ := Except.map_eq_ok_iff.mp hdel
  have hentry : s.fib.entryAt rt.key = r := Fib.entryAt_of_fibGet hget
  cases r with
  | none =>
    have hnone : s.fib.stored rt.key = none := congrArg (Option.map _) hentry
    rw [← hnone, Function.update_eq_self]
  | some e =>
    dsimp only
    rw [fibDelEntryWithChildren_fib]
    exact h.stored_remove hentry

/-- `route_add` of a counted route. -/
theorem routeAdd_stored (h : s.fib.Kept) (ht : rt.Typed) (halen : rt.alen ≤ 32)
    (hcounted : s.fib.AddCounted rt) : ∃ s', s.routeAdd rt = .ok s' ∧
    s'.fib.Kept ∧ s'.fib.stored = s.fib.stored.add rt := by
  obtain ⟨s', hadd, hsized⟩ := announced_ok h.sized trapEntry halen hcounted
  refine ⟨s', hadd, ⟨hsized, made_routeAdd h.made ht hadd⟩, ?_⟩
  obtain ⟨f', hf', rfl⟩ := Except.map_eq_ok_iff.mp hadd
  rw [announceRoute_fib]
  exact Fib.stored_add (fun e he => (h.key_dflt he).2) hf'

/-- `route_handle_udaddr` leaves the routes. -/
theorem routeHandleUdaddr_stored (h : s.fib.Kept) (env : RouteEnv) (daddr : Ip4) (junk : ℕ → ℤ) :
    ∃ s', s.routeHandleUdaddr env daddr junk = .ok s' ∧ s'.fib.Kept ∧
      s'.fib.stored = s.fib.stored := by
  obtain ⟨hoob, hsized⟩ := routeHandleUdaddr_stays h.sized env daddr junk
  rcases routeHandleUdaddr_outcome env s daddr junk with herr | ⟨s', hs, hfib⟩
  · exact absurd herr hoob
  · refine ⟨s', hs, ⟨hsized s' hs, made_routeHandleUdaddr h.made hs⟩, ?_⟩
    rw [← Fib.stored_fibRoute s.fib daddr]
    rcases hfib with hfib | ⟨gid, ref, hfib⟩
    · rw [hfib]
    · rw [hfib, Fib.stored_setGroupId]

/-! ## The routes of the unit are dropped -/

/-- `fib_clear_routing`. The local variable `route` holds `junk` before it is assigned. -/
def fibClearRouting (s : Router) (junk : FibNode → Route) : Except Fault Router :=
  (exported s.fib).foldlM (fun s n => (fibToRoute n (junk n)).bind fun rt => s.routeDel rt) s

/-- Each round takes one prefix away. -/
theorem foldlM_routeDel (junk : FibNode → Route) {l : List FibNode} (hl : ∀ n ∈ l, n.Made ∧ n.Fits)
    (h : s.fib.Kept) :
    ∃ s', l.foldlM (fun s n => (fibToRoute n (junk n)).bind fun rt => s.routeDel rt) s = .ok s' ∧
    s'.fib.Kept ∧
      ∀ k, s'.fib.stored k = if k ∈ l.map FibNode.key then none else s.fib.stored k := by
  induction l generalizing s with
  | nil => exact ⟨s, rfl, h, fun k => (if_neg List.not_mem_nil).symm⟩
  | cons n l ih =>
    obtain ⟨⟨hmade, hfits⟩, hl⟩ := List.forall_mem_cons.mp hl
    have hroute : ∃ rt, fibToRoute n (junk n) = .ok rt ∧ rt.alen = n.len ∧ rt.addr = n.pfx := by
      have hlists : ¬(8 < n.gw.length ∨ 8 < n.vid.length) := by
        have hle := hfits.le
        have hvid := hfits.vid
        omega
      exact ⟨_, if_neg hlists, rfl, rfl⟩
    obtain ⟨rt, hrt, halen, haddr⟩ := hroute
    have hkey : rt.key = n.key := by
      unfold Route.key
      rw [halen, haddr, ← hmade.addr]
      rfl
    obtain ⟨s₁, hdel, h₁, hstored⟩ := routeDel_stored h (halen.trans_le hmade.len)
    obtain ⟨s', hs', h', hrest⟩ := ih hl h₁
    refine ⟨s', ?_, h', fun k => ?_⟩
    · rw [List.foldlM_cons, hrt]
      change (s.routeDel rt).bind _ = _
      rw [hdel]
      exact hs'
    · rw [hrest, hstored, hkey, List.map_cons]
      by_cases hk : k = n.key
      · subst hk
        rw [update_self, ite_self, if_pos List.mem_cons_self]
      · rw [update_of_ne hk]
        simp only [List.mem_cons, hk, false_or]

/-- Only routes of length 32 are left. -/
theorem fibClearRouting_stored (h : s.fib.Kept) (junk : FibNode → Route) : ∃ s',
    s.fibClearRouting junk = .ok s' ∧ s'.fib.Kept ∧
    ∀ k, s'.fib.stored k = if k.1 < 32 then none else s.fib.stored k := by
  obtain ⟨s', hs', h', hstored⟩ := foldlM_routeDel junk (l := exported s.fib) (fun n hn =>
    ⟨h.made n (Fib.mem_nodes_of_exported hn), h.sized.fits n (Fib.mem_nodes_of_exported hn)⟩) h
  refine ⟨s', hs', h', fun k => ?_⟩
  rw [hstored]
  by_cases hk : k.1 < 32
  · rw [if_pos hk]
    split_ifs with hmem
    · rfl
    · -- a route that is there would have been dropped
      cases hr : s.fib.stored k with
      | none => rfl
      | some r =>
        obtain ⟨n, hn, hkey, -⟩ := (h.stored_eq_some_iff hk).mp hr
        exact absurd (hkey ▸ List.mem_map_of_mem hn) hmem
  · rw [if_neg hk, if_neg]
    intro hmem
    obtain ⟨n, hn, rfl⟩ := List.mem_map.mp hmem
    rcases Fib.mem_exported.mp hn with ⟨e, he, rfl⟩ | ⟨e, -, -, hlt, rfl⟩
    · have hlen : e.len = 0 := h.sized.len_zero e he
      exact hk (hlen.trans_lt (by decide))
    · exact hk hlt

end Router

/-! ## The routes of the master are added -/

theorem Stored.addGws_zipWith {p : Ip4} {a as : List Ip4} {v vs : List ℕ}
    (hlen : as.length = vs.length)
    (hnodup : (a ++ as).Nodup) :
    Stored.addGws ⟨p, a, v⟩ (List.zipWith Gw.mk as vs) = ⟨p, a ++ as, v ++ vs⟩ := by
  induction as generalizing a v vs with
  | nil =>
    obtain rfl := List.length_eq_zero_iff.mp hlen.symm
    rw [List.append_nil, List.append_nil]
    rfl
  | cons x as ih =>
    cases vs with
    | nil => cases hlen
    | cons y vs =>
      have hnew : ¬a.contains x := by
        rw [List.contains_iff_mem]
        exact fun hx => (List.nodup_append.mp hnodup).2.2 x hx x List.mem_cons_self rfl
      have hone : Stored.addGw ⟨p, a, v⟩ ⟨x, y⟩ = ⟨p, a ++ [x], v ++ [y]⟩ := if_neg hnew
      have hrest := ih (a := a ++ [x]) (v := v ++ [y]) (Nat.succ.inj hlen) (by simpa using hnodup)
      rw [List.append_assoc, List.append_assoc] at hrest
      rw [List.zipWith_cons_cons, Stored.addGws, List.foldl_cons, hone]
      exact hrest

/-- The gateways that are copied from the message of an entry. -/
theorem FibNode.take_routeMsg {n : FibNode} (h : n.Fits) (junk : Fin 8 → Gw) :
    (List.ofFn (n.routeMsg.rt junk).gw).take (n.routeMsg.rt junk).gw_count =
      List.zipWith Gw.mk n.gw n.vid := by
  have hcount : (n.routeMsg.rt junk).gw_count = n.vid.length := rfl
  have hle := h.le
  have hvid := h.vid
  apply List.ext_getElem
  · rw [List.length_take, List.length_ofFn, List.length_zipWith, hcount, hvid]
    omega
  · intro i hi hi'
    rw [List.length_zipWith] at hi'
    have hlt : i < n.routeMsg.gw_count := (lt_min_iff.mp hi').2
    rw [List.getElem_take, List.getElem_ofFn]
    unfold RtbdRouteMsg.rt
    dsimp only
    rw [if_pos hlt]
    exact List.getD_eq_getElem ..

namespace Router

variable {env : RouteEnv} {s s' : Router}

/-- A route that the unit does not have is added as the master has it. -/
theorem rcnRoute_routeMsg (h : s.fib.Kept) (env : RouteEnv) {n : FibNode} (hmade : n.Made)
    (heven : n.Even)
    (hfits : n.Fits) (hnone : s.fib.stored n.key = none) (junk : Fin 8 → Gw) (junkIdx : ℕ → ℤ) :
    ∃ s', s.rcnRoute env n.routeMsg junk junkIdx = .ok s' ∧ s'.fib.Kept ∧
      s'.fib.stored = update s.fib.stored n.key (some n.stored) := by
  have hle : n.vid.length ≤ 8 := hfits.vid ▸ hfits.le
  have hcopy : n.routeMsg.copyGws junk = .ok (n.routeMsg.rt junk) := if_neg (not_lt.mpr hle)
  have hkey : (n.routeMsg.rt junk).key = n.key := by
    have haddr := hmade.addr
    exact Prod.ext rfl haddr.symm
  -- the VLANs of the message fit into two bytes
  have ht : (n.routeMsg.rt junk).Typed := by
    intro i hi
    have hlt : i.1 < n.vid.length := hi
    have hgw : (n.routeMsg.rt junk).gw i = (List.zipWith Gw.mk n.gw n.vid).getD i ⟨0, 0⟩ :=
      if_pos hi
    have hzip : i.1 < (List.zipWith Gw.mk n.gw n.vid).length := by
      rw [List.length_zipWith, hfits.vid, Nat.min_self]
      exact hlt
    rw [hgw, List.getD_eq_getElem _ _ hzip, List.getElem_zipWith]
    exact hmade.vids _ (List.getElem_mem _)
  have hzeroKey : n.len = 0 → n.key = (0, 0) := by
    intro hzero
    have haddr := hmade.addr
    rw [hzero, hmade.dflt hzero, masked_zero] at haddr
    exact Prod.ext hzero haddr
  have hentry : s.fib.entryAt n.key = none := Option.map_eq_none_iff.mp hnone
  -- the default entry or the prefix is gone, so the gateways are counted anew
  have hgone : s.fib.AddCounted (n.routeMsg.rt junk) := by
    have hpos : 1 ≤ n.vid.length := hfits.vid ▸ hfits.pos
    refine (Fib.addCounted_of_gone (fun hzero => ?_) fun hne => ?_).mpr ⟨hpos, hle⟩
    · have hzero : n.len = 0 := hzero
      have hk : n.key = (0, 0) := by
        have haddr := hmade.addr
        rw [hzero, hmade.dflt hzero, masked_zero] at haddr
        exact Prod.ext hzero haddr
      rw [hk] at hentry
      exact hentry
    · rw [hkey]
      exact (Fib.entryAt_of_pos hne).symm.trans hentry
  obtain ⟨s', hadd, h', hstored⟩ := routeAdd_stored h ht hmade.len hgone
  refine ⟨s', ?_, h', ?_⟩
  · unfold rcnRoute
    rw [hcopy]
    exact hadd
  · rw [hstored]
    unfold FibTable.add
    dsimp only
    rw [FibNode.take_routeMsg hfits junk]
    have hnew : ∀ p, Stored.addGws ⟨p, [], []⟩ (List.zipWith Gw.mk n.gw n.vid) = ⟨p, n.gw, n.vid⟩ :=
      fun p => Stored.addGws_zipWith hfits.vid heven.nodup
    -- the default route is stored under the zero prefix
    by_cases hzero : n.len = 0
    · have halen : (n.routeMsg.rt junk).alen = 0 := hzero
      rw [if_pos halen, ← hzeroKey hzero, hnone, Option.getD_none, hnew, ← hmade.dflt hzero]
      rfl
    · have halen : (n.routeMsg.rt junk).alen ≠ 0 := hzero
      have hrt : ((n.routeMsg.rt junk).alen,
          masked (n.routeMsg.rt junk).alen (n.routeMsg.rt junk).addr) = n.key :=
        hkey
      rw [if_neg halen, hrt, hnone, Option.isSome_none, if_neg Bool.false_ne_true, hnew]
      rfl

end Router

/-- What comes to a unit that joins: a message with a route, an address that is looked up, or an
answer about a gateway, with what the local variables of the handlers hold. -/
inductive JoinOp
  | rt (data : List UInt8) (junk : Fin 8 → Gw) (junkIdx : ℕ → ℤ)
  | udt (daddr : Ip4) (junkIdx : ℕ → ℤ)
  | na (gw : Gw) (mac : Mac) (vif : ℕ) (arpOk : Bool)
  | udtIpv6 (daddr : Ip6)
  | naIpv6 (gw : GwV6) (mac : Mac) (vif : ℕ) (arpOk reOk : Bool)

/-- The data of a message with a route. -/
def JoinOp.rt? : JoinOp → Option (List UInt8)
  | .rt data _ _ => some data
  | _ => none

/-- The entries whose record has `type` `AF_INET`. -/
def RtbdLayout.received (L : RtbdLayout) (mem : ℕ → UInt8) : List FibNode → ℕ → List FibNode
  | [], _ => []
  | e :: es, r1 =>
    (if L.typeAt mem r1 = AF_INET then [e] else []) ++ received L mem es (r1 + L.recordSize e)

theorem RtbdLayout.received_subset (L : RtbdLayout) (mem : ℕ → UInt8) {es : List FibNode} {r1 : ℕ} :
    ∀ n ∈ L.received mem es r1, n ∈ es := by
  induction es generalizing r1 with
  | nil => exact fun n hn => hn
  | cons e es ih =>
    intro n hn
    rcases List.mem_append.mp hn with hn | hn
    · split_ifs at hn
      · exact List.mem_singleton.mp hn ▸ List.mem_cons_self
      · exact absurd hn List.not_mem_nil
    · exact List.mem_cons_of_mem _ (ih n hn)

theorem RtbdLayout.mem_map_received (L : RtbdLayout) (mem : ℕ → UInt8) {e : FibNode}
    {es : List FibNode} {r1 : ℕ}
    {k : ℕ × Ip4} : k ∈ (L.received mem (e :: es) r1).map FibNode.key ↔
      L.typeAt mem r1 = AF_INET ∧ k = e.key ∨
        k ∈ (L.received mem es (r1 + L.recordSize e)).map FibNode.key := by
  rw [received, List.map_append, List.mem_append]
  refine or_congr_left ?_
  split_ifs with htype
  · simp [htype]
  · simp [htype]

namespace Ipv6Routing

variable (L : RtbdLayout) (env : RouteEnv) (t : Ipv6Routing)

/-- The handler of `SC_INT_RTBD_CMD`. -/
def scIntRtbdCmd (data : List UInt8) (junk : Fin 8 → Gw) (junkIdx : ℕ → ℤ) :
    Except Fault Ipv6Routing :=
  match L.receive data with
  | none => .error .outOfBounds
  | some (.route m) => t.unitCall env (.ipv4 (.scIntRtbdCmd m junk junkIdx))
  | some (.routeV6 m) =>
    match m.op with
    | .RRTO_ADD => t.unitCall env (.routeAddV6 m.dst m.dst_len m.vid m.gw)
    | .RRTO_DEL => t.unitCall env (.routeDelV6 m.dst m.dst_len)
    | _ => .ok t
  | some .ignored => .ok t

/-- The handlers of `SC_INT_RTBD_CMD`, `SC_INT_UDT_CMD`, `SC_INT_NA_CMD`, `SC_INT_UDT_IPV6_CMD` and
`SC_INT_NA_IPV6_CMD`. -/
def joinCall : JoinOp → Except Fault Ipv6Routing
  | .rt data junk junkIdx => t.scIntRtbdCmd L env data junk junkIdx
  | .udt daddr junkIdx => t.unitCall env (.ipv4 (.routeHandleUdaddr daddr junkIdx))
  | .na gw mac vif arpOk => t.unitCall env (.arpcSetMacAddr gw mac vif arpOk)
  | .udtIpv6 daddr => t.unitCall env (.routeHandleIpv6Udaddr daddr)
  | .naIpv6 gw mac vif arpOk reOk => t.unitCall env (.ndpcSetMacAddr gw mac vif arpOk reOk)

/-- What a new unit does: it drops its routes, and handles what comes. -/
def joinUnit (junk : FibNode → Route) (calls : List JoinOp) : Except Fault Ipv6Routing :=
  (t.uc.fibClearRouting junk).bind fun uc => calls.foldlM (joinCall L env) { t with uc := uc }

variable {L env t} {t' : Ipv6Routing} {mem m : ℕ → UInt8} {r1 : ℕ}

/-- The message of an entry that the unit does not have. -/
theorem scIntRtbdCmd_record (h : t.uc.fib.Kept) (env : RouteEnv) {n : FibNode} (hmade : n.Made)
    (heven : n.Even) (hfits : n.Fits) (hnone : t.uc.fib.stored n.key = none) {data : List UInt8}
    (hdata : L.receive data = some (if L.typeAt mem r1 = AF_INET then .route n.routeMsg
      else if L.typeAt mem r1 = AF_INET6 then .routeV6 (L.routeV6At m n r1) else .ignored))
    (junk : Fin 8 → Gw) (junkIdx : ℕ → ℤ) :
    ∃ t', t.scIntRtbdCmd L env data junk junkIdx = .ok t' ∧ t'.uc.fib.Kept ∧ t'.uc.fib.stored =
      if L.typeAt mem r1 = AF_INET then update t.uc.fib.stored n.key (some n.stored)
      else t.uc.fib.stored := by
  unfold scIntRtbdCmd
  rw [hdata]
  split_ifs
  · obtain ⟨s', hs', hkept, hstored⟩ :=
      Router.rcnRoute_routeMsg h env hmade heven hfits hnone junk junkIdx
    exact ⟨{ t with uc := s' }, Except.map_eq_ok_iff.mpr ⟨s', hs', rfl⟩, hkept, hstored⟩
  · -- an IPv6 route, of a length that the assertion lets pass
    have hlen : ¬128 < n.len := by
      have hle := hmade.len
      omega
    obtain ⟨t', ht'⟩ : ∃ t', t.routeAddV6 (L.routeV6At m n r1).dst n.len (L.routeV6At m n r1).vid
        (L.routeV6At m n r1).gw = some t' := by
      obtain ⟨f, hf⟩ : ∃ f, fibIpv6Add t.uc.fib_ipv6 (L.routeV6At m n r1).dst n.len
          (L.routeV6At m n r1).vid (L.routeV6At m n r1).gw = some f := by
        unfold fibIpv6Add
        rw [if_neg hlen]
        split_ifs
        · exact ⟨_, rfl⟩
        · cases t.uc.fib_ipv6.hashFind (n.len, maskedIpv6 n.len (L.routeV6At m n r1).dst) with
          | none => exact ⟨_, rfl⟩
          | some e => exact ⟨_, rfl⟩
      exact ⟨_, by rw [routeAddV6, hf, Option.map_some]⟩
    have hfib := routeAddV6_fib ht'
    refine ⟨t', ?_, hfib ▸ h, by rw [hfib]⟩
    change (t.routeAddV6 (L.routeV6At m n r1).dst n.len (L.routeV6At m n r1).vid
      (L.routeV6At m n r1).gw).elim _ _ = _
    rw [ht']
    rfl
  · exact ⟨t, rfl, h, rfl⟩

/-- Messages without a route leave the routes. -/
theorem joinCall_stored (h : t.uc.fib.Kept) (env : RouteEnv) {call : JoinOp}
    (hcall : call.rt? = none) :
    ∃ t', t.joinCall L env call = .ok t' ∧ t'.uc.fib.Kept ∧ t'.uc.fib.stored = t.uc.fib.stored := by
  have hsame : ∀ (op : RoutingOp) {t'}, (∀ op', op ≠ .ipv4 op') → t.unitCall env op = .ok t' →
      t'.uc.fib.Kept ∧ t'.uc.fib.stored = t.uc.fib.stored := by
    intro op t' hop ht'
    rw [unitCall_fib hop ht']
    exact ⟨h, rfl⟩
  cases call with
  | rt data junk junkIdx => cases hcall
  | udt daddr junkIdx =>
    obtain ⟨s', hs', hkept, hstored⟩ := Router.routeHandleUdaddr_stored h env daddr junkIdx
    exact ⟨{ t with uc := s' }, Except.map_eq_ok_iff.mpr ⟨s', hs', rfl⟩, hkept, hstored⟩
  | na gw mac vif arpOk => exact ⟨_, rfl, hsame (.arpcSetMacAddr gw mac vif arpOk) nofun rfl⟩
  | udtIpv6 daddr => exact ⟨_, rfl, hsame (.routeHandleIpv6Udaddr daddr) nofun rfl⟩
  | naIpv6 gw mac vif arpOk reOk =>
    exact ⟨_, rfl, hsame (.ndpcSetMacAddr gw mac vif arpOk reOk) nofun rfl⟩

/-- The unit adds the routes that it reads. -/
theorem foldlM_joinCall (mem m : ℕ → UInt8) (env : RouteEnv) {es : List FibNode}
    (hes : ∀ n ∈ es, n.Made ∧ n.Even ∧ n.Fits) (hnodup : (es.map FibNode.key).Nodup)
    {M : FibTable} (hM : ∀ n ∈ es, M n.key = some n.stored) (h : t.uc.fib.Kept)
    (hnone : ∀ n ∈ es, t.uc.fib.stored n.key = none) {calls : List JoinOp}
    (hcalls : (calls.filterMap JoinOp.rt?).mapM L.receive = some (L.cmds mem m es r1)) : ∃ t',
    calls.foldlM (joinCall L env) t = .ok t' ∧ t'.uc.fib.Kept ∧ ∀ k, t'.uc.fib.stored k =
      if k ∈ (L.received mem es r1).map FibNode.key then M k else t.uc.fib.stored k := by
  -- on the calls, with the records that are still to come
  induction calls generalizing t es r1 with
  | nil =>
    cases es with
    | nil => exact ⟨t, rfl, h, fun k => (if_neg List.not_mem_nil).symm⟩
    | cons n es => cases hcalls
  | cons call calls ih =>
    cases hrt : call.rt? with
    -- a call that is no record changes no prefix
    | none =>
      rw [List.filterMap_cons_none hrt] at hcalls
      obtain ⟨t₁, ht₁, h₁, hstored₁⟩ := joinCall_stored (L := L) h env hrt
      obtain ⟨t', ht', h', hrest⟩ := ih hes hnodup hM h₁ (hstored₁ ▸ hnone) hcalls
      refine ⟨t', ?_, h', fun k => by rw [hrest, hstored₁]⟩
      rw [List.foldlM_cons]
      change (t.joinCall L env call).bind _ = _
      rw [ht₁]
      exact ht'
    | some data =>
      obtain ⟨junk, junkIdx, rfl⟩ : ∃ junk junkIdx, call = .rt data junk junkIdx := by
        cases call with
        | rt data' junk junkIdx => exact ⟨junk, junkIdx, by rw [Option.some_inj.mp hrt]⟩
        | _ => cases hrt
      rw [List.filterMap_cons_some hrt, List.mapM_cons] at hcalls
      obtain ⟨c, hc, hcalls⟩ := Option.bind_eq_some_iff.mp hcalls
      obtain ⟨cs, hcs, hcalls⟩ := Option.bind_eq_some_iff.mp hcalls
      -- the record is the next entry of the master
      cases es with
      | nil => cases hcalls
      | cons n es =>
        obtain ⟨rfl, rfl⟩ := List.cons.inj (Option.some_inj.mp hcalls)
        obtain ⟨⟨hmade, heven, hfits⟩, hes⟩ := List.forall_mem_cons.mp hes
        obtain ⟨hn, hM⟩ := List.forall_mem_cons.mp hM
        obtain ⟨hnone_n, hnone⟩ := List.forall_mem_cons.mp hnone
        obtain ⟨hfresh, hnodup⟩ := List.nodup_cons.mp hnodup
        obtain ⟨t₁, ht₁, h₁, hstored⟩ :=
          scIntRtbdCmd_record h env hmade heven hfits hnone_n hc junk junkIdx
        have hother : ∀ k, k ≠ n.key → t₁.uc.fib.stored k = t.uc.fib.stored k := by
          intro k hk
          rw [hstored]
          split_ifs
          · exact update_of_ne hk _ _
          · rfl
        obtain ⟨t', ht', h', hrest⟩ := ih hes hnodup hM h₁ (fun n' hn' => by
          rw [hother n'.key fun heq => hfresh (heq ▸ List.mem_map_of_mem hn')]
          exact hnone n' hn') hcs
        refine ⟨t', ?_, h', fun k => ?_⟩
        · rw [List.foldlM_cons]
          change (t.scIntRtbdCmd L env data junk junkIdx).bind _ = _
          rw [ht₁]
          exact ht'
        · rw [hrest]
          simp only [RtbdLayout.mem_map_received]
          -- the entry of the record itself, and then all others
          by_cases hk : k = n.key
          · have hnot : n.key ∉ (L.received mem es (r1 + L.recordSize n)).map FibNode.key := by
              intro hmem
              obtain ⟨n', hn', hkey⟩ := List.mem_map.mp hmem
              exact hfresh (hkey ▸ List.mem_map_of_mem (L.received_subset mem n' hn'))
            rw [hk, if_neg hnot, hstored]
            by_cases htype : L.typeAt mem r1 = AF_INET
            · rw [if_pos htype, if_pos (.inl ⟨htype, rfl⟩), update_self, hn]
            · rw [if_neg htype, if_neg fun hor => hor.elim (fun h => htype h.1) hnot]
          · rw [hother k hk]
            simp only [hk, and_false, false_or]

/-! ## Both units -/

variable {uc uc' : ℤ → UcRoute} {arp arp' : ℕ → Mac} {ltt ltt' : ℕ × RowColum → Ltt}
  {env' : RouteEnv}
  {s : Ipv6Routing}

/-- Whatever the calls of the master were, if its routes can be counted and sent, then
`fib_get_routes` and `fdbman_sync_routing` stay within their buffers, and from each message the unit
reads the route that it is for, if the memory that nobody wrote says so. -/
theorem sync_round_trip (L : RtbdLayout) (mem : ℕ → UInt8)
    (hr : Reach (unitStep env) (fun _ op => op.Typed) (init (.init uc arp ltt)) s)
    (hroom : ∀ e ∈ exported s.uc.fib, L.HasRoom e) (hn : (exported s.uc.fib).length < 2 ^ 32) :
    ∃ p msgs, fibGetRoutes L s.uc.fib mem = some p ∧ fdbmanSyncRouting L p = some msgs ∧
      msgs.mapM L.receive = some (L.cmds mem p.byte (exported s.uc.fib) 4) := by
  refine sync_of_sendable L mem (fun e he => ?_) hn
  exact (made_of_reach hr e (Fib.mem_nodes_of_exported he)).sendable (hroom e he)

/-- A unit that joins ends with those routes of the master below length 32 whose record has the
`type` `AF_INET` by chance, and with its own ones of length 32, whatever comes between the messages.
If all records have it, the two units have the same routes below length 32. -/
theorem replica_agrees (L : RtbdLayout) (mem : ℕ → UInt8)
    (hr : Reach (unitStep env) OpTyped (init (.init uc arp ltt)) s)
    (hn : (exported s.uc.fib).length < 2 ^ 32)
    (hr' : Reach (unitStep env') OpTyped (init (.init uc' arp' ltt')) t) :
    ∃ p msgs, fibGetRoutes L s.uc.fib mem = some p ∧ fdbmanSyncRouting L p = some msgs ∧
      ∀ junk calls, calls.filterMap JoinOp.rt? = msgs →
        ∃ t', t.joinUnit L env' junk calls = .ok t' ∧
          (∀ k, t'.uc.fib.stored k =
            if k ∈ (L.received mem (exported s.uc.fib) 4).map FibNode.key then s.uc.fib.stored k
            else if k.1 < 32 then none else t.uc.fib.stored k) ∧
          (L.received mem (exported s.uc.fib) 4 = exported s.uc.fib →
            ∀ k, t'.uc.fib.stored k =
              if k.1 < 32 then s.uc.fib.stored k else t.uc.fib.stored k) := by
  have h := kept_of_reach hr
  obtain ⟨p, msgs, hp, hmsgs, hcmds⟩ := sync_of_sendable L mem (h.sendable L) hn
  refine ⟨p, msgs, hp, hmsgs, fun junk calls hcalls => ?_⟩
  -- the unit first gives up what it has below the hosts
  obtain ⟨s₁, hs₁, h₁, hstored₁⟩ := Router.fibClearRouting_stored (kept_of_reach hr') junk
  have hbelow : ∀ n ∈ exported s.uc.fib, n.key.1 < 32 := by
    intro n hn
    rcases Fib.mem_exported.mp hn with ⟨e, he, rfl⟩ | ⟨e, -, -, hlt, rfl⟩
    · have hlen : e.len = 0 := h.sized.len_zero e he
      exact hlen.trans_lt (by decide)
    · exact hlt
  have hmaster : ∀ n ∈ exported s.uc.fib, n.Made ∧ n.Even ∧ n.Fits := fun n hn =>
    have hmem := Fib.mem_nodes_of_exported hn
    ⟨h.made n hmem, h.sized.node n hmem⟩
  -- then it takes over the records, which are made, fit and are not there yet
  obtain ⟨t', ht', -, hstored⟩ := foldlM_joinCall (t := { t with uc := s₁ }) mem p.byte env'
    (M := s.uc.fib.stored) hmaster h.nodup
    (fun n hn => (h.stored_eq_some_iff (hbelow n hn)).mpr ⟨n, hn, rfl, rfl⟩) h₁
    (fun n hn => (hstored₁ n.key).trans (if_pos (hbelow n hn))) (hcalls ▸ hcmds)
  have hfinal : ∀ k, t'.uc.fib.stored k =
      if k ∈ (L.received mem (exported s.uc.fib) 4).map FibNode.key then s.uc.fib.stored k
      else if k.1 < 32 then none else t.uc.fib.stored k := fun k => by rw [hstored, hstored₁]
  refine ⟨t', ?_, hfinal, fun hall k => ?_⟩
  · unfold joinUnit
    rw [hs₁]
    exact ht'
  · -- where all records are received, nothing but the hosts is the unit's own
    rw [hfinal, hall]
    by_cases hk : k.1 < 32
    · rw [if_pos hk, if_pos hk]
      split_ifs with hmem
      · rfl
      · -- a prefix that is not sent has no route
        cases hstored : s.uc.fib.stored k with
        | none => rfl
        | some r =>
          obtain ⟨n, hn, hkey, -⟩ := (h.stored_eq_some_iff hk).mp hstored
          exact absurd (hkey ▸ List.mem_map_of_mem hn) hmem
    · rw [if_neg hk, if_neg hk, if_neg]
      intro hmem
      obtain ⟨n, hn, rfl⟩ := List.mem_map.mp hmem
      exact hk (hbelow n hn)

end Ipv6Routing

/-- Members of two to four bytes, with room for what IPv6 routes need. -/
def RtbdLayout.wide : RtbdLayout where
  header := 16
  notif := 1
  msg := 32
  gws := 32
  hop := 20
  type := ⟨0, 2⟩
  op := ⟨2, 2⟩
  dst := ⟨4, 4⟩
  dst_len := ⟨20, 1⟩
  gw_count := ⟨24, 4⟩
  gw := ⟨0, 4⟩
  vid := ⟨16, 2⟩
  dst_v6 := 4
  gw_v6 := 0
  RCN_ROUTE := 1
  RRTO_ADD := 0
  RRTO_DEL := 1
  RRTO_CHANGE := 2
  notif_le := by decide
  gws_le := le_rfl
  apart := by simp [Buffer.Member.Apart]
  inside := by simp
  hop_apart := Or.inl (by decide)
  hop_inside := by simp
  dst_width := rfl
  gw_width := rfl
  vid_width := rfl
  dst_len_width := le_rfl
  gw_count_width := by decide
  dst_v6_inside := by decide
  gw_v6_inside := by decide
  room := by decide
  notif_lt := by decide
  op_lt := by decide

namespace Ipv6Routing

/-- A connected route, a default route with two gateways, and a host, whose address is then
known. -/
def masterRun : List RoutingOp :=
  [.ipv4 (.rtbd 1 1 ⟨.RRTO_ADD, 0x0A000000, 24, 1, fun _ => ⟨0, 10⟩⟩ (fun _ => ⟨0, 0⟩) fun _ => 0),
    .ipv4 (.rtbd 1 1 ⟨.RRTO_ADD, 0, 0, 2, fun i => ⟨0x0A000001 + i, 10⟩⟩
      (fun _ => ⟨0, 0⟩) fun _ => 0),
    .ipv4 (.routeHandleUdaddr 0x0A000005 fun _ => 0),
    .arpcSetMacAddr ⟨0x0A000005, 10⟩ 0x112233445566 0 true, .routeAddV6 0 0 10 1]

/-- A default route that gets nine gateways by two messages. -/
def nineRun : List RoutingOp :=
  [.ipv4 (.rtbd 1 1 ⟨.RRTO_ADD, 0, 0, 8, fun i => ⟨0x0A000001 + i, 10⟩⟩ (fun _ => ⟨0, 0⟩) fun _ => 0),
    .ipv4 (.rtbd 1 1 ⟨.RRTO_ADD, 0, 0, 1, fun _ => ⟨0x0A000009, 10⟩⟩ (fun _ => ⟨0, 0⟩) fun _ => 0)]

/-- A route that the master does not have, and one of length 32. -/
def unitRun : List RoutingOp :=
  [.ipv4 (.scIntRtbdCmd ⟨.RRTO_ADD, 0x0B000000, 8, 1, fun _ => ⟨0x0A000001, 10⟩⟩ (fun _ => ⟨0, 0⟩)
      fun _ => 0),
    .ipv4 (.scIntRtbdCmd ⟨.RRTO_ADD, 0x0C000001, 32, 1, fun _ => ⟨0x0A000001, 10⟩⟩ (fun _ => ⟨0, 0⟩)
      fun _ => 0)]

theorem sync_round_trip_nineRun : ∃ s : Ipv6Routing,
    (exported s.uc.fib).map (·.gw.length) = [9] ∧ ∃ p msgs,
      fibGetRoutes .wide s.uc.fib (fun _ => 0xFF) = some p ∧ fdbmanSyncRouting .wide p = some msgs ∧
        msgs.mapM RtbdLayout.wide.receive =
          some (RtbdLayout.wide.cmds (fun _ => 0xFF) p.byte (exported s.uc.fib) 4) := by
  have hrun : (run (unitStep .onePort) (fun _ op => op.Typed) emptyRouting nineRun).map
      (fun s => (exported s.uc.fib).map (·.gw.length)) = some [9] := by decide +kernel
  obtain ⟨s, hs, hlength⟩ := Option.map_eq_some_iff.mp hrun
  have hroom : ∀ e ∈ exported s.uc.fib, RtbdLayout.wide.HasRoom e := by
    intro e he
    have hnine : e.gw.length = 9 := by
      have hmem : e.gw.length ∈ (exported s.uc.fib).map (·.gw.length) := List.mem_map_of_mem he
      simpa [hlength] using hmem
    exact ⟨by omega, by rw [hnine]; decide, by rw [hnine]; decide⟩
  have hlen : (exported s.uc.fib).length = 1 := by
    rw [← List.length_map (f := fun e : FibNode => e.gw.length), hlength, List.length_singleton]
  exact ⟨s, hlength, sync_round_trip .wide (fun _ => 0xFF) (Reach.init.of_run hs) hroom
    (hlen.trans_lt (by decide))⟩

theorem replica_agrees_unitRun : ∃ s t : Ipv6Routing,
    s.uc.fib.stored (24, 0x0A000000) = some ⟨0x0A000000, [0], [10]⟩ ∧
    t.uc.fib.stored (32, 0x0C000001) = some ⟨0x0C000001, [0x0A000001], [10]⟩ ∧
    ∃ p msgs, fibGetRoutes .wide s.uc.fib (fun q => if q % 2 = 0 then 2 else 0) = some p ∧
      fdbmanSyncRouting .wide p = some msgs ∧ ∀ junk calls, calls.filterMap JoinOp.rt? = msgs →
        ∃ t', t.joinUnit .wide .onePort junk calls = .ok t' ∧ ∀ k, t'.uc.fib.stored k =
          if k.1 < 32 then s.uc.fib.stored k else t.uc.fib.stored k := by
  have hmaster : (run (unitStep .onePort) OpTyped emptyRouting masterRun).map (fun s =>
      (decide (RtbdLayout.wide.received (fun q => if q % 2 = 0 then 2 else 0) (exported s.uc.fib) 4 =
          exported s.uc.fib),
        (exported s.uc.fib).length, s.uc.fib.stored (24, 0x0A000000))) =
      some (true, 2, some ⟨0x0A000000, [0], [10]⟩) := by decide +kernel
  have hunit : (run (unitStep .onePort) OpTyped emptyRouting unitRun).map (fun t =>
      t.uc.fib.stored (32, 0x0C000001)) = some (some ⟨0x0C000001, [0x0A000001], [10]⟩) := by
    decide +kernel
  obtain ⟨s, hs, hprobe⟩ := Option.map_eq_some_iff.mp hmaster
  obtain ⟨t, ht, hhost⟩ := Option.map_eq_some_iff.mp hunit
  have hall := of_decide_eq_true (congrArg Prod.fst hprobe)
  have hlength : (exported s.uc.fib).length = 2 := congrArg (·.2.1) hprobe
  obtain ⟨p, msgs, hp, hmsgs, hjoin⟩ := replica_agrees .wide _
    (Reach.init.of_run hs) (hlength.trans_lt (by decide)) (Reach.init.of_run ht)
  refine ⟨s, t, congrArg (·.2.2) hprobe, hhost, p, msgs, hp, hmsgs, fun junk calls hcalls => ?_⟩
  obtain ⟨t', ht', -, hstored⟩ := hjoin junk calls hcalls
  exact ⟨t', ht', hstored hall⟩

end Ipv6Routing

end Presteramgr
