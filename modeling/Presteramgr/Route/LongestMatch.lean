import Presteramgr.Lib.Guarded
import Presteramgr.Lib.PrefixTable
import Presteramgr.Route.Owners

/-!
# Longest-prefix match in the forwarding information base (`fib.c`)

The FIB as a table on its own: `fib_add`, `fib_del` and `fib_route` in any order.

## Main definitions

* `Stored`, `FibTable`: what the table is to hold, a function from prefixes to routes;
* `Fib.stored`: what it holds;
* `FibTable.RoutesTo`: what a lookup is to return.

## Main results

* `Fib.step_stored`: the FIB holds what it is to hold;
* `Fib.longest_prefix_match`: lookups find the longest prefix, the hosts of connected routes are
  always the same ones, and lookups do not disturb each other.
-/

namespace Presteramgr

open Function (update update_self update_of_ne)
open Prefixes (Longest select Covers)

/-! ### What the table is to hold -/

/-- A route as it was added: the address before it was masked, and its gateways. -/
structure Stored where
  pfx : Ip4
  gw : List Ip4
  vid : List ℕ
deriving DecidableEq, Repr

/-- A gateway whose address is new joins the others. -/
def Stored.addGw (r : Stored) (g : Gw) : Stored :=
  if r.gw.contains g.addr then r else { r with gw := r.gw ++ [g.addr], vid := r.vid ++ [g.vid] }

/-- A route with the gateways of a list. -/
def Stored.addGws (r : Stored) (gws : List Gw) : Stored := gws.foldl Stored.addGw r

/-- The route by length and masked address. The default route is that of `(0, 0)`. -/
abbrev FibTable := ℕ × Ip4 → Option Stored

/-- The calls. -/
inductive FibOp
  | add (rt : Route)
  | del (addr : Ip4) (len : ℕ)
  | route (addr : Ip4)

/-- A call that deletes the route of a prefix. -/
def FibOp.Deletes (op : FibOp) (k : ℕ × Ip4) : Prop :=
  match op with
  | .del addr len => (len, masked len addr) = k
  | .add _ => False
  | .route _ => False

namespace FibTable

/-- A route is added where there is none for its prefix. The default route takes the gateways that
are new. -/
def add (t : FibTable) (rt : Route) : FibTable :=
  let gws := (List.ofFn rt.gw).take rt.gw_count
  if rt.alen = 0 then update t (0, 0) (some (((t (0, 0)).getD ⟨0, [], []⟩).addGws gws))
  else if (t (rt.alen, masked rt.alen rt.addr)).isSome then t
  else update t (rt.alen, masked rt.alen rt.addr) (some (Stored.addGws ⟨rt.addr, [], []⟩ gws))

/-- What a call does to the table. -/
def step (t : FibTable) : FibOp → FibTable
  | .add rt => t.add rt
  | .del addr len => update t (len, masked len addr) none
  | .route _ => t

/-- What a lookup of `a` is to return: nothing if no prefix has the address, else the longest
prefix; where this is a connected route, other than the default route, its host. -/
def RoutesTo (t : FibTable) (a : Ip4) : Option (FibRef × FibNode) → Prop
  | none => ∀ k, (t k).isSome → ¬Covers masked k a
  | some (ref, n) => ∃ k r, t k = some r ∧ Longest masked t a k ∧
    if k.1 ≠ 0 ∧ r.gw = [0] then
      ref = .child k a ∧ n = ⟨a, a, [a], r.vid, 32, n.group_id, n.ret_key⟩
    else
      ref = (if k.1 = 0 then .dflt else .entry k) ∧
        n = ⟨k.2, r.pfx, r.gw, r.vid, k.1, n.group_id, n.ret_key⟩

end FibTable

/-! ### What the table holds -/

/-- `fib_del`: the value that it returns, and the table. -/
def fibDel (f : Fib) (addr : Ip4) (len : ℕ) : Except Fault (Bool × Fib) :=
  (fibGet f addr len).map fun
    | some e => (true, f.remove e)
    | none => (false, f)

/-- The route of a node. -/
def FibNode.stored (n : FibNode) : Stored := ⟨n.pfx, n.gw, n.vid⟩

namespace Fib

/-- The table without routes. -/
def empty : Fib := ⟨none, []⟩

/-- A call, `none` where it does not return. -/
def step (f : Fib) : FibOp → Option Fib
  | .add rt => (fibAdd f rt).toOption
  | .del addr len => ((fibDel f addr len).toOption).map Prod.snd
  | .route addr => some (fibRoute f addr).2

/-- The entry of a prefix. -/
def entryAt (f : Fib) (k : ℕ × Ip4) : Option FibEntry := Prefixes.entryAt FibEntry.key f.dflt f.e k

/-- The route of a prefix. -/
def stored (f : Fib) : FibTable := fun k => (f.entryAt k).map fun e => e.toFibNode.stored

/-- The invariant: entries have the keys under which they are found, and the children of an entry
are hosts with its VLANs. -/
structure Sound (f : Fib) : Prop where
  unique : Keyed.Unique FibEntry.key f.e
  len : ∀ e ∈ f.e, 0 < e.len ∧ e.len ≤ 32
  host : ∀ e ∈ f.e, ∀ c ∈ e.children, c = e.newChild c.addr
  dflt : ∀ e, f.dflt = some e → e.len = 0 ∧ e.addr = 0 ∧ e.pfx = 0

variable {f f' : Fib} {k : ℕ × Ip4} {a b : Ip4} {e : FibEntry}

/-- A prefix of positive length is looked for in the list. -/
theorem entryAt_of_pos (hk : k.1 ≠ 0) : f.entryAt k = f.hashFind k := if_neg hk

/-- The entry of a prefix has its key. -/
theorem Sound.key_of_entryAt (h : f.Sound) (he : f.entryAt k = some e) : e.key = k := by
  refine Prefixes.key_of_entryAt (fun e he => ?_) he
  obtain ⟨hlen, haddr, -⟩ := h.dflt e he
  exact Prod.ext hlen haddr

/-- Stored prefixes have at most 32 bits. -/
theorem Sound.len_le (h : f.Sound) (hk : (f.entryAt k).isSome) : k.1 ≤ 32 := by
  obtain ⟨e, he⟩ := Option.isSome_iff_exists.mp hk
  by_cases hlen : k.1 = 0
  · omega
  · rw [← h.key_of_entryAt he]
    exact (h.len e (Prefixes.mem_of_entryAt hlen he)).2

/-! ### Calls -/

/-- More gateways are stored with the node. -/
theorem stored_addGws (n : FibNode) (gws : List Gw) :
    (n.addGws gws).stored = n.stored.addGws gws := by
  induction gws generalizing n with
  | nil => rfl
  | cons g gws ih =>
    refine (ih (n.addGw g)).trans ?_
    have hone : (n.addGw g).stored = n.stored.addGw g := by
      unfold FibNode.addGw Stored.addGw FibNode.stored
      simp only [List.contains_iff_mem]
      split_ifs <;> rfl
    rw [hone]
    rfl

/-- The key of a new entry. -/
theorem key_addGws (addr pfx : Ip4) (len : ℕ) (gws : List Gw) :
    FibEntry.key ⟨FibNode.addGws ⟨addr, pfx, [], [], len, 0, []⟩ gws, []⟩ = (len, addr) :=
  Prod.ext (FibNode.addGws_len _ _) (FibNode.addGws_addr _ _)

/-- The empty table is sound. -/
theorem empty_sound : empty.Sound where
  unique := List.nodup_nil
  len := fun _ he => absurd he List.not_mem_nil
  host := fun _ he => absurd he List.not_mem_nil
  dflt := fun e he => absurd he.symm (Option.some_ne_none e)

/-- What `fib_add` can do: the default route takes the gateways, the route is there already, or a
new entry is made. -/
theorem add_cases {rt : Route} (h : fibAdd f rt = .ok f') :
    (rt.alen = 0 ∧ f' = { f with dflt := some { f.dflt.getD fibEntryNew with
        toFibNode := FibNode.addGws { (f.dflt.getD fibEntryNew).toFibNode with
          addr := 0, pfx := 0, len := 0 } ((List.ofFn rt.gw).take rt.gw_count) } }) ∨
    rt.alen ≠ 0 ∧ rt.alen ≤ 32 ∧
      (((f.hashFind (rt.alen, masked rt.alen rt.addr)).isSome ∧ f' = f) ∨
      (f.hashFind (rt.alen, masked rt.alen rt.addr) = none ∧ f' = { f with
        e := ⟨FibNode.addGws ⟨masked rt.alen rt.addr, rt.addr, [], [], rt.alen, 0, []⟩
          ((List.ofFn rt.gw).take rt.gw_count), []⟩ :: f.e })) := by
  have hgws {gws : List Gw} (h : rt.gws = .ok gws) : gws = (List.ofFn rt.gw).take rt.gw_count := by
    unfold Route.gws at h
    split_ifs at h
    exact (Except.ok.inj h).symm
  unfold fibAdd at h
  split_ifs at h with hlen hzero
  · obtain ⟨gws, hg, rfl⟩ := Except.map_eq_ok_iff.mp h
    obtain rfl := hgws hg
    exact Or.inl ⟨hzero, rfl⟩
  · refine Or.inr ⟨hzero, Nat.not_lt.mp hlen, ?_⟩
    dsimp only at h
    cases hfind : f.hashFind (rt.alen, masked rt.alen rt.addr) with
    | some e =>
      rw [hfind] at h
      exact Or.inl ⟨rfl, (Except.ok.inj h).symm⟩
    | none =>
      rw [hfind] at h
      obtain ⟨gws, hg, rfl⟩ := Except.map_eq_ok_iff.mp h
      obtain rfl := hgws hg
      exact Or.inr ⟨rfl, rfl⟩

/-- The entries of other prefixes stay when one is removed. -/
theorem Sound.entryAt_remove (h : f.Sound) (he : f.entryAt k = some e) (k' : ℕ × Ip4) :
    (f.remove e).entryAt k' = if k' = k then none else f.entryAt k' := by
  have hkey := h.key_of_entryAt he
  have hlen : e.len = k.1 := congrArg Prod.fst hkey
  unfold remove
  by_cases hk : k.1 = 0
  · obtain ⟨-, rfl⟩ := Prefixes.dflt_of_entryAt hk he
    rw [if_pos (hlen.trans hk)]
    exact Prefixes.entryAt_dflt f.dflt k'
  · rw [if_neg (hlen ▸ hk), hkey]
    exact Prefixes.entryAt_del h.unique hk k'

variable (f) in
/-- A route that gets a child. -/
theorem entryAt_addChild (c : FibNode) (hk : k.1 ≠ 0) (k' : ℕ × Ip4) :
    (f.modify k fun x => { x with children := x.children ++ [c] }).entryAt k' =
      (f.entryAt k').map fun x =>
        if k' = k then { x with children := x.children ++ [c] } else x :=
  Prefixes.entryAt_modify FibEntry.key (fun x => { x with children := x.children ++ [c] })
    (fun _ => rfl) hk k'

/-! ### Lookups -/

/-- A prefix is stored when it has an entry. -/
theorem isSome_entryAt (f : Fib) (k : ℕ × Ip4) : (f.entryAt k).isSome = (f.stored k).isSome :=
  Option.isSome_map.symm

/-- The loop of `fib_route` with the default route behind it selects the longest prefix. -/
theorem scan_or_dflt (f : Fib) (a : Ip4) :
    (f.scan 32 a).or f.dflt = select masked f.entryAt a 32 := by
  have htable : f.table = fun k => if k.1 = 0 then none else Keyed.find FibEntry.key f.e k := rfl
  rw [← masked_thirtyTwo a, scan_eq_select le_rfl, masked_thirtyTwo, htable]
  exact (Prefixes.select_entryAt (masked_zero a) 32).symm

/-- What the loop or the default gives is the entry of the longest prefix. -/
theorem Sound.scan_or_dflt_eq_some_iff (h : f.Sound) : (f.scan 32 a).or f.dflt = some e ↔
    ∃ k, Longest masked f.stored a k ∧ f.entryAt k = some e := by
  rw [scan_or_dflt, Prefixes.select_eq_some_iff_longest fun k hk => h.len_le hk]
  refine exists_congr fun k => and_congr_left fun _ => ?_
  exact ⟨fun hl => hl.congr (isSome_entryAt f),
    fun hl => hl.congr fun k => (isSome_entryAt f k).symm⟩

/-- Where the loop and the default give nothing no stored prefix covers the address. -/
theorem Sound.scan_or_dflt_eq_none_iff (h : f.Sound) : (f.scan 32 a).or f.dflt = none ↔
    ∀ k, (f.stored k).isSome → ¬Covers masked k a := by
  rw [scan_or_dflt, Prefixes.select_eq_none_iff_covers fun k hk => h.len_le hk]
  exact forall_congr' fun k => by rw [isSome_entryAt]

/-- The loop finds the longest prefix where this is not the default route. -/
theorem Sound.scan_eq_some (h : f.Sound) (hk : Longest masked f.stored a k) (hpos : k.1 ≠ 0)
    (he : f.entryAt k = some e) : f.scan 32 a = some e := by
  have hor := h.scan_or_dflt_eq_some_iff.mpr ⟨k, hk, he⟩
  cases hscan : f.scan 32 a with
  | some e' =>
    rw [hscan] at hor
    exact hor
  | none =>
    rw [hscan] at hor
    have hlen : e.len = k.1 := congrArg Prod.fst (h.key_of_entryAt he)
    exact absurd (hlen.symm.trans (h.dflt e hor).1) hpos

/-- What `fib_route` finds is in the table of its length. -/
theorem Sound.of_scan (h : f.Sound) (hscan : f.scan 32 a = some e) :
    Longest masked f.stored a e.key ∧ f.entryAt e.key = some e ∧ e.key.1 ≠ 0 := by
  have hor : (f.scan 32 a).or f.dflt = some e := by rw [hscan]; rfl
  obtain ⟨k, hk, he⟩ := h.scan_or_dflt_eq_some_iff.mp hor
  obtain rfl := h.key_of_entryAt he
  refine ⟨hk, he, ?_⟩
  rw [← masked_thirtyTwo a, scan_eq_select le_rfl] at hscan
  obtain ⟨i, -, htable, -⟩ := Prefixes.select_eq_some_iff.mp hscan
  unfold table at htable
  split_ifs at htable with hi
  have hkey : e.key = (i, masked i a) := Keyed.key_of_find htable
  rw [hkey]
  exact hi

/-- What `fib_route` does to the table: a connected route gets a new child, or nothing. -/
theorem route_cases (f : Fib) (a : Ip4) : (fibRoute f a).2 = f ∨
    ∃ e, f.scan 32 a = some e ∧ e.gw = [0] ∧ Keyed.find FibNode.addr e.children a = none ∧
      (fibRoute f a).2 = f.modify e.key fun x =>
        { x with children := x.children ++ [e.newChild a] } := by
  unfold fibRoute
  cases hscan : f.scan 32 a with
  | none => exact Or.inl rfl
  | some e =>
    dsimp only
    split_ifs with hgw
    · cases hfind : Keyed.find FibNode.addr e.children a with
      | some c => exact Or.inl rfl
      | none => exact Or.inr ⟨e, rfl, hgw, hfind, rfl⟩
    · exact Or.inl rfl

/-- **Step.** A lookup keeps the table sound. -/
theorem Sound.route (h : f.Sound) (a : Ip4) : (fibRoute f a).2.Sound := by
  obtain hsame | ⟨e, hscan, -, -, hroute⟩ := route_cases f a
  · rw [hsame]
    exact h
  · rw [hroute]
    obtain ⟨-, he, hpos⟩ := h.of_scan hscan
    rw [entryAt_of_pos hpos] at he
    have hmem {x : FibEntry} (hx : x ∈ (f.modify e.key fun x =>
        { x with children := x.children ++ [e.newChild a] }).e) :
        x = { e with children := e.children ++ [e.newChild a] } ∨ x ∈ f.e := by
      rcases Keyed.mem_modify_iff.mp hx with ⟨y, hy, hkey, rfl⟩ | ⟨hx, -⟩
      · obtain rfl := h.unique.eq_of_mem hy (Keyed.mem_of_find he) hkey
        exact Or.inl rfl
      · exact Or.inr hx
    refine ⟨h.unique.modify fun _ => rfl, fun x hx => ?_, fun x hx c hc => ?_, h.dflt⟩
    · rcases hmem hx with rfl | hx
      · exact h.len e (Keyed.mem_of_find he)
      · exact h.len x hx
    · rcases hmem hx with rfl | hx
      · rcases List.mem_append.mp hc with hc | hc
        · exact h.host e (Keyed.mem_of_find he) c hc
        · rw [List.mem_singleton.mp hc]
          rfl
      · exact h.host x hx c hc

/-- A lookup changes no prefix. -/
theorem Sound.stored_route (h : f.Sound) (a : Ip4) : (fibRoute f a).2.stored = f.stored := by
  obtain hsame | ⟨e, hscan, -, -, hroute⟩ := route_cases f a
  · rw [hsame]
  · ext1 k
    rw [hroute, stored, stored, f.entryAt_addChild _ (h.of_scan hscan).2.2, Option.map_map]
    refine congrArg (Option.map · _) (funext fun x => ?_)
    rw [Function.comp_apply]
    split_ifs <;> rfl

/-! ### Steps -/

/-- **Step.** A new route keeps the table sound. -/
theorem Sound.add {rt : Route} (h : f.Sound) (ha : fibAdd f rt = .ok f') : f'.Sound := by
  obtain ⟨-, rfl⟩ | ⟨hpos, hle, ⟨-, rfl⟩ | ⟨hnone, rfl⟩⟩ := add_cases ha
  · refine ⟨h.unique, h.len, h.host, fun e he => ?_⟩
    obtain rfl := Option.some_inj.mp he
    exact ⟨FibNode.addGws_len _ _, FibNode.addGws_addr _ _, FibNode.addGws_pfx _ _⟩
  · exact h
  · refine ⟨h.unique.cons fun e he => ?_, fun e he => ?_, fun e he c hc => ?_, h.dflt⟩
    · rw [key_addGws]
      exact Keyed.find_eq_none_iff.mp hnone e he
    · rcases List.mem_cons.mp he with rfl | he
      · rw [FibNode.addGws_len]
        exact ⟨Nat.pos_of_ne_zero hpos, hle⟩
      · exact h.len e he
    · rcases List.mem_cons.mp he with rfl | he
      · exact absurd hc List.not_mem_nil
      · exact h.host e he c hc

/-- A table without an entry is sound. -/
theorem Sound.remove (h : f.Sound) (e : FibEntry) : (f.remove e).Sound := by
  unfold Fib.remove
  split_ifs
  · exact ⟨h.unique, h.len, h.host, fun e he => absurd he.symm (Option.some_ne_none e)⟩
  · exact ⟨h.unique.del, fun x hx => h.len x (Keyed.mem_of_mem_del hx),
      fun x hx => h.host x (Keyed.mem_of_mem_del hx), h.dflt⟩

/-- `fib_add` adds the route to what the table holds. -/
theorem stored_add {rt : Route} (hdflt : ∀ e, f.dflt = some e → e.pfx = 0)
    (ha : fibAdd f rt = .ok f') :
    f'.stored = f.stored.add rt := by
  unfold FibTable.add
  dsimp only
  obtain ⟨hzero, rfl⟩ | ⟨hpos, -, ⟨hsome, rfl⟩ | ⟨hnone, rfl⟩⟩ := add_cases ha
  · rw [if_pos hzero]
    ext1 k
    by_cases hk : k = (0, 0)
    · subst hk
      rw [update_self]
      refine congrArg some ((stored_addGws _ _).trans (congrArg (Stored.addGws · _) ?_))
      show _ = ((f.dflt.map fun e => e.toFibNode.stored).getD ⟨0, [], []⟩)
      cases hd : f.dflt with
      | none => rfl
      | some e =>
        have hpfx := hdflt e hd
        unfold FibNode.stored
        rw [Option.map_some, Option.getD_some, Option.getD_some, hpfx]
    · rw [update_of_ne hk]
      exact congrArg (Option.map _) ((Prefixes.entryAt_dflt f.dflt k).trans (if_neg hk))
  · rw [if_neg hpos, ← isSome_entryAt, entryAt_of_pos hpos, if_pos hsome]
  · rw [if_neg hpos, ← isSome_entryAt, entryAt_of_pos hpos, hnone, Option.isSome_none,
      if_neg Bool.false_ne_true]
    ext1 k
    refine (congrArg (Option.map _) (Prefixes.entryAt_cons (key_addGws _ _ _ _) hpos k)).trans ?_
    by_cases hk : k = (rt.alen, masked rt.alen rt.addr)
    · rw [if_pos hk, hk, update_self]
      exact congrArg some (stored_addGws _ _)
    · rw [if_neg hk, update_of_ne hk]
      rfl

/-- A new route is stored. -/
theorem Sound.stored_add {rt : Route} (h : f.Sound) (ha : fibAdd f rt = .ok f') :
    f'.stored = f.stored.add rt := Fib.stored_add (fun e he => (h.dflt e he).2.2) ha

/-- `fib_get` finds the entry of the prefix. -/
theorem entryAt_of_fibGet {len : ℕ} {r : Option FibEntry} (h : fibGet f a len = .ok r) :
    f.entryAt (len, masked len a) = r := by
  unfold fibGet at h
  split_ifs at h with h1 h2
  · subst h2
    rw [masked_zero]
    exact Except.ok.inj h
  · exact (entryAt_of_pos h2).trans (Except.ok.inj h)

/-- A call does to what the table holds what it is to do. -/
theorem Sound.step (h : f.Sound) {op : FibOp} (hs : f.step op = some f') :
    f'.Sound ∧ f'.stored = f.stored.step op := by
  cases op with
  | add rt =>
    have ha := Except.toOption_eq_some_iff.mp hs
    exact ⟨h.add ha, h.stored_add ha⟩
  | del addr len =>
    obtain ⟨r, hr, rfl⟩ := Option.map_eq_some_iff.mp hs
    obtain ⟨e?, hget, rfl⟩ := Except.map_eq_ok_iff.mp (Except.toOption_eq_some_iff.mp hr)
    have hentry := entryAt_of_fibGet hget
    cases e? with
    | none =>
      refine ⟨h, ?_⟩
      ext1 k
      show f.stored k = update f.stored (len, masked len addr) none k
      by_cases hk : k = (len, masked len addr)
      · rw [hk, update_self, stored, hentry]
        rfl
      · rw [update_of_ne hk]
    | some e =>
      refine ⟨h.remove e, ?_⟩
      ext1 k
      show ((f.remove e).entryAt k).map _ = update f.stored (len, masked len addr) none k
      rw [h.entryAt_remove hentry]
      by_cases hk : k = (len, masked len addr)
      · rw [if_pos hk, hk, update_self]
        rfl
      · rw [if_neg hk, update_of_ne hk]
        rfl
  | route addr =>
    obtain rfl := Option.some_inj.mp hs
    exact ⟨h.route addr, h.stored_route addr⟩

/-! ### What lookups return -/

/-- A lookup returns what it is to return. -/
theorem Sound.routesTo (h : f.Sound) (a : Ip4) : f.stored.RoutesTo a (fibRoute f a).1 := by
  unfold fibRoute
  cases hscan : f.scan 32 a with
  | none =>
    cases hd : f.dflt with
    | none => exact h.scan_or_dflt_eq_none_iff.mp (by rw [hscan, hd]; rfl)
    | some e =>
      obtain ⟨k, hk, he⟩ := h.scan_or_dflt_eq_some_iff.mp (show (f.scan 32 a).or f.dflt = some e by
        rw [hscan, hd]; rfl)
      have hkey := h.key_of_entryAt he
      obtain ⟨hlen, haddr, -⟩ := h.dflt e hd
      have hzero : k.1 = 0 := (congrArg Prod.fst hkey).symm.trans hlen
      refine ⟨k, e.toFibNode.stored, congrArg (Option.map _) he, hk, ?_⟩
      rw [if_neg fun hc => hc.1 hzero, if_pos hzero, ← hkey]
      exact ⟨rfl, rfl⟩
  | some e =>
    obtain ⟨hk, he, hpos⟩ := h.of_scan hscan
    have hstored : f.stored e.key = some e.toFibNode.stored := congrArg (Option.map _) he
    dsimp only
    by_cases hgw : e.gw = [0]
    · rw [if_pos hgw]
      cases hfind : Keyed.find FibNode.addr e.children a with
      | some c =>
        refine ⟨e.key, _, hstored, hk, ?_⟩
        rw [if_pos ⟨hpos, hgw⟩]
        rw [entryAt_of_pos hpos] at he
        have hc := h.host e (Keyed.mem_of_find he) c (Keyed.mem_of_find hfind)
        have haddr : c.addr = a := Keyed.key_of_find hfind
        rw [haddr] at hc
        exact ⟨rfl, by rw [hc]; rfl⟩
      | none =>
        refine ⟨e.key, _, hstored, hk, ?_⟩
        rw [if_pos ⟨hpos, hgw⟩]
        exact ⟨rfl, rfl⟩
    · rw [if_neg hgw]
      refine ⟨e.key, _, hstored, hk, ?_⟩
      rw [if_neg fun hc => hgw hc.2, if_neg hpos]
      exact ⟨rfl, rfl⟩

/-- The loop finds the changed entry. -/
theorem scan_modify {g : FibEntry → FibEntry} (hg : ∀ e, (g e).key = e.key) (n : ℕ) (pfx : Ip4) :
    (f.modify k g).scan n pfx = (f.scan n pfx).map fun e => if e.key = k then g e else e := by
  induction n generalizing pfx with
  | zero => rfl
  | succ n ih =>
    have hfind : (f.modify k g).hashFind (n + 1, pfx) = _ := Keyed.find_modify hg
    rw [scan, scan, hfind]
    show _ = Option.map _ (match Keyed.find FibEntry.key f.e (n + 1, pfx) with
      | some e => some e
      | none => _)
    cases Keyed.find FibEntry.key f.e (n + 1, pfx) with
    | some e => rfl
    | none => exact ih _

/-- Lookups do not change what other lookups return. -/
theorem Sound.route_route (h : f.Sound) (a b : Ip4) :
    (fibRoute (fibRoute f a).2 b).1 = (fibRoute f b).1 := by
  obtain hsame | ⟨e, hscan, hgw, hnone, hroute⟩ := route_cases f a
  · rw [hsame]
  · rw [hroute]
    have hmod := scan_modify (f := f) (k := e.key)
      (g := fun x => { x with children := x.children ++ [e.newChild a] }) (fun _ => rfl) 32 b
    unfold fibRoute
    rw [hmod]
    cases hb : f.scan 32 b with
    | none => rfl
    | some e' =>
      rw [Option.map_some]
      by_cases hkey : e'.key = e.key
      · -- both addresses are in the route that got the child
        have he := (h.of_scan hscan).2.1
        have he' := (h.of_scan hb).2.1
        rw [hkey, he] at he'
        obtain rfl := Option.some_inj.mp he'
        rw [if_pos rfl]
        dsimp only
        rw [if_pos hgw, if_pos hgw, Keyed.find_snoc]
        cases hfind : Keyed.find FibNode.addr e.children b with
        | some c => rfl
        | none =>
          by_cases hab : a = b
          · subst hab
            have haddr : (e.newChild a).addr = a := rfl
            rw [Option.none_or, if_pos haddr]
            rfl
          · have haddr : (e.newChild a).addr ≠ b := hab
            rw [Option.none_or, if_neg haddr]
            rfl
      · rw [if_neg hkey]
        dsimp only
        split_ifs with hgw'
        · cases Keyed.find FibNode.addr e'.children b <;> rfl
        · rfl

/-- `fib_get` finds the same route after a lookup. -/
theorem get_route (f : Fib) (a b : Ip4) (len : ℕ) :
    (fibGet (fibRoute f a).2 b len).map (Option.map FibEntry.toFibNode) =
      (fibGet f b len).map (Option.map FibEntry.toFibNode) := by
  obtain hsame | ⟨e, -, -, -, hroute⟩ := route_cases f a
  · rw [hsame]
  · rw [hroute]
    unfold fibGet
    split_ifs
    · rfl
    · rfl
    · refine congrArg Except.ok ?_
      have hfind : (f.modify e.key fun x =>
        { x with children := x.children ++ [e.newChild a] }).hashFind
        (len, masked len b) = _ := Keyed.find_modify fun _ => rfl
      rw [hfind, Option.map_map]
      refine congrArg (Option.map · _) (funext fun x => ?_)
      rw [Function.comp_apply]
      split_ifs <;> rfl

/-! ### Hosts stay -/

/-- As long as a route is not deleted it keeps its gateways, and its children. -/
theorem Sound.step_entryAt (h : f.Sound) {op : FibOp} (hs : f.step op = some f')
    (hop : ¬op.Deletes k) (hpos : k.1 ≠ 0) (he : f.entryAt k = some e) :
    ∃ e', f'.entryAt k = some e' ∧ e'.toFibNode = e.toFibNode ∧
      ∀ c, Keyed.find FibNode.addr e.children a = some c →
        Keyed.find FibNode.addr e'.children a = some c := by
  have hsame : f'.entryAt k = f.entryAt k → ∃ e', f'.entryAt k = some e' ∧
      e'.toFibNode = e.toFibNode ∧ ∀ c, Keyed.find FibNode.addr e.children a = some c →
        Keyed.find FibNode.addr e'.children a = some c :=
    fun heq => ⟨e, heq.trans he, rfl, fun _ hc => hc⟩
  cases op with
  | add rt =>
    apply hsame
    obtain ⟨-, rfl⟩ | ⟨halen, -, ⟨-, rfl⟩ | ⟨hnone, rfl⟩⟩ :=
      add_cases (Except.toOption_eq_some_iff.mp hs)
    · rw [entryAt_of_pos hpos, entryAt_of_pos hpos]
      rfl
    · rfl
    · refine (Prefixes.entryAt_cons (key_addGws _ _ _ _) halen k).trans (if_neg ?_)
      rintro rfl
      rw [entryAt_of_pos hpos, hnone] at he
      exact absurd he.symm (Option.some_ne_none e)
  | del addr len =>
    obtain ⟨r, hr, rfl⟩ := Option.map_eq_some_iff.mp hs
    obtain ⟨e?, hget, rfl⟩ := Except.map_eq_ok_iff.mp (Except.toOption_eq_some_iff.mp hr)
    have hentry := entryAt_of_fibGet hget
    apply hsame
    cases e? with
    | none => rfl
    | some e₁ =>
      refine (h.entryAt_remove hentry k).trans (if_neg fun hk => hop ?_)
      exact hk.symm
  | route b =>
    obtain rfl := Option.some_inj.mp hs
    obtain heq | ⟨e₁, hscan, -, -, hroute⟩ := route_cases f b
    · exact hsame (congrArg (Fib.entryAt · k) heq)
    · rw [hroute, f.entryAt_addChild _ (h.of_scan hscan).2.2, he, Option.map_some]
      refine ⟨_, rfl, ?_, fun c hc => ?_⟩
      · split_ifs <;> rfl
      · split_ifs
        · rw [Keyed.find_snoc, hc, Option.some_or]
        · exact hc

/-- A host of a connected route is found again as long as the route is there. -/
theorem Sound.route_again {n : FibNode} (h : f.Sound)
    (hroute : (fibRoute f a).1 = some (.child k a, n))
    (hr : Guarded.Reach Fib.step (fun _ op => ¬op.Deletes k) (fibRoute f a).2 f')
    (hk : Longest masked f'.stored a k) : fibRoute f' a = (some (.child k a, n), f') := by
  -- after the lookup the child is in the table
  have hchild : k.1 ≠ 0 ∧ ∃ e, (fibRoute f a).2.entryAt k = some e ∧ e.gw = [0] ∧
      Keyed.find FibNode.addr e.children a = some n := by
    unfold fibRoute at hroute ⊢
    cases hscan : f.scan 32 a with
    | none =>
      rw [hscan] at hroute
      obtain ⟨e, -, heq⟩ := Option.map_eq_some_iff.mp hroute
      cases (Prod.mk.inj heq).1
    | some e =>
      obtain ⟨-, he, hpos⟩ := h.of_scan hscan
      rw [hscan] at hroute
      dsimp only at hroute ⊢
      by_cases hgw : e.gw = [0]
      · rw [if_pos hgw] at hroute ⊢
        cases hfind : Keyed.find FibNode.addr e.children a with
        | some c =>
          rw [hfind] at hroute
          obtain ⟨hchild, rfl⟩ := Prod.mk.inj (Option.some_inj.mp hroute)
          obtain rfl := (FibRef.child.inj hchild).1
          exact ⟨hpos, e, he, hgw, hfind⟩
        | none =>
          rw [hfind] at hroute
          obtain ⟨hchild, rfl⟩ := Prod.mk.inj (Option.some_inj.mp hroute)
          obtain rfl := (FibRef.child.inj hchild).1
          have hmod := f.entryAt_addChild (e.newChild a) hpos e.key
          refine ⟨hpos, { e with children := e.children ++ [e.newChild a] },
            hmod.trans (by rw [he, Option.map_some, if_pos rfl]), hgw, ?_⟩
          have haddr : (e.newChild a).addr = a := rfl
          rw [Keyed.find_snoc, hfind, Option.none_or, if_pos haddr]
      · rw [if_neg hgw] at hroute
        cases (Prod.mk.inj (Option.some_inj.mp hroute)).1
  obtain ⟨hpos, hinit⟩ := hchild
  have hinv := hr.invariant (fun f => f.Sound ∧ ∃ e, f.entryAt k = some e ∧ e.gw = [0] ∧
    Keyed.find FibNode.addr e.children a = some n) ⟨h.route a, hinit⟩ (by
      rintro f₁ op f₂ ⟨h₁, e, he, hgw, hfind⟩ hop hs
      obtain ⟨e', he', hnode, hc⟩ := h₁.step_entryAt (a := a) hs hop hpos he
      exact ⟨(h₁.step hs).1, e', he', (congrArg FibNode.gw hnode).trans hgw, hc n hfind⟩)
  obtain ⟨h', e, he, hgw, hfind⟩ := hinv
  unfold fibRoute
  rw [h'.scan_eq_some hk hpos he]
  dsimp only
  rw [if_pos hgw, hfind, h'.key_of_entryAt he]

/-! ### Runs -/

/-- What the table holds after a run is what it is to hold. -/
theorem run_stored {ops : List FibOp}
    (hrun : Guarded.run Fib.step (fun _ _ => True) f ops = some f') (h : f.Sound) :
    f'.Sound ∧ f'.stored = ops.foldl FibTable.step f.stored := by
  induction ops generalizing f with
  | nil =>
    obtain rfl := Option.some_inj.mp hrun
    exact ⟨h, rfl⟩
  | cons op ops ih =>
    rw [Guarded.run, if_pos trivial] at hrun
    obtain ⟨f₁, hs, hrun⟩ := Option.bind_eq_some_iff.mp hrun
    obtain ⟨h₁, hstored⟩ := h.step hs
    rw [List.foldl_cons, ← hstored]
    exact ih hrun h₁

/-- After any run of additions, deletions and lookups a lookup returns the route of the longest
prefix that was added and not deleted, or its host; it leaves the results of all lookups as they
are; and where it returns a host, this is returned again until the route is deleted. -/
theorem longest_prefix_match {ops : List FibOp}
    (hrun : Guarded.run Fib.step (fun _ _ => True) empty ops = some f) (a : Ip4) :
    f.stored = ops.foldl FibTable.step (fun _ => none) ∧
      f.stored.RoutesTo a (fibRoute f a).1 ∧
      (∀ b, (fibRoute (fibRoute f a).2 b).1 = (fibRoute f b).1) ∧
      (∀ b len, (fibGet (fibRoute f a).2 b len).map (Option.map FibEntry.toFibNode) =
        (fibGet f b len).map (Option.map FibEntry.toFibNode)) ∧
      ∀ k n f', (fibRoute f a).1 = some (.child k a, n) →
        Guarded.Reach Fib.step (fun _ op => ¬op.Deletes k) (fibRoute f a).2 f' →
        Longest masked f'.stored a k → fibRoute f' a = (some (.child k a, n), f') := by
  obtain ⟨h, hstored⟩ := run_stored hrun empty_sound
  have hempty : empty.stored = fun _ => none := by
    ext1 k
    exact congrArg (Option.map _) Prefixes.entryAt_nil
  rw [hempty] at hstored
  exact ⟨hstored, h.routesTo a, h.route_route a, get_route f a,
    fun k n f' hroute hr hk => h.route_again hroute hr hk⟩

/-- A route with one gateway. -/
def oneGw (addr : Ip4) (alen : ℕ) (g : Gw) : Route := ⟨addr, alen, 1, fun _ => g⟩

/-- A route, and a connected route within it, in which an address is looked up. -/
def nestedRun : List FibOp :=
  [.add (oneGw 0x0a000000 8 ⟨0x0a010101, 5⟩), .add (oneGw 0x0a020000 16 ⟨0, 7⟩), .route 0x0a020304,
    .route 0x0a030405]

/-- A lookup in a network inside another one. -/
theorem longest_prefix_match_nestedRun : ∃ f,
    (fibRoute f 0x0a020304).1.map Prod.fst = some (.child (16, 0x0a020000) 0x0a020304) ∧
      f.stored.RoutesTo 0x0a020304 (fibRoute f 0x0a020304).1 := by
  have hlast : (Guarded.run Fib.step (fun _ _ => True) empty nestedRun).map
      (fun f => (fibRoute f 0x0a020304).1.map Prod.fst) =
        some (some (.child (16, 0x0a020000) 0x0a020304)) := by
    decide +kernel
  obtain ⟨f, hrun, hroute⟩ := Option.map_eq_some_iff.mp hlast
  exact ⟨f, hroute, (longest_prefix_match hrun 0x0a020304).2.1⟩

/-- The default route is found as it is where it is connected, and not a host of it. -/
theorem not_longest_prefix_match : ∃ f,
    Guarded.run Fib.step (fun _ _ => True) empty [.add (oneGw 0 0 ⟨0, 7⟩)] = some f ∧
      f.stored (0, 0) = some ⟨0, [0], [7]⟩ ∧
      (fibRoute f 0x0a020304).1.map (fun r => (r.1, r.2.len, r.2.gw)) = some (.dflt, 0, [0]) := by
  have hlast : (Guarded.run Fib.step (fun _ _ => True) empty [.add (oneGw 0 0 ⟨0, 7⟩)]).map
      (fun f => (f.stored (0, 0), (fibRoute f 0x0a020304).1.map fun r => (r.1, r.2.len, r.2.gw))) =
        some (some ⟨0, [0], [7]⟩, some (.dflt, 0, [0])) := by
    decide +kernel
  obtain ⟨f, hrun, hshown⟩ := Option.map_eq_some_iff.mp hlast
  obtain ⟨hstored, hroute⟩ := Prod.mk.inj hshown
  exact ⟨f, hrun, hstored, hroute⟩

end Fib

end Presteramgr
