import Presteramgr.Route.Installed

/-!
# Lookups in the forwarding table, and the prefixes that it owns

A well-formed table finds for an address the longest prefix that covers it. What it owns of the LPM
table is a list, up to the order, in which each change of the table changes one owner.

## Main definitions

* `Fib.Wf`: prefixes are masked and found by their keys, and only connected routes have children;
* `Fib.owners`: what the routes and their children own.

## Main results

* `Fib.scan_eq_some_iff`: the loop of `fib_route` is a longest-prefix match;
* `Fib.owners_perm`: the owners of one route and the others.
-/

namespace Presteramgr

open scoped List

/-! ## New entries -/

namespace FibNode

variable (n : FibNode) (gws : List Gw)

@[simp] theorem addGws_owner : (n.addGws gws).owner = n.owner := by
  induction gws generalizing n with
  | nil => rfl
  | cons g gws ih =>
    refine (ih (n.addGw g)).trans ?_
    unfold addGw
    split_ifs <;> rfl

@[simp] theorem addGws_addr : (n.addGws gws).addr = n.addr := by
  induction gws generalizing n with
  | nil => rfl
  | cons g gws ih =>
    refine (ih (n.addGw g)).trans ?_
    unfold addGw
    split_ifs <;> rfl

@[simp] theorem addGws_pfx : (n.addGws gws).pfx = n.pfx := congrArg Owner.pfx (addGws_owner n gws)

@[simp] theorem addGws_len : (n.addGws gws).len = n.len := congrArg Owner.len (addGws_owner n gws)

@[simp] theorem addGws_group_id : (n.addGws gws).group_id = n.group_id :=
  congrArg Owner.group_id (addGws_owner n gws)

/-- The gateways of an entry are those added to it. -/
theorem mem_addGws_gw {a : Ip4} :
    a ∈ (n.addGws gws).gw ↔ a ∈ n.gw ∨ ∃ g ∈ gws, g.addr = a := by
  induction gws generalizing n with
  | nil => simp [addGws]
  | cons g gws ih =>
    have hone : a ∈ (n.addGw g).gw ↔ a ∈ n.gw ∨ g.addr = a := by
      unfold addGw
      split_ifs with hin
      · exact ⟨.inl, fun h => h.elim id fun heq => heq ▸ hin⟩
      · rw [List.mem_append, List.mem_singleton]
        exact or_congr_right eq_comm
    refine (ih (n.addGw g)).trans ?_
    rw [hone, or_assoc, List.exists_mem_cons_iff]

end FibNode

namespace FibEntry

/-- An address lies in the prefix of the route. -/
def Covers (e : FibEntry) (a : Ip4) : Prop := Prefixes.Covers masked e.key a

instance (e : FibEntry) (a : Ip4) : Decidable (e.Covers a) :=
  inferInstanceAs (Decidable (masked e.len a = e.addr))

/-- A route in the table by its length. Children are host routes of a connected route; they are
resolved when they are made. -/
structure Wf (e : FibEntry) : Prop where
  len_pos : 0 < e.len
  len_le : e.len ≤ 32
  addr_eq : e.addr = masked e.len e.pfx
  connected : e.gw = [0] → e.group_id = 0
  parent : e.children ≠ [] → e.gw = [0]
  host : ∀ c ∈ e.children, c.len = 32 ∧ c.pfx = c.addr ∧ c.group_id ≠ 0 ∧ e.Covers c.addr
  unique : Keyed.Unique FibNode.addr e.children

/-- What a route and its children own. A route for one address with a child owns nothing beside
it. -/
def owners (e : FibEntry) : List Owner :=
  e.children.map FibNode.owner ++ if e.len = 32 ∧ e.children ≠ [] then [] else [e.owner]

/-- A connected route after a host in it is resolved for the first time. -/
def withChild (e : FibEntry) (a : Ip4) (gid : ℤ) : FibEntry :=
  { e with children := e.children ++ [{ e.newChild a with group_id := gid }] }

variable {e : FibEntry} {c : FibNode} {a : Ip4}

/-- An entry owns its elements under its own key. -/
theorem owner_key (h : e.Wf) : e.owner.key = e.key := by
  have haddr := h.addr_eq
  unfold Owner.key key
  rw [haddr]
  rfl

/-- A child owns its elements under its own address. -/
theorem Wf.child_key (h : e.Wf) (hc : c ∈ e.children) : c.owner.key = (32, c.addr) := by
  obtain ⟨hlen, hpfx, -, -⟩ := h.host c hc
  show (c.len, masked c.len c.pfx) = (32, c.addr)
  rw [hlen, hpfx, masked_thirtyTwo]

/-- A route for one address covers no other. -/
theorem Covers.eq_addr (h : e.Covers a) (hlen : e.len = 32) : a = e.addr := by
  have hcov : masked e.len a = e.addr := h
  rwa [hlen, masked_thirtyTwo] at hcov

/-- The owner of a prefix is the route or one of its children. -/
theorem mem_owners_iff {o : Owner} : o ∈ e.owners ↔
    (∃ c ∈ e.children, c.owner = o) ∨ ¬(e.len = 32 ∧ e.children ≠ []) ∧ o = e.owner := by
  unfold owners
  rw [List.mem_append, List.mem_map]
  refine or_congr_right ?_
  split_ifs with hch
  · exact ⟨nofun, fun h => absurd hch h.1⟩
  · rw [List.mem_singleton]
    exact ⟨fun h => ⟨hch, h⟩, fun h => h.2⟩

/-- The prefix of a route is owned by the route or, when it is for one address, by its host. -/
theorem Wf.exists_owner (h : e.Wf) : ∃ o ∈ e.owners, o.key = e.key := by
  by_cases hch : e.len = 32 ∧ e.children ≠ []
  · obtain ⟨c, hc⟩ := List.exists_mem_of_ne_nil _ hch.2
    obtain ⟨-, -, -, hcov⟩ := h.host c hc
    refine ⟨c.owner, mem_owners_iff.mpr (.inl ⟨c, hc, rfl⟩), ?_⟩
    rw [h.child_key hc, hcov.eq_addr hch.1, ← hch.1]
    rfl
  · exact ⟨e.owner, mem_owners_iff.mpr (.inr ⟨hch, rfl⟩), owner_key h⟩

/-- An entry without children is the one owner of its elements. -/
theorem owners_of_no_children (h : e.children = []) : e.owners = [e.owner] := by
  unfold owners
  rw [h, if_neg fun hch => hch.2 rfl]
  rfl

end FibEntry

namespace Fib

/-- Each prefix is found by its length and masked address; the default route is the prefix `0/0`. -/
structure Wf (f : Fib) : Prop where
  unique : Keyed.Unique FibEntry.key f.e
  entry : ∀ e ∈ f.e, e.Wf
  dflt : ∀ e, f.dflt = some e → e.len = 0 ∧ e.pfx = 0 ∧ e.children = []

/-- What the routes own. -/
def owners (f : Fib) : List Owner := f.e.flatMap FibEntry.owners ++ f.dflt.toList.map (·.owner)

/-- The routes, their hosts, and the default route. -/
def nodes (f : Fib) : List FibNode :=
  (f.e.flatMap fun e => e.toFibNode :: e.children) ++ f.dflt.toList.map FibEntry.toFibNode

variable {f f' : Fib} {e : FibEntry} {k : ℕ × Ip4} {a : Ip4}

/-- The nodes of a table are its entries, their children and the default entry. -/
theorem mem_nodes_iff {n : FibNode} : n ∈ f.nodes ↔
    (∃ e ∈ f.e, n = e.toFibNode ∨ n ∈ e.children) ∨ ∃ e, f.dflt = some e ∧ n = e.toFibNode := by
  unfold nodes
  rw [List.mem_append, List.mem_flatMap]
  refine or_congr (exists_congr fun e => and_congr_right fun _ => List.mem_cons) ?_
  cases f.dflt with
  | none => simp
  | some e => simp

/-! ## Lookups -/

/-- The table of all lengths above zero. -/
def table (f : Fib) (k : ℕ × Ip4) : Option FibEntry := if k.1 = 0 then none else f.hashFind k

/-- The loop over the lengths finds the longest prefix. -/
theorem scan_eq_select {n : ℕ} (hn : n ≤ 32) :
    f.scan n (masked n a) = Prefixes.select masked f.table a n := by
  induction n with
  | zero => rfl
  | succ n ih =>
    have htable : f.table (n + 1, masked (n + 1) a) = f.hashFind (n + 1, masked (n + 1) a) :=
      if_neg (Nat.succ_ne_zero n)
    rw [scan, Prefixes.select, htable]
    cases f.hashFind (n + 1, masked (n + 1) a) with
    | some e => rfl
    | none =>
      have hmask : masked (n + 1) a &&& ~~~(1#32 <<< (32 - (n + 1))) = masked n a := by
        unfold masked
        rw [BitVec.and_assoc, mkmask_succ hn]
      dsimp only
      rw [hmask]
      exact ih (Nat.le_of_succ_le hn)

variable (h : f.Wf)

include h

/-- An entry is found by its key. -/
theorem Wf.hashFind_eq_some_iff : f.hashFind k = some e ↔ e ∈ f.e ∧ e.key = k :=
  h.unique.find_eq_some_iff

/-- An entry of the table covers the address and has the length. -/
theorem Wf.table_eq_some_iff {n : ℕ} :
    f.table (n, masked n a) = some e ↔ e ∈ f.e ∧ e.Covers a ∧ e.len = n := by
  have hcover : e.key = (n, masked n a) ↔ e.Covers a ∧ e.len = n := by
    show (e.len, e.addr) = (n, masked n a) ↔ masked e.len a = e.addr ∧ e.len = n
    rw [Prod.mk.injEq]
    constructor
    · rintro ⟨rfl, haddr⟩
      exact ⟨haddr.symm, rfl⟩
    · rintro ⟨haddr, rfl⟩
      exact ⟨rfl, haddr.symm⟩
  unfold table
  split_ifs with hn
  · refine ⟨nofun, fun ⟨he, _, hlen⟩ => ?_⟩
    exact absurd (hlen.trans hn) (h.entry e he).len_pos.ne'
  · rw [h.hashFind_eq_some_iff, hcover]

/-- The loop finds nothing when no route covers the address. -/
theorem scan_eq_none_iff : f.scan 32 a = none ↔ ∀ e ∈ f.e, ¬e.Covers a := by
  rw [← masked_thirtyTwo a, scan_eq_select le_rfl, masked_thirtyTwo, Prefixes.select_eq_none_iff]
  constructor
  · intro hnone e he hcov
    have hsome := h.table_eq_some_iff.mpr ⟨he, hcov, rfl⟩
    rw [hnone e.len (h.entry e he).len_le] at hsome
    cases hsome
  · intro hno n hn
    refine Option.eq_none_iff_forall_ne_some.mpr fun e he => ?_
    obtain ⟨hmem, hcov, -⟩ := h.table_eq_some_iff.mp he
    exact hno e hmem hcov

/-- The loop finds the longest prefix that covers the address. -/
theorem scan_eq_some_iff : f.scan 32 a = some e ↔
    e ∈ f.e ∧ e.Covers a ∧ ∀ e' ∈ f.e, e'.Covers a → e'.len ≤ e.len := by
  rw [← masked_thirtyTwo a, scan_eq_select le_rfl, masked_thirtyTwo, Prefixes.select_eq_some_iff]
  constructor
  · rintro ⟨n, hn, he, hlonger⟩
    obtain ⟨hmem, hcov, rfl⟩ := h.table_eq_some_iff.mp he
    refine ⟨hmem, hcov, fun e' he' hcov' => not_lt.mp fun hlt => ?_⟩
    have hsome := h.table_eq_some_iff.mpr ⟨he', hcov', rfl⟩
    rw [hlonger e'.len hlt (h.entry e' he').len_le] at hsome
    cases hsome
  · rintro ⟨hmem, hcov, hlongest⟩
    refine ⟨e.len, (h.entry e hmem).len_le, h.table_eq_some_iff.mpr ⟨hmem, hcov, rfl⟩,
      fun n hn _ => Option.eq_none_iff_forall_ne_some.mpr fun e' he' => ?_⟩
    obtain ⟨hmem', hcov', rfl⟩ := h.table_eq_some_iff.mp he'
    exact absurd (hlongest e' hmem' hcov') (not_le.mpr hn)

omit h

/-! ## Owners -/

/-- The owners of a table are those of its entries and the default entry. -/
theorem mem_owners_iff {o : Owner} : o ∈ f.owners ↔
    (∃ e ∈ f.e, o ∈ e.owners) ∨ ∃ e, f.dflt = some e ∧ o = e.owner := by
  unfold owners
  rw [List.mem_append, List.mem_flatMap]
  refine or_congr_right ?_
  cases f.dflt with
  | none => simp
  | some e => simp

/-- The owners of one route and the others. -/
theorem owners_perm (hf : f.hashFind k = some e) :
    f.owners.Perm (e.owners ++ { f with e := Keyed.del FibEntry.key f.e k }.owners) := by
  unfold owners
  rw [← List.append_assoc]
  exact ((Keyed.perm_cons_del hf).flatMap_right FibEntry.owners).append_right _

/-- The owners after a change of one route. -/
theorem owners_modify_perm (h : f.Wf) (hf : f.hashFind k = some e) (g : FibEntry → FibEntry) :
    (f.modify k g).owners.Perm
      ((g e).owners ++ { f with e := Keyed.del FibEntry.key f.e k }.owners) := by
  unfold owners
  rw [← List.append_assoc]
  exact ((h.unique.perm_modify hf).flatMap_right FibEntry.owners).append_right _

/-- Nobody owns a prefix that the table does not have, unless a host has the address. -/
theorem Wf.entry_key_ne (h : f.Wf) (hf : f.hashFind k = none) {o : Owner} (ho : o ∈ f.owners)
    (hk : 0 < k.1) (hchild : k.1 = 32 → ∀ e ∈ f.e, ∀ c ∈ e.children, c.addr ≠ k.2) :
    o.key ≠ k := by
  rintro rfl
  rcases mem_owners_iff.mp ho with ⟨e, he, hoe⟩ | ⟨e, he, rfl⟩
  · have hwf := h.entry e he
    rcases FibEntry.mem_owners_iff.mp hoe with ⟨c, hc, rfl⟩ | ⟨-, rfl⟩
    · rw [hwf.child_key hc] at hchild
      exact hchild rfl e he c hc rfl
    · rw [FibEntry.owner_key hwf] at hf
      exact Keyed.find_eq_none_iff.mp hf e he rfl
  · have hlen : e.len = 0 := (h.dflt e he).1
    exact absurd hlen hk.ne'

/-! ## A route is deleted -/

/-- The table stays well formed when an entry goes. -/
theorem Wf.del (h : f.Wf) : ({ f with e := Keyed.del FibEntry.key f.e k } : Fib).Wf :=
  ⟨h.unique.del, fun e he => h.entry e (Keyed.mem_of_mem_del he), h.dflt⟩

/-- What is left after an entry was removed was there before. -/
theorem mem_of_mem_remove {e' : FibEntry} (he : e' ∈ (f.remove e).e) : e' ∈ f.e := by
  unfold Fib.remove at he
  split_ifs at he
  · exact he
  · exact Keyed.mem_of_mem_del he

/-- The table stays well formed when an entry is removed. -/
theorem Wf.remove (h : f.Wf) : (f.remove e).Wf := by
  unfold Fib.remove
  split_ifs
  · exact ⟨h.unique, h.entry, fun e' he' => absurd he' (Option.some_ne_none e').symm⟩
  · exact h.del

/-- `fib_get` gives an entry of the prefix, or the default one. -/
theorem Wf.mem_of_fibGet (h : f.Wf) {addr : Ip4} {len : ℕ}
    (hget : fibGet f addr len = .ok (some e)) :
    (e ∈ f.e ∧ e.key = (len, masked len addr)) ∨ f.dflt = some e := by
  unfold fibGet at hget
  split_ifs at hget
  · exact .inr (Except.ok.inj hget)
  · exact .inl (h.hashFind_eq_some_iff.mp (Except.ok.inj hget))

/-- The route that is deleted owned what the others do not. -/
theorem Wf.fibGet_eq_some (h : f.Wf) {addr : Ip4} {len : ℕ}
    (hget : fibGet f addr len = .ok (some e)) :
    e.owners ++ (f.remove e).owners ~ f.owners ∧ e.len = len := by
  unfold fibGet at hget
  unfold Fib.remove
  split_ifs at hget with hbig hzero
  · -- the default route
    have hdflt : f.dflt = some e := Except.ok.inj hget
    obtain ⟨hlen, -, hch⟩ := h.dflt e hdflt
    refine ⟨?_, hlen.trans hzero.symm⟩
    rw [if_pos hlen, FibEntry.owners_of_no_children hch]
    unfold owners
    rw [hdflt]
    simpa using (List.perm_append_singleton e.owner (f.e.flatMap FibEntry.owners)).symm
  · have hfind : f.hashFind (len, masked len addr) = some e := Except.ok.inj hget
    obtain ⟨hmem, hkey⟩ := h.hashFind_eq_some_iff.mp hfind
    have hlen : e.len = len := congrArg Prod.fst hkey
    rw [if_neg (h.entry e hmem).len_pos.ne', hkey]
    exact ⟨(owners_perm hfind).symm, hlen⟩

end Fib

/-! ## A route is added -/

/-- The prefix of a route as it is hashed. -/
def Route.key (rt : Route) : ℕ × Ip4 := (rt.alen, masked rt.alen rt.addr)

/-- What a route owns before it is resolved. -/
def Route.owner (rt : Route) : Owner := ⟨rt.addr, rt.alen, 0⟩

/-- The entry of a route before it has gateways. -/
def Route.node (rt : Route) : FibNode := ⟨masked rt.alen rt.addr, rt.addr, [], [], rt.alen, 0, []⟩

namespace Fib

variable {f f' : Fib} {e : FibEntry} {a : Ip4} {rt : Route}

/-- A prefix that the table does not have. -/
theorem fibAdd_of_none (halen : rt.alen ≠ 0) (hnone : f.hashFind rt.key = none) :
    fibAdd f rt = .ok f' ↔ rt.alen ≤ 32 ∧ ∃ gws, rt.gws = .ok gws ∧
      f' = { f with e := ⟨rt.node.addGws gws, []⟩ :: f.e } := by
  unfold fibAdd
  by_cases hbig : 32 < rt.alen
  · rw [if_pos hbig]
    exact ⟨nofun, fun h => absurd hbig (not_lt.mpr h.1)⟩
  · have hfind : f.hashFind (rt.alen, masked rt.alen rt.addr) = none := hnone
    rw [if_neg hbig, if_neg halen]
    dsimp only
    rw [hfind]
    refine Except.map_eq_ok_iff.trans ?_
    constructor
    · rintro ⟨gws, hgws, rfl⟩
      exact ⟨not_lt.mp hbig, gws, hgws, rfl⟩
    · rintro ⟨-, gws, hgws, rfl⟩
      exact ⟨gws, hgws, rfl⟩

/-- A prefix that the table has already. -/
theorem fibAdd_of_some (halen : rt.alen ≠ 0) (hsome : f.hashFind rt.key = some e)
    (hadd : fibAdd f rt = .ok f') : f' = f := by
  have hfind : f.hashFind (rt.alen, masked rt.alen rt.addr) = some e := hsome
  unfold fibAdd at hadd
  dsimp only at hadd
  rw [if_neg halen, hfind] at hadd
  split_ifs at hadd
  exact (Except.ok.inj hadd).symm

/-- The default route. -/
theorem fibAdd_of_zero (halen : rt.alen = 0) : fibAdd f rt = .ok f' ↔
    ∃ gws, rt.gws = .ok gws ∧ f' = { f with dflt := some { f.dflt.getD fibEntryNew with
      toFibNode := { (f.dflt.getD fibEntryNew).toFibNode with
        addr := 0, pfx := 0, len := 0 }.addGws gws } } := by
  unfold fibAdd
  rw [if_neg (by omega), if_pos halen]
  refine Except.map_eq_ok_iff.trans ?_
  exact exists_congr fun gws => and_congr_right fun _ => eq_comm

/-- The table stays well formed when an entry is added for a new prefix. -/
theorem Wf.cons (h : f.Wf) (hnone : f.hashFind rt.key = none) (halen : rt.alen ≠ 0)
    (hle : rt.alen ≤ 32) (gws : List Gw) :
    ({ f with e := ⟨rt.node.addGws gws, []⟩ :: f.e } : Fib).Wf := by
  have hkey : FibEntry.key ⟨rt.node.addGws gws, []⟩ = rt.key := by
    unfold FibEntry.key
    rw [FibNode.addGws_len, FibNode.addGws_addr]
    rfl
  refine ⟨h.unique.cons fun e he => ?_, fun e he => ?_, h.dflt⟩
  · rw [hkey]
    exact Keyed.find_eq_none_iff.mp hnone e he
  · rcases List.mem_cons.mp he with rfl | he
    · refine ⟨?_, ?_, ?_, fun _ => FibNode.addGws_group_id .., fun hch => absurd rfl hch, nofun,
        Keyed.unique_nil⟩
      · rw [FibNode.addGws_len]
        exact Nat.pos_of_ne_zero halen
      · rw [FibNode.addGws_len]
        exact hle
      · rw [FibNode.addGws_addr, FibNode.addGws_len, FibNode.addGws_pfx]
        rfl
    · exact h.entry e he

/-- A new entry is one more owner. -/
theorem owners_cons (gws : List Gw) :
    ({ f with e := ⟨rt.node.addGws gws, []⟩ :: f.e } : Fib).owners = rt.owner :: f.owners := by
  have hown : FibEntry.owners ⟨rt.node.addGws gws, []⟩ = [rt.owner] := by
    rw [FibEntry.owners_of_no_children rfl, FibNode.addGws_owner]
    rfl
  unfold owners
  rw [List.flatMap_cons, hown]
  rfl

/-- The default route owns the prefix `0/0` after it is added. -/
theorem Wf.fibAdd_zero (h : f.Wf) (halen : rt.alen = 0) (hadd : fibAdd f rt = .ok f') :
    f'.Wf ∧ f'.e = f.e ∧ (f.dflt = none ∧ f'.owners ~ ⟨0, 0, 0⟩ :: f.owners ∨
      (∃ e, f.dflt = some e) ∧ f'.owners = f.owners) := by
  obtain ⟨gws, -, rfl⟩ := (fibAdd_of_zero halen).mp hadd
  refine ⟨⟨h.unique, h.entry, ?_⟩, rfl, ?_⟩
  · intro e he
    obtain rfl := Option.some_inj.mp he
    refine ⟨FibNode.addGws_len .., FibNode.addGws_pfx .., ?_⟩
    cases hd : f.dflt with
    | none => rfl
    | some e => exact (h.dflt e hd).2.2
  · unfold owners
    cases hd : f.dflt with
    | none =>
      refine .inl ⟨rfl, ?_⟩
      simp [FibNode.owner, fibEntryNew]
    | some e =>
      obtain ⟨hlen, hpfx, -⟩ := h.dflt e hd
      refine .inr ⟨⟨e, rfl⟩, ?_⟩
      simp [FibNode.owner, hlen, hpfx]

/-- The table stays well formed when a route is added. -/
theorem Wf.fibAdd (h : f.Wf) (hadd : Presteramgr.fibAdd f rt = .ok f') : f'.Wf := by
  by_cases halen : rt.alen = 0
  · exact (h.fibAdd_zero halen hadd).1
  cases hfind : f.hashFind rt.key with
  | some e =>
    rw [fibAdd_of_some halen hfind hadd]
    exact h
  | none =>
    obtain ⟨hle, gws, -, rfl⟩ := (fibAdd_of_none halen hfind).mp hadd
    exact h.cons hfind halen hle gws

/-! ## A route is resolved -/

/-- The table stays well formed when an entry changes and keeps its key. -/
theorem Wf.modify (h : f.Wf) {k : ℕ × Ip4} {g : FibEntry → FibEntry}
    (hkey : ∀ e, (g e).key = e.key) (hwf : ∀ e ∈ f.e, e.key = k → (g e).Wf) :
    (f.modify k g).Wf := by
  refine ⟨h.unique.modify hkey, fun e he => ?_, h.dflt⟩
  rcases Keyed.mem_modify_iff.mp he with ⟨x, hx, hxk, rfl⟩ | ⟨he, -⟩
  · exact hwf x hx hxk
  · exact h.entry e he

/-- What `fib_route` picks: a route or host that has a group, or one that gets it. The host may be
new. -/
inductive Pick (f : Fib) (a : Ip4) : Option (FibRef × FibNode) → Fib → Prop
  | none (hscan : f.scan 32 a = none) (hdflt : f.dflt = none) : Pick f a none f
  | dflt (e : FibEntry) (hscan : f.scan 32 a = none) (hdflt : f.dflt = some e) :
      Pick f a (some (.dflt, e.toFibNode)) f
  | entry (e : FibEntry) (hscan : f.scan 32 a = some e) (hgw : e.gw ≠ [0]) :
      Pick f a (some (.entry e.key, e.toFibNode)) f
  | child (e : FibEntry) (c : FibNode) (hscan : f.scan 32 a = some e) (hgw : e.gw = [0])
      (hc : c ∈ e.children) (haddr : c.addr = a) : Pick f a (some (.child e.key a, c)) f
  | newChild (e : FibEntry) (f' : Fib) (hscan : f.scan 32 a = some e) (hgw : e.gw = [0])
      (hno : ∀ c ∈ e.children, c.addr ≠ a)
      (hf' : f' = f.modify e.key fun e' => { e' with children := e'.children ++ [e.newChild a] }) :
      Pick f a (some (.child e.key a, e.newChild a)) f'

/-- What `fib_route` gives is the entry or the child of the address. -/
theorem fibRoute_pick (f : Fib) (a : Ip4) : Pick f a (fibRoute f a).1 (fibRoute f a).2 := by
  unfold fibRoute
  cases hscan : f.scan 32 a with
  | none =>
    cases hdflt : f.dflt with
    | none => exact .none hscan hdflt
    | some e => exact .dflt e hscan hdflt
  | some e =>
    dsimp only
    by_cases hgw : e.gw = [0]
    · rw [if_pos hgw]
      cases hfind : Keyed.find FibNode.addr e.children a with
      | some c =>
        exact .child e c hscan hgw (Keyed.mem_of_find hfind) (Keyed.key_of_find hfind)
      | none => exact .newChild e _ hscan hgw (Keyed.find_eq_none_iff.mp hfind) rfl
    · rw [if_neg hgw]
      exact .entry e hscan hgw

/-- When the default route is resolved, only its group changes. -/
theorem Wf.resolve_dflt (h : f.Wf) (hdflt : f.dflt = some e) : ∃ rest,
    f.owners ~ e.owner :: rest ∧ ∀ gid, (f.setGroupId gid .dflt).Wf ∧
      (f.setGroupId gid .dflt).owners ~ { e.owner with group_id := gid } :: rest := by
  obtain ⟨hlen, hpfx, hch⟩ := h.dflt e hdflt
  refine ⟨f.e.flatMap FibEntry.owners, ?_, fun gid => ⟨⟨h.unique, h.entry, fun e' he' => ?_⟩, ?_⟩⟩
  · unfold owners
    rw [hdflt]
    exact List.perm_append_singleton ..
  · obtain ⟨x, hx, rfl⟩ := Option.map_eq_some_iff.mp he'
    exact h.dflt x hx
  · unfold owners setGroupId
    rw [hdflt]
    exact List.perm_append_singleton ..

/-- When a route is resolved, only its group changes. -/
theorem Wf.resolve_entry (h : f.Wf) (hscan : f.scan 32 a = some e) (hgw : e.gw ≠ [0]) : ∃ rest,
    f.owners ~ e.owner :: rest ∧ ∀ gid, (f.setGroupId gid (.entry e.key)).Wf ∧
      (f.setGroupId gid (.entry e.key)).owners ~ { e.owner with group_id := gid } :: rest := by
  obtain ⟨he, -, -⟩ := (scan_eq_some_iff h).mp hscan
  have hfind : f.hashFind e.key = some e := h.hashFind_eq_some_iff.mpr ⟨he, rfl⟩
  have hch : ∀ e' ∈ f.e, e'.key = e.key → e'.children = [] ∧ e'.gw ≠ [0] := by
    intro e' he' hk
    obtain rfl := h.unique.eq_of_mem he' he hk
    exact ⟨by_contra fun hne => hgw ((h.entry e' he').parent hne), hgw⟩
  refine ⟨({ f with e := Keyed.del FibEntry.key f.e e.key } : Fib).owners, ?_,
    fun gid => ⟨h.modify (fun _ => rfl) fun e' he' hk => ?_, ?_⟩⟩
  · rw [← List.singleton_append, ← FibEntry.owners_of_no_children (hch e he rfl).1]
    exact owners_perm hfind
  · have hwf := h.entry e' he'
    exact ⟨hwf.len_pos, hwf.len_le, hwf.addr_eq, fun hg => absurd hg (hch e' he' hk).2,
      hwf.parent, hwf.host, hwf.unique⟩
  · have hown : FibEntry.owners { e with group_id := gid } = [{ e.owner with group_id := gid }] :=
      FibEntry.owners_of_no_children (hch e he rfl).1
    have hperm := owners_modify_perm h hfind fun e => { e with group_id := gid }
    rwa [hown] at hperm

/-- The table after a new host is resolved. -/
theorem setGroupId_newChild (hno : ∀ c ∈ e.children, c.addr ≠ a) (h : f.Wf)
    (hscan : f.scan 32 a = some e) (gid : ℤ) :
    (f.modify e.key fun e' => { e' with children := e'.children ++ [e.newChild a] }).setGroupId gid
      (.child e.key a) = f.modify e.key fun _ => e.withChild a gid := by
  obtain ⟨he, -, -⟩ := (scan_eq_some_iff h).mp hscan
  show ({ f with e := Keyed.modify _ (Keyed.modify _ _ _ _) _ _ } : Fib) = _
  have hkey : ∀ e' : FibEntry,
      FibEntry.key { e' with children := e'.children ++ [e.newChild a] } = e'.key := fun _ => rfl
  rw [Keyed.modify_modify hkey]
  unfold modify Keyed.modify
  congr 1
  refine List.map_congr_left fun e' he' => ?_
  by_cases hk : e'.key = e.key
  · obtain rfl := h.unique.eq_of_mem he' he hk
    rw [if_pos rfl, if_pos rfl]
    have hold : (e'.children.map fun c => if c.addr = a then { c with group_id := gid } else c) =
        e'.children :=
      (List.map_congr_left fun c hc => if_neg (hno c hc)).trans (List.map_id' _)
    unfold FibEntry.withChild
    simp only [Function.comp_apply, List.map_append, hold]
    simp [FibEntry.newChild]
  · rw [if_neg hk, if_neg hk]

/-- When a new host is resolved, it owns its address, or takes it over from a route for the address
alone. -/
theorem Wf.resolve_newChild (h : f.Wf) (hscan : f.scan 32 a = some e) (hgw : e.gw = [0])
    (hno : ∀ c ∈ e.children, c.addr ≠ a) : ∃ rest,
    (e.len = 32 ∧ f.owners ~ ⟨a, 32, 0⟩ :: rest ∨ e.len < 32 ∧ f.owners = rest) ∧
    ∀ gid, gid ≠ 0 → (f.modify e.key fun _ => e.withChild a gid).Wf ∧
      (f.modify e.key fun _ => e.withChild a gid).owners ~ ⟨a, 32, gid⟩ :: rest := by
  obtain ⟨he, hcov, -⟩ := (scan_eq_some_iff h).mp hscan
  have hfind : f.hashFind e.key = some e := h.hashFind_eq_some_iff.mpr ⟨he, rfl⟩
  have hwf := h.entry e he
  -- the entry with one more child is well formed
  have hnew : ∀ gid, gid ≠ 0 → (e.withChild a gid).Wf := by
    intro gid hgid
    refine ⟨hwf.len_pos, hwf.len_le, hwf.addr_eq, hwf.connected, fun _ => hgw, fun c hc => ?_, ?_⟩
    · rcases List.mem_append.mp hc with hc | hc
      · exact hwf.host c hc
      · obtain rfl := List.mem_singleton.mp hc
        exact ⟨rfl, rfl, hgid, hcov⟩
    · have hperm := List.perm_append_singleton { e.newChild a with group_id := gid } e.children
      exact (hperm.map FibNode.addr).nodup_iff.mpr (hwf.unique.cons fun c hc => hno c hc)
  have hmodify : ∀ gid, gid ≠ 0 → (f.modify e.key fun _ => e.withChild a gid).Wf := by
    intro gid hgid
    refine ⟨?_, fun e' he' => ?_, h.dflt⟩
    · rw [Keyed.Unique, Fib.modify, Keyed.modify, List.map_map]
      refine (List.map_congr_left fun e' _ => ?_).symm ▸ h.unique
      rw [Function.comp_apply]
      split_ifs with hk
      · exact hk.symm
      · rfl
    · rcases Keyed.mem_modify_iff.mp he' with ⟨_, -, -, rfl⟩ | ⟨he', -⟩
      · exact hnew gid hgid
      · exact h.entry e' he'
  -- only the owners of the entry change
  have hperm := fun gid => owners_modify_perm h hfind fun _ => e.withChild a gid
  rcases hwf.len_le.eq_or_lt with hlen | hlen
  · -- a route for the address alone has no other hosts
    have haddr : a = e.addr := hcov.eq_addr hlen
    have hch : e.children = [] := by
      refine List.eq_nil_iff_forall_not_mem.mpr fun c hc => hno c hc ?_
      obtain ⟨-, -, -, hcc⟩ := hwf.host c hc
      rw [hcc.eq_addr hlen, haddr]
    have hpfx : e.pfx = a := by
      rw [haddr, hwf.addr_eq, hlen, masked_thirtyTwo]
    have hown : e.owner = ⟨a, 32, 0⟩ := by
      show (⟨e.pfx, e.len, e.group_id⟩ : Owner) = _
      rw [hpfx, hlen, hwf.connected hgw]
    refine ⟨({ f with e := Keyed.del FibEntry.key f.e e.key } : Fib).owners, .inl ⟨hlen, ?_⟩,
      fun gid hgid => ⟨hmodify gid hgid, ?_⟩⟩
    · rw [← List.singleton_append, ← hown, ← FibEntry.owners_of_no_children hch]
      exact owners_perm hfind
    · refine (hperm gid).trans ?_
      unfold FibEntry.owners FibEntry.withChild
      rw [hch, if_pos ⟨hlen, List.cons_ne_nil _ _⟩]
      exact .refl _
  · -- a shorter route gets one more child
    refine ⟨f.owners, .inr ⟨hlen, rfl⟩, fun gid hgid => ⟨hmodify gid hgid, ?_⟩⟩
    refine (hperm gid).trans (.trans ?_ ((owners_perm hfind).symm.cons _))
    rw [← List.cons_append]
    refine List.Perm.append_right _ ?_
    unfold FibEntry.owners FibEntry.withChild
    rw [if_neg fun hx => absurd hx.1 hlen.ne, if_neg fun hx => absurd hx.1 hlen.ne, List.map_append,
      List.append_assoc]
    exact List.perm_middle

end Fib

end Presteramgr
