import Presteramgr.Lib.Guarded
import Presteramgr.Lib.PrefixTable
import Presteramgr.Ret.Router

/-!
# The IPv6 forwarding information base (`fib_ipv6.c`)

The table is kept as that of IPv4, with one gateway for each route. Its hash tables are searched
with `HASH_FIND_INT`, which compares the first four bytes of an address only.

## Main definitions

* `fibIpv6Add`, `fibIpv6Get`, `fibIpv6Del` and `fibIpv6Route`;
* `FibTableIpv6`: what the table is to hold;
* `FibIpv6.Ok`: when a call meets no other address with the same first four bytes.

## Main results

* `FibIpv6.longest_prefix_match_ipv6`: then it holds what it is to hold, and lookups find the
  longest prefix.
-/

namespace Presteramgr

open Function (update update_self update_of_ne)
open Prefixes (Longest select Covers)

/-! ### Addresses -/

/-- A word of the mask of `mkmask`: the word whose lowest bit is the bit `lo` of the address. -/
def maskWord (lo k : ℕ) : BitVec 32 :=
  if lo ≤ k ∧ k < lo + 32 then BitVec.allOnes 32 <<< (k - lo)
  else if k ≤ lo then BitVec.allOnes 32
  else 0

/-- The mask of `mkmask` for a prefix of length `n`. -/
def mkmaskIpv6 (n : ℕ) : Ip6 :=
  let k := 128 - n
  maskWord 96 k ++ maskWord 64 k ++ maskWord 32 k ++ maskWord 0 k

/-- `mkmask`. -/
def maskedIpv6 (n : ℕ) (addr : Ip6) : Ip6 := addr &&& mkmaskIpv6 n

/-- The first four bytes of an address. -/
def firstWord (addr : Ip6) : BitVec 32 := addr.extractLsb' 96 32

/-- A longer mask has the bits of a shorter one. -/
theorem mkmaskIpv6_and_mkmaskIpv6 {n : ℕ} (hn : n < 128) :
    mkmaskIpv6 (n + 1) &&& mkmaskIpv6 n = mkmaskIpv6 n := by
  have h : ∀ n < 128, mkmaskIpv6 (n + 1) &&& mkmaskIpv6 n = mkmaskIpv6 n := by decide +kernel
  exact h n hn

/-- The prefix after one more round of the loop of `fib_ipv6_route`. -/
theorem maskedIpv6_succ {n : ℕ} (addr : Ip6) (hn : n < 128) :
    maskedIpv6 n (maskedIpv6 (n + 1) addr) = maskedIpv6 n addr := by
  unfold maskedIpv6
  rw [BitVec.and_assoc, mkmaskIpv6_and_mkmaskIpv6 hn]

/-- The longest mask keeps the address. -/
theorem maskedIpv6_all (addr : Ip6) : maskedIpv6 128 addr = addr := by
  have h : mkmaskIpv6 128 = BitVec.allOnes 128 := by decide +kernel
  rw [maskedIpv6, h, BitVec.and_allOnes]

/-- The empty mask keeps nothing. -/
theorem maskedIpv6_zero (addr : Ip6) : maskedIpv6 0 addr = 0 := by
  have h : mkmaskIpv6 0 = 0#128 := by decide +kernel
  rw [maskedIpv6, h, BitVec.and_zero]
  rfl

/-! ### The table -/

/-- What the hash table of a length compares, with the length. -/
def FibEntryIpv6.hashKey (e : FibEntryIpv6) : ℕ × BitVec 32 := (e.len, firstWord e.addr)

/-- The prefix of an entry. -/
def FibEntryIpv6.key (e : FibEntryIpv6) : ℕ × Ip6 := (e.len, e.addr)

/-- What the hash table of children compares. -/
def FibNodeIpv6.hashKey (n : FibNodeIpv6) : BitVec 32 := firstWord n.addr

/-- `fib_entry_ipv6_new`. -/
def fibEntryIpv6New : FibEntryIpv6 := ⟨⟨0, 0, 0, 0, 0, ⟨0, 0⟩⟩, []⟩

/-- `HASH_FIND_INT` in the table of the length. -/
def FibIpv6.hashFind (f : FibIpv6) (k : ℕ × Ip6) : Option FibEntryIpv6 :=
  Keyed.find FibEntryIpv6.hashKey f.e (k.1, firstWord k.2)

/-- `fib_ipv6_add`. -/
def fibIpv6Add (f : FibIpv6) (addr : Ip6) (len vid : ℕ) (gw : Ip6) : Option FibIpv6 :=
  if 128 < len then none
  else if len = 0 then
    let e := f.dflt.getD fibEntryIpv6New
    some { f with dflt := some { e with addr := 0, pfx := 0, vid := vid, gw := gw, len := len } }
  else
    match f.hashFind (len, maskedIpv6 len addr) with
    | some _ => some f
    | none => some { f with
        e := ⟨⟨maskedIpv6 len addr, addr, gw, vid, len, ⟨0, 0⟩⟩, []⟩ :: f.e }

/-- `fib_ipv6_get`. -/
def fibIpv6Get (f : FibIpv6) (addr : Ip6) (len : ℕ) : Option (Option FibEntryIpv6) :=
  if 128 < len then none
  else if len = 0 then some f.dflt
  else some (f.hashFind (len, maskedIpv6 len addr))

/-- The table after `fib_ipv6_del` has found the route. -/
def FibIpv6.remove (f : FibIpv6) (e : FibEntryIpv6) : FibIpv6 :=
  if e.len = 0 then { f with dflt := none }
  else { f with e := Keyed.del FibEntryIpv6.hashKey f.e e.hashKey }

/-- `fib_ipv6_del`: the entry that is deleted, and the table. -/
def fibIpv6Del (f : FibIpv6) (addr : Ip6) (len : ℕ) : Option (Option FibEntryIpv6 × FibIpv6) :=
  (fibIpv6Get f addr len).map fun
    | some e => (some e, f.remove e)
    | none => (none, f)

/-- The loop of `fib_ipv6_route`: the lengths from `i` down to one. -/
def FibIpv6.scan (f : FibIpv6) : ℕ → Ip6 → Option FibEntryIpv6
  | 0, _ => none
  | i + 1, pfx =>
    match f.hashFind (i + 1, pfx) with
    | some e => some e
    | none => f.scan i (maskedIpv6 i pfx)

/-- A route or a child of a route in the table. -/
inductive FibRefIpv6
  | dflt
  | entry (k : ℕ × Ip6)
  | child (k : ℕ × Ip6) (addr : Ip6)
deriving DecidableEq, Repr

/-- The child for an address. Its length is 32. -/
def FibEntryIpv6.newChild (e : FibEntryIpv6) (addr : Ip6) : FibNodeIpv6 where
  addr := addr
  pfx := addr
  gw := addr
  vid := e.vid
  len := 32
  ret_key := ⟨0, 0⟩

/-- A change of a route in place. -/
def FibIpv6.modify (f : FibIpv6) (k : ℕ × Ip6) (g : FibEntryIpv6 → FibEntryIpv6) : FibIpv6 :=
  { f with e := Keyed.modify FibEntryIpv6.key f.e k g }

/-- `fib_ipv6_route`: the route or child for the address, and the table, in which the child may be
new. -/
def fibIpv6Route (f : FibIpv6) (addr : Ip6) : Option (FibRefIpv6 × FibNodeIpv6) × FibIpv6 :=
  match f.scan 128 addr with
  | some e =>
    -- a connected route
    if e.gw = 0 then
      match Keyed.find FibNodeIpv6.hashKey e.children (firstWord addr) with
      | some c => (some (.child e.key c.addr, c), f)
      | none =>
        let c := e.newChild addr
        (some (.child e.key addr, c),
          f.modify e.key fun e => { e with children := e.children ++ [c] })
    else (some (.entry e.key, e.toFibNodeIpv6), f)
  | none => (f.dflt.map fun e => (.dflt, e.toFibNodeIpv6), f)

/-! ### What the table is to hold -/

/-- A route as it was added: the address before it was masked, and its gateway. -/
structure StoredIpv6 where
  pfx : Ip6
  gw : Ip6
  vid : ℕ
deriving DecidableEq, Repr

/-- The route by length and masked address. The default route is that of `(0, 0)`. -/
abbrev FibTableIpv6 := ℕ × Ip6 → Option StoredIpv6

/-- The calls. -/
inductive FibOpIpv6
  | add (addr : Ip6) (len vid : ℕ) (gw : Ip6)
  | del (addr : Ip6) (len : ℕ)
  | route (addr : Ip6)
deriving DecidableEq, Repr

namespace FibTableIpv6

/-- A route is added where there is none for its prefix. The default route is replaced. -/
def add (t : FibTableIpv6) (addr : Ip6) (len vid : ℕ) (gw : Ip6) : FibTableIpv6 :=
  if len = 0 then update t (0, 0) (some ⟨0, gw, vid⟩)
  else if (t (len, maskedIpv6 len addr)).isSome then t
  else update t (len, maskedIpv6 len addr) (some ⟨addr, gw, vid⟩)

/-- What a call does to the table. -/
def step (t : FibTableIpv6) : FibOpIpv6 → FibTableIpv6
  | .add addr len vid gw => t.add addr len vid gw
  | .del addr len => update t (len, maskedIpv6 len addr) none
  | .route _ => t

/-- What a lookup of `a` is to return: nothing if no prefix has the address, else the longest
prefix; where this is a connected route, other than the default route, its host. -/
def RoutesTo (t : FibTableIpv6) (a : Ip6) : Option (FibRefIpv6 × FibNodeIpv6) → Prop
  | none => ∀ k, (t k).isSome → ¬Covers maskedIpv6 k a
  | some (ref, n) => ∃ k r, t k = some r ∧ Longest maskedIpv6 t a k ∧
    if k.1 ≠ 0 ∧ r.gw = 0 then
      ref = .child k a ∧ n.addr = a ∧ n.pfx = a ∧ n.gw = a ∧ n.vid = r.vid
    else
      ref = (if k.1 = 0 then .dflt else .entry k) ∧
        n = ⟨k.2, r.pfx, r.gw, r.vid, k.1, n.ret_key⟩

end FibTableIpv6

/-! ### What the table holds -/

/-- The route of a node. -/
def FibNodeIpv6.stored (n : FibNodeIpv6) : StoredIpv6 := ⟨n.pfx, n.gw, n.vid⟩

/-- An address lies in the prefix of the route. -/
def FibEntryIpv6.Covers (e : FibEntryIpv6) (a : Ip6) : Prop := Prefixes.Covers maskedIpv6 e.key a

instance (e : FibEntryIpv6) (a : Ip6) : Decidable (e.Covers a) :=
  inferInstanceAs (Decidable (maskedIpv6 e.len a = e.addr))

namespace FibIpv6

/-- The table without routes. -/
def empty : FibIpv6 := ⟨none, []⟩

/-- A call, `none` where it does not return. -/
def step (f : FibIpv6) : FibOpIpv6 → Option FibIpv6
  | .add addr len vid gw => fibIpv6Add f addr len vid gw
  | .del addr len => (fibIpv6Del f addr len).map Prod.snd
  | .route addr => some (fibIpv6Route f addr).2

/-- The entry of a prefix. -/
def entryAt (f : FibIpv6) (k : ℕ × Ip6) : Option FibEntryIpv6 :=
  Prefixes.entryAt FibEntryIpv6.key f.dflt f.e k

/-- The route of a prefix. -/
def stored (f : FibIpv6) : FibTableIpv6 :=
  fun k => (f.entryAt k).map fun e => e.toFibNodeIpv6.stored

/-- No other prefix of the length has the same first four bytes. -/
def Alone (f : FibIpv6) (k : ℕ × Ip6) : Prop :=
  ∀ e ∈ f.e, e.len = k.1 → firstWord e.addr = firstWord k.2 → e.addr = k.2

instance (f : FibIpv6) (k : ℕ × Ip6) : Decidable (f.Alone k) :=
  inferInstanceAs (Decidable (∀ e ∈ f.e, _ = _ → _ = _ → _ = _))

/-- An entry is the longest one that has an address. -/
def LongestAt (f : FibIpv6) (a : Ip6) (e : FibEntryIpv6) : Prop :=
  e.Covers a ∧ ∀ e' ∈ f.e, e'.Covers a → e'.len ≤ e.len

instance (f : FibIpv6) (a : Ip6) (e : FibEntryIpv6) : Decidable (f.LongestAt a e) :=
  inferInstanceAs (Decidable (_ ∧ ∀ e' ∈ f.e, _ → _ ≤ _))

/-- A lookup of `a` meets no other address with the same first four bytes: each prefix that agrees
with `a` in them has `a`, or is shorter than one that has `a`; and in the connected route that has
`a` no other host agrees with it. -/
def RouteOk (f : FibIpv6) (a : Ip6) : Prop :=
  (∀ e ∈ f.e, firstWord e.addr = firstWord (maskedIpv6 e.len a) →
    e.Covers a ∨ ∃ e' ∈ f.e, e'.Covers a ∧ e.len < e'.len) ∧
  ∀ e ∈ f.e, f.LongestAt a e → e.gw = 0 →
    ∀ c ∈ e.children, firstWord c.addr = firstWord a → c.addr = a

instance (f : FibIpv6) (a : Ip6) : Decidable (f.RouteOk a) :=
  inferInstanceAs (Decidable ((∀ e ∈ f.e, _ = _ → _ ∨ ∃ e' ∈ f.e, _ ∧ _ < _) ∧
    ∀ e ∈ f.e, _ → _ → ∀ c ∈ e.children, _ = _ → _ = _))

/-- When a call meets no other address with the same first four bytes. -/
def Ok (f : FibIpv6) : FibOpIpv6 → Prop
  | .add addr len _ _ => len ≠ 0 → f.Alone (len, maskedIpv6 len addr)
  | .del addr len => len ≠ 0 → f.Alone (len, maskedIpv6 len addr)
  | .route addr => f.RouteOk addr

instance (f : FibIpv6) (op : FibOpIpv6) : Decidable (f.Ok op) :=
  match op with
  | .add _ _ _ _ => inferInstanceAs (Decidable (_ ≠ _ → _))
  | .del _ _ => inferInstanceAs (Decidable (_ ≠ _ → _))
  | .route addr => inferInstanceAs (Decidable (f.RouteOk addr))

/-- The invariant: entries have the keys under which they are found, and the children of an entry
are hosts with its VLAN. -/
structure Sound (f : FibIpv6) : Prop where
  unique : Keyed.Unique FibEntryIpv6.hashKey f.e
  len : ∀ e ∈ f.e, 0 < e.len ∧ e.len ≤ 128
  host : ∀ e ∈ f.e, ∀ c ∈ e.children, c.pfx = c.addr ∧ c.gw = c.addr ∧ c.vid = e.vid
  dflt : ∀ e, f.dflt = some e → e.len = 0 ∧ e.addr = 0 ∧ e.pfx = 0

variable {f f' : FibIpv6} {k : ℕ × Ip6} {a b : Ip6} {e : FibEntryIpv6}

/-- No prefix is in the list twice. -/
theorem Sound.unique_key (h : f.Sound) : Keyed.Unique FibEntryIpv6.key f.e := by
  have hmap : f.e.map FibEntryIpv6.hashKey =
      (f.e.map FibEntryIpv6.key).map fun k => (k.1, firstWord k.2) := by
    rw [List.map_map]
    rfl
  have hu := h.unique
  unfold Keyed.Unique at hu
  rw [hmap] at hu
  exact hu.of_map _

/-- A prefix of positive length is looked for in the list. -/
theorem entryAt_of_pos (hk : k.1 ≠ 0) : f.entryAt k = Keyed.find FibEntryIpv6.key f.e k := if_neg hk

/-- The entry of a prefix has its key. -/
theorem Sound.key_of_entryAt (h : f.Sound) (he : f.entryAt k = some e) : e.key = k := by
  refine Prefixes.key_of_entryAt (fun e he => ?_) he
  obtain ⟨hlen, haddr, -⟩ := h.dflt e he
  exact Prod.ext hlen haddr

/-- A prefix is stored when it has an entry. -/
theorem isSome_entryAt (f : FibIpv6) (k : ℕ × Ip6) : (f.entryAt k).isSome = (f.stored k).isSome :=
  Option.isSome_map.symm

/-- Stored prefixes have at most 128 bits. -/
theorem Sound.len_le (h : f.Sound) (hk : (f.entryAt k).isSome) : k.1 ≤ 128 := by
  obtain ⟨e, he⟩ := Option.isSome_iff_exists.mp hk
  by_cases hlen : k.1 = 0
  · omega
  · rw [← h.key_of_entryAt he]
    exact (h.len e (Prefixes.mem_of_entryAt hlen he)).2

/-- Where no other prefix agrees with it, a prefix is found by its first four bytes. -/
theorem Sound.hashFind_eq (h : f.Sound) (hk : f.Alone k) :
    f.hashFind k = Keyed.find FibEntryIpv6.key f.e k := by
  refine Option.ext fun e => ?_
  unfold hashFind
  rw [h.unique.find_eq_some_iff, h.unique_key.find_eq_some_iff]
  refine and_congr_right fun he => ⟨fun hkey => ?_, fun hkey => ?_⟩
  · obtain ⟨hlen, hword⟩ := Prod.mk.inj hkey
    exact Prod.ext hlen (hk e he hlen hword)
  · rw [← hkey]
    rfl

/-- The empty table is sound. -/
theorem empty_sound : empty.Sound where
  unique := List.nodup_nil
  len := fun _ he => absurd he List.not_mem_nil
  host := fun _ he => absurd he List.not_mem_nil
  dflt := fun e he => absurd he.symm (Option.some_ne_none e)

/-! ### Entries that change -/

/-- The entries of other prefixes stay when one is removed. -/
theorem Sound.entryAt_remove (h : f.Sound) (he : f.entryAt k = some e) (k' : ℕ × Ip6) :
    (f.remove e).entryAt k' = if k' = k then none else f.entryAt k' := by
  have hkey := h.key_of_entryAt he
  have hlen : e.len = k.1 := congrArg Prod.fst hkey
  unfold remove
  by_cases hk : k.1 = 0
  · obtain ⟨-, rfl⟩ := Prefixes.dflt_of_entryAt hk he
    rw [if_pos (hlen.trans hk)]
    exact Prefixes.entryAt_dflt f.dflt k'
  · -- the first four bytes pick the entry itself
    have hmem := Prefixes.mem_of_entryAt hk he
    have hdel : Keyed.del FibEntryIpv6.hashKey f.e e.hashKey =
        Keyed.del FibEntryIpv6.key f.e k := by
      refine Keyed.del_congr fun x hx => ⟨fun hxe => ?_, fun hxe => ?_⟩
      · rw [h.unique.eq_of_mem hx hmem hxe, hkey]
      · rw [h.unique_key.eq_of_mem hx hmem (hxe.trans hkey.symm)]
    rw [if_neg (hlen ▸ hk), hdel]
    exact Prefixes.entryAt_del h.unique_key hk k'

/-- A table without an entry is sound. -/
theorem Sound.remove (h : f.Sound) (e : FibEntryIpv6) : (f.remove e).Sound := by
  unfold FibIpv6.remove
  split_ifs
  · exact ⟨h.unique, h.len, h.host, fun e he => absurd he.symm (Option.some_ne_none e)⟩
  · exact ⟨h.unique.del, fun x hx => h.len x (Keyed.mem_of_mem_del hx),
      fun x hx => h.host x (Keyed.mem_of_mem_del hx), h.dflt⟩

variable (f) in
/-- A route that gets a child. -/
theorem entryAt_addChild (c : FibNodeIpv6) (hk : k.1 ≠ 0) (k' : ℕ × Ip6) :
    (f.modify k fun x => { x with children := x.children ++ [c] }).entryAt k' =
      (f.entryAt k').map fun x =>
        if k' = k then { x with children := x.children ++ [c] } else x :=
  Prefixes.entryAt_modify FibEntryIpv6.key (fun x => { x with children := x.children ++ [c] })
    (fun _ => rfl) hk k'

/-! ### Lookups -/

/-- The loop of `fib_ipv6_route` selects by the first four bytes. -/
theorem scan_eq_select {n : ℕ} (hn : n ≤ 128) : f.scan n (maskedIpv6 n a) =
    select maskedIpv6 (fun k => if k.1 = 0 then none else f.hashFind k) a n := by
  induction n with
  | zero => rfl
  | succ n ih =>
    rw [scan, select, if_neg (Nat.succ_ne_zero n)]
    cases f.hashFind (n + 1, maskedIpv6 (n + 1) a) with
    | some e => rfl
    | none =>
      dsimp only
      rw [maskedIpv6_succ a hn]
      exact ih (Nat.le_of_succ_le hn)

/-- What the loop finds has the address, and nothing longer has. -/
theorem Sound.scan_eq_some_iff (h : f.Sound) (hok : f.RouteOk a) :
    f.scan 128 a = some e ↔ e ∈ f.e ∧ f.LongestAt a e := by
  -- an entry found by its first four bytes has the address, or one that has it is longer
  have hhit {n : ℕ} {x : FibEntryIpv6} (hx : f.hashFind (n, maskedIpv6 n a) = some x) :
      x ∈ f.e ∧ x.len = n ∧ (x.Covers a ∨ ∃ e' ∈ f.e, e'.Covers a ∧ n < e'.len) := by
    have hmem := Keyed.mem_of_find hx
    have hkey : x.hashKey = (n, firstWord (maskedIpv6 n a)) := Keyed.key_of_find hx
    obtain ⟨rfl, hword⟩ := Prod.mk.inj hkey
    exact ⟨hmem, rfl, hok.1 x hmem hword⟩
  have hself {x : FibEntryIpv6} (hx : x ∈ f.e) (hcov : x.Covers a) :
      f.hashFind (x.len, maskedIpv6 x.len a) = some x := by
    have hcov : maskedIpv6 x.len a = x.addr := hcov
    refine h.unique.find_eq_some_iff.mpr ⟨hx, ?_⟩
    rw [hcov]
    rfl
  rw [← maskedIpv6_all a, scan_eq_select le_rfl, maskedIpv6_all, Prefixes.select_eq_some_iff]
  constructor
  · rintro ⟨n, -, he, hlonger⟩
    split_ifs at he with hn
    have hnone {e' : FibEntryIpv6} (he' : e' ∈ f.e) (hcov : e'.Covers a) : e'.len ≤ n := by
      by_contra hlt
      have hno := hlonger e'.len (not_le.mp hlt) (h.len e' he').2
      rw [if_neg (h.len e' he').1.ne', hself he' hcov] at hno
      exact absurd hno (Option.some_ne_none e')
    obtain ⟨hmem, hlen, hcov | ⟨e', he', hcov', hlt⟩⟩ := hhit he
    · exact ⟨hmem, hcov, fun e' he' hcov' => hlen ▸ hnone he' hcov'⟩
    · exact absurd hlt (not_lt.mpr (hnone he' hcov'))
  · rintro ⟨hmem, hcov, hlongest⟩
    refine ⟨e.len, (h.len e hmem).2, ?_, fun n hn _ => ?_⟩
    · rw [if_neg (h.len e hmem).1.ne', hself hmem hcov]
    · rw [if_neg (Nat.ne_of_gt (Nat.zero_lt_of_lt hn))]
      refine Option.eq_none_iff_forall_ne_some.mpr fun x hx => ?_
      obtain ⟨hxmem, rfl, hxcov | ⟨e', he', hcov', hlt⟩⟩ := hhit hx
      · exact absurd hn (not_lt.mpr (hlongest x hxmem hxcov))
      · exact absurd (hn.trans hlt) (not_lt.mpr (hlongest e' he' hcov'))

/-- The prefixes of the list select the longest one. -/
theorem Sound.select_eq_some_iff (h : f.Sound) :
    select maskedIpv6 (fun k => if k.1 = 0 then none else Keyed.find FibEntryIpv6.key f.e k) a 128 =
      some e ↔ e ∈ f.e ∧ f.LongestAt a e := by
  have htable {k : ℕ × Ip6} {x : FibEntryIpv6} :
      (if k.1 = 0 then none else Keyed.find FibEntryIpv6.key f.e k) = some x ↔ x ∈ f.e ∧
        x.key = k := by
    rw [← h.unique_key.find_eq_some_iff]
    split_ifs with hk
    · refine ⟨fun hno => hno.elim, fun hx => ?_⟩
      have hlen : x.len = k.1 := congrArg Prod.fst (Keyed.key_of_find hx)
      exact absurd (hlen.trans hk) (h.len x (Keyed.mem_of_find hx)).1.ne'
    · exact Iff.rfl
  rw [Prefixes.select_eq_some_iff_longest]
  · constructor
    · rintro ⟨k, hk, he⟩
      obtain ⟨hmem, rfl⟩ := htable.mp he
      refine ⟨hmem, hk.covers, fun e' he' hcov' => ?_⟩
      exact hk.longest e'.key (by rw [htable.mpr ⟨he', rfl⟩]; rfl) hcov'
    · rintro ⟨hmem, hcov, hlongest⟩
      refine ⟨e.key, ⟨by rw [htable.mpr ⟨hmem, rfl⟩]; rfl, hcov, fun k' hk' hcov' => ?_⟩,
        htable.mpr ⟨hmem, rfl⟩⟩
      obtain ⟨e', he'⟩ := Option.isSome_iff_exists.mp hk'
      obtain ⟨hmem', rfl⟩ := htable.mp he'
      exact hlongest e' hmem' hcov'
  · intro k hk
    obtain ⟨e', he'⟩ := Option.isSome_iff_exists.mp hk
    obtain ⟨hmem', rfl⟩ := htable.mp he'
    exact (h.len e' hmem').2

/-- The loop with the default route behind it selects the longest prefix. -/
theorem Sound.scan_or_dflt (h : f.Sound) (hok : f.RouteOk a) :
    (f.scan 128 a).or f.dflt = select maskedIpv6 f.entryAt a 128 := by
  have hscan : f.scan 128 a =
      select maskedIpv6 (fun k =>
        if k.1 = 0 then none else Keyed.find FibEntryIpv6.key f.e k) a 128 :=
    Option.ext fun e => (h.scan_eq_some_iff hok).trans h.select_eq_some_iff.symm
  rw [hscan]
  exact (Prefixes.select_entryAt (maskedIpv6_zero a) 128).symm

/-- What the loop or the default gives is the entry of the longest prefix. -/
theorem Sound.scan_or_dflt_eq_some_iff (h : f.Sound) (hok : f.RouteOk a) :
    (f.scan 128 a).or f.dflt = some e ↔
      ∃ k, Longest maskedIpv6 f.stored a k ∧ f.entryAt k = some e := by
  rw [h.scan_or_dflt hok, Prefixes.select_eq_some_iff_longest fun k hk => h.len_le hk]
  refine exists_congr fun k => and_congr_left fun _ => ?_
  exact ⟨fun hl => hl.congr (isSome_entryAt f),
    fun hl => hl.congr fun k => (isSome_entryAt f k).symm⟩

/-- Where the loop and the default give nothing no stored prefix covers the address. -/
theorem Sound.scan_or_dflt_eq_none_iff (h : f.Sound) (hok : f.RouteOk a) :
    (f.scan 128 a).or f.dflt = none ↔ ∀ k, (f.stored k).isSome → ¬Covers maskedIpv6 k a := by
  rw [h.scan_or_dflt hok, Prefixes.select_eq_none_iff_covers fun k hk => h.len_le hk]
  exact forall_congr' fun k => by rw [isSome_entryAt]

/-- A lookup that meets no other address returns what it is to return. -/
theorem Sound.routesTo (h : f.Sound) (hok : f.RouteOk a) :
    f.stored.RoutesTo a (fibIpv6Route f a).1 := by
  unfold fibIpv6Route
  cases hscan : f.scan 128 a with
  | none =>
    cases hd : f.dflt with
    | none => exact (h.scan_or_dflt_eq_none_iff hok).mp (by rw [hscan, hd]; rfl)
    | some e =>
      obtain ⟨k, hk, he⟩ := (h.scan_or_dflt_eq_some_iff hok).mp
        (show (f.scan 128 a).or f.dflt = some e by rw [hscan, hd]; rfl)
      have hkey := h.key_of_entryAt he
      have hzero : k.1 = 0 := (congrArg Prod.fst hkey).symm.trans (h.dflt e hd).1
      refine ⟨k, e.toFibNodeIpv6.stored, congrArg (Option.map _) he, hk, ?_⟩
      rw [if_neg fun hc => hc.1 hzero, if_pos hzero, ← hkey]
      exact ⟨rfl, rfl⟩
  | some e =>
    have hor : (f.scan 128 a).or f.dflt = some e := by rw [hscan]; rfl
    obtain ⟨k, hk, he⟩ := (h.scan_or_dflt_eq_some_iff hok).mp hor
    obtain ⟨hmem, hlongest⟩ := (h.scan_eq_some_iff hok).mp hscan
    obtain rfl := h.key_of_entryAt he
    have hpos : e.key.1 ≠ 0 := (h.len e hmem).1.ne'
    have hstored : f.stored e.key = some e.toFibNodeIpv6.stored := congrArg (Option.map _) he
    dsimp only
    by_cases hgw : e.gw = 0
    · rw [if_pos hgw]
      cases hfind : Keyed.find FibNodeIpv6.hashKey e.children (firstWord a) with
      | some c =>
        refine ⟨e.key, _, hstored, hk, ?_⟩
        have hc := Keyed.mem_of_find hfind
        have hword : c.hashKey = firstWord a := Keyed.key_of_find hfind
        have haddr : c.addr = a := hok.2 e hmem hlongest hgw c hc hword
        obtain ⟨hpfx, hcgw, hvid⟩ := h.host e hmem c hc
        rw [haddr] at hpfx hcgw
        rw [if_pos ⟨hpos, hgw⟩, haddr]
        exact ⟨rfl, rfl, hpfx, hcgw, hvid⟩
      | none =>
        refine ⟨e.key, _, hstored, hk, ?_⟩
        rw [if_pos ⟨hpos, hgw⟩]
        exact ⟨rfl, rfl, rfl, rfl, rfl⟩
    · rw [if_neg hgw]
      refine ⟨e.key, _, hstored, hk, ?_⟩
      rw [if_neg fun hc => hgw hc.2, if_neg hpos]
      exact ⟨rfl, rfl⟩

/-! ### Steps -/

/-- What `fib_ipv6_route` does to the table: a connected route gets a new child, or nothing. -/
theorem route_cases (f : FibIpv6) (a : Ip6) : (fibIpv6Route f a).2 = f ∨
    ∃ e, f.scan 128 a = some e ∧ e.gw = 0 ∧
      Keyed.find FibNodeIpv6.hashKey e.children (firstWord a) = none ∧ (fibIpv6Route f a).2 =
        f.modify e.key fun x => { x with children := x.children ++ [e.newChild a] } := by
  unfold fibIpv6Route
  cases hscan : f.scan 128 a with
  | none => exact Or.inl rfl
  | some e =>
    dsimp only
    split_ifs with hgw
    · cases hfind : Keyed.find FibNodeIpv6.hashKey e.children (firstWord a) with
      | some c => exact Or.inl rfl
      | none => exact Or.inr ⟨e, rfl, hgw, hfind, rfl⟩
    · exact Or.inl rfl

/-- What the loop finds is in the table. -/
theorem mem_of_scan {n : ℕ} {pfx : Ip6} (hscan : f.scan n pfx = some e) : e ∈ f.e := by
  induction n generalizing pfx with
  | zero => exact absurd hscan.symm (Option.some_ne_none e)
  | succ n ih =>
    rw [scan] at hscan
    cases hfind : f.hashFind (n + 1, pfx) with
    | some e' =>
      rw [hfind] at hscan
      obtain rfl := Option.some_inj.mp hscan
      exact Keyed.mem_of_find hfind
    | none =>
      rw [hfind] at hscan
      exact ih hscan

/-- **Step.** A lookup keeps the table sound. -/
theorem Sound.route (h : f.Sound) (a : Ip6) : (fibIpv6Route f a).2.Sound := by
  obtain hsame | ⟨e, hscan, -, -, hroute⟩ := route_cases f a
  · rw [hsame]
    exact h
  · rw [hroute]
    have he := mem_of_scan hscan
    have hmem {x : FibEntryIpv6} (hx : x ∈ (f.modify e.key fun x =>
        { x with children := x.children ++ [e.newChild a] }).e) :
        x = { e with children := e.children ++ [e.newChild a] } ∨ x ∈ f.e := by
      rcases Keyed.mem_modify_iff.mp hx with ⟨y, hy, hkey, rfl⟩ | ⟨hx, -⟩
      · obtain rfl := h.unique_key.eq_of_mem hy he hkey
        exact Or.inl rfl
      · exact Or.inr hx
    have hkeys : (f.modify e.key fun x =>
        { x with children := x.children ++ [e.newChild a] }).e.map FibEntryIpv6.hashKey =
        f.e.map FibEntryIpv6.hashKey := Keyed.map_modify _ fun _ => rfl
    refine ⟨?_, fun x hx => ?_, fun x hx c hc => ?_, h.dflt⟩
    · unfold Keyed.Unique
      rw [hkeys]
      exact h.unique
    · rcases hmem hx with rfl | hx
      · exact h.len e he
      · exact h.len x hx
    · rcases hmem hx with rfl | hx
      · rcases List.mem_append.mp hc with hc | hc
        · exact h.host e he c hc
        · rw [List.mem_singleton.mp hc]
          exact ⟨rfl, rfl, rfl⟩
      · exact h.host x hx c hc

/-- A lookup changes no prefix. -/
theorem Sound.stored_route (h : f.Sound) (a : Ip6) : (fibIpv6Route f a).2.stored = f.stored := by
  obtain hsame | ⟨e, hscan, -, -, hroute⟩ := route_cases f a
  · rw [hsame]
  · ext1 k
    rw [hroute, stored, stored, f.entryAt_addChild _ (h.len e (mem_of_scan hscan)).1.ne',
      Option.map_map]
    refine congrArg (Option.map · _) (funext fun x => ?_)
    rw [Function.comp_apply]
    split_ifs <;> rfl

/-- What `fib_ipv6_add` does to the table. -/
theorem add_cases {addr : Ip6} {len vid : ℕ} {gw : Ip6}
    (ha : fibIpv6Add f addr len vid gw = some f') :
    (len = 0 ∧ f' = { f with dflt := some { f.dflt.getD fibEntryIpv6New with
      addr := 0, pfx := 0, vid := vid, gw := gw, len := len } }) ∨
    (0 < len ∧ (∃ e, f.hashFind (len, maskedIpv6 len addr) = some e) ∧ f' = f) ∨
    (0 < len ∧ len ≤ 128 ∧ f.hashFind (len, maskedIpv6 len addr) = none ∧ f' = { f with
      e := ⟨⟨maskedIpv6 len addr, addr, gw, vid, len, ⟨0, 0⟩⟩, []⟩ :: f.e }) := by
  unfold fibIpv6Add at ha
  split_ifs at ha with hlen hzero
  · exact .inl ⟨hzero, (Option.some_inj.mp ha).symm⟩
  · cases hhit : f.hashFind (len, maskedIpv6 len addr) with
    | some e =>
      rw [hhit] at ha
      exact .inr (.inl ⟨Nat.pos_of_ne_zero hzero, ⟨e, rfl⟩, (Option.some_inj.mp ha).symm⟩)
    | none =>
      rw [hhit] at ha
      exact .inr (.inr ⟨Nat.pos_of_ne_zero hzero, Nat.not_lt.mp hlen, rfl,
        (Option.some_inj.mp ha).symm⟩)

/-- **Step.** A new route keeps the table sound. -/
theorem Sound.sound_add {addr : Ip6} {len vid : ℕ} {gw : Ip6} (h : f.Sound)
    (ha : fibIpv6Add f addr len vid gw = some f') : f'.Sound := by
  obtain ⟨hzero, rfl⟩ | ⟨-, -, rfl⟩ | ⟨hpos, hle, hmiss, rfl⟩ := add_cases ha
  · refine ⟨h.unique, h.len, h.host, fun e he => ?_⟩
    obtain rfl := Option.some_inj.mp he
    exact ⟨hzero, rfl, rfl⟩
  · exact h
  · refine ⟨h.unique.cons fun e he => ?_, fun e he => ?_, fun e he c hc => ?_, h.dflt⟩
    · exact Keyed.find_eq_none_iff.mp hmiss e he
    · rcases List.mem_cons.mp he with rfl | he
      · exact ⟨hpos, hle⟩
      · exact h.len e he
    · rcases List.mem_cons.mp he with rfl | he
      · exact absurd hc List.not_mem_nil
      · exact h.host e he c hc

/-- `fib_ipv6_add` adds the route to what the table holds. -/
theorem Sound.add {addr : Ip6} {len vid : ℕ} {gw : Ip6} (h : f.Sound)
    (hok : len ≠ 0 → f.Alone (len, maskedIpv6 len addr))
    (ha : fibIpv6Add f addr len vid gw = some f') :
    f'.Sound ∧ f'.stored = f.stored.add addr len vid gw := by
  refine ⟨h.sound_add ha, ?_⟩
  unfold FibTableIpv6.add
  have hentry (hpos : 0 < len) : f.entryAt (len, maskedIpv6 len addr) =
      f.hashFind (len, maskedIpv6 len addr) :=
    (entryAt_of_pos hpos.ne').trans (h.hashFind_eq (hok hpos.ne')).symm
  obtain ⟨hzero, rfl⟩ | ⟨hpos, ⟨e, hhit⟩, rfl⟩ | ⟨hpos, -, hmiss, rfl⟩ := add_cases ha
  · ext1 k
    rw [if_pos hzero]
    refine (congrArg (Option.map _) (Prefixes.entryAt_dflt f.dflt k)).trans ?_
    by_cases hk : k = (0, 0)
    · rw [if_pos hk, hk, update_self]
      rfl
    · rw [if_neg hk, update_of_ne hk]
      rfl
  · rw [if_neg hpos.ne', ← isSome_entryAt, hentry hpos, hhit]
    exact (if_pos rfl).symm
  · ext1 k
    have hkey : FibEntryIpv6.key ⟨⟨maskedIpv6 len addr, addr, gw, vid, len, ⟨0, 0⟩⟩, []⟩ =
      (len, maskedIpv6 len addr) := rfl
    rw [if_neg hpos.ne', ← isSome_entryAt, hentry hpos, hmiss, Option.isSome_none,
      if_neg Bool.false_ne_true]
    refine (congrArg (Option.map _) (Prefixes.entryAt_cons hkey hpos.ne' k)).trans ?_
    by_cases hk : k = (len, maskedIpv6 len addr)
    · rw [if_pos hk, hk, update_self]
      rfl
    · rw [if_neg hk, update_of_ne hk]
      rfl

/-- `fib_ipv6_del` deletes the route of the prefix from what the table holds. -/
theorem Sound.del {addr : Ip6} {len : ℕ} {r : Option FibEntryIpv6 × FibIpv6} (h : f.Sound)
    (hok : len ≠ 0 → f.Alone (len, maskedIpv6 len addr)) (hd : fibIpv6Del f addr len = some r) :
    r.2.Sound ∧ r.2.stored = update f.stored (len, maskedIpv6 len addr) none := by
  obtain ⟨e?, hget, rfl⟩ := Option.map_eq_some_iff.mp hd
  have hentry : f.entryAt (len, maskedIpv6 len addr) = e? := by
    unfold fibIpv6Get at hget
    split_ifs at hget with h1 h2
    · subst h2
      rw [maskedIpv6_zero]
      exact Option.some_inj.mp hget
    · rw [h.hashFind_eq (hok h2)] at hget
      exact (entryAt_of_pos h2).trans (Option.some_inj.mp hget)
  have hstored (k : ℕ × Ip6) (hk : k ≠ (len, maskedIpv6 len addr)) (e : FibEntryIpv6)
      (he : e? = some e) : (f.remove e).stored k = f.stored k := by
    rw [stored, h.entryAt_remove (hentry.trans he), if_neg hk]
    rfl
  cases e? with
  | none =>
    refine ⟨h, ?_⟩
    ext1 k
    by_cases hk : k = (len, maskedIpv6 len addr)
    · rw [hk, update_self]
      exact congrArg (Option.map _) hentry
    · rw [update_of_ne hk]
  | some e =>
    refine ⟨h.remove e, ?_⟩
    ext1 k
    by_cases hk : k = (len, maskedIpv6 len addr)
    · rw [hk, update_self, stored, h.entryAt_remove hentry, if_pos rfl]
      rfl
    · rw [update_of_ne hk]
      exact hstored k hk e rfl

/-- A call that meets no other address does to what the table holds what it is to do. -/
theorem Sound.step (h : f.Sound) {op : FibOpIpv6} (hok : f.Ok op) (hs : f.step op = some f') :
    f'.Sound ∧ f'.stored = f.stored.step op := by
  cases op with
  | add addr len vid gw => exact h.add hok hs
  | del addr len =>
    obtain ⟨r, hr, rfl⟩ := Option.map_eq_some_iff.mp hs
    exact h.del hok hr
  | route addr =>
    obtain rfl := Option.some_inj.mp hs
    exact ⟨h.route addr, h.stored_route addr⟩

/-! ### Runs -/

/-- **Run.** The table stores what the calls ask for. -/
theorem run_stored {ops : List FibOpIpv6} (hrun : Guarded.run FibIpv6.step Ok f ops = some f')
    (h : f.Sound) : f'.Sound ∧ f'.stored = ops.foldl FibTableIpv6.step f.stored := by
  induction ops generalizing f with
  | nil =>
    obtain rfl := Option.some_inj.mp hrun
    exact ⟨h, rfl⟩
  | cons op ops ih =>
    rw [Guarded.run] at hrun
    split_ifs at hrun with hok
    obtain ⟨f₁, hs, hrun⟩ := Option.bind_eq_some_iff.mp hrun
    obtain ⟨h₁, hstored⟩ := h.step hok hs
    rw [List.foldl_cons, ← hstored]
    exact ih hrun h₁

/-- After any run of additions, deletions and lookups that meet no other address with the same first
four bytes, the table holds the prefixes that were added and not deleted, each in an entry of its
own, and a lookup that meets no other address returns the route of the longest one, or its host. -/
theorem longest_prefix_match_ipv6 {ops : List FibOpIpv6}
    (hrun : Guarded.run FibIpv6.step Ok empty ops = some f) :
    f.stored = ops.foldl FibTableIpv6.step (fun _ => none) ∧
      (∀ k e, f.entryAt k = some e → e.key = k) ∧
      ∀ a, f.RouteOk a → f.stored.RoutesTo a (fibIpv6Route f a).1 := by
  obtain ⟨h, hstored⟩ := run_stored hrun empty_sound
  have hempty : empty.stored = fun _ => none := by
    ext1 k
    exact congrArg (Option.map _) Prefixes.entryAt_nil
  rw [hempty] at hstored
  exact ⟨hstored, fun k e he => h.key_of_entryAt he, fun a hok => h.routesTo hok⟩

/-- A route for `2001:db8::/32`, and a connected route `2001:db8:0:1::/64` in it. -/
def nestedRun : List FibOpIpv6 :=
  [.add 0x20010db8000000000000000000000000 32 5 0xfe80000000000000000000000000000a,
    .add 0x20010db8000000010000000000000000 64 7 0, .route 0x20010db8000000010000000000000001]

/-- A lookup in a network inside another one. -/
theorem longest_prefix_match_ipv6_nestedRun : ∃ f,
    (fibIpv6Route f 0x20010db8000000010000000000000001).1.map Prod.fst =
      some (.child (64, 0x20010db8000000010000000000000000) 0x20010db8000000010000000000000001) ∧
      f.stored.RoutesTo 0x20010db8000000010000000000000001
        (fibIpv6Route f 0x20010db8000000010000000000000001).1 := by
  have hlast : (Guarded.run FibIpv6.step Ok empty nestedRun).map (fun f =>
      ((fibIpv6Route f 0x20010db8000000010000000000000001).1.map Prod.fst,
        decide (f.RouteOk 0x20010db8000000010000000000000001))) =
      some (some (.child (64, 0x20010db8000000010000000000000000)
        0x20010db8000000010000000000000001), true) := by
    decide +kernel
  obtain ⟨f, hrun, hshown⟩ := Option.map_eq_some_iff.mp hlast
  obtain ⟨hroute, hok⟩ := Prod.mk.inj hshown
  exact ⟨f, hroute, (longest_prefix_match_ipv6 hrun).2.2 _ (of_decide_eq_true hok)⟩

/-- Of `2001:db8:1::/48` and `2001:db8:2::/48` only the first one is stored, and it is found for the
addresses of the second one. -/
theorem not_longest_prefix_match_ipv6 : ∃ f,
    Guarded.run FibIpv6.step (fun _ _ => True) empty
      [.add 0x20010db8000100000000000000000000 48 5 0xfe80000000000000000000000000000a,
        .add 0x20010db8000200000000000000000000 48 5 0xfe80000000000000000000000000000b] = some f ∧
      f.stored (48, 0x20010db8000200000000000000000000) = none ∧
      (fibIpv6Route f 0x20010db8000200000000000000000001).1.map Prod.fst =
        some (.entry (48, 0x20010db8000100000000000000000000)) := by
  have hlast : (Guarded.run FibIpv6.step (fun _ _ => True) empty
      [.add 0x20010db8000100000000000000000000 48 5 0xfe80000000000000000000000000000a,
        .add 0x20010db8000200000000000000000000 48 5 0xfe80000000000000000000000000000b]).map
      (fun f => (f.stored (48, 0x20010db8000200000000000000000000),
        (fibIpv6Route f 0x20010db8000200000000000000000001).1.map Prod.fst)) =
      some (none, some (.entry (48, 0x20010db8000100000000000000000000))) := by
    decide +kernel
  obtain ⟨f, hrun, hshown⟩ := Option.map_eq_some_iff.mp hlast
  obtain ⟨hstored, hroute⟩ := Prod.mk.inj hshown
  exact ⟨f, hrun, hstored, hroute⟩

end FibIpv6

end Presteramgr
