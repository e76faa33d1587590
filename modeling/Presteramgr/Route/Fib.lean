import Presteramgr.Lib.Prefixes
import Presteramgr.Ret.Router

/-!
# The forwarding information base (`fib.c`)

The routes by length and masked address. A route with the one gateway 0 is connected: hosts in it
are reached at their own addresses, and each address asked for gets a child of the route.

A function that runs into an `assert`, or beyond an array, ends in a `Fault`.

## Main definitions

* `Route`: a route as the callers pass it, with an array of eight gateways;
* `fibAdd`, `fibGet`, `fibDel` and `fibRoute`;
* `FibRef`: a route or child in the table, which `setGroupId` changes.
-/

namespace Presteramgr

/-- How a function can end otherwise than by returning. -/
inductive Fault
  | assertion
  | outOfBounds
deriving DecidableEq, Repr

/-- A computation that goes on after another one returns if both do. -/
theorem Except.bind_eq_ok_iff {α β : Type} {x : Except Fault α} {f : α → Except Fault β} {b : β} :
    x.bind f = .ok b ↔ ∃ a, x = .ok a ∧ f a = .ok b := by
  cases x with
  | error e => exact ⟨nofun, fun ⟨_, h, _⟩ => nomatch h⟩
  | ok a => exact ⟨fun h => ⟨a, rfl, h⟩, fun ⟨_, h, hf⟩ => Except.ok.inj h ▸ hf⟩

/-- A mapped result is good when the result was. -/
theorem Except.map_eq_ok_iff {α β : Type} {x : Except Fault α} {f : α → β} {b : β} :
    x.map f = .ok b ↔ ∃ a, x = .ok a ∧ f a = b := by
  cases x with
  | error e => exact ⟨nofun, fun ⟨_, h, _⟩ => nomatch h⟩
  | ok a => exact ⟨fun h =>
    ⟨a, rfl, Except.ok.inj h⟩, fun ⟨_, h, hf⟩ => by cases h; exact congrArg _ hf⟩

/-- A result is some value when it is good. -/
theorem Except.toOption_eq_some_iff {α : Type} {x : Except Fault α} {a : α} :
    x.toOption = some a ↔ x = .ok a := by
  cases x with
  | error e => exact ⟨nofun, nofun⟩
  | ok b => exact ⟨fun h => congrArg _ (Option.some_inj.mp h), fun h =>
    congrArg _ (Except.ok.inj h)⟩

/-! ## Addresses -/

/-- An address without the bits behind the prefix. -/
def masked (n : ℕ) (addr : Ip4) : Ip4 := addr &&& mkmask n

/-- The mask after one more round of the loop of `fib_route`. -/
theorem mkmask_succ {i : ℕ} (hi : i < 32) :
    mkmask (i + 1) &&& ~~~(1#32 <<< (32 - (i + 1))) = mkmask i := by
  have h : ∀ i < 32, mkmask (i + 1) &&& ~~~(1#32 <<< (32 - (i + 1))) = mkmask i := by decide
  exact h i hi

@[simp] theorem masked_thirtyTwo (addr : Ip4) : masked 32 addr = addr := by
  have h : mkmask 32 = BitVec.allOnes 32 := by decide
  rw [masked, h, BitVec.and_allOnes]

@[simp] theorem masked_zero (addr : Ip4) : masked 0 addr = 0 := by
  have h : mkmask 0 = 0#32 := by decide
  rw [masked, h, BitVec.and_zero]
  rfl

/-! ## Routes -/

/-- `struct route`, with the prefix `pfx`. The count may say more than the array holds. -/
structure Route where
  addr : Ip4
  alen : ℕ
  gw_count : ℕ
  gw : Fin 8 → Gw

/-- What a loop reads that runs over the gateways up to their count. -/
def Route.gws (rt : Route) : Except Fault (List Gw) :=
  if rt.gw_count ≤ 8 then .ok ((List.ofFn rt.gw).take rt.gw_count) else .error .outOfBounds

/-- One round of the loop over the gateways in `fib_add`. -/
def FibNode.addGw (n : FibNode) (g : Gw) : FibNode :=
  if g.addr ∈ n.gw then n
  else { n with
    gw := n.gw ++ [g.addr]
    vid := n.vid ++ [g.vid]
    ret_key := n.ret_key ++ [⟨0, 0⟩] }

/-- The loop over the gateways in `fib_add`. -/
def FibNode.addGws (n : FibNode) (gws : List Gw) : FibNode := gws.foldl FibNode.addGw n

/-- What the hash table of a length compares, with the length. -/
def FibEntry.key (e : FibEntry) : ℕ × Ip4 := (e.len, e.addr)

/-- `fib_entry_new`. -/
def fibEntryNew : FibEntry := ⟨⟨0, 0, [], [], 0, 0, []⟩, []⟩

namespace Fib

variable (f : Fib)

/-- `HASH_FIND_INT` in the table of the length. -/
def hashFind (k : ℕ × Ip4) : Option FibEntry := Keyed.find FibEntry.key f.e k

/-- A change of a route in place. -/
def modify (k : ℕ × Ip4) (g : FibEntry → FibEntry) : Fib :=
  { f with e := Keyed.modify FibEntry.key f.e k g }

end Fib

/-- `fib_add`, with the arguments that `route_add` takes from a route. -/
def fibAdd (f : Fib) (rt : Route) : Except Fault Fib :=
  if 32 < rt.alen then .error .assertion
  else if rt.alen = 0 then
    rt.gws.map fun gws =>
      let e := f.dflt.getD fibEntryNew
      { f with dflt := some { e with
          toFibNode := { e.toFibNode with addr := 0, pfx := 0, len := 0 }.addGws gws } }
  else
    let addr := masked rt.alen rt.addr
    match f.hashFind (rt.alen, addr) with
    | some _ => .ok f
    | none =>
      rt.gws.map fun gws =>
        let e : FibNode := ⟨addr, rt.addr, [], [], rt.alen, 0, []⟩
        { f with e := ⟨e.addGws gws, []⟩ :: f.e }

/-- `fib_get`. -/
def fibGet (f : Fib) (addr : Ip4) (len : ℕ) : Except Fault (Option FibEntry) :=
  if 32 < len then .error .assertion
  else if len = 0 then .ok f.dflt
  else .ok (f.hashFind (len, masked len addr))

/-- The table after `fib_del` has found the route. -/
def Fib.remove (f : Fib) (e : FibEntry) : Fib :=
  if e.len = 0 then { f with dflt := none } else { f with e := Keyed.del FibEntry.key f.e e.key }

/-- The loop of `fib_route`: the lengths from `i` down to one. -/
def Fib.scan (f : Fib) : ℕ → Ip4 → Option FibEntry
  | 0, _ => none
  | i + 1, pfx =>
    match f.hashFind (i + 1, pfx) with
    | some e => some e
    | none => f.scan i (pfx &&& ~~~(1#32 <<< (32 - (i + 1))))

/-- A route or a child of a route in the table. -/
inductive FibRef
  | dflt
  | entry (k : ℕ × Ip4)
  | child (k : ℕ × Ip4) (addr : Ip4)
deriving DecidableEq, Repr

/-- The child for an address. It has the list `vid` of the route. -/
def FibEntry.newChild (e : FibEntry) (addr : Ip4) : FibNode where
  addr := addr
  pfx := addr
  gw := [addr]
  vid := e.vid
  len := 32
  group_id := 0
  ret_key := []

/-- `fib_route`: the route or child for the address, and the table, in which the child may be
new. -/
def fibRoute (f : Fib) (addr : Ip4) : Option (FibRef × FibNode) × Fib :=
  match f.scan 32 addr with
  | some e =>
    -- a connected route
    if e.gw = [0] then
      match Keyed.find FibNode.addr e.children addr with
      | some c => (some (.child e.key addr, c), f)
      | none =>
        let c := e.newChild addr
        (some (.child e.key addr, c),
          f.modify e.key fun e => { e with children := e.children ++ [c] })
    else (some (.entry e.key, e.toFibNode), f)
  | none => (f.dflt.map fun e => (.dflt, e.toFibNode), f)

/-- `fib_entry_set_group_id`. -/
def Fib.setGroupId (f : Fib) (gid : ℤ) : FibRef → Fib
  | .dflt => { f with dflt := f.dflt.map fun e => { e with group_id := gid } }
  | .entry k => f.modify k fun e => { e with group_id := gid }
  | .child k addr => f.modify k fun e => { e with
      children := Keyed.modify FibNode.addr e.children addr fun c => { c with group_id := gid } }

/-- `fib_to_route`, into a route that holds `rt`. The count is left as the number of VLANs. -/
def fibToRoute (n : FibNode) (rt : Route) : Except Fault Route :=
  if 8 < n.gw.length ∨ 8 < n.vid.length then .error .outOfBounds
  else .ok {
    addr := n.pfx
    alen := n.len
    gw_count := n.vid.length
    gw := fun i => ⟨n.gw.getD i (rt.gw i).addr, n.vid.getD i (rt.gw i).vid⟩ }

end Presteramgr
