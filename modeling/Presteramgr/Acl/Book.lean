import Presteramgr.Lib.Zones
import Presteramgr.Acl.Unit

/-!
# The index book (`pcl.c`)

The rules of a device stand in the TCAM without gaps: ACL rules, then QoS rules, then rules of
policy routing, each kind in the order in which its rules were set. Taking an index makes room at
the end of a kind, returning one closes the gap.

## Main definitions

* `LiveRule`: a rule that has an index, with what was written for it;
* `AclDev.Placed`: the bindings and the index book agree with the rules of a device;
* `PclDev.Installed`: the TCAM agrees with them.

## Main results

* `PclDev.ruleSet_placed`: setting a rule keeps both, `PclDev.resetRules_placed`: so does removing
  rules.
-/

namespace Presteramgr

open Function (update update_self update_of_ne)
open Zones (layout Numbers Holds)

/-- The number of a kind of rules, in the order of the TCAM. -/
def PclActionType.zone : PclActionType → ℕ
  | .ACL => 0
  | .POLICY => 1
  | .POLICY_ROUTE => 2
  | .other _ => 3

/-- A rule that has an index, and the entry that was written for it if it was installed. -/
structure LiveRule where
  args : RuleArgs
  params : RuleParams
  written : Option PclEntry

namespace LiveRule

/-- The key of the binding of a rule. -/
def key (r : LiveRule) : RuleBindingKey := r.args.bindKey

/-- The kind of a rule. -/
def zone (r : LiveRule) : ℕ := r.args.action_type.zone

end LiveRule

/-- The rules of a device in the order of the TCAM. -/
def placing (live : List LiveRule) : List LiveRule := layout LiveRule.zone 3 live

/-- `pcl_find_rule_ix`. -/
def AclDev.pclFindRuleIx (sw : AclDev) (key : RuleBindingKey) : Option ℕ :=
  (Keyed.find RuleBinding.key sw.bindings key).map RuleBinding.rule_ix

/-- The first index behind the kinds below `z`, as the index book has it. -/
def IxBook.zoneEnd (b : IxBook) : ℕ → ℕ
  | 0 => b.start
  | 1 => b.acl_end
  | 2 => b.qos_end
  | _ => b.pbr_end

/-- The index book with one more rule of the kind `z`. -/
def IxBook.taken (b : IxBook) (z : ℕ) : IxBook :=
  { b with
    acl_end := b.acl_end + if z < 1 then 1 else 0
    qos_end := b.qos_end + if z < 2 then 1 else 0
    pbr_end := b.pbr_end + 1 }

/-- The index book with one rule of the kind `z` less. -/
def IxBook.returned (b : IxBook) (z : ℕ) : IxBook :=
  { b with
    acl_end := b.acl_end - if z < 1 then 1 else 0
    qos_end := b.qos_end - if z < 2 then 1 else 0
    pbr_end := b.pbr_end - 1 }

/-- The bindings and the index book agree with the rules of the device, given in the order in which
they were set. -/
structure AclDev.Placed (sw : AclDev) (live : List LiveRule) : Prop where
  keys : sw.bindings.map RuleBinding.key = live.map LiveRule.key
  unique : Keyed.Unique LiveRule.key live
  zone_lt : ∀ r ∈ live, r.zone < 3
  ends : ∀ z ≤ 3, sw.index_book.zoneEnd z =
    sw.index_book.start + (layout LiveRule.zone z live).length
  room : sw.index_book.pbr_end ≤ sw.index_book.end_
  numbers : Numbers sw.index_book.start ((placing live).map LiveRule.key) sw.pclFindRuleIx

/-- The entry of a rule is what was written for it, and the entries behind the rules are invalid. -/
def PclDev.Installed (s : PclDev) (live : List LiveRule) : Prop :=
  Holds s.sw.index_book.start s.sw.index_book.end_ ((placing live).map LiveRule.written) s.hw.tcam

namespace AclDev.Placed

variable {sw : AclDev} {live : List LiveRule} {k : RuleBindingKey}

/-- No rule has two bindings. -/
theorem bindings_unique (hp : sw.Placed live) : Keyed.Unique RuleBinding.key sw.bindings := by
  unfold Keyed.Unique
  rw [hp.keys]
  exact hp.unique

/-- A rule is bound when it is live. -/
theorem find_isSome_iff (hp : sw.Placed live) :
    (Keyed.find RuleBinding.key sw.bindings k).isSome ↔ ∃ r ∈ live, r.key = k := by
  have hmem : k ∈ sw.bindings.map RuleBinding.key ↔ k ∈ live.map LiveRule.key := by rw [hp.keys]
  rw [Keyed.find_isSome_iff, ← List.mem_map, hmem, List.mem_map]

/-- The rules of the book are the live ones. -/
theorem mem_placing (hp : sw.Placed live) {r : LiveRule} : r ∈ placing live ↔ r ∈ live := by
  rw [placing, Zones.mem_layout_iff]
  exact ⟨And.left, fun hr => ⟨hr, hp.zone_lt r hr⟩⟩

/-- Every rule has an index, that of its place. -/
theorem exists_place (hp : sw.Placed live) {r : LiveRule} (hr : r ∈ live) :
    ∃ A B, placing live = A ++ r :: B ∧
      sw.pclFindRuleIx r.key = some (sw.index_book.start + A.length) := by
  obtain ⟨A, B, hAB⟩ := List.append_of_mem (hp.mem_placing.mpr hr)
  refine ⟨A, B, hAB, ?_⟩
  have hget : ((placing live).map LiveRule.key)[A.length]? = some r.key := by
    rw [hAB, List.map_append, List.getElem?_append_right (by rw [List.length_map]),
      List.length_map, Nat.sub_self]
    rfl
  exact hp.numbers _ _ hget

/-- The place of a rule whose binding is found. -/
theorem exists_of_find (hp : sw.Placed live) {bind : RuleBinding}
    (hfind : Keyed.find RuleBinding.key sw.bindings k = some bind) :
    ∃ A B r, placing live = A ++ r :: B ∧ r.key = k ∧
      bind.rule_ix = sw.index_book.start + A.length := by
  obtain ⟨r, hr, rfl⟩ := hp.find_isSome_iff.mp (Option.isSome_of_eq_some hfind)
  obtain ⟨A, B, hAB, hix⟩ := hp.exists_place hr
  unfold AclDev.pclFindRuleIx at hix
  rw [hfind, Option.map_some] at hix
  exact ⟨A, B, r, hAB, rfl, Option.some_inj.mp hix⟩

/-- The rules of the kinds below `z` are those with an index below the end of these kinds. -/
theorem zone_lt_iff (hp : sw.Placed live) {A B : List LiveRule} {r : LiveRule} {z : ℕ}
    (hAB : placing live = A ++ r :: B) (hz : z ≤ 3) :
    r.zone < z ↔ sw.index_book.start + A.length < sw.index_book.zoneEnd z := by
  have hget : (layout LiveRule.zone 3 live)[A.length]? = some r := by
    rw [show layout LiveRule.zone 3 live = A ++ r :: B from hAB,
      List.getElem?_append_right le_rfl, Nat.sub_self]
    rfl
  rw [Zones.rank_lt_iff hz hget, hp.ends z hz]
  omega

/-- The used range ends behind the last rule. -/
theorem pbr_end (hp : sw.Placed live) :
    sw.index_book.pbr_end = sw.index_book.start + (placing live).length := hp.ends 3 le_rfl

/-- What the bindings and the index book determine. -/
theorem congr {sw' : AclDev} (hp : sw.Placed live) (hbook : sw'.index_book = sw.index_book)
    (hbind : sw'.bindings = sw.bindings) : sw'.Placed live where
  keys := by rw [hbind]; exact hp.keys
  unique := hp.unique
  zone_lt := hp.zone_lt
  ends := by rw [hbook]; exact hp.ends
  room := by rw [hbook]; exact hp.room
  numbers := by
    unfold AclDev.pclFindRuleIx
    rw [hbook, hbind]
    exact hp.numbers

end AclDev.Placed

namespace PclDev

variable {fake : Bool} {s s' : PclDev} {live : List LiveRule}

/-! ### Moving rules -/

/-- Rules get other indices, and entries move in the TCAM. -/
def shift (fake : Bool) (s : PclDev) (f : ℕ → ℕ)
    (g : (ℕ → Option PclEntry) → ℕ → Option PclEntry) : PclDev where
  sw := { s.sw with
    bindings := s.sw.bindings.map fun bind => { bind with rule_ix := f bind.rule_ix } }
  hw := if fake then s.hw else { s.hw with tcam := g s.hw.tcam }

/-- A shift by nothing. -/
theorem shift_id {f : ℕ → ℕ} {g : (ℕ → Option PclEntry) → ℕ → Option PclEntry}
    (hf : ∀ i, f i = i) (hg : ∀ t, g t = t) : s.shift fake f g = s := by
  unfold shift
  simp only [hf, hg, List.map_id', ite_self]

/-- Two shifts are one. -/
theorem shift_shift {f f' h : ℕ → ℕ} {g g' e : (ℕ → Option PclEntry) → ℕ → Option PclEntry}
    (hf : ∀ i, h i = f (f' i)) (hg : ∀ t, e t = g (g' t)) :
    (s.shift fake f' g').shift fake f g = s.shift fake h e := by
  unfold shift
  cases fake <;> simp [hf, hg]

/-- `ix_book_move_rule` is a shift of one place. -/
theorem ixBookMoveRule_eq (i j : ℕ) : s.ixBookMoveRule fake i j =
    s.shift fake (fun x => if x = i then j else x) fun t => Zones.move t i j := by
  unfold ixBookMoveRule ixBookEditIxInBinding setBindings setTcam shift Zones.move
  have hmap : (fun item : RuleBinding =>
      if item.rule_ix = i then { item with rule_ix := j } else item) =
      fun bind => { bind with rule_ix := if bind.rule_ix = i then j else bind.rule_ix } := by
    funext bind
    split_ifs <;> rfl
  cases fake <;> simp [hmap]

/-- Making room. -/
theorem foldr_moveRule (lo n : ℕ) :
    (List.range' lo n).foldr (fun i s => s.ixBookMoveRule fake i (i + 1)) s =
      s.shift fake (Zones.up lo n) (Zones.openGap lo n) := by
  induction n generalizing lo with
  | zero => exact (shift_id (fun i => if_neg (by omega)) fun _ => rfl).symm
  | succ n ih =>
    rw [List.range'_succ, List.foldr_cons, ih, ixBookMoveRule_eq]
    exact shift_shift (fun _ => Zones.up_succ) fun _ => Zones.openGap_succ

/-- Closing a gap. -/
theorem foldl_moveRule (lo n : ℕ) :
    (List.range' lo n).foldl (fun s i => s.ixBookMoveRule fake (i + 1) i) s =
      s.shift fake (Zones.down lo n) (Zones.closeGap lo n) := by
  induction n generalizing lo s with
  | zero => exact (shift_id (fun i => if_neg (by omega)) fun _ => rfl).symm
  | succ n ih =>
    rw [List.range'_succ, List.foldl_cons, ih, ixBookMoveRule_eq]
    exact shift_shift (fun _ => Zones.down_succ) fun _ => Zones.closeGap_succ

/-! ### Taking an index -/

/-- `ix_book_take` takes the slot behind the rules of the kind. -/
theorem ixBookTake_eq (t : PclActionType) : s.ixBookTake fake t =
    if t.zone < 3 then
      s.ixBookActionTake fake (s.sw.index_book.zoneEnd (t.zone + 1)) (s.sw.index_book.taken t.zone)
    else none := by
  cases t <;> rfl

/-- What `pcl_add_rule_ix` does: the rules behind the new one move up. -/
structure Added (fake : Bool) (s : PclDev) (k : RuleBindingKey) (ix : ℕ) (s' : PclDev) : Prop where
  find : Keyed.find RuleBinding.key s.sw.bindings k = none
  zone_lt : k.acttype.zone < 3
  not_full : s.sw.index_book.pbr_end ≠ s.sw.index_book.end_
  ix_eq : ix = s.sw.index_book.zoneEnd (k.acttype.zone + 1)
  index_book : s'.sw.index_book = s.sw.index_book.taken k.acttype.zone
  bindings : s'.sw.bindings = (s.sw.bindings.map fun bind => { bind with
    rule_ix := Zones.up ix (s.sw.index_book.pbr_end - ix) bind.rule_ix }) ++ [⟨k, ix⟩]
  port_cmps : s'.sw.port_cmps = s.sw.port_cmps
  port_cmp_idxs : s'.sw.port_cmp_idxs = s.sw.port_cmp_idxs
  hw : s'.hw = if fake then s.hw
    else { s.hw with tcam := Zones.openGap ix (s.sw.index_book.pbr_end - ix) s.hw.tcam }

/-- What a new rule does to the book. -/
theorem pclAddRuleIx_spec {k : RuleBindingKey} {ix : ℕ}
    (h : s.pclAddRuleIx fake k = some (ix, s')) : Added fake s k ix s' := by
  unfold pclAddRuleIx at h
  split_ifs at h with hfind
  obtain ⟨⟨ix', s₁⟩, htake, heq⟩ := Option.map_eq_some_iff.mp h
  obtain ⟨rfl, rfl⟩ := Prod.mk.inj heq
  rw [ixBookTake_eq] at htake
  split_ifs at htake with ht
  unfold ixBookActionTake at htake
  split_ifs at htake with hfull
  obtain ⟨rfl, rfl⟩ := Prod.mk.inj (Option.some_inj.mp htake)
  rw [foldr_moveRule]
  exact ⟨Option.not_isSome_iff_eq_none.mp hfind, ht, hfull, rfl, rfl, rfl, rfl, rfl, rfl⟩

namespace Added

variable {r : LiveRule} {ix : ℕ} (h : Added fake s r.key ix s')

include h

/-- The index that the new rule gets. -/
theorem pclFindRuleIx_self : s'.sw.pclFindRuleIx r.key = some ix := by
  unfold AclDev.pclFindRuleIx
  rw [h.bindings, Keyed.find_snoc, Keyed.find_map _ fun _ => rfl, h.find, if_pos rfl]
  rfl

/-- The indices that the other rules have then. -/
theorem pclFindRuleIx_of_ne {k : RuleBindingKey} (hk : k ≠ r.key) : s'.sw.pclFindRuleIx k =
    (s.sw.pclFindRuleIx k).map (Zones.up ix (s.sw.index_book.pbr_end - ix)) := by
  unfold AclDev.pclFindRuleIx
  rw [h.bindings, Keyed.find_snoc, Keyed.find_map _ fun _ => rfl, if_neg (Ne.symm hk),
    Option.or_none, Option.map_map, Option.map_map]
  rfl

/-- The new rule has a key of its own. -/
theorem key_ne (hp : s.sw.Placed live) {r' : LiveRule} (hr' : r' ∈ live) : r'.key ≠ r.key := by
  intro heq
  have hsome := hp.find_isSome_iff.mpr ⟨r', hr', heq⟩
  rw [h.find] at hsome
  exact absurd hsome Bool.false_ne_true

/-- Where the new rule stands. -/
theorem exists_rest (hp : s.sw.Placed live) : ∃ A B, placing live = A ++ B ∧
    (∀ r' : LiveRule, r'.zone = r.zone → placing (live ++ [r']) = A ++ r' :: B) ∧
    ix = s.sw.index_book.start + A.length ∧ s.sw.index_book.pbr_end - ix = B.length := by
  have hz : r.zone < 3 := h.zone_lt
  obtain ⟨rest, hrest, hsnoc⟩ := Zones.layout_snoc LiveRule.zone live hz
  have hix : ix = s.sw.index_book.start + (layout LiveRule.zone (r.zone + 1) live).length :=
    h.ix_eq.trans (hp.ends _ hz)
  refine ⟨_, rest, hrest, hsnoc, hix, ?_⟩
  rw [hix, hp.pbr_end, placing, hrest, List.length_append]
  omega

/-- The zones end behind the new rule where they hold it. -/
theorem ends (hp : s.sw.Placed live) {z : ℕ} (hz3 : z ≤ 3) : s'.sw.index_book.zoneEnd z =
    s'.sw.index_book.start + (layout LiveRule.zone z (live ++ [r])).length := by
  have hz : r.zone < 3 := h.zone_lt
  rw [h.index_book, Zones.length_layout_snoc, ← Nat.add_assoc]
  refine Eq.trans ?_ (congrArg (· + if r.zone < z then 1 else 0) (hp.ends z hz3))
  rcases z with _ | _ | _ | _ | z
  · rfl
  · rfl
  · rfl
  · exact congrArg (s.sw.index_book.pbr_end + ·) (if_pos hz).symm
  · omega

/-- A rule that gets an index has its place. -/
theorem placed (hp : s.sw.Placed live) : s'.sw.Placed (live ++ [r]) where
  keys := by
    rw [h.bindings, List.map_append, List.map_append, ← hp.keys, List.map_map]
    rfl
  unique := by
    unfold Keyed.Unique
    rw [List.map_append, List.nodup_append]
    refine ⟨hp.unique, List.nodup_singleton _, ?_⟩
    intro k hk k' hk' heq
    obtain ⟨r', hr', rfl⟩ := List.mem_map.mp hk
    obtain rfl := List.mem_singleton.mp hk'
    exact h.key_ne hp hr' heq
  zone_lt := by
    intro r' hr'
    rcases List.mem_append.mp hr' with hr' | hr'
    · exact hp.zone_lt r' hr'
    · obtain rfl := List.mem_singleton.mp hr'
      exact h.zone_lt
  ends := fun z hz => h.ends hp hz
  room := by
    rw [h.index_book]
    exact Nat.lt_of_le_of_ne hp.room h.not_full
  numbers := by
    obtain ⟨A, B, hAB, hsnoc, hix, hlen⟩ := h.exists_rest hp
    have hnum := hp.numbers
    rw [hAB, List.map_append] at hnum
    rw [hsnoc r rfl, List.map_append, List.map_cons, h.index_book]
    refine hnum.up ?_ ?_
    · intro k hk
      rw [List.length_map, List.length_map, ← hix, ← hlen]
      refine h.pclFindRuleIx_of_ne ?_
      rw [← List.map_append, ← hAB] at hk
      obtain ⟨r', hr', rfl⟩ := List.mem_map.mp hk
      exact h.key_ne hp (hp.mem_placing.mp hr')
    · rw [List.length_map, ← hix]
      exact h.pclFindRuleIx_self

/-- The entry of a rule that got an index is invalid. -/
theorem installed (hp : s.sw.Placed live) (hi : s.Installed live) (hfake : fake = false)
    (hr : r.written = none) : s'.Installed (live ++ [r]) := by
  obtain ⟨A, B, hAB, hsnoc, hix, hlen⟩ := h.exists_rest hp
  unfold PclDev.Installed at hi ⊢
  rw [hAB, List.map_append] at hi
  rw [hsnoc r rfl, List.map_append, List.map_cons, hr, h.index_book, h.hw, hfake, hlen, hix]
  have hopen := hi.openGap
  rw [List.length_map, List.length_map] at hopen
  exact hopen

/-- The entry of a rule is written. -/
theorem installed_written {t : PclDev} (hp : s.sw.Placed live)
    (hi : t.Installed (live ++ [r])) (hbook : t.sw.index_book = s'.sw.index_book)
    (w : Option PclEntry) :
        (t.setTcam false ix w).Installed (live ++ [{ r with written := w }]) := by
  obtain ⟨A, B, hAB, hsnoc, hix, hlen⟩ := h.exists_rest hp
  unfold PclDev.Installed at hi ⊢
  rw [hsnoc r rfl, List.map_append, List.map_cons] at hi
  rw [hsnoc { r with written := w } rfl, List.map_append, List.map_cons]
  have hupdate := hi.update (b := w)
  rw [List.length_map, hbook, h.index_book] at hupdate
  rw [hix]
  unfold PclDev.setTcam
  rw [if_neg Bool.false_ne_true, hbook, h.index_book]
  exact hupdate

end Added

/-! ### Returning an index -/

/-- `ix_book_action_return` closes the gap. -/
theorem ixBookActionReturn_eq {index first last : ℕ} (book : IxBook) (hfirst : first ≤ index)
    (hlast : index < last) : s.ixBookActionReturn fake index first last book =
      (s.shift fake (Zones.down index (s.sw.index_book.pbr_end - 1 - index))
        (Zones.closeGap index (s.sw.index_book.pbr_end - 1 - index))).setIndexBook book := by
  unfold ixBookActionReturn
  rw [if_neg (by omega), foldl_moveRule]

variable (fake) in
/-- The index of a rule is returned to the kind of the rule. -/
theorem ixBookReturn_eq (hp : s.sw.Placed live) {A B : List LiveRule} {r : LiveRule}
    (hAB : placing live = A ++ r :: B) :
    s.ixBookReturn fake (s.sw.index_book.start + A.length) =
      (s.shift fake (Zones.down (s.sw.index_book.start + A.length) B.length)
        (Zones.closeGap (s.sw.index_book.start + A.length) B.length)).setIndexBook
          (s.sw.index_book.returned r.zone) := by
  have hr : r.zone < 3 := hp.zone_lt r (hp.mem_placing.mp (hAB ▸ List.mem_append_right _
    List.mem_cons_self))
  have hlen : s.sw.index_book.pbr_end - 1 - (s.sw.index_book.start + A.length) = B.length := by
    rw [hp.pbr_end, hAB, List.length_append, List.length_cons]
    omega
  have hacl : r.zone < 1 ↔ s.sw.index_book.start + A.length < s.sw.index_book.acl_end :=
    hp.zone_lt_iff hAB (by omega)
  have hqos : r.zone < 2 ↔ s.sw.index_book.start + A.length < s.sw.index_book.qos_end :=
    hp.zone_lt_iff hAB (by omega)
  have hpbr : r.zone < 3 ↔ s.sw.index_book.start + A.length < s.sw.index_book.pbr_end :=
    hp.zone_lt_iff hAB le_rfl
  rw [← hlen]
  unfold ixBookReturn
  by_cases h1 : r.zone < 1
  · rw [if_pos (hacl.mp h1)]
    refine (ixBookActionReturn_eq _ (by omega) (hacl.mp h1)).trans (congrArg _ ?_)
    unfold IxBook.returned
    rw [if_pos h1, if_pos (by omega)]
  · rw [if_neg (mt hacl.mpr h1)]
    by_cases h2 : r.zone < 2
    · rw [if_pos (hqos.mp h2)]
      refine (ixBookActionReturn_eq _ (by omega) (hqos.mp h2)).trans (congrArg _ ?_)
      unfold IxBook.returned
      rw [if_neg h1, if_pos h2]
      rfl
    · rw [if_neg (mt hqos.mpr h2), if_pos (hpbr.mp hr)]
      refine (ixBookActionReturn_eq _ (by omega) (hpbr.mp hr)).trans (congrArg _ ?_)
      unfold IxBook.returned
      rw [if_neg h1, if_neg h2]
      rfl

/-- In fake mode returning an index leaves the hardware as it is. -/
theorem ixBookReturn_fake (s : PclDev) (index : ℕ) : (s.ixBookReturn true index).hw = s.hw := by
  have hreturn (first last : ℕ) (book : IxBook) :
      (s.ixBookActionReturn true index first last book).hw = s.hw := by
    unfold ixBookActionReturn
    split_ifs
    · rfl
    · rw [foldl_moveRule]
      rfl
  unfold ixBookReturn
  split_ifs
  · exact hreturn _ _ _
  · exact hreturn _ _ _
  · exact hreturn _ _ _
  · rfl

/-- What removing a rule does with the index book: the rules behind it move down. -/
structure Removed (fake : Bool) (s : PclDev) (r : LiveRule) (ix n : ℕ) (s' : PclDev) : Prop where
  index_book : s'.sw.index_book = s.sw.index_book.returned r.zone
  bindings : s'.sw.bindings = Keyed.del RuleBinding.key (s.sw.bindings.map fun bind =>
    { bind with rule_ix := Zones.down ix n bind.rule_ix }) r.key
  hw : s'.hw = if fake then s.hw
    else { s.hw with tcam := Zones.closeGap ix n (update s.hw.tcam ix none) }

variable (fake) in
/-- What removing a rule does to the book. -/
theorem removeRule_spec (hp : s.sw.Placed live) {A B : List LiveRule} {r : LiveRule}
    (hAB : placing live = A ++ r :: B) (bind : RuleBinding) (hkey : bind.key = r.key)
    (hix : bind.rule_ix = s.sw.index_book.start + A.length) :
    Removed fake s r bind.rule_ix B.length (s.removeRule fake bind) ∧
      (s.removeRule fake bind).sw.port_cmps = (s.releasePortCmps bind.rule_ix).sw.port_cmps ∧
      (s.removeRule fake bind).sw.port_cmp_idxs =
        (s.releasePortCmps bind.rule_ix).sw.port_cmp_idxs := by
  have hp' : ((s.releasePortCmps bind.rule_ix).setTcam fake bind.rule_ix none).sw.Placed live := by
    refine hp.congr ?_ ?_ <;> cases fake <;> rfl
  have hret := ixBookReturn_eq fake hp' hAB
  have hstart : ((s.releasePortCmps bind.rule_ix).setTcam fake bind.rule_ix none).sw.index_book =
      s.sw.index_book := by cases fake <;> rfl
  rw [hstart, ← hix] at hret
  unfold removeRule
  dsimp only
  rw [hret, hkey]
  cases fake <;> exact ⟨⟨rfl, rfl, rfl⟩, rfl, rfl⟩

/-- The rules of a device without one of them. -/
def without (live : List LiveRule) (k : RuleBindingKey) : List LiveRule :=
  live.filter fun r => r.key ≠ k

namespace Removed

variable {A B : List LiveRule} {r : LiveRule} {ix : ℕ} (h : Removed fake s r ix B.length s')

include h

/-- The other rules move down with their slots. -/
theorem pclFindRuleIx_of_ne {k : RuleBindingKey} (hk : k ≠ r.key) :
    s'.sw.pclFindRuleIx k = (s.sw.pclFindRuleIx k).map (Zones.down ix B.length) := by
  unfold AclDev.pclFindRuleIx
  rw [h.bindings, Keyed.find_del_of_ne hk, Keyed.find_map _ fun _ => rfl, Option.map_map,
    Option.map_map]
  rfl

/-- The zones end behind the rules that are left. -/
theorem ends (hp : s.sw.Placed live) (hr : r ∈ live) {z : ℕ} (hz : z ≤ 3) :
    s'.sw.index_book.zoneEnd z =
      s'.sw.index_book.start + (layout LiveRule.zone z (without live r.key)).length := by
  have hend := hp.ends z hz
  have hlt : r.zone < 3 := hp.zone_lt r hr
  obtain ⟨L₁, L₂, rfl⟩ := List.append_of_mem hr
  rw [h.index_book, without, hp.unique.filter_ne]
  rw [Zones.length_layout_remove] at hend
  -- the ends of the kind of the rule and of those behind it go down by one
  have hret : (s.sw.index_book.returned r.zone).zoneEnd z =
      s.sw.index_book.zoneEnd z - if r.zone < z then 1 else 0 := by
    rcases z with _ | _ | _ | _ | z
    · rfl
    · rfl
    · rfl
    · exact congrArg (s.sw.index_book.pbr_end - ·) (if_pos hlt).symm
    · omega
  rw [hret, hend, ← Nat.add_assoc, Nat.add_sub_cancel]
  rfl

variable (hAB : placing live = A ++ r :: B) (hix : ix = s.sw.index_book.start + A.length)

include hAB

omit h in
/-- The rules that are left keep their order. -/
theorem placing_without (hp : s.sw.Placed live) : placing (without live r.key) = A ++ B := by
  have hu : Keyed.Unique LiveRule.key (A ++ r :: B) := hAB ▸ Zones.layout_nodup hp.unique
  rw [← hu.filter_ne, ← hAB]
  exact Zones.layout_filter _

include hix

/-- When a rule is removed, the others have their places. -/
theorem placed (hp : s.sw.Placed live) : s'.sw.Placed (without live r.key) where
  keys := by
    rw [h.bindings, Keyed.map_del, List.map_map]
    have hr : r ∈ live := hp.mem_placing.mp (hAB ▸ List.mem_append_right _ List.mem_cons_self)
    have hkeys : s.sw.bindings.map RuleBinding.key = live.map LiveRule.key := hp.keys
    refine (congrArg (List.erase · r.key) hkeys).trans ?_
    obtain ⟨L₁, L₂, rfl⟩ := List.append_of_mem hr
    have hu := hp.unique
    rw [without, hu.filter_ne]
    unfold Keyed.Unique at hu
    rw [List.map_append, List.map_cons, List.nodup_append] at hu
    rw [List.map_append, List.map_cons, List.map_append, List.erase_append_right,
      List.erase_cons_head]
    exact fun hmem => hu.2.2 _ hmem _ List.mem_cons_self rfl
  unique := hp.unique.sublist (List.filter_sublist.map _)
  zone_lt := fun r' hr' => hp.zone_lt r' (List.mem_filter.mp hr').1
  ends := fun z hz =>
    h.ends hp (hp.mem_placing.mp (hAB ▸ List.mem_append_right _ List.mem_cons_self)) hz
  room := by
    rw [h.index_book]
    exact (Nat.sub_le _ _).trans hp.room
  numbers := by
    have hnum := hp.numbers
    have hu : Keyed.Unique LiveRule.key (A ++ r :: B) := hAB ▸ Zones.layout_nodup hp.unique
    rw [hAB, List.map_append, List.map_cons] at hnum
    rw [placing_without hAB hp, List.map_append, h.index_book]
    refine hnum.down ?_
    intro k hk
    rw [List.length_map, List.length_map, ← hix]
    refine h.pclFindRuleIx_of_ne ?_
    rw [← List.map_append, ← hu.filter_ne] at hk
    obtain ⟨r', hr', rfl⟩ := List.mem_map.mp hk
    exact of_decide_eq_true (List.mem_filter.mp hr').2

/-- When a rule is removed, the entries of the others have moved with them. -/
theorem installed (hp : s.sw.Placed live) (hi : s.Installed live) (hfake : fake = false) :
    s'.Installed (without live r.key) := by
  have hroom := hp.room
  rw [hp.pbr_end, hAB, List.length_append, List.length_cons] at hroom
  unfold PclDev.Installed at hi ⊢
  rw [hAB, List.map_append, List.map_cons] at hi
  rw [placing_without hAB hp, List.map_append, h.index_book, h.hw, hfake, hix]
  have hclose := (hi.update (b := none)).closeGap (by
    rw [List.length_map, List.length_map]
    omega)
  rw [List.length_map, List.length_map] at hclose
  exact hclose

end Removed

end PclDev

end Presteramgr
