import Presteramgr.Acl.Ledger

/-!
# The promise of the index book (`pcl.c`)

On every device the rules stand without gaps in the part of the TCAM that is theirs: ACL rules, QoS
rules and then policy routing, and within a kind in the order in which they were set. Each entry is
the one that was written for its rule, and the entries behind the rules are invalid.

## Main definitions

* `PclDev.InOrder`: what the index book promises of a device;
* `AclLog.Ordered`: the invariant of runs.

## Main results

* `AclLog.book_in_order`: the promise is kept in every run.
-/

namespace Presteramgr

open Zones (layout)

/-- The index book keeps the rules of a device in order. -/
structure PclDev.InOrder (s : PclDev) (live : List LiveRule) : Prop where
  ordered : s.sw.index_book.start ≤ s.sw.index_book.acl_end ∧
    s.sw.index_book.acl_end ≤ s.sw.index_book.qos_end ∧
    s.sw.index_book.qos_end ≤ s.sw.index_book.pbr_end ∧
    s.sw.index_book.pbr_end ≤ s.sw.index_book.end_
  rules : s.sw.bindings.map RuleBinding.key = live.map LiveRule.key
  one_to_one : ∀ bind ∈ s.sw.bindings, ∀ bind' ∈ s.sw.bindings,
    bind.rule_ix = bind'.rule_ix → bind = bind'
  onto : ∀ i, (∃ bind ∈ s.sw.bindings, bind.rule_ix = i) ↔
    s.sw.index_book.start ≤ i ∧ i < s.sw.index_book.pbr_end
  zones : ∀ bind ∈ s.sw.bindings, match bind.key.acttype with
    | .ACL => bind.rule_ix < s.sw.index_book.acl_end
    | .POLICY => s.sw.index_book.acl_end ≤ bind.rule_ix ∧ bind.rule_ix < s.sw.index_book.qos_end
    | .POLICY_ROUTE => s.sw.index_book.qos_end ≤ bind.rule_ix ∧
        bind.rule_ix < s.sw.index_book.pbr_end
    | .other _ => False
  in_order : live.Pairwise fun r r' => r.args.action_type = r'.args.action_type →
    ∀ ix ix', s.sw.pclFindRuleIx r.key = some ix → s.sw.pclFindRuleIx r'.key = some ix' → ix < ix'
  entries : ∀ r ∈ live, ∀ ix, s.sw.pclFindRuleIx r.key = some ix → s.hw.tcam ix = r.written
  invalid : ∀ i, s.sw.index_book.pbr_end ≤ i → i < s.sw.index_book.end_ → s.hw.tcam i = none

namespace AclDev.Placed

variable {sw : AclDev} {live : List LiveRule} (hp : sw.Placed live)

include hp

/-- A binding belongs to a rule in its place. -/
theorem exists_of_mem {bind : RuleBinding} (hbind : bind ∈ sw.bindings) :
    ∃ A B r, placing live = A ++ r :: B ∧ r.key = bind.key ∧
      bind.rule_ix = sw.index_book.start + A.length :=
  hp.exists_of_find (hp.bindings_unique.find_eq_some_iff.mpr ⟨hbind, rfl⟩)

/-- The rule in a place has a binding. -/
theorem exists_binding {A B : List LiveRule} {r : LiveRule} (hAB : placing live = A ++ r :: B) :
    ∃ bind ∈ sw.bindings, bind.key = r.key ∧ bind.rule_ix = sw.index_book.start + A.length := by
  have hget : ((placing live).map LiveRule.key)[A.length]? = some r.key := by
    rw [hAB, List.map_append, List.getElem?_append_right (by rw [List.length_map]),
      List.length_map, Nat.sub_self]
    rfl
  obtain ⟨bind, hfind, hix⟩ := Option.map_eq_some_iff.mp (hp.numbers _ _ hget)
  exact ⟨bind, Keyed.mem_of_find hfind, Keyed.key_of_find hfind, hix⟩

/-- Two rules have different indexes. -/
theorem one_to_one {bind bind' : RuleBinding} (hbind : bind ∈ sw.bindings)
    (hbind' : bind' ∈ sw.bindings) (hix : bind.rule_ix = bind'.rule_ix) : bind = bind' := by
  obtain ⟨A, B, r, hAB, hr, hA⟩ := hp.exists_of_mem hbind
  obtain ⟨A', B', r', hAB', hr', hA'⟩ := hp.exists_of_mem hbind'
  have hlen : A.length = A'.length := by omega
  obtain ⟨-, hrest⟩ := List.append_inj (hAB.symm.trans hAB') hlen
  obtain ⟨rfl, -⟩ := List.cons.inj hrest
  exact hp.bindings_unique.eq_of_mem hbind hbind' (hr.symm.trans hr')

/-- The indexes of the rules are those of the used range of the book, with none left out. -/
theorem onto (i : ℕ) : (∃ bind ∈ sw.bindings, bind.rule_ix = i) ↔
    sw.index_book.start ≤ i ∧ i < sw.index_book.pbr_end := by
  rw [hp.pbr_end]
  constructor
  · rintro ⟨bind, hbind, rfl⟩
    obtain ⟨A, B, r, hAB, -, hA⟩ := hp.exists_of_mem hbind
    rw [hA, hAB, List.length_append, List.length_cons]
    omega
  · rintro ⟨hstart, hlt⟩
    obtain ⟨k, rfl⟩ := Nat.exists_eq_add_of_le hstart
    have hk : k < (placing live).length := by omega
    have hsplit := List.take_append_drop k (placing live)
    rw [List.drop_eq_getElem_cons hk] at hsplit
    obtain ⟨bind, hbind, -, hix⟩ := hp.exists_binding hsplit.symm
    refine ⟨bind, hbind, ?_⟩
    rw [hix, List.length_take, Nat.min_eq_left hk.le]

/-- A rule stands in the zone of its kind of action. -/
theorem zones {bind : RuleBinding} (hbind : bind ∈ sw.bindings) : match bind.key.acttype with
    | .ACL => bind.rule_ix < sw.index_book.acl_end
    | .POLICY => sw.index_book.acl_end ≤ bind.rule_ix ∧ bind.rule_ix < sw.index_book.qos_end
    | .POLICY_ROUTE => sw.index_book.qos_end ≤ bind.rule_ix ∧ bind.rule_ix < sw.index_book.pbr_end
    | .other _ => False := by
  obtain ⟨A, B, r, hAB, hr, hA⟩ := hp.exists_of_mem hbind
  have hzone : r.zone = bind.key.acttype.zone := by rw [← hr]; rfl
  have hacl : r.zone < 1 ↔ bind.rule_ix < sw.index_book.acl_end :=
    hA ▸ hp.zone_lt_iff hAB (by omega)
  have hqos : r.zone < 2 ↔ bind.rule_ix < sw.index_book.qos_end :=
    hA ▸ hp.zone_lt_iff hAB (by omega)
  have hpbr : r.zone < 3 ↔ bind.rule_ix < sw.index_book.pbr_end := hA ▸ hp.zone_lt_iff hAB le_rfl
  have hlt : r.zone < 3 :=
    hp.zone_lt r (hp.mem_placing.mp (hAB ▸ List.mem_append_right _ List.mem_cons_self))
  rw [hzone] at hacl hqos hpbr hlt
  cases htype : bind.key.acttype <;> rw [htype] at hacl hqos hpbr hlt <;>
    simp only [PclActionType.zone] at hacl hqos hpbr hlt ⊢ <;> omega

/-- The indices of the rules go up along the row. -/
theorem pairwise_placing : (placing live).Pairwise fun r r' => ∀ ix ix',
    sw.pclFindRuleIx r.key = some ix → sw.pclFindRuleIx r'.key = some ix' → ix < ix' := by
  rw [List.pairwise_iff_getElem]
  intro i j hi hj hij ix ix' hix hix'
  have hnum (k : ℕ) (hk : k < (placing live).length) :
      sw.pclFindRuleIx (placing live)[k].key = some (sw.index_book.start + k) := by
    refine hp.numbers k _ ?_
    rw [List.getElem?_map, List.getElem?_eq_getElem hk, Option.map_some]
  rw [hnum i hi] at hix
  rw [hnum j hj] at hix'
  have := Option.some_inj.mp hix
  have := Option.some_inj.mp hix'
  omega

/-- Rules of one kind stand in the order in which they were set. -/
theorem in_order : live.Pairwise fun r r' => r.args.action_type = r'.args.action_type →
    ∀ ix ix', sw.pclFindRuleIx r.key = some ix → sw.pclFindRuleIx r'.key = some ix' → ix < ix' := by
  rw [List.pairwise_iff_forall_sublist]
  intro r r' hsub htype
  have hr : r ∈ live := hsub.subset List.mem_cons_self
  -- the rules of one kind are a part of the row, in the same order
  have hkind : [r, r'].Sublist (placing live) := by
    have hzone : r'.zone = r.zone := by unfold LiveRule.zone; rw [htype]
    have hfilter := hsub.filter fun x : LiveRule => decide (x.zone = r.zone)
    have hboth : [r, r'].filter (fun x : LiveRule => decide (x.zone = r.zone)) = [r, r'] := by
      simp [hzone]
    rw [hboth] at hfilter
    exact hfilter.trans (Zones.filter_sublist_layout (hp.zone_lt r hr))
  exact List.pairwise_iff_forall_sublist.mp hp.pairwise_placing hkind

end AclDev.Placed

/-- Rules in their places with their entries are in order. -/
theorem PclDev.inOrder_of_placed {s : PclDev} {live : List LiveRule} (hp : s.sw.Placed live)
    (hi : s.Installed live) : s.InOrder live where
  ordered := by
    have hacl : s.sw.index_book.acl_end = _ := hp.ends 1 (by omega)
    have hqos : s.sw.index_book.qos_end = _ := hp.ends 2 (by omega)
    have hpbr := hp.pbr_end
    have h12 := Zones.length_layout_le LiveRule.zone live (show 1 ≤ 2 by omega)
    have h23 := Zones.length_layout_le LiveRule.zone live (show 2 ≤ 3 by omega)
    have hroom := hp.room
    unfold placing at hpbr
    omega
  rules := hp.keys
  one_to_one := fun _ hbind _ hbind' hix => hp.one_to_one hbind hbind' hix
  onto := hp.onto
  zones := fun _ hbind => hp.zones hbind
  in_order := hp.in_order
  entries := by
    intro r hr ix hix
    obtain ⟨A, B, hAB, hfind⟩ := hp.exists_place hr
    obtain rfl := Option.some_inj.mp (hix.symm.trans hfind)
    have hroom := hp.room
    rw [hp.pbr_end, hAB, List.length_append, List.length_cons] at hroom
    rw [hi _ (by omega), hAB, List.map_append, List.getElem?_append_right (by rw [List.length_map]),
      List.length_map, Nat.sub_self]
    rfl
  invalid := by
    intro i hi' hlt
    rw [hp.pbr_end] at hi'
    obtain ⟨k, rfl⟩ := Nat.exists_eq_add_of_le ((Nat.le_add_right _ _).trans hi')
    rw [hi k hlt, List.getElem?_eq_none (by rw [List.length_map]; omega)]
    rfl

/-! ### Runs -/

namespace AclLog

variable {c : AclConf} {s s' : AclLog}

/-- The invariant of runs: the rules are in their places, in the tables in use and in those for fake
mode, and the hardware holds the entries of the rules in use. -/
structure Ordered (c : AclConf) (s : AclLog) : Prop where
  user : ∀ d, (s.pcl.user_acl.devs d).Placed (s.user d)
  fake : ∀ d, (s.pcl.user_acl_fake.devs d).Placed (s.fake d)
  installed : ∀ d, (s.userDev d).Installed (s.user d)
  genuine : ∀ d, ∀ r ∈ s.user d, r.Genuine
  range : ∀ d, (s.pcl.user_acl.devs d).index_book.start =
      (ixBookInit (c.userAclStartIx d) AclConf.userAclStackEntries).start ∧
    (s.pcl.user_acl.devs d).index_book.end_ =
      (ixBookInit (c.userAclStartIx d) AclConf.userAclStackEntries).end_

/-- In the beginning no rule is placed. -/
theorem init_placed (c : AclConf) (d : ℕ) : ((userAclInit c).devs d).Placed [] where
  keys := rfl
  unique := List.nodup_nil
  zone_lt := fun _ hr => absurd hr List.not_mem_nil
  ends := by
    intro z hz
    rcases z with _ | _ | _ | _ | z
    · rfl
    · rfl
    · rfl
    · rfl
    · omega
  room := Nat.le_add_right _ _
  numbers := fun i k hi => absurd hi.symm (Option.some_ne_none k)

/-- In the beginning the book is in order. -/
theorem init_ordered (c : AclConf) : (init c).Ordered c where
  user := init_placed c
  fake := init_placed c
  installed := fun _ _ _ => rfl
  genuine := fun _ _ hr => absurd hr List.not_mem_nil
  range := fun _ => ⟨rfl, rfl⟩

/-- **Step.** A call keeps the book in order. -/
theorem Ordered.step (h : s.Ordered c) {op : PclOp} (hs : s.step c op = some s') :
    s'.Ordered c where
  user := fun d => (step_user hs d).placed (h.user d)
  fake := by
    intro d
    obtain ⟨hdev, hlive⟩ | ⟨hdev, hlive⟩ | ⟨dev', hd, hsw⟩ := step_fake hs d
    · rw [hdev, hlive]
      exact h.fake d
    · rw [hdev, hlive]
      exact (h.user d).congr rfl rfl
    · rw [← hsw]
      exact hd.placed (h.fake d)
  installed := fun d => (step_user hs d).installed (h.user d) (h.installed d)
  genuine := fun d => (step_user hs d).genuine (h.genuine d)
  range := by
    intro d
    obtain ⟨hstart, hend⟩ := (step_user hs d).range (h.user d)
    exact ⟨hstart.trans (h.range d).1, hend.trans (h.range d).2⟩

/-- In every run the book is in order. -/
theorem Ordered.of_reach (hr : Guarded.Reach (AclLog.step c) (fun _ _ => True) (init c) s) :
    s.Ordered c :=
  hr.invariant (Ordered c) (init_ordered c) fun _ _ _ h _ hs => h.step hs

/-- In every run, on every device, the rules stand in the part of the TCAM that is theirs, in order,
and the entry of a rule is the one that was made for it. -/
theorem book_in_order (hr : Guarded.Reach (AclLog.step c) (fun _ _ => True) (init c) s) (d : ℕ) :
    (s.pcl.user_acl.devs d).index_book.start =
        (ixBookInit (c.userAclStartIx d) AclConf.userAclStackEntries).start ∧
      (s.pcl.user_acl.devs d).index_book.end_ =
        (ixBookInit (c.userAclStartIx d) AclConf.userAclStackEntries).end_ ∧
      (s.userDev d).InOrder (s.user d) ∧ ∀ r ∈ s.user d, r.Genuine := by
  have h := Ordered.of_reach hr
  exact ⟨(h.range d).1, (h.range d).2, PclDev.inOrder_of_placed (h.user d) (h.installed d),
    h.genuine d⟩

/-- A unit with one device and two ports. -/
def twoPorts : AclConf where
  NDEVS := 1
  NPORTS := 2
  port _ := ⟨0, false⟩
  stack_id := 0
  stack_pri_port := 0
  stack_sec_port := 0
  NPORTS_pos := Nat.succ_pos _
  ldev_lt _ := Nat.succ_pos _

/-- A rule for MAC addresses. -/
def anyMac : MacPclRule := ⟨0, 0, 0, 0, 0, 0, 0, 0, 0, 0, .NONE⟩

/-- A QoS rule and a rule of policy routing for a port, an ACL rule for a VLAN and one for a port,
and the VLAN is reset: the first rules move up by two and down by one. -/
def mixedRun : List PclOp :=
  [.macRuleSet ⟨[1], .POLICY, 1, ⟨.PORT, 1⟩, .INGRESS, .PERMIT⟩ anyMac,
    .macRuleSet ⟨[2], .POLICY_ROUTE, 1, ⟨.PORT, 2⟩, .INGRESS, .PERMIT_PBR ⟨301, 0⟩⟩ anyMac,
    .macRuleSet ⟨[3], .ACL, 1, ⟨.VLAN, 5⟩, .INGRESS, .DENY⟩ anyMac,
    .macRuleSet ⟨[3], .ACL, 2, ⟨.PORT, 1⟩, .INGRESS, .DENY⟩ anyMac,
    .resetRules ⟨.VLAN, 5⟩ .INGRESS .ACL]

/-- What a device holds: who has which index, and the LTT entry of each entry of the TCAM. -/
def shown (s : AclLog) : List (List ℕ × ℕ) × List (Option (Option ℕ)) :=
  (((s.userDev 0).sw.bindings.map fun bind => (bind.key.name.take 1, bind.rule_ix)),
    (List.range 5).map fun i => ((s.userDev 0).hw.tcam (366 + i)).map fun e => e.act.routerLttIndex)

/-- A run with rules of all three kinds and their indexes. -/
theorem book_in_order_mixedRun : ∃ s, shown s = ([([1], 367), ([2], 368), ([3], 366)],
      [some none, some none, some (some 1204), none, none]) ∧
    (s.userDev 0).InOrder (s.user 0) := by
  have hlast : (Guarded.run (AclLog.step twoPorts) (fun _ _ => True) (init twoPorts) mixedRun).map
      shown = some ([([1], 367), ([2], 368), ([3], 366)],
        [some none, some none, some (some 1204), none, none]) := by
    decide +kernel
  obtain ⟨s, hs, hshown⟩ := Option.map_eq_some_iff.mp hlast
  exact ⟨s, hshown, (book_in_order (Guarded.Reach.init.of_run hs) 0).2.2.1⟩

end AclLog

end Presteramgr
