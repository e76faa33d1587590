import Presteramgr.Vlan.Tagging

/-!
# Translation and the entries of VLANs (`port.c`, `vlan.c`)

A port in trunk mode is a member of the VLANs that its translation rules map to, and the references
of a VLAN say how frames of an allowed VLAN leave. A new rule, the clearing of the rules and the
change of `vlan_xlate_tunnel` change references and rewrite entries.

## Main definitions

* `VlanTable.SameSettings`: configurations that differ in rules and references only;
* `VlanTable.Recounts`: what a rule that is added or deleted changes;
* `VlanTable.RuleCleared`, `VlanTable.RulesCleared`: what the loops that clear rules change.

## Main results

* `VlanTable.InStep.translate_iff`, `VlanTable.InStep.clearTranslation_iff`,
  `VlanTable.InStep.setXlateTunnel_iff`: when these changes keep the table in step;
* `VlanTable.inStep_iff_steady`: in a run of steady changes the table is in step in every state, and
  the next change keeps it so if and only if it is steady;
* `VlanTable.not_inStep`: a VLAN becomes native on a port before it is added, and after.
-/

namespace Presteramgr

open Function (update update_self update_of_ne)

/-! ## Settings and references -/

namespace TagPort

variable {p q r : TagPort} {dot1q : ℤ} {tunnel : Bool} {v v' : TagVlan} {vid w : ℕ}

/-- The ports differ in rules and references only. -/
structure SameSettings (p q : TagPort) : Prop where
  mode : q.mode = p.mode
  access_vid : q.access_vid = p.access_vid
  voice_vid : q.voice_vid = p.voice_vid
  native_vid : q.native_vid = p.native_vid
  tallow : ∀ w, (q.vlan_conf w).tallow = (p.vlan_conf w).tallow

theorem conf_vlan_conf (p : TagPort) (vid : ℕ) (f : PortVlanConf → PortVlanConf) :
    (p.conf vid f).vlan_conf = update p.vlan_conf vid
      { p.vlan_conf vid with toPortVlanConf := f (p.vlan_conf vid).toPortVlanConf } := rfl

theorem conf_self (p : TagPort) (vid : ℕ) (f : PortVlanConf → PortVlanConf) :
    ((p.conf vid f).vlan_conf vid).toPortVlanConf = f (p.vlan_conf vid).toPortVlanConf := by
  rw [conf_vlan_conf, update_self]

theorem conf_of_ne (f : PortVlanConf → PortVlanConf) (hw : w ≠ vid) :
    (p.conf vid f).vlan_conf w = p.vlan_conf w := update_of_ne hw ..

namespace SameSettings

theorem refl (p : TagPort) : p.SameSettings p := ⟨rfl, rfl, rfl, rfl, fun _ => rfl⟩

theorem trans (h : p.SameSettings q) (h' : q.SameSettings r) : p.SameSettings r where
  mode := h'.mode.trans h.mode
  access_vid := h'.access_vid.trans h.access_vid
  voice_vid := h'.voice_vid.trans h.voice_vid
  native_vid := h'.native_vid.trans h.native_vid
  tallow w := (h'.tallow w).trans (h.tallow w)

theorem symm (h : p.SameSettings q) : q.SameSettings p where
  mode := h.mode.symm
  access_vid := h.access_vid.symm
  voice_vid := h.voice_vid.symm
  native_vid := h.native_vid.symm
  tallow w := (h.tallow w).symm

/-- Rules and references of a VLAN change. -/
theorem conf (p : TagPort) (vid : ℕ) (f : PortVlanConf → PortVlanConf) :
    p.SameSettings (p.conf vid f) where
  mode := rfl
  access_vid := rfl
  voice_vid := rfl
  native_vid := rfl
  tallow w := by
    rw [conf_vlan_conf]
    by_cases hw : w = vid
    · rw [hw, update_self]
    · rw [update_of_ne hw]

end SameSettings

/-- The references of the port to a VLAN are dropped. -/
def dropped (p : TagPort) (vid : ℕ) : TagPort := p.conf vid fun k => { k with refc := 0 }

/-- A VLAN whose rules are cleared has no reference at the port. -/
theorem dropped_refc (p : TagPort) (vid : ℕ) : ((p.dropped vid).vlan_conf vid).refc = 0 :=
  congrArg PortVlanConf.refc (p.conf_self vid _)

/-- A membership of a VLAN that has not changed is settled. -/
theorem Settled.refl (p : TagPort) (tunnel : Bool) (v : TagVlan) (vid : ℕ) :
    p.Settled tunnel v v vid :=
  fun _ _ _ _ => .rfl

/-- A port drops what it drops by the first VLAN or by one of the others. -/
theorem drops_cons {u : ℕ} {vids : List ℕ} :
    p.Drops (u :: vids) w ↔ p.Drops [u] w ∨ p.Drops vids w := by
  unfold Drops
  rw [List.exists_mem_cons_iff, List.exists_mem_cons_iff]
  have hnil : ¬∃ v ∈ ([] : List ℕ), (p.vlan_conf v).xlate = true ∧ (p.vlan_conf v).map_to = w :=
    fun ⟨_, hv, _⟩ => List.not_mem_nil hv
  rw [or_iff_left hnil, ← and_or_left, ← and_or_left]

/-- What `port_update_trunk_vlan` writes does not depend on the references of the VLAN itself. -/
theorem trunkMember_congr (h : p.SameSettings q)
    (hrefc : (q.vlan_conf w).refc = (p.vlan_conf w).refc) :
    q.trunkMember dot1q tunnel v' w = p.trunkMember dot1q tunnel v w := by
  unfold trunkMember
  rw [hrefc, h.native_vid, h.tallow, ite_self, ite_self]

/-- What a port is after its rules are cleared depends on its settings only. -/
theorem dropped_trunkMember (h : p.SameSettings q) :
    (q.dropped w).trunkMember dot1q tunnel v' w = (p.dropped w).trunkMember dot1q tunnel v w := by
  refine trunkMember_congr ((SameSettings.conf ..).symm.trans (h.trans (.conf ..))) ?_
  rw [dropped_refc, dropped_refc]

/-- Two configurations of a port in trunk mode with the same references get the same entry if and
only if the references of the VLAN do not count. -/
theorem tagging_eq_iff_settled (hmode : p.mode = .PM_TRUNK) (h : p.SameSettings q)
    (hrefc : (q.vlan_conf w).refc = (p.vlan_conf w).refc) :
    (p.tagging dot1q tunnel v w).getD .clear = (q.tagging dot1q tunnel v' w).getD .clear ↔
      p.Settled tunnel v v' w := by
  have hmode' : q.mode = .PM_TRUNK := h.mode.trans hmode
  by_cases hzero : (p.vlan_conf w).refc = 0
  · by_cases hnative : p.native_vid = w
    · rw [tagging_native hmode hzero hnative,
        tagging_native hmode' (hrefc.trans hzero) (h.native_vid.trans hnative)]
      exact iff_of_true rfl fun _ hne => absurd hnative hne
    · have hnative' : q.native_vid ≠ w := h.native_vid ▸ hnative
      by_cases hallow : (p.vlan_conf w).tallow = true
      · rw [tagging_allowed hmode hzero hnative hallow,
          tagging_allowed hmode' (hrefc.trans hzero) hnative' ((h.tallow w).trans hallow)]
        have hsettled : p.Settled tunnel v v' w ↔
            (v.vt_refc ≠ 0 ∧ tunnel = true ↔ v'.vt_refc ≠ 0 ∧ tunnel = true) := by
          refine ⟨fun hs => and_congr_left fun htunnel => hs hzero hnative hallow htunnel, ?_⟩
          intro hs _ _ _ htunnel
          exact (and_iff_left htunnel).symm.trans (hs.trans (and_iff_left htunnel))
        rw [hsettled]
        by_cases hv : v.vt_refc ≠ 0 ∧ tunnel = true
        · by_cases hv' : v'.vt_refc ≠ 0 ∧ tunnel = true
          · rw [if_pos hv, if_pos hv']
            exact iff_of_true rfl (iff_of_true hv hv')
          · rw [if_pos hv, if_neg hv']
            exact iff_of_false (fun heq =>
              Bool.false_ne_true (congrArg VlanMember.isTagged heq).symm)
              fun hiff => hv' (hiff.mp hv)
        · by_cases hv' : v'.vt_refc ≠ 0 ∧ tunnel = true
          · rw [if_neg hv, if_pos hv']
            exact iff_of_false (fun heq => Bool.false_ne_true (congrArg VlanMember.isTagged heq))
              fun hiff => hv (hiff.mpr hv')
          · rw [if_neg hv, if_neg hv']
            exact iff_of_true rfl (iff_of_false hv hv')
      · have hallow' : (q.vlan_conf w).tallow ≠ true := (h.tallow w) ▸ hallow
        rw [tagging_other hmode hzero hnative hallow,
          tagging_other hmode' (hrefc.trans hzero) hnative' hallow']
        exact iff_of_true rfl fun _ _ hall => absurd hall hallow
  · rw [tagging_translated hmode hzero, tagging_translated hmode' (hrefc ▸ hzero)]
    exact iff_of_true rfl fun h0 => absurd h0 hzero

/-- An entry written for one value of the flag is what `setup_tagging` writes for the other one. -/
theorem trunkMember_tunnel_iff {tunnel' : Bool} (hmode : p.mode = .PM_TRUNK)
    (hne : tunnel ≠ tunnel') :
    p.trunkMember dot1q tunnel v w = (p.tagging dot1q tunnel' v w).getD .clear ↔
      (p.vlan_conf w).refc = 0 ∧ (p.vlan_conf w).tallow = true ∧ p.native_vid ≠ w ∧ v.vt_refc ≠ 0 ∧
        tunnel' = true := by
  by_cases hzero : (p.vlan_conf w).refc = 0
  · have hflag : p.trunkMember dot1q tunnel v w = p.trunkMember dot1q tunnel' v w := by
      unfold trunkMember
      rw [if_neg (not_not.mpr hzero), if_neg (not_not.mpr hzero), ite_self, ite_self]
    rw [hflag, trunkMember_eq_iff hmode]
    exact (or_iff_right (not_not.mpr hzero)).trans (and_iff_right hzero).symm
  · rw [trunkMember, if_pos hzero, tagging_translated hmode hzero]
    refine iff_of_false (fun heq => ?_) fun hall => hzero hall.1
    have hcmd := congrArg VlanMember.tagCmd heq
    cases tunnel with
    | false =>
      cases tunnel' with
      | false => exact hne rfl
      | true => exact VlanTagCmd.noConfusion hcmd
    | true =>
      cases tunnel' with
      | false => exact VlanTagCmd.noConfusion hcmd
      | true => exact hne rfl

end TagPort

namespace VlanTable

variable {nports : ℕ} {c : VlanLayout nports} {x y z x' : VlanTable nports} {i j : Fin nports}
  {vid w : ℕ}

theorem setPort_self (x : VlanTable nports) (i : Fin nports) (p : TagPort) :
    (x.setPort i p).ports i = p :=
  update_self ..

theorem setPort_of_ne (p : TagPort) (hj : j ≠ i) : (x.setPort i p).ports j = x.ports j :=
  update_of_ne hj ..

/-- The configurations differ in rules and references only. -/
structure SameSettings (x y : VlanTable nports) : Prop where
  port : ∀ i, (x.ports i).SameSettings (y.ports i)
  state : ∀ w, (y.vlans w).state = (x.vlans w).state
  dot1q : y.vlan_dot1q_tag_native = x.vlan_dot1q_tag_native

namespace SameSettings

/-- Nothing has changed. -/
theorem refl (x : VlanTable nports) : x.SameSettings x := ⟨fun _ => .refl _, fun _ => rfl, rfl⟩

/-- Two changes that keep the settings are one. -/
theorem trans (h : x.SameSettings y) (h' : y.SameSettings z) : x.SameSettings z where
  port i := (h.port i).trans (h'.port i)
  state w := (h'.state w).trans (h.state w)
  dot1q := h'.dot1q.trans h.dot1q

/-- One port changes. -/
theorem setPort {p : TagPort} (h : (x.ports i).SameSettings p) :
    x.SameSettings (x.setPort i p) where
  port j := by
    by_cases hj : j = i
    · rw [hj, setPort_self]
      exact h
    · rw [setPort_of_ne p hj]
      exact .refl _
  state _ := rfl
  dot1q := rfl

/-- Entries are rewritten. -/
theorem of_entry (h : y = { x with entry := y.entry }) : x.SameSettings y := by
  rw [h]
  exact ⟨fun _ => .refl _, fun _ => rfl, rfl⟩

/-- A VLAN is live whatever happens to the rules of the ports. -/
theorem live_iff (h : x.SameSettings y) : y.Live w ↔ x.Live w := by
  unfold Live
  rw [h.state]

/-- After a change of references, and of entries of ports in trunk mode, the table is in step if and
only if the ports in trunk mode are. -/
theorem inStep_iff (h : x.SameSettings y) (hx : InStep c x)
    (hother : ∀ j w, (x.ports j).mode ≠ .PM_TRUNK → y.member c j w = x.member c j w) :
    InStep c y ↔ ∀ w, x.Live w → ∀ j, c.stack j = false → (x.ports j).mode = .PM_TRUNK →
      y.member c j w = y.wanted j w := by
  rw [VlanTable.inStep_iff]
  constructor
  · intro hall w hw j hstack hmode
    exact hall w (h.live_iff.mpr hw) j ⟨hstack, .inr ((h.port j).mode.trans hmode)⟩
  · intro hall w hw j hj
    have hw := h.live_iff.mp hw
    have hmode := (h.port j).mode ▸ hj.2
    obtain haccess | htrunk := hmode
    · -- references are nothing to a port in access mode
      have hne : (x.ports j).mode ≠ .PM_TRUNK :=
        fun heq => PortMode.noConfusion (haccess.symm.trans heq)
      rw [hother j w hne, hx.member hj.1 (.inl haccess) hw, wanted, wanted,
        TagPort.tagging_access haccess,
        TagPort.tagging_access ((h.port j).mode.trans haccess), (h.port j).access_vid,
        (h.port j).voice_vid]
    · exact hall w hw j hj.1 htrunk

/-- An entry that is kept is the one to have if and only if the references of the VLAN do not
count. -/
theorem kept_iff (h : x.SameSettings y) (htunnel : y.vlan_xlate_tunnel = x.vlan_xlate_tunnel)
    (hx : InStep c x) (hstack : c.stack j = false) (hmode : (x.ports j).mode = .PM_TRUNK)
    (hw : x.Live w)
    (hmember : y.member c j w = x.member c j w)
    (hrefc : ((y.ports j).vlan_conf w).refc = ((x.ports j).vlan_conf w).refc) :
    y.member c j w = y.wanted j w ↔
      (x.ports j).Settled x.vlan_xlate_tunnel (x.vlans w) (y.vlans w) w := by
  rw [hmember, hx.member hstack (.inr hmode) hw, wanted, wanted, h.dot1q, htunnel]
  exact TagPort.tagging_eq_iff_settled hmode (h.port j) hrefc

end SameSettings

/-! ## Loops that rewrite entries -/

/-- `port_update_trunk_vlan` rewrites the entry of a VLAN that is not deleted. -/
theorem portUpdateTrunkVlan_spec (c : VlanLayout nports) (x : VlanTable nports) (i : Fin nports)
    (vid : ℕ) :
    x.portUpdateTrunkVlan c i vid = { x with entry := (x.portUpdateTrunkVlan c i vid).entry } ∧
      ∀ j w, (x.portUpdateTrunkVlan c i vid).member c j w =
        if j = i ∧ w = vid ∧ (x.vlans w).state ≠ .VS_DELETED then
          (x.ports j).trunkMember x.vlan_dot1q_tag_native x.vlan_xlate_tunnel (x.vlans w) w
        else x.member c j w := by
  unfold portUpdateTrunkVlan
  by_cases hdel : (x.vlans vid).state = .VS_DELETED
  · rw [if_pos hdel]
    refine ⟨rfl, fun j w => (if_neg ?_).symm⟩
    rintro ⟨_, rfl, hstate⟩
    exact hstate hdel
  · rw [if_neg hdel]
    refine ⟨rfl, fun j w => ?_⟩
    rw [member_memberSet]
    by_cases hat : j = i ∧ w = vid
    · obtain ⟨rfl, rfl⟩ := hat
      rw [if_pos ⟨rfl, rfl⟩, if_pos ⟨rfl, rfl, hdel⟩]
    · rw [if_neg hat, if_neg fun h => hat ⟨h.1, h.2.1⟩]

/-- `port_update_trunk_vlan_all_ports` rewrites the entries of the ports in trunk mode. -/
theorem portUpdateTrunkVlanAllPorts_spec (vid : ℕ) :
    x.portUpdateTrunkVlanAllPorts c vid =
        { x with entry := (x.portUpdateTrunkVlanAllPorts c vid).entry } ∧
      ∀ j w, (x.portUpdateTrunkVlanAllPorts c vid).member c j w =
        if w = vid ∧ (x.ports j).mode = .PM_TRUNK ∧ (x.vlans w).state ≠ .VS_DELETED then
          (x.ports j).trunkMember x.vlan_dot1q_tag_native x.vlan_xlate_tunnel (x.vlans w) w
        else x.member c j w := by
  refine @foldl_entries nports c x _ _ (fun i j w =>
    j = i ∧ w = vid ∧ (x.ports j).mode = .PM_TRUNK ∧ (x.vlans w).state ≠ .VS_DELETED)
    (fun _ _ _ => inferInstance)
    (fun j w => (x.ports j).trunkMember x.vlan_dot1q_tag_native x.vlan_xlate_tunnel (x.vlans w) w)
    (fun e i => ?_) (fun e i j w => ?_) (List.finRange nports) _ _ fun j w => ?_
  · split_ifs
    · exact (portUpdateTrunkVlan_spec c { x with entry := e } i vid).1
    · rfl
  · by_cases hmode : (x.ports i).mode = .PM_TRUNK
    · rw [if_pos hmode, (portUpdateTrunkVlan_spec c { x with entry := e } i vid).2]
      refine if_congr (and_congr_right fun hj => and_congr_right fun _ => ?_) rfl rfl
      rw [hj]
      exact (and_iff_right hmode).symm
    · rw [if_neg hmode, if_neg]
      rintro ⟨rfl, _, hmode', _⟩
      exact hmode hmode'
  · refine ⟨fun h => ⟨j, List.mem_finRange j, rfl, h⟩, ?_⟩
    rintro ⟨i, _, rfl, h⟩
    exact h

/-- The entries of the VLANs of a list are rewritten for all ports in trunk mode. -/
theorem foldl_portUpdateTrunkVlanAllPorts (vids : List ℕ) :
    vids.foldl (fun y vid => y.portUpdateTrunkVlanAllPorts c vid) x =
        { x with entry := (vids.foldl (fun y vid => y.portUpdateTrunkVlanAllPorts c vid) x).entry } ∧
      ∀ j w, (vids.foldl (fun y vid => y.portUpdateTrunkVlanAllPorts c vid) x).member c j w =
        if w ∈ vids ∧ (x.ports j).mode = .PM_TRUNK ∧ (x.vlans w).state ≠ .VS_DELETED then
          (x.ports j).trunkMember x.vlan_dot1q_tag_native x.vlan_xlate_tunnel (x.vlans w) w
        else x.member c j w := by
  refine @foldl_entries nports c x _ _ (fun vid j w =>
    w = vid ∧ (x.ports j).mode = .PM_TRUNK ∧ (x.vlans w).state ≠ .VS_DELETED)
    (fun _ _ _ => inferInstance)
    (fun j w => (x.ports j).trunkMember x.vlan_dot1q_tag_native x.vlan_xlate_tunnel (x.vlans w) w)
    (fun e vid => (portUpdateTrunkVlanAllPorts_spec vid).1)
    (fun e vid => (portUpdateTrunkVlanAllPorts_spec vid).2) vids _ _ fun j w => ?_
  refine ⟨fun h => ⟨w, h.1, rfl, h.2⟩, ?_⟩
  rintro ⟨vid, hvid, rfl, h⟩
  exact ⟨hvid, h⟩

/-! ## A rule is added or deleted -/

/-- What a change of a rule of port `i` changes: rules and references of the port, and the
references of the VLANs of a list. -/
structure Recounts (x y : VlanTable nports) (i : Fin nports) (vids : List ℕ) : Prop where
  conf : y = { x with ports := update x.ports i (y.ports i), vlans := y.vlans }
  port : (x.ports i).SameSettings (y.ports i)
  state : ∀ w, (y.vlans w).state = (x.vlans w).state
  refc : ∀ w ∉ vids, ((y.ports i).vlan_conf w).refc = ((x.ports i).vlan_conf w).refc
  vlan : ∀ w ∉ vids, y.vlans w = x.vlans w

namespace Recounts

variable {vids : List ℕ}

/-- Nothing has been counted. -/
theorem refl (x : VlanTable nports) (i : Fin nports) : Recounts x x i [] where
  conf := by rw [Function.update_eq_self]
  port := .refl _
  state _ := rfl
  refc _ _ := rfl
  vlan _ _ := rfl

/-- The other ports are as they were. -/
theorem other (h : Recounts x y i vids) (hj : j ≠ i) : y.ports j = x.ports j := by
  rw [h.conf]
  exact update_of_ne hj ..

/-- The rules of the port are written. -/
theorem setPort {p : TagPort} (h : Recounts x y i vids) (hp : (y.ports i).SameSettings p)
    (hrefc : ∀ w, (p.vlan_conf w).refc = ((y.ports i).vlan_conf w).refc) :
    Recounts x (y.setPort i p) i vids where
  conf := by
    rw [setPort_self, VlanTable.setPort, h.conf, Function.update_idem]
  port := by
    rw [setPort_self]
    exact h.port.trans hp
  state := h.state
  refc w hw := by
    rw [setPort_self, hrefc, h.refc w hw]
  vlan := h.vlan

/-- A rule of the port is no setting and no count. -/
theorem setRule (h : Recounts x y i vids) (fromVid : ℕ) (xlate : Bool) (map_to : ℕ) :
    Recounts x (y.setRule i fromVid xlate map_to) i vids := by
  refine h.setPort (.conf ..) fun w => ?_
  by_cases hw : w = fromVid
  · rw [hw, TagPort.conf_self]
  · rw [TagPort.conf_of_ne _ hw]

/-- The default rule of the port is no setting and no count. -/
theorem setDef (h : Recounts x y i vids) (xlate : Bool) (map_to : ℕ) :
    Recounts x (y.setDef i xlate map_to) i vids :=
  h.setPort ⟨rfl, rfl, rfl, rfl, fun _ => rfl⟩ fun _ => rfl

/-- References of a VLAN are counted up or down. -/
theorem count (h : Recounts x y i vids) (vid : ℕ) (f : PortVlanConf → PortVlanConf) (n : ℤ) :
    Recounts x { y.setPort i ((y.ports i).conf vid f) with
      vlans := update y.vlans vid { y.vlans vid with vt_refc := n } } i (vids ++ [vid]) where
  conf := by
    dsimp only
    rw [setPort_self, VlanTable.setPort, h.conf, Function.update_idem]
  port := by
    dsimp only
    rw [setPort_self]
    exact h.port.trans (.conf ..)
  state w := by
    dsimp only
    by_cases hw : w = vid
    · rw [hw, update_self, h.state]
    · rw [update_of_ne hw, h.state]
  refc w hw := by
    have hne : w ≠ vid := fun heq => hw (List.mem_append_right _ (List.mem_singleton.mpr heq))
    dsimp only
    rw [setPort_self, TagPort.conf_of_ne _ hne]
    exact h.refc w fun hmem => hw (List.mem_append_left _ hmem)
  vlan w hw := by
    have hne : w ≠ vid := fun heq => hw (List.mem_append_right _ (List.mem_singleton.mpr heq))
    dsimp only
    rw [update_of_ne hne]
    exact h.vlan w fun hmem => hw (List.mem_append_left _ hmem)

/-- A reference counted up is one of the VLANs counted. -/
theorem incr (h : Recounts x y i vids) (vid : ℕ) : Recounts x (y.incr i vid) i (vids ++ [vid]) :=
  h.count vid _ _

/-- A reference counted down is one of the VLANs counted. -/
theorem decr (h : Recounts x y i vids) (vid : ℕ) : Recounts x (y.decr i vid) i (vids ++ [vid]) :=
  h.count vid _ _

/-- Counting references changes no setting. -/
theorem sameSettings (h : Recounts x y i vids) : x.SameSettings y where
  port j := by
    by_cases hj : j = i
    · rw [hj]
      exact h.port
    · rw [h.other hj]
      exact .refl _
  state := h.state
  dot1q := by rw [h.conf]

/-- Counting references leaves the tunnel flag alone. -/
theorem tunnel (h : Recounts x y i vids) :
    y.vlan_xlate_tunnel = x.vlan_xlate_tunnel := by rw [h.conf]

/-- Counting references writes no member to the hardware. -/
theorem member (h : Recounts x y i vids) (j : Fin nports) (w : ℕ) :
    y.member c j w = x.member c j w := by
  rw [h.conf]
  rfl

/-- A VLAN that is not counted keeps its references. -/
theorem refc_eq (h : Recounts x y i vids) (hw : w ∉ vids) :
    ((y.ports j).vlan_conf w).refc = ((x.ports j).vlan_conf w).refc := by
  by_cases hj : j = i
  · rw [hj, h.refc w hw]
  · rw [h.other hj]

end Recounts

/-- The VLANs that `port_vlan_translate` updates are those whose references change. -/
theorem changeRule_recounts {fromVid toVid : ℕ} {add : Bool} {vids : List ℕ}
    (h : x.changeRule i fromVid toVid add = some (y, vids)) : Recounts x y i vids := by
  unfold changeRule at h
  split_ifs at h with hadd hfrom
  · unfold addSpecific at h
    dsimp only at h
    split_ifs at h with hsame hvalid hzero
    · obtain ⟨rfl, rfl⟩ := Prod.mk.inj (Option.some_inj.mp h)
      exact .refl x i
    · obtain ⟨rfl, rfl⟩ := Prod.mk.inj (Option.some_inj.mp h)
      exact (((Recounts.refl x i).decr _).setRule ..).incr toVid
    · obtain ⟨rfl, rfl⟩ := Prod.mk.inj (Option.some_inj.mp h)
      exact ((Recounts.refl x i).setRule ..).incr toVid
  · have h := Option.some_inj.mp h
    unfold addDefault at h
    dsimp only at h
    split_ifs at h with hsame hvalid hto hto
    all_goals obtain ⟨rfl, rfl⟩ := Prod.mk.inj h
    · exact .refl x i
    · exact (((Recounts.refl x i).decr _).setDef ..).incr toVid
    · exact ((Recounts.refl x i).setDef ..).incr toVid
    · exact ((Recounts.refl x i).decr _).setDef ..
    · exact (Recounts.refl x i).setDef ..
  · unfold delRule at h
    dsimp only at h
    split_ifs at h with hrule hzero hdef hto
    all_goals obtain ⟨rfl, rfl⟩ := Prod.mk.inj (Option.some_inj.mp h)
    · exact ((Recounts.refl x i).setRule ..).decr _
    · exact ((Recounts.refl x i).decr _).setDef ..
    · exact (Recounts.refl x i).setDef ..
    · exact .refl x i

/-- Where the entries of the VLANs are rewritten, the two decisions are to agree. -/
theorem Recounts.updated_iff {vids : List ℕ} (h : Recounts x y i vids) (hx : InStep c x) :
    InStep c (vids.foldl (fun y vid => y.portUpdateTrunkVlanAllPorts c vid) y) ↔
      ∀ w ∈ vids, x.Live w → ∀ j, c.stack j = false → (x.ports j).mode = .PM_TRUNK →
        (y.ports j).Concordant x.vlan_xlate_tunnel (y.vlans w) w := by
  obtain ⟨hconf, hmember⟩ := @foldl_portUpdateTrunkVlanAllPorts nports c y vids
  generalize vids.foldl (fun y vid => y.portUpdateTrunkVlanAllPorts c vid) y = z at hconf hmember ⊢
  have hz : x.SameSettings z := h.sameSettings.trans (.of_entry hconf)
  have hkept : ∀ j w, ¬(w ∈ vids ∧ (x.ports j).mode = .PM_TRUNK) →
      z.member c j w = x.member c j w := by
    intro j w hnot
    rw [hmember, if_neg, h.member]
    rintro ⟨hw, htrunk, _⟩
    exact hnot ⟨hw, (h.sameSettings.port j).mode.symm.trans htrunk⟩
  have hwanted : ∀ j w, z.wanted j w = y.wanted j w := fun j w => by
    rw [hconf]
    rfl
  have hiff : ∀ w ∈ vids, x.Live w → ∀ j, (x.ports j).mode = .PM_TRUNK →
      (z.member c j w = z.wanted j w ↔
        (y.ports j).Concordant x.vlan_xlate_tunnel (y.vlans w) w) := by
    intro w hw hlive j htrunk
    have htrunk' : (y.ports j).mode = .PM_TRUNK := (h.sameSettings.port j).mode.trans htrunk
    have hdel : (y.vlans w).state ≠ .VS_DELETED := (h.sameSettings.live_iff.mpr hlive).2
    rw [hwanted, hmember, if_pos ⟨hw, htrunk', hdel⟩, ← h.tunnel]
    exact TagPort.trunkMember_eq_iff htrunk'
  refine (hz.inStep_iff hx fun j w hne => hkept j w fun h => hne h.2).trans ?_
  refine ⟨fun hall w hw hlive j hstack htrunk => ?_, fun hall w hlive j hstack htrunk => ?_⟩
  · exact (hiff w hw hlive j htrunk).mp (hall w hlive j hstack htrunk)
  · by_cases hw : w ∈ vids
    · exact (hiff w hw hlive j htrunk).mpr (hall w hw hlive j hstack htrunk)
    · -- the references are what they were
      have htunnel : z.vlan_xlate_tunnel = x.vlan_xlate_tunnel := by
        rw [hconf]
        exact h.tunnel
      have hrefc : ((z.ports j).vlan_conf w).refc = ((x.ports j).vlan_conf w).refc := by
        rw [hconf]
        exact h.refc_eq hw
      have hvlan : z.vlans w = x.vlans w := by
        rw [hconf]
        exact h.vlan w hw
      refine (hz.kept_iff htunnel hx hstack htrunk hlive (hkept j w fun h => hw h.1) hrefc).mpr ?_
      rw [hvlan]
      exact .refl _ _ _ _

/-- Where no entry is rewritten, the references are not to count. -/
theorem Recounts.kept_iff {vids : List ℕ} (h : Recounts x y i vids) (hx : InStep c x)
    (hmode : (x.ports i).mode ≠ .PM_TRUNK) :
    InStep c y ↔ ∀ w ∈ vids, x.Live w → ∀ j, c.stack j = false → (x.ports j).mode = .PM_TRUNK →
      (x.ports j).Settled x.vlan_xlate_tunnel (x.vlans w) (y.vlans w) w := by
  have hiff : ∀ w, x.Live w → ∀ j, c.stack j = false → (x.ports j).mode = .PM_TRUNK →
      (y.member c j w = y.wanted j w ↔
        (x.ports j).Settled x.vlan_xlate_tunnel (x.vlans w) (y.vlans w) w) := by
    intro w hlive j hstack htrunk
    have hji : j ≠ i := fun heq => hmode (heq ▸ htrunk)
    refine h.sameSettings.kept_iff h.tunnel hx hstack htrunk hlive (h.member j w) ?_
    rw [h.other hji]
  refine (h.sameSettings.inStep_iff hx fun j w _ => h.member j w).trans ?_
  refine ⟨fun hall w _ hlive j hstack htrunk => ?_, fun hall w hlive j hstack htrunk => ?_⟩
  · exact (hiff w hlive j hstack htrunk).mp (hall w hlive j hstack htrunk)
  · refine (hiff w hlive j hstack htrunk).mpr ?_
    by_cases hw : w ∈ vids
    · exact hall w hw hlive j hstack htrunk
    · rw [h.vlan w hw]
      exact .refl _ _ _ _

/-- A rule keeps the table in step if and only if the two decisions agree on the VLANs whose
references change, or, where no entry is rewritten, these references do not count. -/
theorem InStep.translate_iff (hx : InStep c x) {pid fromVid toVid : ℕ} {add : Bool}
    {r : VlanTable nports × Status} (h : x.portVlanTranslate c pid fromVid toVid add = some r) :
    InStep c r.1 ↔ Steady c x (.translate pid fromVid toVid add) := by
  unfold portVlanTranslate at h
  cases hp : portPtr nports pid with
  | none =>
    rw [hp] at h
    obtain rfl := Option.some_inj.mp h
    exact iff_of_true hx fun i hi => by cases hp.symm.trans hi
  | some i =>
    rw [hp] at h
    dsimp only at h
    refine Iff.trans ?_ (forall_portPtr hp).symm
    by_cases hbad : x.BadRule fromVid toVid
    · rw [if_pos hbad] at h
      obtain rfl := Option.some_inj.mp h
      exact iff_of_true hx fun hgood => absurd hbad hgood
    · rw [if_neg hbad] at h
      obtain ⟨⟨y, vids⟩, hchange, rfl⟩ := Option.map_eq_some_iff.mp h
      have hrec := changeRule_recounts hchange
      have hall : ∀ {P : VlanTable nports → List ℕ → Prop},
          (∀ y vids, x.changeRule i fromVid toVid add = some (y, vids) → P y vids) ↔ P y vids := by
        intro P
        refine ⟨fun h => h y vids hchange, fun h y' vids' heq => ?_⟩
        obtain ⟨rfl, rfl⟩ := Prod.mk.inj (Option.some_inj.mp (hchange.symm.trans heq))
        exact h
      rw [imp_iff_right hbad, hall]
      dsimp only
      by_cases hmode : (x.ports i).mode = .PM_TRUNK
      · simp only [if_pos hmode]
        exact hrec.updated_iff hx
      · simp only [if_neg hmode]
        exact hrec.kept_iff hx hmode

/-! ## The rules of a port are cleared -/

/-- What the rounds for the VLANs `vids` clear on port `i`. -/
structure RuleCleared (c : VlanLayout nports) (x y : VlanTable nports) (i : Fin nports)
    (vids : List ℕ) :
    Prop where
  conf : y = { x with ports := update x.ports i (y.ports i), vlans := y.vlans, entry := y.entry }
  port : (x.ports i).SameSettings (y.ports i)
  refc : ∀ w, ((y.ports i).vlan_conf w).refc =
    if (x.ports i).Drops vids w then 0 else ((x.ports i).vlan_conf w).refc
  vlan : ∀ w, y.vlans w = { x.vlans w with
    vt_refc := (x.vlans w).vt_refc -
      if (x.ports i).Drops vids w then (((x.ports i).vlan_conf w).refc : ℤ) else 0 }
  member : ∀ j w, y.member c j w =
    if j = i ∧ (x.ports i).Drops vids w ∧ (x.vlans w).state ≠ .VS_DELETED then
      ((x.ports i).dropped w).trunkMember x.vlan_dot1q_tag_native x.vlan_xlate_tunnel (x.vlans w) w
    else x.member c j w

namespace RuleCleared

variable {vids : List ℕ} {p : TagPort}

/-- Rules are written, and no reference is dropped. -/
theorem of_setPort (c : VlanLayout nports) (hp : (x.ports i).SameSettings p)
    (hrefc : ∀ w, (p.vlan_conf w).refc = ((x.ports i).vlan_conf w).refc)
    (hnone : ∀ w, ¬(x.ports i).Drops vids w) : RuleCleared c x (x.setPort i p) i vids where
  conf := by
    rw [setPort_self]
    rfl
  port := by
    rw [setPort_self]
    exact hp
  refc w := by rw [setPort_self, hrefc, if_neg (hnone w)]
  vlan w := by
    rw [if_neg (hnone w), sub_zero]
    rfl
  member j w := by
    rw [if_neg fun h => hnone w h.2.1]
    rfl

/-- No rule has been cleared. -/
theorem nil (c : VlanLayout nports) (x : VlanTable nports) (i : Fin nports) :
    RuleCleared c x x i [] := by
  have hnone : ∀ w, ¬(x.ports i).Drops [] w := fun _ ⟨_, _, _, hv, _⟩ => List.not_mem_nil hv
  have h := of_setPort c (.refl (x.ports i)) (fun _ => rfl) hnone
  rwa [VlanTable.setPort, Function.update_eq_self] at h

/-- The round of a VLAN, if it drops references. -/
theorem round {u toVid : ℕ} (c : VlanLayout nports) {p : TagPort}
    (hdrop : ∀ w, (x.ports i).Drops [u] w ↔ w = toVid)
    (hp : ((x.ports i).dropped toVid).SameSettings p)
    (hrefc : ∀ w, (p.vlan_conf w).refc = (((x.ports i).dropped toVid).vlan_conf w).refc)
    (hy : y = { x with
      ports := update x.ports i ((x.ports i).dropped toVid)
      vlans := update x.vlans toVid { x.vlans toVid with
        vt_refc := (x.vlans toVid).vt_refc - ((x.ports i).vlan_conf toVid).refc } }) :
    RuleCleared c x ((y.portUpdateTrunkVlan c i toVid).setPort i p) i [u] := by
  obtain ⟨hconf, hmember⟩ := portUpdateTrunkVlan_spec c y i toVid
  generalize y.portUpdateTrunkVlan c i toVid = z at hconf hmember ⊢
  have hstate : ∀ w, (y.vlans w).state = (x.vlans w).state := fun w => by
    rw [hy]
    dsimp only
    by_cases hw : w = toVid
    · rw [hw, update_self]
    · rw [update_of_ne hw]
  refine ⟨?_, ?_, fun w => ?_, fun w => ?_, fun j w => ?_⟩
  · rw [setPort_self, VlanTable.setPort, hconf, hy]
    dsimp only
    rw [Function.update_idem]
  · rw [setPort_self]
    exact (TagPort.SameSettings.conf ..).trans hp
  · rw [setPort_self, hrefc]
    by_cases hw : w = toVid
    · rw [if_pos ((hdrop w).mpr hw), hw, TagPort.dropped_refc]
    · rw [if_neg fun h => hw ((hdrop w).mp h), TagPort.dropped, TagPort.conf_of_ne _ hw]
  · have hz : (z.setPort i p).vlans w = y.vlans w := by
      rw [hconf]
      rfl
    rw [hz, hy]
    dsimp only
    by_cases hw : w = toVid
    · rw [if_pos ((hdrop w).mpr hw), hw, update_self]
    · rw [if_neg fun h => hw ((hdrop w).mp h), update_of_ne hw, sub_zero]
  · refine (hmember j w).trans ?_
    rw [hstate]
    by_cases hat : j = i ∧ w = toVid ∧ (x.vlans w).state ≠ .VS_DELETED
    · rw [if_pos hat, if_pos ⟨hat.1, (hdrop w).mpr hat.2.1, hat.2.2⟩, hy]
      dsimp only
      rw [hat.1, update_self, hat.2.1]
      exact TagPort.trunkMember_congr (.refl _) rfl
    · rw [if_neg hat, if_neg fun h => hat ⟨h.1, (hdrop w).mp h.2.1, h.2.2⟩, hy]
      rfl

/-- One round after the other. -/
theorem cons {u : ℕ} (h : RuleCleared c x y i [u]) (h' : RuleCleared c y z i vids)
    (hrule : ∀ v ∈ vids, ((y.ports i).vlan_conf v).xlate = ((x.ports i).vlan_conf v).xlate ∧
      ((y.ports i).vlan_conf v).map_to = ((x.ports i).vlan_conf v).map_to) :
    RuleCleared c x z i (u :: vids) := by
  -- what the second part drops is what the first one has not dropped already
  have hdrops : ∀ w, (y.ports i).Drops vids w ↔
      (x.ports i).Drops vids w ∧ ¬(x.ports i).Drops [u] w := by
    intro w
    constructor
    · rintro ⟨hmode, hrefc, v, hv, hxlate, hto⟩
      rw [h.refc] at hrefc
      have hu : ¬(x.ports i).Drops [u] w := fun hu => hrefc (if_pos hu)
      rw [if_neg hu] at hrefc
      rw [(hrule v hv).1] at hxlate
      rw [(hrule v hv).2] at hto
      exact ⟨⟨h.port.mode.symm.trans hmode, hrefc, v, hv, hxlate, hto⟩, hu⟩
    · rintro ⟨⟨hmode, hrefc, v, hv, hxlate, hto⟩, hu⟩
      refine ⟨h.port.mode.trans hmode, ?_, v, hv, (hrule v hv).1.trans hxlate,
        (hrule v hv).2.trans hto⟩
      rwa [h.refc, if_neg hu]
  -- together they drop what the whole list drops
  have hor : ∀ w, (y.ports i).Drops vids w ∨ (x.ports i).Drops [u] w ↔
      (x.ports i).Drops (u :: vids) w := by
    intro w
    have hcons : (x.ports i).Drops (u :: vids) w ↔ (x.ports i).Drops [u] w ∨
        (x.ports i).Drops vids w :=
      TagPort.drops_cons
    rw [hdrops, hcons, or_comm]
    by_cases hu : (x.ports i).Drops [u] w
    · exact iff_of_true (.inl hu) (.inl hu)
    · exact or_congr_right (and_iff_left hu)
  have hstate : ∀ w, (y.vlans w).state = (x.vlans w).state := fun w => by rw [h.vlan]
  have hflags : y.vlan_dot1q_tag_native = x.vlan_dot1q_tag_native ∧
      y.vlan_xlate_tunnel = x.vlan_xlate_tunnel := by
    rw [h.conf]
    exact ⟨rfl, rfl⟩
  -- field by field: two parts of the loop are one
  refine ⟨?_, h.port.trans h'.port, fun w => ?_, fun w => ?_, fun j w => ?_⟩
  · rw [h'.conf, h.conf]
    dsimp only
    rw [update_self, Function.update_idem]
  · rw [h'.refc, h.refc, ← ite_or]
    exact if_congr (hor w) rfl rfl
  · rw [h'.vlan, h.vlan, h.refc]
    dsimp only
    by_cases hu : (x.ports i).Drops [u] w
    · rw [if_pos hu, if_neg fun hy => ((hdrops w).mp hy).2 hu, if_pos ((hor w).mp (.inr hu)),
        sub_zero]
    · rw [if_neg hu, if_neg hu, sub_zero, if_congr ((or_iff_left hu).symm.trans (hor w)) rfl rfl]
  · rw [h'.member, h.member, hflags.1, hflags.2, TagPort.dropped_trunkMember h.port, hstate,
      ← ite_or]
    refine if_congr ?_ rfl rfl
    rw [← and_or_left, ← or_and_right, hor]

end RuleCleared

/-- A round clears the rule of its VLAN. -/
theorem clearRule_spec (h : clearRule c i x vid = some y) :
    RuleCleared c x y i [vid] ∧ ∀ u, u ≠ vid →
      ((y.ports i).vlan_conf u).xlate = ((x.ports i).vlan_conf u).xlate ∧
        ((y.ports i).vlan_conf u).map_to = ((x.ports i).vlan_conf u).map_to := by
  have hdrops : ∀ w, (x.ports i).Drops [vid] w ↔ ((x.ports i).mode = .PM_TRUNK ∧
      ((x.ports i).vlan_conf vid).xlate = true) ∧ ((x.ports i).vlan_conf w).refc ≠ 0 ∧
        ((x.ports i).vlan_conf vid).map_to = w := by
    intro w
    constructor
    · rintro ⟨hmode, hrefc, v, hv, hxlate, hto⟩
      obtain rfl := List.mem_singleton.mp hv
      exact ⟨⟨hmode, hxlate⟩, hrefc, hto⟩
    · rintro ⟨⟨hmode, hxlate⟩, hrefc, hto⟩
      exact ⟨hmode, hrefc, vid, List.mem_singleton.mpr rfl, hxlate, hto⟩
  -- the other rules of the port are not touched
  have hother : ∀ (p : TagPort) (u : ℕ), u ≠ vid →
      ((p.conf vid fun k => { k with xlate := false, map_to := 0 }).vlan_conf u) = p.vlan_conf u :=
    fun p u hu => TagPort.conf_of_ne _ hu
  have hkeeps : ∀ (p : TagPort) (w : ℕ),
      ((p.conf vid fun k => { k with xlate := false, map_to := 0 }).vlan_conf w).refc =
        (p.vlan_conf w).refc := fun p w => by
    by_cases hw : w = vid
    · rw [hw, TagPort.conf_self]
    · rw [hother p w hw]
  unfold clearRule at h
  dsimp only at h
  split_ifs at h with hrule hzero hrefc
  · -- the rule maps to a VLAN with references: these are dropped, and its member is written
    obtain rfl := Option.some_inj.mp h
    generalize hy : VlanTable.setPort _ i _ = y
    have hport : (y.portUpdateTrunkVlan c i ((x.ports i).vlan_conf vid).map_to).ports i =
        (x.ports i).dropped ((x.ports i).vlan_conf vid).map_to := by
      rw [(portUpdateTrunkVlan_spec ..).1, ← hy]
      exact setPort_self ..
    rw [setRule, hport]
    refine ⟨.round c (fun w => ?_) (.conf ..) (hkeeps _) hy.symm, fun u hu => ?_⟩
    · rw [hdrops]
      refine ⟨fun h => h.2.2.symm, ?_⟩
      rintro rfl
      exact ⟨hrule, hrefc, rfl⟩
    · rw [setPort_self, hother _ u hu, TagPort.dropped]
      by_cases hto : u = ((x.ports i).vlan_conf vid).map_to
      · rw [hto, TagPort.conf_self]
        exact ⟨rfl, rfl⟩
      · rw [TagPort.conf_of_ne _ hto]
        exact ⟨rfl, rfl⟩
  · -- the rule maps to a VLAN without references
    obtain rfl := Option.some_inj.mp h
    refine ⟨.of_setPort c (.conf ..) (hkeeps _) fun w hw => ?_, fun u hu => ?_⟩
    · obtain ⟨_, hne, rfl⟩ := (hdrops w).mp hw
      exact hrefc hne
    · rw [setRule, setPort_self, hother _ u hu]
      exact ⟨rfl, rfl⟩
  · -- there is no rule to clear
    obtain rfl := Option.some_inj.mp h
    have hround := RuleCleared.of_setPort c (.refl (x.ports i)) (fun _ => rfl)
      fun w hw => hrule ((hdrops w).mp hw).1
    rw [VlanTable.setPort, Function.update_eq_self] at hround
    exact ⟨hround, fun _ _ => ⟨rfl, rfl⟩⟩

/-- The loop over the VLANs clears the rules of each. -/
theorem foldlM_clearRule {vids : List ℕ} (hnd : vids.Nodup)
    (h : vids.foldlM (clearRule c i) x = some y) :
    RuleCleared c x y i vids := by
  induction vids generalizing x with
  | nil =>
    obtain rfl := Option.some_inj.mp h
    exact .nil c x i
  | cons v vids ih =>
    obtain ⟨hv, hnd⟩ := List.nodup_cons.mp hnd
    rw [List.foldlM_cons] at h
    obtain ⟨x₁, h₁, hrest⟩ := Option.bind_eq_some_iff.mp h
    obtain ⟨hround, hrule⟩ := clearRule_spec h₁
    exact hround.cons (ih hnd hrest) fun u hu => hrule u fun heq => hv (heq ▸ hu)

namespace RuleCleared

variable {vids : List ℕ}

/-- The other ports are as they were. -/
theorem other (h : RuleCleared c x y i vids) (hj : j ≠ i) : y.ports j = x.ports j := by
  rw [h.conf]
  exact update_of_ne hj ..

/-- The default rule is cleared as well. -/
theorem setDef (h : RuleCleared c x y i vids) (xlate : Bool) (map_to : ℕ) :
    RuleCleared c x (y.setDef i xlate map_to) i vids where
  conf := by
    rw [VlanTable.setDef, setPort_self, VlanTable.setPort, h.conf, Function.update_idem]
  port := by
    rw [VlanTable.setDef, setPort_self]
    exact h.port.trans ⟨rfl, rfl, rfl, rfl, fun _ => rfl⟩
  refc w := by
    rw [VlanTable.setDef, setPort_self]
    exact h.refc w
  vlan := h.vlan
  member := h.member

/-- Clearing the rules of a port changes no setting. -/
theorem sameSettings (h : RuleCleared c x y i vids) : x.SameSettings y where
  port j := by
    by_cases hj : j = i
    · rw [hj]
      exact h.port
    · rw [h.other hj]
      exact .refl _
  state w := by rw [h.vlan]
  dot1q := by rw [h.conf]

/-- Clearing the rules of a port leaves the tunnel flag alone. -/
theorem tunnel (h : RuleCleared c x y i vids) :
    y.vlan_xlate_tunnel = x.vlan_xlate_tunnel := by rw [h.conf]

end RuleCleared

/-- `__port_clear_translation`. -/
theorem clearTranslation_spec (h : x.clearTranslation c i = some y) :
    RuleCleared c x y i allVids := by
  obtain ⟨z, hz, rfl⟩ := Option.map_eq_some_iff.mp h
  exact (foldlM_clearRule nodup_allVids hz).setDef false 0

/-- What is cleared when the rules of the ports of a list are. -/
structure RulesCleared (c : VlanLayout nports) (x y : VlanTable nports) (l : List (Fin nports)) :
    Prop where
  same : x.SameSettings y
  tunnel : y.vlan_xlate_tunnel = x.vlan_xlate_tunnel
  refc : ∀ j w, ((y.ports j).vlan_conf w).refc =
    if j ∈ l ∧ (x.ports j).Drops allVids w then 0 else ((x.ports j).vlan_conf w).refc
  vlan : ∀ w, y.vlans w = x.cleared l w
  member : ∀ j w, y.member c j w =
    if (j ∈ l ∧ (x.ports j).Drops allVids w) ∧ (x.vlans w).state ≠ .VS_DELETED then
      ((x.ports j).dropped w).trunkMember x.vlan_dot1q_tag_native x.vlan_xlate_tunnel (x.vlans w) w
    else x.member c j w

namespace RulesCleared

variable {l : List (Fin nports)}

/-- The rules of no port have been cleared. -/
theorem nil (c : VlanLayout nports) (x : VlanTable nports) : RulesCleared c x x [] where
  same := .refl x
  tunnel := rfl
  refc j w := (if_neg fun h => List.not_mem_nil h.1).symm
  vlan w := by
    rw [cleared, List.map_nil, List.sum_nil, sub_zero]
  member j w := (if_neg fun h => List.not_mem_nil h.1.1).symm

/-- One port after the other. -/
theorem cons (h : RuleCleared c x y i allVids) (h' : RulesCleared c y z l) (hi : i ∉ l) :
    RulesCleared c x z (i :: l) where
  same := h.sameSettings.trans h'.same
  tunnel := h'.tunnel.trans h.tunnel
  refc j w := by
    rw [h'.refc]
    by_cases hj : j = i
    · rw [hj, if_neg fun hall => hi hall.1, h.refc]
      exact if_congr (and_iff_right List.mem_cons_self).symm rfl rfl
    · rw [h.other hj]
      exact if_congr (by rw [List.mem_cons, or_iff_right hj]) rfl rfl
  vlan w := by
    have hsum : (l.map fun j =>
      if (y.ports j).Drops allVids w then (((y.ports j).vlan_conf w).refc : ℤ)
        else 0) = l.map fun j =>
          if (x.ports j).Drops allVids w then (((x.ports j).vlan_conf w).refc : ℤ)
        else 0 := by
      refine List.map_congr_left fun j hj => ?_
      rw [h.other fun heq => hi (heq ▸ hj)]
    rw [h'.vlan, cleared, hsum, h.vlan, cleared, List.map_cons, List.sum_cons]
    dsimp only
    rw [sub_sub]
  member j w := by
    rw [h'.member, h.sameSettings.state]
    by_cases hj : j = i
    · rw [hj, if_neg fun hall => hi hall.1.1, h.member]
      refine if_congr ?_ rfl rfl
      exact (and_iff_right rfl).trans
        (and_congr_left fun _ => (and_iff_right List.mem_cons_self).symm)
    · have hkept : y.member c j w = x.member c j w := by rw [h.member, if_neg fun hall => hj hall.1]
      rw [hkept, h.other hj, h.sameSettings.dot1q, h.tunnel,
        TagPort.dropped_trunkMember (.refl (x.ports j))]
      exact if_congr (by rw [List.mem_cons, or_iff_right hj]) rfl rfl

end RulesCleared

/-- The loop over the ports clears the rules of each. -/
theorem foldlM_clearTranslation {l : List (Fin nports)} (hnd : l.Nodup)
    (h : l.foldlM (clearTranslation c) x = some y) : RulesCleared c x y l := by
  induction l generalizing x with
  | nil =>
    obtain rfl := Option.some_inj.mp h
    exact .nil c x
  | cons i l ih =>
    obtain ⟨hi, hnd⟩ := List.nodup_cons.mp hnd
    rw [List.foldlM_cons] at h
    obtain ⟨x₁, h₁, hrest⟩ := Option.bind_eq_some_iff.mp h
    exact .cons (clearTranslation_spec h₁) (ih hnd hrest) hi

/-- `port_clear_translation`. -/
theorem portClearTranslation_spec {pid : ℕ} {r : VlanTable nports × Status}
    (h : x.portClearTranslation c pid = some r) : RulesCleared c x r.1 (clearedPorts c pid) := by
  unfold portClearTranslation at h
  unfold clearedPorts
  by_cases hall : pid = c.ALL_PORTS
  · rw [if_pos hall] at h ⊢
    obtain ⟨y, hy, rfl⟩ := Option.map_eq_some_iff.mp h
    exact foldlM_clearTranslation (List.nodup_finRange nports) hy
  · rw [if_neg hall] at h ⊢
    cases hp : portPtr nports pid with
    | none =>
      rw [hp] at h
      obtain rfl := Option.some_inj.mp h
      exact .nil c x
    | some i =>
      rw [hp] at h
      obtain ⟨y, hy, rfl⟩ := Option.map_eq_some_iff.mp h
      exact .cons (clearTranslation_spec hy) (.nil c y) List.not_mem_nil

/-- Where the references of a port are dropped it is to be a member still, and tagged; elsewhere the
references of the VLAN are not to count. -/
theorem RulesCleared.inStep_iff {l : List (Fin nports)} (h : RulesCleared c x y l)
    (hx : InStep c x) :
    InStep c y ↔ ∀ w, x.Live w → ∀ j, c.stack j = false → (x.ports j).mode = .PM_TRUNK →
      if j ∈ l ∧ (x.ports j).Drops allVids w then
        ((x.ports j).vlan_conf w).tallow = true ∧ (x.ports j).native_vid ≠ w ∧
          (x.cleared l w).vt_refc ≠ 0 ∧ x.vlan_xlate_tunnel = true
      else (x.ports j).Settled x.vlan_xlate_tunnel (x.vlans w) (x.cleared l w) w := by
  have hkept : ∀ j w, ¬(j ∈ l ∧ (x.ports j).Drops allVids w) → y.member c j w = x.member c j w :=
    fun j w hnot => by rw [h.member, if_neg fun hall => hnot hall.1]
  refine (h.same.inStep_iff hx fun j w hne => hkept j w fun hall => hne hall.2.1).trans ?_
  refine forall₂_congr fun w hlive => forall₃_congr fun j hstack htrunk => ?_
  by_cases hdrop : j ∈ l ∧ (x.ports j).Drops allVids w
  · have hrefc : ((y.ports j).vlan_conf w).refc = 0 := by rw [h.refc, if_pos hdrop]
    have hwritten : y.member c j w =
        (y.ports j).trunkMember x.vlan_dot1q_tag_native x.vlan_xlate_tunnel
        (y.vlans w) w := by
      rw [h.member, if_pos ⟨hdrop, hlive.2⟩]
      refine (TagPort.trunkMember_congr
        ((TagPort.SameSettings.conf ..).symm.trans (h.same.port j)) ?_).symm
      exact hrefc.trans (TagPort.dropped_refc ..).symm
    rw [if_pos hdrop, hwritten, wanted, h.same.dot1q, h.tunnel,
      TagPort.trunkMember_eq_iff ((h.same.port j).mode.trans htrunk), ← h.vlan,
        ← (h.same.port j).tallow,
      ← (h.same.port j).native_vid]
    exact or_iff_right (not_not.mpr hrefc)
  · have hrefc : ((y.ports j).vlan_conf w).refc = ((x.ports j).vlan_conf w).refc := by
      rw [h.refc, if_neg hdrop]
    rw [if_neg hdrop, ← h.vlan]
    exact h.same.kept_iff h.tunnel hx hstack htrunk hlive (hkept j w hdrop) hrefc

/-- Clearing the rules of a port, or of all ports. -/
theorem InStep.clearTranslation_iff (hx : InStep c x) {pid : ℕ} {r : VlanTable nports × Status}
    (h : x.portClearTranslation c pid = some r) :
    InStep c r.1 ↔ Steady c x (.clearTranslation pid) :=
  (portClearTranslation_spec h).inStep_iff hx

/-- The flag keeps the table in step if and only if it does not change or every port in trunk mode
is a tagged member of every VLAN before and after, and VLANs are tunnelled after. -/
theorem InStep.setXlateTunnel_iff (hx : InStep c x) {enable : Bool} {r : VlanTable nports × Status}
    (h : x.vlanSetXlateTunnel c enable = some r) :
    InStep c r.1 ↔ Steady c x (.setXlateTunnel enable) := by
  unfold vlanSetXlateTunnel at h
  by_cases hne : x.vlan_xlate_tunnel ≠ enable
  · rw [if_pos hne] at h
    obtain ⟨⟨y, st⟩, hy, rfl⟩ := Option.map_eq_some_iff.mp h
    have hclear : RulesCleared c x y (List.finRange nports) := by
      have hspec := portClearTranslation_spec hy
      rwa [clearedPorts, if_pos rfl] at hspec
    obtain ⟨hconf, hmember⟩ := @foldl_portUpdateTrunkVlanAllPorts nports c y allVids
    dsimp only
    generalize allVids.foldl (fun y vid => y.portUpdateTrunkVlanAllPorts c vid) y =
      z at hconf hmember ⊢
    have hz : x.SameSettings { z with vlan_xlate_tunnel := enable } := by
      refine hclear.same.trans ?_
      rw [hconf]
      exact ⟨fun _ => .refl _, fun _ => rfl, rfl⟩
    have hother : ∀ j w, (x.ports j).mode ≠ .PM_TRUNK →
        VlanTable.member c { z with vlan_xlate_tunnel := enable } j w = x.member c j w := by
      intro j w hmode
      refine (hmember j w).trans ?_
      rw [if_neg fun hall => hmode ((hclear.same.port j).mode.symm.trans hall.2.1), hclear.member,
        if_neg fun hall => hmode hall.1.2.1]
    refine (hz.inStep_iff hx hother).trans
      ((imp_iff_right hne).symm.trans (imp_congr_right fun _ => ?_))
    refine forall₂_congr fun w hlive => forall₃_congr fun j _ htrunk => ?_
    have htrunk' : (y.ports j).mode = .PM_TRUNK := (hclear.same.port j).mode.trans htrunk
    have hdel : (y.vlans w).state ≠ .VS_DELETED := (hclear.same.live_iff.mpr hlive).2
    have hwritten : VlanTable.member c { z with vlan_xlate_tunnel := enable } j w =
        (y.ports j).trunkMember y.vlan_dot1q_tag_native x.vlan_xlate_tunnel (y.vlans w) w := by
      refine (hmember j w).trans ?_
      rw [if_pos ⟨hlive.mem, htrunk', hdel⟩, hclear.tunnel]
    have hwanted : VlanTable.wanted { z with vlan_xlate_tunnel := enable } j w =
        ((y.ports j).tagging y.vlan_dot1q_tag_native enable (y.vlans w) w).getD .clear := by
      rw [hconf]
      rfl
    have hrefc : ((y.ports j).vlan_conf w).refc = 0 ↔
        ((x.ports j).vlan_conf w).refc = 0 ∨ (x.ports j).Drops allVids w := by
      rw [hclear.refc]
      by_cases hdrop : (x.ports j).Drops allVids w
      · rw [if_pos ⟨List.mem_finRange j, hdrop⟩]
        exact iff_of_true rfl (.inr hdrop)
      · rw [if_neg fun hall => hdrop hall.2, or_iff_left hdrop]
    rw [hwritten, hwanted, TagPort.trunkMember_tunnel_iff htrunk' hne, hrefc, ← hclear.vlan,
      (hclear.same.port j).tallow, (hclear.same.port j).native_vid]
  · rw [if_neg hne] at h
    obtain rfl := Option.some_inj.mp h
    exact iff_of_true hx fun hchange => absurd hchange hne

/-! ## Runs -/

/-- A change keeps the table in step if and only if it is steady. -/
theorem InStep.step_iff (hdel : ∀ m, c.portDelete m = .clear) (hx : InStep c x) {op : Op}
    (hs : step c x op = some x') : InStep c x' ↔ Steady c x op := by
  cases op with
  | vlanAdd vid =>
    obtain rfl := Option.some_inj.mp hs
    exact iff_of_true (hx.vlanAdd vid) trivial
  | vlanDelete vid =>
    obtain rfl := Option.some_inj.mp hs
    exact iff_of_true (hx.vlanDelete vid) trivial
  | setDot1qTagNative value =>
    obtain rfl := Option.some_inj.mp hs
    exact hx.setDot1qTagNative_iff value
  | setAccessVid pid vid =>
    obtain rfl := Option.some_inj.mp hs
    exact iff_of_true (hx.setAccessVid hdel pid vid) trivial
  | setVoiceVid pid vid =>
    obtain rfl := Option.some_inj.mp hs
    exact hx.setVoiceVid_iff hdel pid vid
  | setNativeVid pid vid =>
    obtain rfl := Option.some_inj.mp hs
    exact hx.setNativeVid_iff pid vid
  | setCustomerVid pid vid =>
    obtain rfl := Option.some_inj.mp hs
    exact iff_of_true (hx.setCustomerVid pid vid) trivial
  | setTrunkVlans pid bmp =>
    obtain rfl := Option.some_inj.mp hs
    exact hx.setTrunkVlans_iff pid bmp
  | setMode pid mode =>
    obtain rfl := Option.some_inj.mp hs
    exact hx.setMode_iff pid mode
  | translate pid fromVid toVid add =>
    obtain ⟨r, hr, rfl⟩ := Option.map_eq_some_iff.mp hs
    exact hx.translate_iff hr
  | clearTranslation pid =>
    obtain ⟨r, hr, rfl⟩ := Option.map_eq_some_iff.mp hs
    exact hx.clearTranslation_iff hr
  | setXlateTunnel enable =>
    obtain ⟨r, hr, rfl⟩ := Option.map_eq_some_iff.mp hs
    exact hx.setXlateTunnel_iff hr

/-- Whatever the ports, the flags and the references are while the table is in step: after a run of
steady changes it is in step, and the next change keeps it so if and only if it is steady. -/
theorem inStep_iff_steady (hdel : ∀ m, c.portDelete m = .clear) {x₀ : VlanTable nports}
    (h₀ : InStep c x₀)
    (hr : Guarded.Reach (step c) (Steady c) x₀ x) :
    InStep c x ∧ ∀ op x', step c x op = some x' → (InStep c x' ↔ Steady c x op) := by
  have hx : InStep c x :=
    hr.invariant (InStep c) h₀ fun _ _ _ hx hok hs => (hx.step_iff hdel hs).mpr hok
  exact ⟨hx, fun op x' hs => hx.step_iff hdel hs⟩

/-- Two ports of one device, the second one a stack port. -/
def layout₂ : VlanLayout 2 where
  hw i := (0, i)
  stack i := i.val == 1
  ic_ports := []
  portDelete _ := .clear
  ALL_PORTS := 0
  hw_injective _ _ h := Fin.ext (congrArg Prod.snd h)
  hw_ic _ h := List.not_mem_nil h
  hw_stack _ _ := rfl

/-- No VLAN is there, the ports are in trunk mode, and native VLANs are to be tagged. -/
def trunk₂ : VlanTable 2 where
  ports _ := ⟨.PM_TRUNK, 1, 0, 1, 0, fun _ => ⟨⟨false, 0, 0⟩, false⟩, false, 0, Nat.one_ne_zero⟩
  vlans _ := ⟨.VS_DELETED, 0⟩
  vlan_dot1q_tag_native := 1
  vlan_xlate_tunnel := false
  entry _ _ := .clear

/-- The table is in step while VLAN 5 is added, and no longer when it becomes a native VLAN. A rule
that maps to VLAN 5 keeps it in step. -/
theorem inStep_iff_steady_trunk₂ : InStep layout₂ (trunk₂.vlanAdd layout₂ 5).1 ∧
    ¬InStep layout₂ ((trunk₂.vlanAdd layout₂ 5).1.portSetNativeVid layout₂ 1 5).1 ∧
    ∃ y, step layout₂ (trunk₂.vlanAdd layout₂ 5).1 (.translate 1 7 5 true) = some y ∧
      InStep layout₂ y := by
  have h₀ : Guarded.Reach (step layout₂) (Steady layout₂) trunk₂ trunk₂ := .init
  have h₁ := h₀.snoc (.vlanAdd 5) trivial rfl
  obtain ⟨hx, hiff⟩ := inStep_iff_steady (fun _ => rfl) (fun _ hw => absurd rfl hw.2) h₁
  refine ⟨hx, fun h => ?_, _, rfl, (hiff (.translate 1 7 5 true) _ rfl).mpr ?_⟩
  · have hsteady := (hiff (.setNativeVid 1 5) _ rfl).mp h 0 rfl rfl rfl (by decide) 5 (.inr rfl)
      ⟨by decide, fun h => VlanState.noConfusion h⟩
    exact hsteady.elim (fun h => h rfl) fun h => h.2.1 rfl
  · intro i hi _ y vids hchange w hw _ j hj _
    obtain rfl : 0 = i := Option.some_inj.mp hi
    obtain ⟨rfl, rfl⟩ := Prod.mk.inj (Option.some_inj.mp hchange)
    obtain rfl := List.mem_singleton.mp hw
    have hmode : ((trunk₂.vlanAdd layout₂ 5).1.ports 0).mode = .PM_TRUNK := rfl
    rw [if_pos hmode]
    -- the other port is a stack port
    obtain rfl : j = 0 := by
      revert hj
      decide +revert
    exact .inl (by decide)

/-- VLAN 5 is added and then made native on a port, or the other way round. The configuration is the
same, and the port is a member of the VLAN in the second case only. -/
theorem not_inStep :
    ¬InStep layout₂ ((trunk₂.vlanAdd layout₂ 5).1.portSetNativeVid layout₂ 1 5).1 ∧
      (((trunk₂.vlanAdd layout₂ 5).1.portSetNativeVid layout₂ 1 5).1.entry 5
        (0, 0)).isMember = false ∧
      (((trunk₂.portSetNativeVid layout₂ 1 5).1.vlanAdd layout₂ 5).1.entry 5
          (0, 0)).isMember = true := by
  refine ⟨fun h => ?_, by decide +kernel, by decide +kernel⟩
  have heq := h 5 ⟨by decide, fun h => VlanState.noConfusion h⟩ 0 ⟨rfl, .inr rfl⟩
  revert heq
  decide +kernel

end VlanTable

end Presteramgr
