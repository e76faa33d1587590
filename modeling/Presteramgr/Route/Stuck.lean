import Presteramgr.Route.Run

/-!
# No prefix is stuck

A route that is not resolved traps packets, so that the next one resolves it. What is resolved has
the entry of its group, and the group lists it once. Calls that write the prefix of a resolved route
or host, or resolve another one than they mean, break this.

## Main definitions

* `NotStuck`: the entries of the FIB, the groups and the LPM table say the same;
* `NotStuckOk`: the calls that keep it.

## Main results

* `not_stuck`: in runs of these calls no prefix is stuck.
-/

namespace Presteramgr

open Guarded

namespace Fib

/-- A route for one address has not the address of a host. -/
def HostAbsent (f : Fib) (rt : Route) : Prop :=
  rt.alen = 32 → ∀ e ∈ f.e, ∀ c ∈ e.children, c.addr ≠ rt.addr

instance (f : Fib) (rt : Route) : Decidable (f.HostAbsent rt) :=
  inferInstanceAs (Decidable (_ → _))

variable {f : Fib} {rt : Route}

theorem HostAbsent.key_free (h : f.HostAbsent rt) (hwf : f.Wf) (halen : rt.alen ≠ 0)
    (hnone : f.hashFind rt.key = none) : ∀ o ∈ f.owners, o.key ≠ rt.key := by
  refine fun o ho => hwf.entry_key_ne hnone ho (Nat.pos_of_ne_zero halen) fun hlen e he c hc => ?_
  have h32 : rt.alen = 32 := hlen
  show c.addr ≠ masked rt.alen rt.addr
  rw [h32, masked_thirtyTwo]
  exact h h32 e he c hc

end Fib

namespace Router

variable {env : RouteEnv} {s s' : Router} {a : Ip4} {rt : Route} {junk : ℕ → ℤ}

/-- A route without a group traps packets; a route or host with a group has the entry of the group,
which lists it once. -/
structure NotStuck (s : Router) : Prop where
  trapped : ∀ e ∈ s.fib.e, e.group_id = 0 → s.lpm e.owner.key = some trapEntry
  grouped : ∀ n ∈ s.fib.nodes, n.group_id ≠ 0 → ∃ g, s.findGroup n.group_id = some g ∧
    s.lpm n.owner.key = some g.lttEntry ∧ g.pfx_pbr.count (.pfx n.pfx n.len) = 1

/-- A route that is added has no group yet, and neither it nor a host takes the address of the
other. A route that is resolved is the one meant. -/
def NotStuckOk (s : Router) : RouteOp → Prop
  | .routeAdd rt => (rt.alen ≠ 0 → ¬s.fib.IsResolved rt) ∧ s.fib.HostAbsent rt
  | .routeChange rt _ =>
    if s.fib.IsResolved rt then
      s.fib.ChangeOk True rt ∧ (rt.alen = 0 → s.fib.HostFree True rt.addr)
    else s.fib.HostAbsent rt
  | .routeHandleUdaddr daddr _ => s.fib.Resolvable daddr ∧ s.fib.HostFree True daddr
  | .routeDel _ | .retSetMacAddr .. | .retUnsetMacAddr _ => True

instance : ∀ (s : Router) (op : RouteOp), Decidable (s.NotStuckOk op)
  | s, .routeAdd rt => inferInstanceAs (Decidable (_ ∧ s.fib.HostAbsent rt))
  | s, .routeChange rt _ => inferInstanceAs (Decidable (if s.fib.IsResolved rt then
      s.fib.ChangeOk True rt ∧ (rt.alen = 0 → s.fib.HostFree True rt.addr)
      else s.fib.HostAbsent rt))
  | s, .routeHandleUdaddr daddr _ =>
    inferInstanceAs (Decidable (s.fib.Resolvable daddr ∧ s.fib.HostFree True daddr))
  | _, .routeDel _ | _, .retSetMacAddr .. | _, .retUnsetMacAddr _ => .isTrue trivial

/-- What a strictly sound table owns is not stuck. -/
theorem Sound.notStuck (h : s.Sound True) : s.NotStuck := by
  have hshown : ∀ o ∈ s.fib.owners, o.len ≠ 0 ∨ o.group_id ≠ 0 → s.lpm o.key = s.target o :=
    fun o ho hlen => (h.installed.shown o ho hlen).resolve_right fun hx => hx.1 trivial
  have hentry : ∀ e ∈ s.fib.e, e.owner ∈ s.fib.owners := fun e he =>
    Fib.mem_owners_iff.mpr (.inl ⟨e, he, FibEntry.mem_owners_iff.mpr
      (.inr ⟨fun hch => hch.2 (h.lone trivial e he hch.1), rfl⟩)⟩)
  have hnode : ∀ n ∈ s.fib.nodes, n.owner ∈ s.fib.owners := by
    intro n hn
    rcases Fib.mem_nodes_iff.mp hn with ⟨e, he, rfl | hc⟩ | ⟨e, he, rfl⟩
    · exact hentry e he
    · exact Fib.mem_owners_iff.mpr
        (.inl ⟨e, he, FibEntry.mem_owners_iff.mpr (.inl ⟨n, hc, rfl⟩)⟩)
    · exact Fib.mem_owners_iff.mpr (.inr ⟨e, he, rfl⟩)
  refine ⟨fun e he hgid => ?_, fun n hn hgid => ?_⟩
  · exact (hshown _ (hentry e he) (.inl (h.wf.entry e he).len_pos.ne')).trans (if_pos hgid)
  · obtain ⟨g, hfind, hg, hel⟩ := h.installed.findGroup (hnode n hn) hgid
    refine ⟨g, hfind, (hshown _ (hnode n hn) (.inr hgid)).trans ?_, ?_⟩
    · exact Installed.target_eq h.installed.groups hg (Keyed.key_of_find hfind) hgid
    · exact List.count_eq_one_of_mem (h.installed.nodup g hg) hel

/-- Adding a route without a group keeps the table strictly sound. -/
theorem Sound.routeAdd_strict (h : s.Sound True) (hok : s.routeAdd rt = .ok s')
    (hres : rt.alen ≠ 0 → ¬s.fib.IsResolved rt) (habsent : s.fib.HostAbsent rt) :
    s'.Sound True := by
  refine (h.routeAdd hok (habsent.key_free h.wf) fun e he => .inr (by_contra fun hgid => ?_)).1
  obtain ⟨hmem, hkey⟩ := h.wf.hashFind_eq_some_iff.mp he
  have hwf := h.wf.entry e hmem
  have hlen : e.len = rt.alen := congrArg Prod.fst hkey
  have hget : fibGet s.fib rt.addr rt.alen = .ok (some e) := by
    unfold fibGet
    have hpos := hwf.len_pos
    have hle := hwf.len_le
    rw [if_neg (by omega), if_neg (by omega)]
    exact congrArg Except.ok he
  refine hres (hlen ▸ hwf.len_pos.ne') ?_
  rw [Fib.IsResolved, hget]
  exact hgid

/-- In runs of calls that meet `NotStuckOk` no prefix is stuck. -/
theorem not_stuck {uc : ℤ → UcRoute} {arp : ℕ → Mac} {ltt : ℕ × RowColum → Ltt}
    (hr : Reach (routeStep env) NotStuckOk (init uc arp ltt) s) : s.NotStuck := by
  have hinv : s.Sound True := by
    refine hr.invariant (Sound True) (sound_init ..) ?_
    intro s op s' h hok hs
    cases op with
    | routeAdd rt => exact h.routeAdd_strict (Except.toOption_eq_some_iff.mp hs) hok.1 hok.2
    | routeChange rt junk =>
      have hok : if s.fib.IsResolved rt then
        s.fib.ChangeOk True rt ∧ (rt.alen = 0 → s.fib.HostFree True rt.addr)
        else s.fib.HostAbsent rt := hok
      by_cases hres : s.fib.IsResolved rt
      · rw [if_pos hres] at hok
        refine h.routeChange (Except.toOption_eq_some_iff.mp hs) (fun hget => ?_) (fun _ => hok.1)
          fun _ => hok.2
        rw [Fib.IsResolved, hget] at hres
        exact hres.elim
      · rw [if_neg hres] at hok
        refine h.routeChange (Except.toOption_eq_some_iff.mp hs) (fun hget halen => ?_)
          (fun hr => absurd hr hres) fun hr => absurd hr hres
        refine hok.key_free h.wf halen ?_
        unfold fibGet at hget
        split_ifs at hget
        exact Except.ok.inj hget
    | routeDel rt => exact (h.routeDel (Except.toOption_eq_some_iff.mp hs)).1
    | routeHandleUdaddr daddr junk =>
      exact h.routeHandleUdaddr (Except.toOption_eq_some_iff.mp hs) hok.1 hok.2
    | retSetMacAddr gw addr vif_id arpOk =>
      obtain rfl := Option.some_inj.mp hs
      exact h.retSetMacAddr ..
    | retUnsetMacAddr gw =>
      obtain rfl := Option.some_inj.mp hs
      exact h.retUnsetMacAddr ..
  exact hinv.notStuck

/-- A resolved route that is added again traps packets for ever. -/
theorem not_not_stuck : ∃ s, Reach (routeStep .onePort) (fun _ _ => True) blank s ∧
    ¬s.NotStuck := by
  have hrun : (run (routeStep .onePort) (fun _ _ => True) blank
      [.routeAdd ⟨0x0A010000, 16, 1, fun _ => ⟨1, 10⟩⟩, .routeHandleUdaddr 0x0A010203 fun _ => 0,
        .routeAdd ⟨0x0A010000, 16, 1, fun _ => ⟨1, 10⟩⟩]).map (fun s => s.fib.nodes.map fun n =>
          (n.group_id, s.lpm n.owner.key, (s.findGroup n.group_id).map ReGroup.lttEntry)) =
      some [(1, some trapEntry, some dropEntry)] := by
    decide +kernel
  obtain ⟨s, hs, hprobe⟩ := Option.map_eq_some_iff.mp hrun
  refine ⟨s, Reach.init.of_run hs, fun h => ?_⟩
  obtain ⟨n, hn, heq⟩ := List.mem_map.mp (hprobe ▸ List.mem_cons_self)
  simp only [Prod.mk.injEq] at heq
  obtain ⟨hgid, hlpm, hgroup⟩ := heq
  obtain ⟨g, hfind, hentry, -⟩ := h.grouped n hn (by rw [hgid]; decide)
  rw [hfind, Option.map_some, ← hentry, hlpm] at hgroup
  exact absurd hgroup (by decide)

/-- A connected route with a host, and a route that is resolved and changed. -/
theorem not_stuck_changed : ∃ s : Router, s.fib.nodes.map FibNode.group_id = [2, 0, 1] ∧
    s.NotStuck := by
  have hrun : (run (routeStep .onePort) NotStuckOk blank
      [.routeAdd ⟨0x0B000000, 8, 1, fun _ => ⟨0, 10⟩⟩, .routeHandleUdaddr 0x0B000001 fun _ => 0,
        .routeAdd ⟨0x0A010000, 16, 1, fun _ => ⟨1, 10⟩⟩, .routeHandleUdaddr 0x0A010203 fun _ => 0,
        .routeChange ⟨0x0A010000, 16, 1, fun _ => ⟨2, 10⟩⟩ fun _ => 0]).map
          (·.fib.nodes.map FibNode.group_id) = some [2, 0, 1] := by
    decide +kernel
  obtain ⟨s, hs, hprobe⟩ := Option.map_eq_some_iff.mp hrun
  exact ⟨s, hprobe, not_stuck (Reach.init.of_run hs)⟩

end Router

end Presteramgr
