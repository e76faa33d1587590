import Presteramgr.Mac.Buckets

/-!
# Flushes and what the hardware deletes (`mac.c`)

For a flush the hardware is given a VLAN and an interface, and deletes the entries that match; the
shadow table is searched for the same entries. `fdb_flush` compares the device and the port number
of an entry and not the type of its interface, and both functions read the VLAN of an entry where
the keys of MAC addresses have it.

## Main definitions

* `FlushDst`: the interfaces that the hardware is told to match;
* `asicDeletes`: the entries that it deletes;
* `Mirrors`: a flush invalidates these entries and no others;
* `Aliases` and `Misreads`: what is wrong with an entry for a flush.

## Main results

* `flush_agreement_iff`: a flush is right exactly when no entry aliases or is misread.
-/

namespace Presteramgr

/-- The interface in the filter of a flush, with the masks. -/
inductive FlushDst
  | all
  | port (devNum portNum : ℕ)
  | trunk (trunkId : ℕ)
deriving DecidableEq, Repr

/-- The interface of an entry is the one in the filter. -/
def FlushDst.leads : FlushDst → DstInterface → Bool
  | .all, _ => true
  | .port devNum portNum, d => d.type = .PORT && d.devNum == devNum && d.portNum == portNum
  | .trunk trunkId, d => d.type = .TRUNK && d.trunkId == trunkId

/-- What `fdb_flush` compares of an interface: not the type. -/
def FlushDst.fields : FlushDst → DstInterface → Bool
  | .port devNum portNum, d => d.devNum == devNum && d.portNum == portNum
  | dst, d => dst.leads d

/-- The entries that the hardware deletes, static ones with `ds` only. -/
def asicDeletes (vid : Option ℕ) (dst : FlushDst) (ds : Bool) (s : FdbEntry) : Bool :=
  s.valid && vid.all (s.me.key.vlanId == ·) && dst.leads s.me.dst && (ds || !s.me.isStatic)

/-- The filter that `fdb_flush` programs, unless it refuses. -/
def flushFilter (c : FdbConf) (arg : FdbFlushArg) : Option FlushDst :=
  if ¬arg.vid.all c.vlanValid then none
  else
    match arg.port with
    | none => some .all
    | some pid => (portPtr c pid).map fun p => .port (c.portHw p).1 (c.portHw p).2

/-- The filter that `fdb_flush_vif` programs, unless it refuses. -/
def flushVifFilter (c : FdbConf) (arg : FdbFlushArgVif) : Option FlushDst :=
  if ¬arg.vid.all c.vlanValid then none
  else
    match arg.vifid with
    | none => some .all
    | some id => (c.vif id).map fun iface =>
        if iface.type = .PORT then .port iface.devNum iface.portNum else .trunk iface.trunkId

/-- A flush is refused without effect, or invalidates exactly what the hardware deletes. -/
def Mirrors (filter : Option FlushDst) (vid : Option ℕ) (ds : Bool) (f : Fdb) (r : Fdb × Status) :
    Prop :=
  match filter with
  | none => r = (f, .ST_BAD_VALUE)
  | some dst => r.2 = .ST_OK ∧
      ∀ s, (r.1.slot s).valid = ((f.slot s).valid && !asicDeletes vid dst ds (f.slot s))

/-- Both requests name one port. -/
structure SamePort (c : FdbConf) (arg : FdbFlushArg) (argv : FdbFlushArgVif) : Prop where
  vid : argv.vid = arg.vid
  ds : argv.ds = arg.ds
  port : ∃ pid p id iface, arg.port = some pid ∧ portPtr c pid = some p ∧ argv.vifid = some id ∧
    c.vif id = some iface ∧ iface.type = .PORT ∧ (iface.devNum, iface.portNum) = c.portHw p

/-- A flush may remove the entry: it is valid, and not static unless static entries are flushed. -/
def FdbEntry.Flushable (ds : Bool) (s : FdbEntry) : Prop :=
  s.valid = true ∧ (ds || !s.me.isStatic) = true

/-- The entry does not lead to a port, and has the numbers of the port to flush in the fields that
it does not use. -/
def Aliases (c : FdbConf) (vid : Option ℕ) (dst : FlushDst) (s : FdbEntry) : Prop :=
  s.me.dst.type ≠ .PORT ∧ dst = .port s.me.dst.devNum s.me.dst.portNum ∧
    vid.all (c.macVlanId s.me.key == ·) = true

/-- The VLAN of the entry is another one in the place where it is read. -/
def Misreads (c : FdbConf) (vid : Option ℕ) (s : FdbEntry) : Prop :=
  vid.all (c.macVlanId s.me.key == ·) ≠ vid.all (s.me.key.vlanId == ·)

namespace Fdb

variable {c : FdbConf} {f : Fdb}

/-- Only the keys that are not of MAC addresses are misread. -/
theorem not_misreads_of_mac (hmac : ∀ vid mac, c.macVlanId (.macAddr vid mac) = vid) {s : FdbEntry}
    (hs : s.me.key.isMac = true) (vid : Option ℕ) : ¬Misreads c vid s := by
  unfold Misreads
  cases hk : s.me.key with
  | macAddr v m => rw [hmac, not_not]; rfl
  | ipv4Mcast v sip dip =>
    rw [hk] at hs
    exact absurd hs Bool.false_ne_true
  | ipv6Mcast v sip dip =>
    rw [hk] at hs
    exact absurd hs Bool.false_ne_true

/-- The fields of the interfaces that entries do not use are 0: then only a flush of port 0 of
device 0 can meet an alias. -/
theorem not_aliases_of_zero {s : FdbEntry} (hzero : s.me.dst.type ≠ .PORT → s.me.dst.devNum = 0)
    {devNum portNum : ℕ} (hdev : devNum ≠ 0) (vid : Option ℕ) :
    ¬Aliases c vid (.port devNum portNum) s := by
  rintro ⟨htype, hdst, -⟩
  exact hdev ((FlushDst.port.inj hdst).1.trans (hzero htype))

/-- A flush that hits `hit` leaves the entries that it does not hit. -/
theorem flushBy_valid (vid : Option ℕ) (dst : DstInterface → Bool) (ds : Bool) (s : FdbSlot) :
    ((f.flushBy c vid dst ds).slot s).valid =
      ((f.slot s).valid && !flushHit c vid dst ds (f.slot s)) := by
  rw [flushBy_slot]
  cases flushHit c vid dst ds (f.slot s) with
  | true => exact (Bool.and_false _).symm
  | false => exact (Bool.and_true _).symm

/-- A flush by a VLAN and interfaces does what the hardware does if and only if it hits the same
flushable entries. -/
theorem mirrors_flushBy_iff (vid : Option ℕ) (dst : DstInterface → Bool) (filter : FlushDst)
    (ds : Bool) :
    Mirrors (some filter) vid ds f (f.flushBy c vid dst ds, .ST_OK) ↔
      ∀ s, (f.slot s).Flushable ds →
        (vid.all (c.macVlanId (f.slot s).me.key == ·) && dst (f.slot s).me.dst) =
          (vid.all ((f.slot s).me.key.vlanId == ·) && filter.leads (f.slot s).me.dst) := by
  refine (and_iff_right rfl).trans (forall_congr' fun s => ?_)
  dsimp only
  rw [flushBy_valid]
  unfold flushHit asicDeletes FdbEntry.Flushable
  cases (f.slot s).valid with
  | false => exact ⟨fun _ h => absurd h.1 Bool.false_ne_true, fun _ => rfl⟩
  | true =>
    cases ds || !(f.slot s).me.isStatic with
    | false => exact ⟨fun _ h => absurd h.2 Bool.false_ne_true, fun _ => by simp⟩
    | true =>
      simp only [Bool.true_and, Bool.and_true, and_self, forall_const]
      exact Bool.not_inj_iff

theorem flushDst_eq (arg : FdbFlushArg) :
    flushDst c arg = (flushFilter c arg).map FlushDst.fields := by
  obtain ⟨vid, port, ds⟩ := arg
  unfold flushDst flushFilter
  cases port with
  | none => split_ifs <;> rfl
  | some pid =>
    dsimp only
    cases portPtr c pid with
    | none => split_ifs <;> rfl
    | some p => split_ifs <;> rfl

theorem flushVifDst_eq (arg : FdbFlushArgVif) :
    flushVifDst c arg = (flushVifFilter c arg).map FlushDst.leads := by
  obtain ⟨vid, vifid, ds⟩ := arg
  unfold flushVifDst flushVifFilter
  cases vifid with
  | none => split_ifs <;> rfl
  | some id =>
    dsimp only
    cases c.vif id with
    | none => split_ifs <;> rfl
    | some iface =>
      by_cases htype : iface.type = .PORT
      · simp only [Option.map_some, if_pos htype]
        split_ifs <;> rfl
      · simp only [Option.map_some, if_neg htype]
        split_ifs <;> rfl

/-- Without the type an entry is hit as with it, unless it is an alias. -/
theorem fields_eq_leads_iff (a a' : Bool) (dst : FlushDst) (d : DstInterface) :
    (a && dst.fields d) = (a' && dst.leads d) ↔
      ¬(d.type ≠ .PORT ∧ dst = .port d.devNum d.portNum ∧ a = true) ∧
        (dst.leads d = true → a = a') := by
  cases dst with
  | port devNum portNum =>
    unfold FlushDst.fields FlushDst.leads
    dsimp only
    rw [Bool.and_assoc (decide _)]
    by_cases hfields : (d.devNum == devNum && d.portNum == portNum) = true
    · have heq : FlushDst.port devNum portNum = .port d.devNum d.portNum := by
        rw [Bool.and_eq_true, beq_iff_eq, beq_iff_eq] at hfields
        rw [hfields.1, hfields.2]
      rw [hfields]
      -- an address on a trunk can have the device and port number of the command
      by_cases htype : d.type = .PORT
      · simp [htype]
      · simp [htype, heq]
    · have hne : FlushDst.port devNum portNum ≠ .port d.devNum d.portNum := by
        intro heq
        obtain ⟨h₁, h₂⟩ := FlushDst.port.inj heq
        exact hfields (by rw [h₁, h₂, beq_self_eq_true, beq_self_eq_true, Bool.and_self])
      rw [Bool.eq_false_iff.mpr hfields]
      simp [hne]
  | all => simp [FlushDst.fields, FlushDst.leads]
  | trunk trunkId =>
    cases hl : (FlushDst.trunk trunkId).leads d <;> simp [FlushDst.fields, hl]

/-- When `fdb_flush` does what the hardware does. -/
theorem mirrors_flush_iff (arg : FdbFlushArg) :
    Mirrors (flushFilter c arg) arg.vid arg.ds f (f.flush c arg) ↔
      ∀ dst ∈ flushFilter c arg, ∀ s, (f.slot s).Flushable arg.ds →
        ¬Aliases c arg.vid dst (f.slot s) ∧
          (dst.leads (f.slot s).me.dst = true → ¬Misreads c arg.vid (f.slot s)) := by
  rw [flush_eq, flushDst_eq]
  cases flushFilter c arg with
  | none => exact ⟨fun _ dst hdst => absurd hdst.symm (Option.some_ne_none dst), fun _ => rfl⟩
  | some dst =>
    refine (mirrors_flushBy_iff arg.vid dst.fields dst arg.ds).trans ?_
    simp only [Option.mem_some_iff, forall_eq', fields_eq_leads_iff]
    refine forall_congr' fun s => forall_congr' fun _ => and_congr Iff.rfl ?_
    exact forall_congr' fun _ => not_not.symm

/-- When `fdb_flush_vif` does what the hardware does. -/
theorem mirrors_flushVif_iff (arg : FdbFlushArgVif) :
    Mirrors (flushVifFilter c arg) arg.vid arg.ds f (f.flushVif c arg) ↔
      ∀ dst ∈ flushVifFilter c arg, ∀ s, (f.slot s).Flushable arg.ds →
        dst.leads (f.slot s).me.dst = true → ¬Misreads c arg.vid (f.slot s) := by
  rw [flushVif_eq, flushVifDst_eq]
  cases flushVifFilter c arg with
  | none => exact ⟨fun _ dst hdst => absurd hdst.symm (Option.some_ne_none dst), fun _ => rfl⟩
  | some dst =>
    refine (mirrors_flushBy_iff arg.vid dst.leads dst arg.ds).trans ?_
    simp only [Option.mem_some_iff, forall_eq']
    refine forall_congr' fun s => forall_congr' fun _ => ?_
    unfold Misreads
    cases dst.leads (f.slot s).me.dst <;> simp

/-- Two flushes that hit the same entries do the same. -/
theorem flushSlots_congr {hit hit' : FdbEntry → Bool} (hvalid : ∀ s, hit s = true → s.valid = true)
    (hvalid' : ∀ s, hit' s = true → s.valid = true) {ss : List FdbSlot} {f : Fdb}
    (heq : ∀ s, hit (f.slot s) = hit' (f.slot s)) :
    flushSlots c hit ss f = flushSlots c hit' ss f := by
  induction ss generalizing f with
  | nil => rfl
  | cons t ss ih =>
    rw [flushSlots, flushSlots, ← heq t]
    refine ih fun s => ?_
    split_ifs
    · by_cases hst : s = t
      · subst hst
        -- a freed entry is hit by neither
        have hfreed : ((f.free c s).slot s).valid = false := by
          rw [freed_free.valid]
        rw [Bool.eq_false_iff.mpr fun h => Bool.false_ne_true (hfreed.symm.trans (hvalid _ h)),
          Bool.eq_false_iff.mpr fun h => Bool.false_ne_true (hfreed.symm.trans (hvalid' _ h))]
      · rw [freed_free.other s hst]
        exact heq s
    · exact heq s

/-- When the two functions do the same for the same port. -/
theorem flush_eq_flushVif_iff {arg : FdbFlushArg} {argv : FdbFlushArgVif}
    (h : SamePort c arg argv) :
    f.flush c arg = f.flushVif c argv ↔ ∀ dst ∈ flushFilter c arg, ∀ s,
      (f.slot s).Flushable arg.ds → ¬Aliases c arg.vid dst (f.slot s) := by
  obtain ⟨hvid, hds, pid, p, id, iface, hpid, hp, hid, hiface, htype, hport⟩ := h
  have hfilter : flushVifFilter c argv = flushFilter c arg := by
    unfold flushVifFilter flushFilter
    rw [hvid, hpid, hid]
    dsimp only
    rw [hp, hiface, Option.map_some, Option.map_some, if_pos htype, ← hport]
  rw [flush_eq, flushVif_eq, flushDst_eq, flushVifDst_eq, hfilter, hvid, hds]
  cases flushFilter c arg with
  | none => exact ⟨fun _ dst hdst => absurd hdst.symm (Option.some_ne_none dst), fun _ => rfl⟩
  | some dst =>
    simp only [Option.map_some, Option.mem_some_iff, forall_eq']
    -- the hits of an entry differ when it is an alias
    have hhit : ∀ s : FdbEntry, flushHit c arg.vid dst.fields arg.ds s =
        flushHit c arg.vid dst.leads arg.ds s ↔
          (s.Flushable arg.ds → ¬Aliases c arg.vid dst s) := by
      intro s
      have hfields := fields_eq_leads_iff (arg.vid.all (c.macVlanId s.me.key == ·))
        (arg.vid.all (c.macVlanId s.me.key == ·)) dst s.me.dst
      unfold flushHit FdbEntry.Flushable Aliases
      cases s.valid with
      | false => simp
      | true =>
        cases arg.ds || !s.me.isStatic with
        | false => simp
        | true => simpa using hfields
    constructor
    · intro heq s
      refine (hhit _).mp ?_
      have hvalid : ((f.slot s).valid && !flushHit c arg.vid dst.fields arg.ds (f.slot s)) =
          ((f.slot s).valid && !flushHit c arg.vid dst.leads arg.ds (f.slot s)) := by
        rw [← flushBy_valid, ← flushBy_valid, (Prod.mk.inj heq).1]
      cases hv : (f.slot s).valid with
      | false => simp [flushHit, hv]
      | true =>
        rw [hv, Bool.true_and, Bool.true_and] at hvalid
        exact Bool.not_inj hvalid
    · intro hno
      have hsame := @flushSlots_congr c _ _ (fun _ h => valid_of_flushHit h)
        (fun _ h => valid_of_flushHit h) slots f fun s => (hhit (f.slot s)).mpr (hno s)
      unfold flushBy
      rw [hsame]

/-- For every content of the table and every request: `fdb_flush` invalidates what the hardware
deletes if and only if no entry that it may remove is an alias of the port or is misread;
`fdb_flush_vif`, if and only if no entry of the interface is misread; and on a request for the same
port they agree if and only if no entry is an alias of the port. -/
theorem flush_agreement_iff (c : FdbConf) (f : Fdb) :
    (∀ arg, Mirrors (flushFilter c arg) arg.vid arg.ds f (f.flush c arg) ↔
      ∀ dst ∈ flushFilter c arg, ∀ s, (f.slot s).Flushable arg.ds →
        ¬Aliases c arg.vid dst (f.slot s) ∧
          (dst.leads (f.slot s).me.dst = true → ¬Misreads c arg.vid (f.slot s))) ∧
    (∀ arg, Mirrors (flushVifFilter c arg) arg.vid arg.ds f (f.flushVif c arg) ↔
      ∀ dst ∈ flushVifFilter c arg, ∀ s, (f.slot s).Flushable arg.ds →
        dst.leads (f.slot s).me.dst = true → ¬Misreads c arg.vid (f.slot s)) ∧
    ∀ arg argv, (SamePort c arg argv → f.flush c arg = f.flushVif c argv) ↔
      (SamePort c arg argv → ∀ dst ∈ flushFilter c arg, ∀ s,
        (f.slot s).Flushable arg.ds → ¬Aliases c arg.vid dst (f.slot s)) :=
  ⟨fun _ => mirrors_flush_iff _, fun _ => mirrors_flushVif_iff _, fun _ _ =>
    forall_congr' fun h => flush_eq_flushVif_iff h⟩

/-- A unit that is not in a stack: its device has the number 0, and its first port too. -/
def standalone : FdbConf :=
  { FdbRun.conf₁ with
    stackId := 0
    nports := 1
    devPorts := fun _ hport => if hport = 0 then 1 else 0
    portHw := fun _ => (0, 0)
    vif := fun _ => some { type := .PORT } }

/-- A table with one address on trunk 3. -/
def onTrunk : Fdb where
  slot s := if s.1.val = 0 ∧ s.2.val = 0 then
      { FdbEntry.zero with
        valid := true
        me := ⟨.macAddr 10 7, false, .FEP_DYN, { type := .TRUNK, trunkId := 3 }⟩ }
    else FdbEntry.zero
  psec _ := ⟨false, .PSECA_FORWARD, 30, .PSECM_MAX_ADDRS, 1024, 0⟩

/-- A flush of the port removes the address on the trunk. -/
theorem not_flush_agreement : ¬∀ (c : FdbConf) (f : Fdb),
    (∀ arg, Mirrors (flushFilter c arg) arg.vid arg.ds f (f.flush c arg)) ∧
    (∀ arg, Mirrors (flushVifFilter c arg) arg.vid arg.ds f (f.flushVif c arg)) ∧
    ∀ arg argv, SamePort c arg argv → f.flush c arg = f.flushVif c argv := by
  intro h
  have hmirrors := (mirrors_flush_iff ⟨none, some 1, false⟩).mp ((h standalone onTrunk).1 _)
  exact (hmirrors (.port 0 0) rfl (0, 0) ⟨rfl, rfl⟩).1 ⟨by decide, rfl, rfl⟩

end Fdb

end Presteramgr
