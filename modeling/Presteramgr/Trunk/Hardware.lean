import Presteramgr.Trunk.Members

/-!
# Trunks in hardware (`trunk.c`, `gif.c`)

`trunk_set_members` resolves the members twice: through the table of `gif.c` for the hardware, and
through the table of `vif.c` for the software. Both tables are filled from the same port list of a
unit. But `gif_get_hw_port` takes the number 0, which `vif_get` refuses, and gives the port before
the first one of the type, or reads before the table; and a port that is named twice is written
twice, where the software has it once.

## Main definitions

* `Registration`: the port lists of the units;
* `Registration.gifGetHwPort` and `Registration.vifTable`: the two tables;
* `trunkSetMembers`;
* `HwTrunks.Agrees`: what is written for a trunk is its members;
* `HwTrunks.Ok`: no port is named by the number 0 or twice.

## Main results

* `HwTrunks.written_agrees`: then each call is rejected and changes nothing, or leaves hardware and
  software the same members, and no table is read outside its entries;
* `Registration.gifGetHwPort_none`: the number 0 in a unit without lower types reads before the
  table;
* `HwTrunks.not_written_agrees`: a port that is named twice is written twice.
-/

namespace Presteramgr

open Function (update update_self update_of_ne)

/-! ## The port tables -/

/-- `struct hw_port`. -/
structure HwPort where
  hw_dev : ℕ
  hw_port : ℕ
deriving DecidableEq, Repr

/-- The order of the port types. -/
def VifType.rank : VifType → ℕ
  | .VIFT_FE => 0
  | .VIFT_GE => 1
  | .VIFT_XG => 2
  | .VIFT_CPU => 3
  | .VIFT_PC => 4

/-- The types below a port type. -/
def VifType.below : VifType → List VifType
  | .VIFT_FE => []
  | .VIFT_GE => [.VIFT_FE]
  | .VIFT_XG => [.VIFT_FE, .VIFT_GE]
  | .VIFT_CPU => [.VIFT_FE, .VIFT_GE, .VIFT_XG]
  | .VIFT_PC => [.VIFT_FE, .VIFT_GE, .VIFT_XG, .VIFT_CPU]

/-- The port type that a `gif_type_t` in the range from `GIFT_FE` to `GIFT_XG` stands for. -/
def GifType.vifType : GifType → Option VifType
  | .GIFT_FE => some .VIFT_FE
  | .GIFT_GE => some .VIFT_GE
  | .GIFT_XG => some .VIFT_XG
  | .other _ => none

/-- `port[i]` of a unit, for `i < n_total`, with the type of each port. -/
structure PortList where
  port : List (VifType × HwPort)
  /-- The ports are sorted by their types. -/
  sorted : port.Pairwise fun p q => p.1.rank ≤ q.1.rank

namespace PortList

variable (l : PortList)

/-- `n_by_type[type]`. -/
def nByType (type : VifType) : ℕ := l.port.countP fun p => p.1 = type

/-- The sum of `n_by_type[i]` for `i < type`. -/
def offset (type : VifType) : ℕ := (type.below.map l.nByType).sum

/-- The port with the number `num` of its type. -/
def ofType (type : VifType) (num : ℕ) : Option HwPort :=
  ((l.port.filter fun p => p.1 = type)[num - 1]?).map (·.2)

theorem rank_inj {type type' : VifType} : type.rank = type'.rank ↔ type = type' := by
  cases type <;> cases type' <;> decide

/-- The types below are counted together. -/
theorem offset_eq (type : VifType) :
    l.offset type = l.port.countP fun p => p.1.rank < type.rank := by
  have hsum : ∀ ps : List (VifType × HwPort),
      (type.below.map fun t => ps.countP fun p => p.1 = t).sum =
        ps.countP fun p => p.1.rank < type.rank := by
    intro ps
    induction ps with
    | nil => cases type <;> rfl
    | cons p ps ih =>
      rw [List.countP_cons, ← ih]
      obtain ⟨t, hp⟩ := p
      -- of the counters of the types below, one grows if the port is of such a type
      cases type <;> cases t <;> simp [VifType.below, VifType.rank] <;> omega
  exact hsum l.port

/-- The index that the tables compute is that of the port with the number of its type. -/
theorem port_offset {type : VifType} {num : ℕ} (hnum : num ≠ 0) (hle : num ≤ l.nByType type) :
    l.port[l.offset type + num - 1]?.map (·.2) = l.ofType type num := by
  have hcount : (l.port.countP fun p => p.1.rank = type.rank) = l.nByType type := by
    simp only [nByType, rank_inj]
  have hget := Keyed.getElem?_of_sorted l.sorted (c := type.rank) (i := num - 1)
    (by rw [hcount]; omega)
  unfold ofType
  rw [Nat.add_sub_assoc (Nat.one_le_iff_ne_zero.mpr hnum), offset_eq, hget]
  simp only [rank_inj]

theorem ofType_isSome {type : VifType} {num : ℕ} (hnum : num ≠ 0) (hle : num ≤ l.nByType type) :
    (l.ofType type num).isSome := by
  have hlen : (l.port.filter fun p => p.1 = type).length = l.nByType type :=
    List.countP_eq_length_filter.symm
  unfold ofType
  rw [List.getElem?_eq_getElem (by omega)]
  rfl

end PortList

/-- The port lists that the units of the stack have registered, of which the tables of `gif.c` and
`vif.c` are filled. -/
structure Registration where
  stack_id : ℕ
  ports : ℕ → PortList
  /-- The units have the numbers up to 15. -/
  last_unit : ∀ dev, 15 < dev → (ports dev).port = []
  /-- `PORT_SPEED_10`. -/
  speed10 : ℕ

namespace Registration

variable (reg : Registration)

/-- `__dev_ports[i]`: the table of a unit that is not in a stack, or of unit `i + 1`. -/
def devPorts (i : ℕ) : PortList := if reg.stack_id = 0 then reg.ports 0 else reg.ports (i + 1)

/-- `gif_get_hw_port`, `none` standing for an access outside the registered entries. -/
def gifGetHwPort (id : GifId) : Option (Except Status HwPort) :=
  match id.type.vifType with
  | none => some (.error .ST_BAD_VALUE)
  | some type =>
    if 16 < id.dev then some (.error .ST_BAD_VALUE)
    else if reg.stack_id = 0 ∧ id.dev ≠ 0 then some (.error .ST_BAD_VALUE)
    else
      let dev := if id.dev = 0 then reg.stack_id else id.dev
      -- without a stack the index is the number 0 itself
      let l := reg.devPorts (dev - 1)
      if l.nByType type < id.num then some (.error .ST_DOES_NOT_EXIST)
      else if l.offset type + id.num = 0 then none
      else (l.port[l.offset type + id.num - 1]?).map fun p => .ok p.2

/-- The ports of all units in `vif.c`. -/
def vifTable : VifTable where
  stack_id := reg.stack_id
  nByType dev type := (reg.ports dev).nByType type
  valid
    | .port dev type num => dev = reg.stack_id ∨ 1 ≤ num ∧ num ≤ (reg.ports dev).nByType type
    | .trunk _ => true
  valid_own _ _ := decide_eq_true (.inl rfl)
  speed10 := reg.speed10

/-- `vif_get_hw` of a port. -/
def vifGetHw : VifRef → Option HwPort
  | .port dev type num => (reg.ports dev).ofType type num
  | .trunk _ => none

/-- `gif_get_hw_port` takes type and unit. -/
def Accepted (id : GifId) : Prop :=
  id.type.vifType ≠ none ∧ id.dev ≤ 16 ∧ ¬(reg.stack_id = 0 ∧ id.dev ≠ 0)

instance (id : GifId) : Decidable (reg.Accepted id) := inferInstanceAs (Decidable (_ ∧ _))

/-- `gif_get_hw_port` reads before the table of the unit: the number is 0, and no port has a lower
type. -/
def ReadsBefore (id : GifId) : Prop :=
  id.num = 0 ∧ ∀ type ∈ id.type.vifType,
    (reg.devPorts ((if id.dev = 0 then reg.stack_id else id.dev) - 1)).offset type = 0

instance (id : GifId) : Decidable (reg.ReadsBefore id) := inferInstanceAs (Decidable (_ ∧ _))

end Registration

/-! ## The call -/

/-- The trunks in software, and the enabled and the disabled members last written for each trunk. -/
structure HwTrunks where
  sw : Trunks
  written : ℕ → List HwPort × List HwPort

/-- The trunks after `trunk_init`, with the groups that exist. -/
def HwTrunks.init (reg : Registration) (groups : ℕ → Option (VifRef → Bool)) : HwTrunks where
  sw := Trunks.init reg.speed10 groups
  written _ := ([], [])

/-- The loop of `trunk_set_members`, from the lists `e` and `d`. -/
def collectMembers (reg : Registration) :
    List TrunkMember → List HwPort × List HwPort →
      Option (Except Status (List HwPort × List HwPort))
  | [], ed => some (.ok ed)
  | m :: mem, (e, d) =>
    match reg.gifGetHwPort m.id with
    | none => none
    | some (.error .ST_DOES_NOT_EXIST) => collectMembers reg mem (e, d)
    | some (.error st) => some (.error st)
    | some (.ok hp) =>
      collectMembers reg mem (if m.enabled then (e ++ [hp], d) else (e, d ++ [hp]))

/-- The trunk ids that there are. -/
structure TrunkIds where
  TRUNK_ID_MIN : ℕ
  TRUNK_ID_MAX : ℕ

/-- `trunk_set_members`. -/
def trunkSetMembers (ids : TrunkIds) (reg : Registration) (hw : McgHw) (s : HwTrunks) (trunk : ℕ)
    (mem : List TrunkMember) : Option (Status × HwTrunks) :=
  if ¬(ids.TRUNK_ID_MIN ≤ trunk ∧ trunk ≤ ids.TRUNK_ID_MAX) then some (.ST_BAD_VALUE, s)
  else if 8 < mem.length then some (.ST_BAD_VALUE, s)
  else
    match collectMembers reg mem ([], []) with
    | none => none
    | some (.error st) => some (st, s)
    | some (.ok ed) => some (.ST_OK, {
        sw := s.sw.vifSetTrunkMembers reg.vifTable hw trunk mem
        written := update s.written trunk ed })

/-! ## The two tables -/

namespace Registration

variable {reg : Registration}

/-- The unit that an id names. -/
def unit (reg : Registration) (id : GifId) : ℕ := if id.dev = 0 then reg.stack_id else id.dev

theorem devPorts_unit {id : GifId} (ha : reg.Accepted id) :
    reg.devPorts (reg.unit id - 1) = reg.ports (reg.unit id) := by
  unfold devPorts unit
  by_cases hs : reg.stack_id = 0
  · have hdev : id.dev = 0 := by
      by_contra hdev
      exact ha.2.2 ⟨hs, hdev⟩
    rw [if_pos hs, if_pos hdev, hs]
  · rw [if_neg hs]
    congr 1
    split_ifs <;> omega

theorem gifGetHwPort_of_accepted {id : GifId} {type : VifType} (ha : reg.Accepted id)
    (ht : id.type.vifType = some type) : reg.gifGetHwPort id =
      if (reg.ports (reg.unit id)).nByType type < id.num then some (.error .ST_DOES_NOT_EXIST)
      else if (reg.ports (reg.unit id)).offset type + id.num = 0 then none
      else ((reg.ports (reg.unit id)).port[(reg.ports (reg.unit id)).offset type + id.num - 1]?).map
        fun p => .ok p.2 := by
  have hl : reg.devPorts ((if id.dev = 0 then reg.stack_id else id.dev) - 1) =
      reg.ports (reg.unit id) := devPorts_unit ha
  unfold gifGetHwPort
  simp only [ht, if_neg (not_lt.mpr ha.2.1), if_neg ha.2.2, hl]

theorem gifGetHwPort_of_not_accepted {id : GifId} (ha : ¬reg.Accepted id) :
    reg.gifGetHwPort id = some (.error .ST_BAD_VALUE) := by
  unfold gifGetHwPort
  cases ht : id.type.vifType with
  | none => rfl
  | some type =>
    dsimp only
    split_ifs with hdev hs
    · rfl
    · rfl
    -- what is in range is accepted
    all_goals exact absurd ⟨by rw [ht]; exact Option.some_ne_none type, by omega, hs⟩ ha

/-- `vif_get_by_gif` for a type in range. -/
theorem vifGetByGif_eq {id : GifId} {type : VifType} (ht : id.type.vifType = some type) :
    reg.vifTable.vifGetByGif id = reg.vifTable.vifGet type id.dev id.num := by
  unfold VifTable.vifGetByGif
  cases hid : id.type with
  | other n =>
    rw [hid] at ht
    exact absurd ht.symm (Option.some_ne_none type)
  | _ =>
    rw [hid] at ht
    exact congrArg (fun type => reg.vifTable.vifGet type id.dev id.num) (Option.some_inj.mp ht)

theorem nByType_of_lt {dev : ℕ} (hdev : 15 < dev) (type : VifType) :
    (reg.ports dev).nByType type = 0 := by
  unfold PortList.nByType
  rw [reg.last_unit dev hdev]
  rfl

/-- Both tables give the same port for a number other than 0. -/
theorem gifGetHwPort_eq {id : GifId} (ha : reg.Accepted id) (hnum : id.num ≠ 0) :
    (reg.vifTable.vifGetByGif id = none ∧
      reg.gifGetHwPort id = some (.error .ST_DOES_NOT_EXIST)) ∨
    ∃ v hp, reg.vifTable.vifGetByGif id = some v ∧ reg.vifGetHw v = some hp ∧
      reg.gifGetHwPort id = some (.ok hp) := by
  obtain ⟨type, ht⟩ := Option.ne_none_iff_exists'.mp ha.1
  rw [vifGetByGif_eq ht, gifGetHwPort_of_accepted ha ht]
  have hget : reg.vifTable.vifGet type id.dev id.num =
      if 15 < id.dev then none
      else if (reg.ports (reg.unit id)).nByType type < id.num ∨ id.num = 0 then none
      else some (.port (reg.unit id) type id.num) := by
    unfold VifTable.vifGet
    by_cases hdev : 15 < id.dev
    · rw [if_pos hdev, if_pos hdev]
    · have hs : ¬(reg.vifTable.stack_id = 0 ∧ id.dev ≠ 0) := ha.2.2
      rw [if_neg hdev, if_neg hdev, if_neg hs]
      rfl
  rw [hget]
  by_cases hdev : 15 < id.dev
  · -- unit 16 has no ports
    have hunit : 15 < reg.unit id := by
      unfold unit
      split_ifs <;> omega
    rw [if_pos hdev, nByType_of_lt hunit, if_pos (Nat.pos_of_ne_zero hnum)]
    exact .inl ⟨rfl, rfl⟩
  · rw [if_neg hdev]
    by_cases hle : (reg.ports (reg.unit id)).nByType type < id.num
    · rw [if_pos (.inl hle), if_pos hle]
      exact .inl ⟨rfl, rfl⟩
    · have hle' := not_lt.mp hle
      obtain ⟨hp, hhp⟩ := Option.isSome_iff_exists.mp
        ((reg.ports (reg.unit id)).ofType_isSome hnum hle')
      rw [if_neg (by omega), if_neg hle, if_neg (by omega)]
      refine .inr ⟨_, hp, rfl, hhp, ?_⟩
      rw [← PortList.port_offset _ hnum hle'] at hhp
      obtain ⟨p, hport, rfl⟩ := Option.map_eq_some_iff.mp hhp
      rw [hport, Option.map_some]

/-- A number 0 stands for the port before the first one of the type. -/
theorem gifGetHwPort_zero {id : GifId} (ha : reg.Accepted id) (hnum : id.num = 0)
    (hb : ¬reg.ReadsBefore id) : ∃ hp, reg.gifGetHwPort id = some (.ok hp) := by
  obtain ⟨type, ht⟩ := Option.ne_none_iff_exists'.mp ha.1
  have hl : reg.devPorts ((if id.dev = 0 then reg.stack_id else id.dev) - 1) =
      reg.ports (reg.unit id) := devPorts_unit ha
  have hoff : (reg.ports (reg.unit id)).offset type ≠ 0 := by
    intro hoff
    refine hb ⟨hnum, fun type' ht' => ?_⟩
    obtain rfl : type = type' := Option.some_inj.mp (ht.symm.trans ht')
    rw [hl, hoff]
  have hlt : (reg.ports (reg.unit id)).offset type + id.num - 1 <
      (reg.ports (reg.unit id)).port.length := by
    have hle : (reg.ports (reg.unit id)).offset type ≤ (reg.ports (reg.unit id)).port.length := by
      rw [PortList.offset_eq]
      exact List.countP_le_length
    omega
  rw [gifGetHwPort_of_accepted ha ht, if_neg (by omega), if_neg (by omega),
    List.getElem?_eq_getElem hlt]
  exact ⟨_, rfl⟩

/-- Without ports of lower types there is none before the first one. -/
theorem gifGetHwPort_none {id : GifId} (ha : reg.Accepted id) (hb : reg.ReadsBefore id) :
    reg.gifGetHwPort id = none := by
  obtain ⟨type, ht⟩ := Option.ne_none_iff_exists'.mp ha.1
  obtain ⟨hnum, hoff⟩ := hb
  have hoff : (reg.ports (reg.unit id)).offset type = 0 := by
    rw [← devPorts_unit ha]
    exact hoff type ht
  rw [gifGetHwPort_of_accepted ha ht, hnum, hoff, if_neg (Nat.not_lt_zero _), if_pos rfl]

end Registration

/-! ## The lists of a call -/

section Collect

variable {reg : Registration}

/-- The ports of the members with the flag `b`, as the software finds them. -/
def found (reg : Registration) (b : Bool) (mem : List TrunkMember) : List HwPort :=
  (mem.filter (·.enabled = b)).filterMap fun x =>
    (reg.vifTable.vifGetByGif x.id).bind reg.vifGetHw

/-- Without the number 0 the loop collects what the software finds. -/
theorem collectMembers_eq {mem : List TrunkMember}
    (hmem : ∀ x ∈ mem, reg.Accepted x.id ∧ x.id.num ≠ 0) (ed : List HwPort × List HwPort) :
    collectMembers reg mem ed =
      some (.ok (ed.1 ++ found reg true mem, ed.2 ++ found reg false mem)) := by
  induction mem generalizing ed with
  | nil => simp [collectMembers, found]
  | cons x mem ih =>
    obtain ⟨hx, hmem⟩ := List.forall_mem_cons.mp hmem
    obtain ⟨e, d⟩ := ed
    rw [collectMembers]
    rcases Registration.gifGetHwPort_eq hx.1 hx.2 with ⟨hvif, hgif⟩ | ⟨v, hp, hvif, hhw, hgif⟩
    · have hskip : ∀ b, found reg b (x :: mem) = found reg b mem := fun b => by
        unfold found
        rw [List.filter_cons]
        split_ifs
        · rw [List.filterMap_cons_none (by rw [hvif]; rfl)]
        · rfl
      simp only [hgif, ih hmem, hskip]
    · have htake : ∀ b, found reg b (x :: mem) =
          if x.enabled = b then hp :: found reg b mem else found reg b mem := fun b => by
        unfold found
        rw [List.filter_cons]
        by_cases hb : x.enabled = b
        · rw [if_pos (decide_eq_true hb), if_pos hb,
            List.filterMap_cons_some (by rw [hvif]; exact hhw)]
        · rw [if_neg (by simpa using hb), if_neg hb]
      simp only [hgif, ih hmem, htake]
      cases x.enabled with
      | true => simp
      | false => simp

/-- A member with a type or a unit out of range ends the loop. -/
theorem collectMembers_error {mem : List TrunkMember} (hbad : ∃ x ∈ mem, ¬reg.Accepted x.id)
    (hread : ∀ x ∈ mem.takeWhile fun x => reg.Accepted x.id, ¬reg.ReadsBefore x.id)
    (ed : List HwPort × List HwPort) :
    collectMembers reg mem ed = some (.error .ST_BAD_VALUE) := by
  induction mem generalizing ed with
  | nil => simp at hbad
  | cons x mem ih =>
    obtain ⟨e, d⟩ := ed
    rw [collectMembers]
    by_cases hx : reg.Accepted x.id
    · rw [List.takeWhile_cons_of_pos (by simpa using hx)] at hread
      obtain ⟨hreadx, hread⟩ := List.forall_mem_cons.mp hread
      have hbad : ∃ x ∈ mem, ¬reg.Accepted x.id := by
        obtain ⟨y, hy, hbad⟩ := hbad
        rcases List.mem_cons.mp hy with rfl | hy
        · exact absurd hx hbad
        · exact ⟨y, hy, hbad⟩
      by_cases hnum : x.id.num = 0
      · obtain ⟨hp, hgif⟩ := Registration.gifGetHwPort_zero hx hnum hreadx
        simp only [hgif, ih hbad hread]
      · rcases Registration.gifGetHwPort_eq hx hnum with ⟨-, hgif⟩ | ⟨v, hp, -, -, hgif⟩
        · simp only [hgif, ih hbad hread]
        · simp only [hgif, ih hbad hread]
    · simp only [Registration.gifGetHwPort_of_not_accepted hx]

end Collect

/-! ## Runs -/

/-- A call of `trunk_set_members`, and what the hardware makes of the calls on groups. -/
structure HwTrunkOp where
  hw : McgHw
  trunk : ℕ
  mem : List TrunkMember

namespace HwTrunks

variable (ids : TrunkIds) (reg : Registration)

/-- A call. -/
def call (s : HwTrunks) (op : HwTrunkOp) : Option (Status × HwTrunks) :=
  trunkSetMembers ids reg op.hw s op.trunk op.mem

/-- A step of a run. -/
def step (s : HwTrunks) (op : HwTrunkOp) : Option HwTrunks := (call ids reg s op).map (·.2)

/-- What is written for the trunk are its members with their flags, each once. -/
def Agrees (s : HwTrunks) (t : ℕ) : Prop :=
  ((s.written t).1.map some).Perm
      (((s.sw.trunks t).vif_port.filter (·.2 = true)).map fun m => reg.vifGetHw m.1) ∧
    ((s.written t).2.map some).Perm
      (((s.sw.trunks t).vif_port.filter (·.2 = false)).map fun m => reg.vifGetHw m.1)

/-- What a call returns and leaves. -/
structure Returned (s : HwTrunks) (op : HwTrunkOp) (st : Status) (s' : HwTrunks) : Prop where
  call_eq : call ids reg s op = some (st, s')
  of_ok : st = .ST_OK → s'.Agrees reg op.trunk
  of_error : st ≠ .ST_OK → s' = s

/-- A list that is taken names no port by the number 0 and none twice. In a list that is not taken,
no number 0 in a unit without lower types stands before the first member that is out of range. -/
def Ok (_ : HwTrunks) (op : HwTrunkOp) : Prop :=
  ids.TRUNK_ID_MIN ≤ op.trunk ∧ op.trunk ≤ ids.TRUNK_ID_MAX → op.mem.length ≤ 8 →
    if ∀ x ∈ op.mem, reg.Accepted x.id then
      (∀ x ∈ op.mem, x.id.num ≠ 0) ∧ (reg.vifTable.named op.mem).Nodup
    else ∀ x ∈ op.mem.takeWhile fun x => reg.Accepted x.id, ¬reg.ReadsBefore x.id

variable {ids reg} {s s' : HwTrunks} {op : HwTrunkOp}

/-- The members after a list that names no port twice are what the list names. -/
theorem perm_of_nodup {c : VifTable} {t : ℕ} {mem : List TrunkMember} {sw sw' : Trunks}
    (hset : Trunks.MembersSet c t mem sw sw') (hnd : (c.named mem).Nodup) :
    (sw'.trunks t).vif_port.Perm
      (mem.filterMap fun x => (c.vifGetByGif x.id).map fun v => (v, x.enabled)) := by
  have hnamed : (mem.filterMap fun x => (c.vifGetByGif x.id).map fun v => (v, x.enabled)).map
      (·.1) = c.named mem := by
    rw [List.map_filterMap]
    simp [VifTable.named, Function.comp_def]
  have hu : ((mem.filterMap fun x => (c.vifGetByGif x.id).map fun v => (v, x.enabled)).map
      (·.1)).Nodup := by rwa [hnamed]
  have hmem : ∀ v b, (v, b) ∈ (mem.filterMap fun x =>
      (c.vifGetByGif x.id).map fun v => (v, x.enabled)) ↔
        ∃ x ∈ mem, c.vifGetByGif x.id = some v ∧ x.enabled = b := by
    simp [List.mem_filterMap]
  refine (List.perm_ext_iff_of_nodup (List.Nodup.of_map _ hset.unique)
    (List.Nodup.of_map _ hu)).mpr ?_
  rintro ⟨v, b⟩
  rw [hset.mem_iff, hmem]
  refine ⟨exists_of_listed, ?_⟩
  rintro ⟨x, hx, hv, rfl⟩
  -- the flag listed is that of the one entry that names the port
  obtain ⟨b, hb⟩ := Option.isSome_iff_exists.mp (listed_isSome_iff.mpr ⟨x, hx, hv⟩)
  have heq : (v, b) = (v, x.enabled) :=
    List.inj_on_of_nodup_map hu ((hmem v b).mpr (exists_of_listed hb))
      ((hmem v x.enabled).mpr ⟨x, hx, hv, rfl⟩) rfl
  rw [hb, (Prod.mk.inj heq).2]

/-- The ports found with a flag are those of the members with the flag. -/
theorem found_perm {t : ℕ} {mem : List TrunkMember} {sw sw' : Trunks}
    (hset : Trunks.MembersSet reg.vifTable t mem sw sw') (hnd : (reg.vifTable.named mem).Nodup)
    (hmem : ∀ x ∈ mem, reg.Accepted x.id ∧ x.id.num ≠ 0) (b : Bool) :
    ((found reg b mem).map some).Perm
      (((sw'.trunks t).vif_port.filter (·.2 = b)).map fun m => reg.vifGetHw m.1) := by
  refine List.Perm.trans (.of_eq ?_) (((perm_of_nodup hset hnd).filter _).map _).symm
  clear hset hnd
  unfold found
  induction mem with
  | nil => rfl
  | cons x mem ih =>
    obtain ⟨hx, hmem⟩ := List.forall_mem_cons.mp hmem
    have hrest := ih hmem
    rcases Registration.gifGetHwPort_eq hx.1 hx.2 with ⟨hvif, -⟩ | ⟨v, hp, hvif, hhw, -⟩
    · rw [List.filterMap_cons_none (by rw [hvif]; rfl), ← hrest, List.filter_cons]
      split_ifs
      · rw [List.filterMap_cons_none (by rw [hvif]; rfl)]
      · rfl
    · rw [List.filterMap_cons_some (by rw [hvif]; rfl)]
      by_cases hb : x.enabled = b
      · rw [List.filter_cons_of_pos (by simpa using hb),
          List.filter_cons_of_pos (by simpa using hb),
          List.filterMap_cons_some (by rw [hvif]; exact hhw), List.map_cons, List.map_cons, hhw,
          hrest]
      · rw [List.filter_cons_of_neg (by simpa using hb),
          List.filter_cons_of_neg (by simpa using hb),
          hrest]

/-- Each trunk names its members once, and what is written are they. -/
structure Inv (reg : Registration) (s : HwTrunks) : Prop where
  unique : ∀ t, Keyed.Unique Prod.fst (s.sw.trunks t).vif_port
  agrees : ∀ t, s.Agrees reg t

theorem inv_init (groups : ℕ → Option (VifRef → Bool)) : Inv reg (init reg groups) where
  unique _ := List.nodup_nil
  agrees _ := ⟨.nil, .nil⟩

/-- A call that the guard admits. -/
theorem Inv.returned (hi : Inv reg s) (hok : Ok ids reg s op) :
    ∃ st s', Returned ids reg s op st s' ∧ Inv reg s' := by
  have hbad : call ids reg s op = some (.ST_BAD_VALUE, s) →
      ∃ st s', Returned ids reg s op st s' ∧ Inv reg s' := fun h =>
    ⟨_, s, ⟨h, fun h => absurd h (by decide), fun _ => rfl⟩, hi⟩
  by_cases hrange : ids.TRUNK_ID_MIN ≤ op.trunk ∧ op.trunk ≤ ids.TRUNK_ID_MAX
  · by_cases hlen : 8 < op.mem.length
    · refine hbad ?_
      unfold call trunkSetMembers
      rw [if_neg (not_not.mpr hrange), if_pos hlen]
    · have hok := hok hrange (not_lt.mp hlen)
      have hcall : call ids reg s op = match collectMembers reg op.mem ([], []) with
          | none => none
          | some (.error st) => some (st, s)
          | some (.ok ed) => some (.ST_OK, {
              sw := s.sw.vifSetTrunkMembers reg.vifTable op.hw op.trunk op.mem
              written := update s.written op.trunk ed }) := by
        unfold call trunkSetMembers
        rw [if_neg (not_not.mpr hrange), if_neg hlen]
      by_cases hacc : ∀ x ∈ op.mem, reg.Accepted x.id
      · rw [if_pos hacc] at hok
        have hmem : ∀ x ∈ op.mem, reg.Accepted x.id ∧ x.id.num ≠ 0 := fun x hx =>
          ⟨hacc x hx, hok.1 x hx⟩
        rw [collectMembers_eq hmem] at hcall
        have hset := Trunks.membersSet reg.vifTable op.hw op.trunk op.mem (hi.unique op.trunk)
        -- the trunk that is written agrees, and the other trunks are as they were
        have hagrees : ∀ t, Agrees reg {
            sw := s.sw.vifSetTrunkMembers reg.vifTable op.hw op.trunk op.mem
            written := update s.written op.trunk (found reg true op.mem, found reg false op.mem) }
            t := by
          intro t
          unfold Agrees
          by_cases ht : t = op.trunk
          · subst ht
            simp only [update_self]
            exact ⟨found_perm hset hok.2 hmem true, found_perm hset hok.2 hmem false⟩
          · simp only [update_of_ne ht, hset.other t ht]
            exact hi.agrees t
        refine ⟨_, _, ⟨hcall, fun _ => hagrees op.trunk, fun h => absurd rfl h⟩, fun t => ?_,
          hagrees⟩
        by_cases ht : t = op.trunk
        · subst ht
          exact hset.unique
        · simp only [hset.other t ht]
          exact hi.unique t
      · rw [if_neg hacc] at hok
        rw [collectMembers_error (by push Not at hacc; exact hacc) hok] at hcall
        exact hbad hcall
  · refine hbad ?_
    unfold call trunkSetMembers
    rw [if_pos hrange]

/-- In every run whose lists name no port by the number 0 or twice, hardware and software agree on
the members of all trunks, and each call returns: with the members of its trunk in both, or rejected
and without effect. -/
theorem written_agrees (ids : TrunkIds) (reg : Registration) (groups : ℕ → Option (VifRef → Bool))
    (hr : Guarded.Reach (step ids reg) (Ok ids reg) (init reg groups) s) :
    (∀ t, s.Agrees reg t) ∧
      ∀ op, Ok ids reg s op → ∃ st s', Returned ids reg s op st s' := by
  have hi : Inv reg s := by
    refine hr.invariant (Inv reg) (inv_init groups) fun s op s' hi hok hs => ?_
    obtain ⟨st, s₁, hret, hi₁⟩ := hi.returned hok
    unfold step at hs
    rw [hret.call_eq, Option.map_some] at hs
    rwa [← Option.some_inj.mp hs]
  refine ⟨hi.agrees, fun op hok => ?_⟩
  obtain ⟨st, s', hret, -⟩ := hi.returned hok
  exact ⟨st, s', hret⟩

/-! ### Runs -/

instance (s : HwTrunks) (op : HwTrunkOp) : Decidable (Ok ids reg s op) := by
  unfold Ok
  infer_instance

/-- Unit 1 of a stack, with two gigabit ports, and unit 2, with one. -/
def threePorts : Registration where
  stack_id := 1
  ports dev :=
    if dev = 1 then ⟨[(.VIFT_GE, ⟨1, 4⟩), (.VIFT_GE, ⟨1, 5⟩)], by decide⟩
    else if dev = 2 then ⟨[(.VIFT_GE, ⟨2, 9⟩)], by decide⟩
    else ⟨[], .nil⟩
  last_unit dev hdev := by
    rw [if_neg (by omega), if_neg (by omega)]
  speed10 := 0

/-- The trunks 1 to 31. -/
def trunkIds : TrunkIds := ⟨1, 31⟩

/-- Members on two units, one of them named by the unit's number and then by 0. -/
theorem written_agrees_two : ∃ s, Guarded.Reach (step trunkIds threePorts) (Ok trunkIds threePorts)
    (init threePorts fun _ => none) s ∧
      ((∀ t, s.Agrees threePorts t) ∧ ∀ op, Ok trunkIds threePorts s op →
        ∃ st s', Returned trunkIds threePorts s op st s') ∧
      s.written 3 = ([⟨1, 4⟩], [⟨2, 9⟩]) := by
  have hlast : (Guarded.run (step trunkIds threePorts) (Ok trunkIds threePorts)
      (init threePorts fun _ => none)
      [⟨TrunkRun.reliable, 3, [⟨⟨.GIFT_GE, 1, 1⟩, false⟩, ⟨⟨.GIFT_GE, 1, 2⟩, true⟩]⟩,
        ⟨TrunkRun.reliable, 40, [⟨⟨.GIFT_GE, 1, 1⟩, true⟩]⟩,
        ⟨TrunkRun.reliable, 3, [⟨⟨.GIFT_GE, 0, 1⟩, true⟩, ⟨⟨.GIFT_GE, 2, 1⟩, false⟩,
          ⟨⟨.GIFT_XG, 2, 1⟩, true⟩]⟩]).map (fun s => s.written 3) =
      some ([⟨1, 4⟩], [⟨2, 9⟩]) := by
    decide +kernel
  obtain ⟨s, hs, hlast⟩ := Option.map_eq_some_iff.mp hlast
  have hreach := Guarded.Reach.init.of_run hs
  exact ⟨s, hreach, written_agrees _ _ _ hreach, hlast⟩

/-- A port that is named twice is written twice. -/
theorem not_written_agrees : ¬∀ (ids : TrunkIds) (reg : Registration)
    (groups : ℕ → Option (VifRef → Bool)) (s : HwTrunks),
    Guarded.Reach (step ids reg) (fun _ op => op.mem.length ≤ 8) (init reg groups) s →
      (∀ t, s.Agrees reg t) ∧
        ∀ op : HwTrunkOp, op.mem.length ≤ 8 → ∃ st s', Returned ids reg s op st s' := by
  intro h
  have hlast : (Guarded.run (step trunkIds threePorts) (fun _ op => op.mem.length ≤ 8)
      (init threePorts fun _ => none)
      [⟨TrunkRun.reliable, 3, [⟨⟨.GIFT_GE, 1, 1⟩, true⟩, ⟨⟨.GIFT_GE, 0, 1⟩, true⟩]⟩]).map
        (fun s => ((s.written 3).1.length,
          ((s.sw.trunks 3).vif_port.filter (·.2 = true)).length)) =
      some (2, 1) := by
    decide +kernel
  obtain ⟨s, hs, hlast⟩ := Option.map_eq_some_iff.mp hlast
  have hperm := ((h _ _ _ s (Guarded.Reach.init.of_run hs)).1 3).1.length_eq
  rw [List.length_map, List.length_map, (Prod.mk.inj hlast).1, (Prod.mk.inj hlast).2] at hperm
  exact absurd hperm (by decide)

end HwTrunks

end Presteramgr
