import Mathlib.Data.List.Basic
import Presteramgr.Mac.Unit

/-!
# Update messages of the forwarding database (`mac.c`)

A unit tells the others the changes of its table in messages of at most `TIPC_MSG_MAX_LEN` bytes. A
long list of changes is split over several messages. The number of records of a message and the VLAN
of each record are sent in network byte order.

## Main definitions

* `MsgLayout`: the sizes of the fields of a message whose types are not in the repository;
* `Host`, `Host.htons` and `Host.carried`: byte orders, and what a host reads of what another one
  wrote;
* `Wire.fdbmanSendMsgUniUpdate`: the messages that are sent for a list of records;
* `Wire.decoded`: what a receiver makes of a message.

## Main results

* `Wire.sendLoop_spec`: the messages from a record on carry the list from there on, cut into pieces;
* `Wire.splitRecords_eq`: the packets of `FdbUnit` are these messages;
* `Wire.messages_round_trip`: the records come back, in messages that are not too long and not
  empty.
-/

namespace Presteramgr

/-- `sizeof (serial_t)` and `sizeof (devsbmp_t)`, two types of integers. -/
structure MsgLayout where
  serial : ℕ
  devsbmp : ℕ
  serial_le : serial ≤ 8
  devsbmp_le : devsbmp ≤ 8

/-- `struct pti_fdbr`, as it lies in a message. -/
structure FdbRec where
  operation : BitVec 8
  type : BitVec 8
  port : BitVec 8 × BitVec 8
  vid : BitVec 16
  mac : Mac
deriving DecidableEq, Repr

/-- A record with another number in the place of its VLAN. -/
def FdbRec.mapVid (f : BitVec 16 → BitVec 16) (r : FdbRec) : FdbRec := { r with vid := f r.vid }

/-- `sizeof (struct pti_fdbr)`: two bytes, the two of the union, `vid` and `mac`. -/
def sizeofFdbRec : ℕ := 1 + 1 + 2 + 2 + 6

/-- `struct pti_fdbr_msg` with its records. -/
structure UpdateMsg where
  stack_id : ℕ
  master : Bool
  nfdb : BitVec 16
  data : List FdbRec
deriving DecidableEq, Repr

namespace MsgLayout

variable (w : MsgLayout)

/-- `sizeof (struct pti_fdbr_msg)`: three bytes, `nfdb`, `serial` and `devsbmp`. -/
def header : ℕ := 3 + 2 + w.serial + w.devsbmp

/-- `TIPC_FDB_NREC`. -/
def nrec : ℕ := (TIPC_MSG_MAX_LEN - w.header) / sizeofFdbRec - 1

/-- The bytes of a message. -/
def msglen (m : UpdateMsg) : ℕ := w.header + sizeofFdbRec * m.data.length

/-- A serial of 64 bits, and a set of the units from 1 to 15. -/
def unitLayout : MsgLayout := ⟨8, 2, Nat.le_refl 8, Nat.le_of_ble_eq_true rfl⟩

theorem header_le : w.header ≤ 21 := by
  have hs := w.serial_le
  have hd := w.devsbmp_le
  unfold header
  omega

theorem nrec_pos : 0 < w.nrec := by
  have hh := w.header_le
  unfold nrec TIPC_MSG_MAX_LEN sizeofFdbRec
  omega

theorem nrec_lt : w.nrec < 2 ^ 16 := by
  unfold nrec TIPC_MSG_MAX_LEN sizeofFdbRec
  omega

theorem header_add_nrec_le : w.header + sizeofFdbRec * w.nrec ≤ TIPC_MSG_MAX_LEN := by
  have hh := w.header_le
  unfold nrec TIPC_MSG_MAX_LEN sizeofFdbRec
  omega

end MsgLayout

/-! ## Byte orders -/

/-- The two bytes change places. -/
def swap16 (x : BitVec 16) : BitVec 16 := x.extractLsb' 0 8 ++ x.extractLsb' 8 8

theorem getLsbD_swap16 (x : BitVec 16) (i : ℕ) : (swap16 x).getLsbD i =
    if i < 8 then x.getLsbD (i + 8) else (decide (i < 16) && x.getLsbD (i - 8)) := by
  unfold swap16
  rw [BitVec.getLsbD_append]
  split_ifs with h
  · simp [h, Nat.add_comm]
  · have hiff : i - 8 < 8 ↔ i < 16 := by omega
    simp [hiff]

theorem swap16_swap16 (x : BitVec 16) : swap16 (swap16 x) = x := by
  apply BitVec.eq_of_getLsbD_eq
  intro i hi
  rw [getLsbD_swap16]
  split_ifs with h
  · rw [getLsbD_swap16, if_neg (by omega), decide_eq_true (by omega), Nat.add_sub_cancel,
      Bool.true_and]
  · rw [getLsbD_swap16, if_pos (by omega), decide_eq_true (by omega), Nat.sub_add_cancel (by omega),
      Bool.true_and]

/-- The byte order of a host. -/
inductive Host
  | little
  | big
deriving DecidableEq, Repr

namespace Host

/-- `htons`. -/
def htons : Host → BitVec 16 → BitVec 16
  | little, x => swap16 x
  | big, x => x

/-- `ntohs`. -/
def ntohs : Host → BitVec 16 → BitVec 16
  | little, x => swap16 x
  | big, x => x

/-- The number that `h'` reads in the two bytes in which `h` has written `x`. -/
def carried (h h' : Host) (x : BitVec 16) : BitVec 16 := if h = h' then x else swap16 x

/-- A number that is sent in network byte order is read as it was. -/
theorem ntohs_carried_htons (h h' : Host) (x : BitVec 16) :
    h'.ntohs (h.carried h' (h.htons x)) = x := by
  cases h with
  | little =>
    cases h' with
    | little => exact swap16_swap16 x
    | big => exact swap16_swap16 x
  | big =>
    cases h' with
    | little => exact swap16_swap16 x
    | big => rfl

end Host

/-! ## Pieces of a list -/

section Pieces

variable {α : Type*}

/-- A list, cut into pieces of `k` elements and a last one. -/
def pieces (k : ℕ) : ℕ → List α → List (List α)
  | 0, _ => []
  | fuel + 1, l => l.take k :: if k < l.length then pieces k fuel (l.drop k) else []

/-- The pieces together are the list. -/
theorem flatten_pieces {k fuel : ℕ} (hk : 0 < k) {l : List α} (hfuel : l.length < fuel) :
    (pieces k fuel l).flatten = l := by
  induction fuel generalizing l with
  | zero => omega
  | succ fuel ih =>
    rw [pieces, List.flatten_cons]
    by_cases hmore : k < l.length
    · have hrest : (l.drop k).length < fuel := by
        rw [List.length_drop]
        omega
      rw [if_pos hmore, ih hrest, List.take_append_drop]
    · rw [if_neg hmore, List.flatten_nil, List.append_nil, List.take_of_length_le (not_lt.mp hmore)]

end Pieces

/-! ## Sending and receiving -/

namespace Wire

section Send

variable (w : MsgLayout) (h h' : Host) (stack_id : ℕ) (master : Bool) (pf : List FdbRec)

/-- The number of records of the next message, after `nf` of `n` records. -/
def nextCount (n nf : BitVec 32) : BitVec 16 :=
  if w.nrec < (n - nf).toNat then .ofNat 16 w.nrec else .ofNat 16 (n - nf).toNat

/-- The message with the records `data`. -/
def updateMsg (nr : BitVec 16) (data : List FdbRec) : UpdateMsg where
  stack_id := stack_id
  master := master
  nfdb := h.htons nr
  data := data.map (FdbRec.mapVid h.htons)

/-- The loop of `fdbman_send_msg_uni_update` from the cursor `nf`, a signed number that is compared
with `n` as an unsigned one. `none` stands for an access outside of the records. -/
def sendLoop (n nf : BitVec 32) : Option (List UpdateMsg) :=
  let nr := nextCount w n nf
  if _hread : 0 ≤ nf.toInt ∧ nf.toInt + nr.toNat ≤ pf.length then
    let msg := updateMsg h stack_id master nr ((pf.drop nf.toInt.toNat).take nr.toNat)
    let nf' := nf + .ofNat 32 w.nrec
    if nf'.toNat < n.toNat then (sendLoop n nf').map (msg :: ·) else some [msg]
  else none
termination_by 2 ^ 32 - nf.toNat
decreasing_by
  have hpos := w.nrec_pos
  have hlt := w.nrec_lt
  have hnf : nf.toNat < 2 ^ 31 := by
    have hsign := _hread.1
    rw [BitVec.toInt_eq_toNat_cond] at hsign
    split_ifs at hsign <;> omega
  rw [BitVec.toNat_add, BitVec.toNat_ofNat]
  omega

/-- `fdbman_send_msg_uni_update`. -/
def fdbmanSendMsgUniUpdate (n : BitVec 32) : Option (List UpdateMsg) :=
  sendLoop w h stack_id master pf n 0

/-- What a host reads of a message. -/
def received (m : UpdateMsg) : UpdateMsg :=
  { m with
    nfdb := h.carried h' m.nfdb
    data := m.data.map (FdbRec.mapVid (h.carried h')) }

/-- What `fdbman_handle_pkt` makes of an update, `none` standing for an access after its end. -/
def decoded (m : UpdateMsg) : Option (List FdbRec) :=
  let nfdb := (h'.ntohs m.nfdb).toNat
  if m.data.length < nfdb then none
  else some ((m.data.take nfdb).map (FdbRec.mapVid h'.ntohs))

variable {w h h' stack_id master pf}

/-- A message comes back as it was sent. -/
theorem decoded_updateMsg (h h' : Host) (stack_id : ℕ) (master : Bool) {nr : BitVec 16}
    {data : List FdbRec} (hlen : data.length = nr.toNat) :
    decoded h' (received h h' (updateMsg h stack_id master nr data)) = some data := by
  unfold decoded received updateMsg
  dsimp only
  rw [Host.ntohs_carried_htons, List.length_map, List.length_map, hlen, if_neg (lt_irrefl _),
    List.take_of_length_le
      (by rw [List.length_map, List.length_map, hlen]), List.map_map, List.map_map]
  have hid : FdbRec.mapVid h'.ntohs ∘ FdbRec.mapVid (h.carried h') ∘ FdbRec.mapVid h.htons = id :=
    funext fun r => congrArg (fun vid => ({ r with vid := vid } : FdbRec))
      (Host.ntohs_carried_htons h h' r.vid)
  rw [Function.comp_assoc, hid, List.map_id]

/-- The next message has as many records as fit, or all that are left. -/
theorem toNat_nextCount {n nf : BitVec 32} (hlt : nf.toNat < n.toNat) :
    (nextCount w n nf).toNat = min w.nrec (n.toNat - nf.toNat) := by
  have hrec := w.nrec_lt
  have hsub : (n - nf).toNat = n.toNat - nf.toNat :=
    BitVec.toNat_sub_of_le (BitVec.le_def.mpr hlt.le)
  unfold nextCount
  rw [hsub]
  split_ifs with h
  · rw [BitVec.toNat_ofNat, Nat.mod_eq_of_lt hrec, min_eq_left h.le]
  · rw [BitVec.toNat_ofNat, Nat.mod_eq_of_lt (by omega), min_eq_right (not_lt.mp h)]

/-- The messages from the cursor on carry the records from there on, cut into pieces. -/
theorem sendLoop_spec (w : MsgLayout) (h h' : Host) (stack_id : ℕ) (master : Bool)
    {n nf : BitVec 32}
    {fuel : ℕ} (hn : n.toNat = pf.length) (hle : pf.length ≤ 2 ^ 31) (hlt : nf.toNat < n.toNat)
    (hfuel : n.toNat - nf.toNat < fuel) : ∃ msgs,
      sendLoop w h stack_id master pf n nf = some msgs ∧
      (msgs.map fun m => decoded h' (received h h' m)) =
        (pieces w.nrec fuel (pf.drop nf.toNat)).map some ∧
      ∀ m ∈ msgs, w.msglen m ≤ TIPC_MSG_MAX_LEN ∧ 1 ≤ m.data.length := by
  induction fuel generalizing nf with
  | zero => omega
  | succ fuel ih =>
    have hpos := w.nrec_pos
    have hrec := w.nrec_lt
    have hnr := toNat_nextCount (w := w) hlt
    have hcursor : nf.toInt = nf.toNat := BitVec.toInt_eq_toNat_of_lt (by omega)
    have hread : 0 ≤ nf.toInt ∧ nf.toInt + (nextCount w n nf).toNat ≤ pf.length := by
      rw [hcursor, hnr]
      omega
    have hnext : (nf + .ofNat 32 w.nrec).toNat = nf.toNat + w.nrec := by
      rw [BitVec.toNat_add, BitVec.toNat_ofNat]
      omega
    have hleft : (pf.drop nf.toNat).length = n.toNat - nf.toNat := by rw [List.length_drop, hn]
    rw [sendLoop, dif_pos hread, hcursor, Int.toNat_natCast, pieces, hleft]
    dsimp only
    rw [hnext]
    -- the records of this message
    have htake : (pf.drop nf.toNat).take (nextCount w n nf).toNat =
        (pf.drop nf.toNat).take w.nrec := by
      rw [hnr, ← hleft, List.take_eq_take_iff]
      omega
    have hlen : ((pf.drop nf.toNat).take w.nrec).length = (nextCount w n nf).toNat := by
      rw [List.length_take, hleft, hnr]
    rw [htake]
    have hmsg := decoded_updateMsg h h' stack_id master hlen
    have hsize : ∀ m, m =
        updateMsg h stack_id master (nextCount w n nf) ((pf.drop nf.toNat).take w.nrec) →
        w.msglen m ≤ TIPC_MSG_MAX_LEN ∧ 1 ≤ m.data.length := by
      rintro m rfl
      have hfit := w.header_add_nrec_le
      unfold MsgLayout.msglen updateMsg
      dsimp only
      rw [List.length_map, hlen, hnr]
      unfold sizeofFdbRec at hfit ⊢
      omega
    by_cases hmore : nf.toNat + w.nrec < n.toNat
    · have hlt' : (nf + .ofNat 32 w.nrec).toNat < n.toNat := by
        rw [hnext]
        exact hmore
      obtain ⟨msgs, hmsgs, hpieces, hall⟩ := ih hlt' (by omega)
      rw [if_pos hmore, hmsgs, if_pos (by omega)]
      refine ⟨_, rfl, ?_, fun m hm => ?_⟩
      · rw [List.map_cons, hmsg, hpieces, List.map_cons, hnext, List.drop_drop]
      · rcases List.mem_cons.mp hm with heq | hm
        · exact hsize m heq
        · exact hall m hm
    · rw [if_neg hmore, if_neg (by omega)]
      refine ⟨_, rfl, ?_, fun m hm => hsize m (List.mem_singleton.mp hm)⟩
      rw [List.map_singleton, hmsg, List.map_singleton]

/-- What is sent gives back the records `l`, in messages that are not too long and not empty. -/
def RoundTrip (w : MsgLayout) (h h' : Host) (msgs : List UpdateMsg) (l : List FdbRec) : Prop :=
  ∃ recs : List (List FdbRec), (msgs.map fun m => decoded h' (received h h' m)) = recs.map some ∧
    recs.flatten = l ∧ ∀ m ∈ msgs, w.msglen m ≤ TIPC_MSG_MAX_LEN ∧ 1 ≤ m.data.length

/-- The messages that are sent for a list. -/
theorem fdbmanSendMsgUniUpdate_spec (w : MsgLayout) (h h' : Host) (stack_id : ℕ) (master : Bool)
    (hpos : 1 ≤ pf.length) (hle : pf.length ≤ 2 ^ 31) : ∃ msgs,
      fdbmanSendMsgUniUpdate w h stack_id master pf (.ofNat 32 pf.length) = some msgs ∧
      (msgs.map fun m => decoded h' (received h h' m)) =
        (pieces w.nrec (pf.length + 1) pf).map some ∧
      ∀ m ∈ msgs, w.msglen m ≤ TIPC_MSG_MAX_LEN ∧ 1 ≤ m.data.length := by
  have hn : (BitVec.ofNat 32 pf.length).toNat = pf.length := by
    rw [BitVec.toNat_ofNat]
    omega
  have hzero : (0 : BitVec 32).toNat < (BitVec.ofNat 32 pf.length).toNat := by
    rw [hn]
    exact hpos
  refine sendLoop_spec w h h' stack_id master hn hle hzero ?_
  rw [hn]
  exact Nat.lt_succ_of_le (Nat.sub_le _ _)

/-- The packets of a unit are these messages as their receivers decode them, for any reading `e` of
the bytes of a record. -/
theorem splitRecords_eq (e : FdbRec → PtiFdbr) (h h' : Host) (stack_id : ℕ) (master : Bool)
    (hpos : 1 ≤ pf.length) (hle : pf.length ≤ 2 ^ 31) : ∃ msgs,
      fdbmanSendMsgUniUpdate MsgLayout.unitLayout h stack_id master pf (.ofNat 32 pf.length) =
        some msgs ∧
      (msgs.map fun m => (decoded h' (received h h' m)).map (List.map e)) =
        (splitRecords (pf.length + 1) (pf.map e)).map some := by
  have hsplit : ∀ fuel (l : List FdbRec),
      splitRecords fuel (l.map e) = (pieces TIPC_FDB_NREC fuel l).map (List.map e) := by
    intro fuel
    -- the pieces of the images are the images of the pieces
    induction fuel with
    | zero => exact fun l => rfl
    | succ fuel ih =>
      intro l
      rw [splitRecords, pieces, List.map_cons, List.length_map, ← List.map_take, ← List.map_drop,
        ih]
      split_ifs <;> rfl
  obtain ⟨msgs, hmsgs, hpieces, -⟩ := fdbmanSendMsgUniUpdate_spec MsgLayout.unitLayout h h'
    stack_id master hpos hle
  refine ⟨msgs, hmsgs, ?_⟩
  have hmap := congrArg (List.map (Option.map (List.map e))) hpieces
  rw [List.map_map, List.map_map] at hmap
  rw [hsplit, List.map_map]
  exact hmap

/-- A list of records, of any length that the signed cursor can count, is sent in messages of at
most `TIPC_MSG_MAX_LEN` bytes with at least one record each, and what receivers of any byte order
make of the messages, one after the other, is the list. -/
theorem messages_round_trip (w : MsgLayout) (h h' : Host) (stack_id : ℕ) (master : Bool)
    (pf : List FdbRec) (hpos : 1 ≤ pf.length) (hle : pf.length ≤ 2 ^ 31) :
    ∃ msgs, fdbmanSendMsgUniUpdate w h stack_id master pf (.ofNat 32 pf.length) = some msgs ∧
      RoundTrip w h h' msgs pf := by
  obtain ⟨msgs, hmsgs, hpieces, hall⟩ := fdbmanSendMsgUniUpdate_spec w h h' stack_id master hpos hle
  exact ⟨msgs, hmsgs, _, hpieces, flatten_pieces w.nrec_pos (Nat.lt_succ_self _), hall⟩

/-- Records for three messages, between hosts of different byte orders. -/
theorem messages_round_trip_long :
    ∃ msgs, fdbmanSendMsgUniUpdate MsgLayout.unitLayout .little 1 true
    (List.replicate 2000 ⟨0, 0, (1, 2), 300, 7⟩) (.ofNat 32 2000) = some msgs ∧
      RoundTrip MsgLayout.unitLayout .little .big msgs
        (List.replicate 2000 ⟨0, 0, (1, 2), 300, 7⟩) := by
  have hlen := List.length_replicate (n := 2000) (a := (⟨0, 0, (1, 2), 300, 7⟩ : FdbRec))
  have hsent := messages_round_trip MsgLayout.unitLayout .little .big 1 true
    (List.replicate 2000 ⟨0, 0, (1, 2), 300, 7⟩) (by rw [hlen]; decide) (by rw [hlen]; decide)
  rwa [hlen] at hsent

end Send

end Wire

end Presteramgr
