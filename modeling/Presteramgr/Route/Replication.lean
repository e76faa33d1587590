import Presteramgr.Lib.Buffer
import Presteramgr.Route.Gateways

/-!
# Routes for a new unit (`fib.c`, `mac.c` and `control.c`)

When a unit joins the stack, the master writes its routes of lengths 0 to 31 to a buffer, cuts the
buffer into messages, and sends them to the unit, which adds the routes they are for. Nobody writes
the member `type` of the records, which has the value that the memory had before, so that a record
may also pass for an IPv6 route.

The sizes and members of `struct rtbd_route_msg`, `struct rtbd_hexthop_data` and `struct
pti_fdbr_msg`, and the numbers of the operations, are parameters.

## Main definitions

* `fibGetRoutes` and `fdbmanSyncRouting`: the buffer and the messages;
* `RtbdLayout.receive`: what a unit reads from a message;
* `RtbdLayout.HasRoom`: a route can be counted and sent.

## Main results

* `sync_of_sendable`: all accesses stay within the buffer, and the unit reads what the master has.
-/

namespace Presteramgr

open Buffer (Buf Member Write num writes bytesAt swapBytes)
open Guarded (Reach run)

/-- `AF_INET`. -/
def AF_INET : ℕ := 2

/-- `AF_INET6`. -/
def AF_INET6 : ℕ := 10

/-- `htonl`, which is `ntohl` as well. -/
def htonl (a : Ip4) : Ip4 := BitVec.ofNat 32 (swapBytes 4 a.toNat)

theorem htonl_htonl (a : Ip4) : htonl (htonl a) = a := by
  have hlt : ∀ v, swapBytes 4 v < 2 ^ 32 := Buffer.swapBytes_lt 4
  rw [htonl, htonl, BitVec.toNat_ofNat, Nat.mod_eq_of_lt (hlt _), Buffer.swapBytes_swapBytes a.isLt,
    BitVec.ofNat_toNat, BitVec.setWidth_eq]

/-- An IPv6 address in memory, with its bytes in the order of the network. -/
def ip6Of (v : ℕ) : Ip6 := BitVec.ofNat 128 (swapBytes 16 v)

/-- `struct rtbd_route_msg` and `struct rtbd_hexthop_data`: their sizes and members, the offset
`gws` of the array of next hops, and the offsets `dst_v6` and `gw_v6` of IPv6 addresses in the
unions; the sizes of `struct pti_fdbr_msg` and `rtbd_notif_t`. A message with eight next hops can be
sent. -/
structure RtbdLayout where
  header : ℕ
  notif : ℕ
  msg : ℕ
  gws : ℕ
  hop : ℕ
  type : Member
  op : Member
  dst : Member
  dst_len : Member
  gw_count : Member
  gw : Member
  vid : Member
  dst_v6 : ℕ
  gw_v6 : ℕ
  RCN_ROUTE : ℕ
  RRTO_ADD : ℕ
  RRTO_DEL : ℕ
  RRTO_CHANGE : ℕ
  notif_le : notif ≤ 4
  gws_le : gws ≤ msg
  apart : [type, op, dst, dst_len, gw_count].Pairwise Member.Apart
  inside : ∀ f ∈ [type, op, dst, dst_len, gw_count], f.off + f.width ≤ gws
  hop_apart : gw.Apart vid
  hop_inside : ∀ f ∈ [gw, vid], f.off + f.width ≤ hop
  dst_width : dst.width = 4
  gw_width : gw.width = 4
  vid_width : vid.width = 2
  dst_len_width : 1 ≤ dst_len.width
  gw_count_width : 1 ≤ gw_count.width
  dst_v6_inside : dst_v6 + 16 ≤ gws
  gw_v6_inside : gw_v6 + 16 ≤ hop
  room : header + (msg + 8 * hop + notif) ≤ TIPC_MSG_MAX_LEN
  notif_lt : RCN_ROUTE < 256 ^ notif
  op_lt : RRTO_ADD < 256 ^ op.width

/-- `struct rtbd_route_msg` of the type `AF_INET6`. -/
structure RtbdRouteV6Msg where
  op : RtbdRouteOp
  dst : Ip6
  dst_len : ℕ
  gw : Ip6
  vid : ℕ

/-- What a unit reads from a message. -/
inductive RtbdCmd
  | route (m : RtbdRouteMsg)
  | routeV6 (m : RtbdRouteV6Msg)
  | ignored

/-! ## The master -/

/-- `HASH_ITER` over the routes of a length, which come in the order in which they were added. -/
def fibEntries (f : Fib) (i : ℕ) : List FibNode :=
  if i = 0 then f.dflt.toList.map FibEntry.toFibNode
  else ((f.e.filter fun e => e.len = i).reverse).map FibEntry.toFibNode

/-- The routes that the loops of `fib_get_routes` come to. -/
def exported (f : Fib) : List FibNode := (List.range 32).flatMap (fibEntries f)

namespace RtbdLayout

variable (L : RtbdLayout)

/-- The address of a member of the next hop `j` of the record at `r1`. -/
def hopAt (r1 j : ℕ) : ℕ := r1 + L.gws + j * L.hop

/-- The record of a route. `type` is not written. -/
def recordWrites (e : FibNode) (r1 : ℕ) : List Write :=
  [L.op.write r1 L.RRTO_ADD, L.dst.write r1 (htonl e.pfx).toNat, L.dst_len.write r1 e.len] ++
    (e.gw.zipIdx.map fun g => L.gw.write (L.hopAt r1 g.2) (htonl g.1).toNat) ++
    (e.vid.zipIdx.map fun v => L.vid.write (L.hopAt r1 v.2) v.1) ++
    [L.gw_count.write r1 e.vid.length]

/-- From one record to the next one. -/
def recordSize (e : FibNode) : ℕ := L.gws + e.vid.length * L.hop

/-- The loop of `fib_get_routes` that writes the records. -/
def recordsWrites : List FibNode → ℕ → List Write
  | [], _ => []
  | e :: es, r1 => L.recordWrites e r1 ++ recordsWrites es (r1 + L.recordSize e)

/-- The size of the buffer. -/
def bufferSize (es : List FibNode) : ℕ :=
  4 + L.msg * es.length + L.hop * (es.map fun e => e.gw.length).sum

end RtbdLayout

/-- `fib_get_routes`, with the memory that `malloc` returns. -/
def fibGetRoutes (L : RtbdLayout) (f : Fib) (mem : ℕ → UInt8) : Option Buf :=
  Buf.putAll ⟨L.bufferSize (exported f), mem⟩
    (⟨0, 4, (exported f).length⟩ :: L.recordsWrites (exported f) 4)

/-- `fdbman_send_rtbd`, which puts the header and the data into a buffer of the size
`TIPC_MSG_MAX_LEN`. -/
def fdbmanSendRtbd (L : RtbdLayout) (arg : List UInt8) : Option (List UInt8) :=
  if L.header + arg.length ≤ TIPC_MSG_MAX_LEN then some arg else none

/-- The loop of `fdbman_sync_routing` over `nr` records, and the data of the messages. -/
def syncLoop (L : RtbdLayout) : ℕ → Buf → ℕ → Option (List (List UInt8))
  | 0, _, _ => some []
  | nr + 1, p, rt => do
    let p ← p.put ⟨rt - L.notif, L.notif, L.RCN_ROUTE⟩
    let gw_count ← p.get (rt + L.gw_count.off) L.gw_count.width
    let msg ← fdbmanSendRtbd L (← p.copy (rt - L.notif) (L.msg + gw_count * L.hop + L.notif))
    let msgs ← syncLoop L nr p (rt + L.gws + gw_count * L.hop)
    some (msg :: msgs)

/-- `fdbman_sync_routing`, the part that sends routes. -/
def fdbmanSyncRouting (L : RtbdLayout) (p : Buf) : Option (List (List UInt8)) := do
  let nr ← p.get 0 4
  syncLoop L nr p 4

/-! ## The new unit -/

/-- The operation that a number stands for. -/
def RtbdLayout.routeOp (L : RtbdLayout) (op : ℕ) : RtbdRouteOp :=
  if op = L.RRTO_ADD then .RRTO_ADD else if op = L.RRTO_DEL then .RRTO_DEL
  else if op = L.RRTO_CHANGE then .RRTO_CHANGE else .other op

/-- The handler of `SC_INT_RTBD_CMD` up to the calls of the routing code, for the messages
`RCN_ROUTE`. The gateways that it copies are those of the record. -/
def RtbdLayout.receive (L : RtbdLayout) (frame : List UInt8) : Option RtbdCmd := do
  let b := Buf.ofList frame
  let rm := L.notif
  let notif ← b.get 0 L.notif
  if notif ≠ L.RCN_ROUTE then some .ignored
  else do
    let dst_len ← b.get (rm + L.dst_len.off) L.dst_len.width
    let type ← b.get (rm + L.type.off) L.type.width
    if type = AF_INET then do
      let dst ← b.get (rm + L.dst.off) L.dst.width
      let gw_count ← b.get (rm + L.gw_count.off) L.gw_count.width
      let op ← b.get (rm + L.op.off) L.op.width
      let gws ← (List.range gw_count).mapM fun i => do
        let addr ← b.get (L.hopAt rm i + L.gw.off) L.gw.width
        let vid ← b.get (L.hopAt rm i + L.vid.off) L.vid.width
        some (⟨htonl (BitVec.ofNat 32 addr), vid⟩ : Gw)
      some (.route ⟨L.routeOp op, htonl (BitVec.ofNat 32 dst), dst_len, gw_count, fun i => gws.getD i ⟨0, 0⟩⟩)
    else if type = AF_INET6 then do
      let dst ← b.get (rm + L.dst_v6) 16
      let gw ← b.get (L.hopAt rm 0 + L.gw_v6) 16
      let vid ← b.get (L.hopAt rm 0 + L.vid.off) L.vid.width
      let op ← b.get (rm + L.op.off) L.op.width
      some (.routeV6 ⟨L.routeOp op, ip6Of dst, dst_len, ip6Of gw, vid⟩)
    else some .ignored

/-! ## The records -/

/-- The message that a record stands for. -/
def FibNode.routeMsg (e : FibNode) : RtbdRouteMsg where
  op := .RRTO_ADD
  dst := e.pfx
  dst_len := e.len
  gw_count := e.vid.length
  gw i := (List.zipWith Gw.mk e.gw e.vid).getD i ⟨0, 0⟩

/-- The gateways of an entry can be counted in its record, and its message can be sent. -/
structure RtbdLayout.HasRoom (L : RtbdLayout) (e : FibNode) : Prop where
  pos : 1 ≤ e.gw.length
  count : e.gw.length < 256 ^ L.gw_count.width
  send : L.header + (L.msg + e.gw.length * L.hop + L.notif) ≤ TIPC_MSG_MAX_LEN

/-- An entry that a record can hold: there are as many gateways as VLANs, and the numbers fit into
their members. -/
structure FibNode.Sendable (L : RtbdLayout) (e : FibNode) : Prop where
  vid : e.gw.length = e.vid.length
  room : L.HasRoom e
  len : e.len ≤ 32
  vids : ∀ v ∈ e.vid, v < 2 ^ 16

/-- There is room for eight gateways. -/
theorem RtbdLayout.hasRoom_of_fits (L : RtbdLayout) {e : FibNode} (h : e.Fits) : L.HasRoom e where
  pos := h.pos
  count := by
    have hle := h.le
    have hpow := Nat.le_self_pow (Nat.ne_of_gt L.gw_count_width) 256
    omega
  send := by
    have hmul : e.gw.length * L.hop ≤ 8 * L.hop := Nat.mul_le_mul_right _ h.le
    have hroom := L.room
    omega

namespace RtbdLayout

variable (L : RtbdLayout)

/-- What the memory had in the place of the `type` of the record at `r1`. -/
def typeAt (mem : ℕ → UInt8) (r1 : ℕ) : ℕ := num mem (r1 + L.type.off) L.type.width

/-- The IPv6 route that the record of an entry at `r1` passes for. -/
def routeV6At (m : ℕ → UInt8) (e : FibNode) (r1 : ℕ) : RtbdRouteV6Msg where
  op := .RRTO_ADD
  dst := ip6Of (num m (r1 + L.dst_v6) 16)
  dst_len := e.len
  gw := ip6Of (num m (L.hopAt r1 0 + L.gw_v6) 16)
  vid := e.vid.headD 0

/-- What a unit reads from the messages for some records that lie in the memory `m`, where `mem` was
before. -/
def cmds (mem m : ℕ → UInt8) : List FibNode → ℕ → List RtbdCmd
  | [], _ => []
  | e :: es, r1 =>
    (if L.typeAt mem r1 = AF_INET then .route e.routeMsg
      else if L.typeAt mem r1 = AF_INET6 then .routeV6 (L.routeV6At m e r1) else .ignored) ::
      cmds mem m es (r1 + L.recordSize e)

variable {L} {m m' mem : ℕ → UInt8} {e : FibNode} {es : List FibNode} {r1 : ℕ}

theorem hopAt_le {j k : ℕ} (hjk : j < k) (r1 : ℕ) : L.hopAt r1 j + L.hop ≤ L.hopAt r1 k := by
  have hmul : (j + 1) * L.hop ≤ k * L.hop := Nat.mul_le_mul_right _ hjk
  rw [Nat.add_mul, Nat.one_mul] at hmul
  simp only [hopAt]
  omega

theorem hopAt_length (e : FibNode) (r1 : ℕ) : L.hopAt r1 e.vid.length = r1 + L.recordSize e :=
  Nat.add_assoc ..

/-- Members of next hops. -/
theorem hop_write_within {f : Member} (hf : f ∈ [L.gw, L.vid]) {j n : ℕ} (hj : j < n) (r1 v : ℕ) :
    (f.write (L.hopAt r1 j) v).Within (r1 + L.gws) (L.hopAt r1 n) := by
  have hin := L.hop_inside f hf
  have hle := hopAt_le (L := L) hj r1
  unfold Write.Within Member.write
  simp only [hopAt] at hle ⊢
  omega

theorem hop_write_apart {f f' : Member} (hf : f ∈ [L.gw, L.vid]) (hf' : f' ∈ [L.gw, L.vid])
    {j k : ℕ}
    (h : j ≠ k ∨ f.Apart f') (r1 v v' : ℕ) :
    (f.write (L.hopAt r1 j) v).Apart (f'.write (L.hopAt r1 k) v') := by
  have hin := L.hop_inside f hf
  have hin' := L.hop_inside f' hf'
  by_cases hjk : j = k
  · subst hjk
    exact (h.resolve_left fun hne => hne rfl).write _ _ _
  · rcases Nat.lt_or_gt_of_ne hjk with hlt | hlt
    all_goals
      have hle := hopAt_le (L := L) hlt r1
      unfold Write.Apart Member.write
      simp only [hopAt] at hle ⊢
      omega

/-- The writes of the next hops. -/
theorem mem_hops (f : Member) {α : Type} {l : List α} (val : α → ℕ) {w : Write}
    (hw : w ∈ l.zipIdx.map fun x => f.write (L.hopAt r1 x.2) (val x.1)) :
    ∃ j < l.length, ∃ v, w = f.write (L.hopAt r1 j) v := by
  obtain ⟨⟨x, j⟩, hx, rfl⟩ := List.mem_map.mp hw
  have hj := (List.mem_zipIdx' hx).1
  exact ⟨j, hj, _, rfl⟩

theorem hops_apart {f : Member} (hf : f ∈ [L.gw, L.vid]) {α : Type} (l : List α) (val : α → ℕ)
    (r1 : ℕ) :
    (l.zipIdx.map fun x => f.write (L.hopAt r1 x.2) (val x.1)).Pairwise Write.Apart := by
  rw [List.pairwise_map]
  have hnodup : l.zipIdx.Pairwise fun x y => x.2 ≠ y.2 := by
    rw [← List.pairwise_map (f := Prod.snd) (R := (· ≠ ·)), List.zipIdx_map_snd]
    exact List.nodup_range'
  exact hnodup.imp fun hne => hop_write_apart hf hf (Or.inl hne) r1 _ _

/-- The members of the header, in the order in which they are written. -/
theorem header_apart (r1 a b c d : ℕ) :
    [L.op.write r1 a, L.dst.write r1 b, L.dst_len.write r1 c, L.gw_count.write r1 d].Pairwise
      Write.Apart := by
  have h := L.apart.of_cons
  have hwrite : ∀ f f' : Member, f.Apart f' → ∀ v v', (f.write r1 v).Apart (f'.write r1 v') :=
    fun f f' hff v v' => Member.Apart.write hff r1 v v'
  simp only [List.pairwise_cons, List.mem_cons, List.not_mem_nil, or_false, forall_eq_or_imp,
    forall_eq,
    IsEmpty.forall_iff, implies_true, List.Pairwise.nil, and_true] at h ⊢
  obtain ⟨⟨h₁, h₂, h₃⟩, ⟨h₄, h₅⟩, h₆⟩ := h
  exact ⟨⟨hwrite _ _ h₁ _ _, hwrite _ _ h₂ _ _, hwrite _ _ h₃ _ _⟩,
    ⟨hwrite _ _ h₄ _ _, hwrite _ _ h₅ _ _⟩,
    hwrite _ _ h₆ _ _⟩

theorem header_within {f : Member} (hf : f ∈ [L.type, L.op, L.dst, L.dst_len, L.gw_count])
    (r1 v : ℕ) :
    (f.write r1 v).Within r1 (r1 + L.gws) := by
  have hin := L.inside f hf
  simp only [Write.Within, Member.write]
  omega

/-- A write of a record is one of the header or of a next hop. -/
theorem mem_recordWrites (he : e.gw.length = e.vid.length) {w : Write}
    (hw : w ∈ L.recordWrites e r1) :
    (∃ f ∈ [L.op, L.dst, L.dst_len, L.gw_count], ∃ v, w = f.write r1 v) ∨
      ∃ f ∈ [L.gw, L.vid], ∃ j < e.vid.length, ∃ v, w = f.write (L.hopAt r1 j) v := by
  unfold recordWrites at hw
  rcases List.mem_append.mp hw with hw | hw
  · rcases List.mem_append.mp hw with hw | hw
    · rcases List.mem_append.mp hw with hw | hw
      · left
        simp only [List.mem_cons, List.not_mem_nil, or_false] at hw
        rcases hw with rfl | rfl | rfl
        · exact ⟨L.op, by simp, _, rfl⟩
        · exact ⟨L.dst, by simp, _, rfl⟩
        · exact ⟨L.dst_len, by simp, _, rfl⟩
      · obtain ⟨j, hj, v, rfl⟩ := mem_hops L.gw (fun a => (htonl a).toNat) hw
        exact Or.inr ⟨L.gw, by simp, j, he ▸ hj, v, rfl⟩
    · obtain ⟨j, hj, v, rfl⟩ := mem_hops L.vid (fun v => v) hw
      exact Or.inr ⟨L.vid, by simp, j, hj, v, rfl⟩
  · rw [List.mem_singleton.mp hw]
    exact Or.inl ⟨L.gw_count, by simp, _, rfl⟩

/-- The writes of a record stay within it. -/
theorem recordWrites_within (he : e.gw.length = e.vid.length) :
    ∀ w ∈ L.recordWrites e r1, w.Within r1 (r1 + L.recordSize e) := by
  intro w hw
  rcases mem_recordWrites he hw with ⟨f, hf, v, rfl⟩ | ⟨f, hf, j, hj, v, rfl⟩
  · obtain ⟨hlo, hhi⟩ := header_within (L := L) (List.mem_cons_of_mem _ hf) r1 v
    exact ⟨hlo, hhi.trans (Nat.add_le_add_left (Nat.le_add_right _ _) _)⟩
  · obtain ⟨hlo, hhi⟩ := hop_write_within hf hj r1 v
    exact ⟨(Nat.le_add_right _ _).trans hlo, hhi.trans (hopAt_length e r1).le⟩

/-- The writes of a record are apart from each other. -/
theorem recordWrites_apart (e : FibNode) (r1 : ℕ) : (L.recordWrites e r1).Pairwise Write.Apart := by
  have hheader := header_apart (L := L) r1 L.RRTO_ADD (htonl e.pfx).toNat e.len e.vid.length
  rw [List.pairwise_cons, List.pairwise_cons, List.pairwise_cons] at hheader
  obtain ⟨hop, hdst, hlen, -⟩ := hheader
  -- the header lies below the next hops
  have hbelow : ∀ f ∈ [L.op, L.dst, L.dst_len, L.gw_count], ∀ v, ∀ f' ∈ [L.gw, L.vid], ∀ j v',
      (f.write r1 v).Apart (f'.write (L.hopAt r1 j) v') := by
    intro f hf v f' hf' j v'
    obtain ⟨-, hhi⟩ := header_within (L := L) (List.mem_cons_of_mem _ hf) r1 v
    obtain ⟨hlo, -⟩ := hop_write_within (L := L) hf' (Nat.lt_succ_self j) r1 v'
    exact Or.inl (hhi.trans hlo)
  have hgw : L.gw ∈ [L.gw, L.vid] := by simp
  have hvid : L.vid ∈ [L.gw, L.vid] := by simp
  have hgws := hops_apart hgw e.gw (fun a => (htonl a).toNat) r1
  have hvids := hops_apart hvid e.vid (fun v => v) r1
  unfold recordWrites
  refine List.pairwise_append.mpr ⟨List.pairwise_append.mpr ⟨List.pairwise_append.mpr
    ⟨?_, hgws, ?_⟩, hvids, ?_⟩, List.pairwise_singleton .., ?_⟩
  · simp only [List.pairwise_cons, List.mem_cons, List.not_mem_nil, or_false, forall_eq_or_imp,
      forall_eq,
      IsEmpty.forall_iff, implies_true, List.Pairwise.nil, and_true]
    exact ⟨⟨hop _ (by simp), hop _ (by simp)⟩, hdst _ (by simp)⟩
  · intro w hw w' hw'
    obtain ⟨j, -, v', rfl⟩ := mem_hops L.gw (fun a => (htonl a).toNat) hw'
    simp only [List.mem_cons, List.not_mem_nil, or_false] at hw
    rcases hw with rfl | rfl | rfl
    · exact hbelow L.op (by simp) _ _ hgw _ _
    · exact hbelow L.dst (by simp) _ _ hgw _ _
    · exact hbelow L.dst_len (by simp) _ _ hgw _ _
  · intro w hw w' hw'
    obtain ⟨j, -, v', rfl⟩ := mem_hops L.vid (fun v => v) hw'
    rcases List.mem_append.mp hw with hw | hw
    · simp only [List.mem_cons, List.not_mem_nil, or_false] at hw
      rcases hw with rfl | rfl | rfl
      · exact hbelow L.op (by simp) _ _ hvid _ _
      · exact hbelow L.dst (by simp) _ _ hvid _ _
      · exact hbelow L.dst_len (by simp) _ _ hvid _ _
    · obtain ⟨k, -, v, rfl⟩ := mem_hops L.gw (fun a => (htonl a).toNat) hw
      exact hop_write_apart hgw hvid (Or.inr L.hop_apart) r1 v v'
  · intro w hw w' hw'
    rw [List.mem_singleton.mp hw']
    rcases List.mem_append.mp hw with hw | hw
    · rcases List.mem_append.mp hw with hw | hw
      · simp only [List.mem_cons, List.not_mem_nil, or_false] at hw
        rcases hw with rfl | rfl | rfl
        · exact hop _ (by simp)
        · exact hdst _ (by simp)
        · exact hlen _ (by simp)
      · obtain ⟨j, -, v, rfl⟩ := mem_hops L.gw (fun a => (htonl a).toNat) hw
        exact (hbelow L.gw_count (by simp) _ _ hgw _ _).symm
    · obtain ⟨j, -, v, rfl⟩ := mem_hops L.vid (fun v => v) hw
      exact (hbelow L.gw_count (by simp) _ _ hvid _ _).symm

/-- The record of a route is at `r1`; its `type` is that of the memory before. -/
structure Written (L : RtbdLayout) (mem m : ℕ → UInt8) (e : FibNode) (r1 : ℕ) : Prop where
  op : num m (r1 + L.op.off) L.op.width = L.RRTO_ADD
  dst : num m (r1 + L.dst.off) L.dst.width = (htonl e.pfx).toNat
  dst_len : num m (r1 + L.dst_len.off) L.dst_len.width = e.len
  gw_count : num m (r1 + L.gw_count.off) L.gw_count.width = e.vid.length
  gw : ∀ j (hj : j < e.gw.length), num m (L.hopAt r1 j + L.gw.off) L.gw.width =
    (htonl e.gw[j]).toNat
  vid : ∀ j (hj : j < e.vid.length), num m (L.hopAt r1 j + L.vid.off) L.vid.width = e.vid[j]
  type : num m (r1 + L.type.off) L.type.width = L.typeAt mem r1

/-- A record is there after it was written. -/
theorem written_recordWrites (he : e.Sendable L) (r1 : ℕ) (mem : ℕ → UInt8) :
    Written L mem (writes (L.recordWrites e r1) mem) e r1 := by
  have hread : ∀ w ∈ L.recordWrites e r1, w.val < 256 ^ w.width →
      num (writes (L.recordWrites e r1) mem) w.pos w.width = w.val :=
    fun w hw hv => Buffer.num_writes_of_mem (recordWrites_apart e r1) hw hv
  have hip : ∀ a : Ip4, a.toNat < 256 ^ 4 := fun a => a.isLt
  have hpow : ∀ {n v : ℕ}, 1 ≤ n → v < 256 → v < 256 ^ n := fun hn hv =>
    hv.trans_le (Nat.le_self_pow (Nat.ne_of_gt hn) 256)
  have hvid := he.vid
  refine ⟨hread (L.op.write r1 _) (by simp [recordWrites]) L.op_lt,
    hread (L.dst.write r1 (htonl e.pfx).toNat) (by simp [recordWrites]) ?_,
    hread (L.dst_len.write r1 _) (by simp [recordWrites]) (hpow L.dst_len_width ?_),
    hread (L.gw_count.write r1 _) (by simp [recordWrites]) (hvid ▸ he.room.count),
    fun j hj => hread (L.gw.write (L.hopAt r1 j) (htonl e.gw[j]).toNat) ?_ ?_,
    fun j hj => hread (L.vid.write (L.hopAt r1 j) e.vid[j]) ?_ ?_, ?_⟩
  · show (htonl e.pfx).toNat < 256 ^ L.dst.width
    rw [L.dst_width]
    exact hip _
  · exact Nat.lt_of_le_of_lt he.len (by decide)
  · simp only [recordWrites, List.mem_append, List.mem_map]
    exact Or.inl (Or.inl (Or.inr ⟨(e.gw[j], j), by simp [List.mem_zipIdx_iff_getElem?, hj], rfl⟩))
  · show (htonl e.gw[j]).toNat < 256 ^ L.gw.width
    rw [L.gw_width]
    exact hip _
  · simp only [recordWrites, List.mem_append, List.mem_map]
    exact Or.inl (Or.inr ⟨(e.vid[j], j), by simp [List.mem_zipIdx_iff_getElem?, hj], rfl⟩)
  · have hv := he.vids e.vid[j] (List.getElem_mem hj)
    show e.vid[j] < 256 ^ L.vid.width
    rw [L.vid_width]
    omega
  · -- no write is in the place of `type`
    refine Buffer.num_writes_of_apart fun w hw => ?_
    rcases mem_recordWrites hvid hw with ⟨f, hf, v, rfl⟩ | ⟨f, hf, j, -, v, rfl⟩
    · exact ((List.pairwise_cons.mp L.apart).1 f hf).write r1 0 v
    · obtain ⟨-, hhi⟩ := header_within (L := L) (f := L.type) List.mem_cons_self r1 0
      obtain ⟨hlo, -⟩ := hop_write_within (L := L) hf (Nat.lt_succ_self j) r1 v
      exact Or.inl (hhi.trans hlo)

/-- A record does not depend on what lies outside of it. -/
theorem Written.congr (h : Written L mem m e r1) (he : e.gw.length = e.vid.length)
    (hm : ∀ q, r1 ≤ q → q < r1 + L.recordSize e → m' q = m q) : Written L mem m' e r1 := by
  have hgws := L.gws_le
  -- a number between the two ends of the record
  have hnum : ∀ {p n : ℕ}, r1 ≤ p → p + n ≤ r1 + L.recordSize e → num m' p n = num m p n :=
    fun hlo hhi => Buffer.num_congr fun i hi => hm _ (by omega) (by omega)
  have hheader : ∀ f ∈ [L.type, L.op, L.dst, L.dst_len, L.gw_count],
      num m' (r1 + f.off) f.width = num m (r1 + f.off) f.width := fun f hf => by
    obtain ⟨hlo, hhi⟩ := header_within (L := L) hf r1 0
    exact hnum hlo (hhi.trans (Nat.add_le_add_left (Nat.le_add_right _ _) _))
  have hhop : ∀ f ∈ [L.gw, L.vid], ∀ j < e.vid.length,
      num m' (L.hopAt r1 j + f.off) f.width = num m (L.hopAt r1 j + f.off) f.width :=
        fun f hf j hj => by
    obtain ⟨hlo, hhi⟩ := hop_write_within (L := L) hf hj r1 0
    exact hnum ((Nat.le_add_right _ _).trans hlo) (hhi.trans (hopAt_length e r1).le)
  exact {
    op := (hheader L.op (by simp)).trans h.op
    dst := (hheader L.dst (by simp)).trans h.dst
    dst_len := (hheader L.dst_len (by simp)).trans h.dst_len
    gw_count := (hheader L.gw_count (by simp)).trans h.gw_count
    gw := fun j hj => (hhop L.gw (by simp) j (he ▸ hj)).trans (h.gw j hj)
    vid := fun j hj => (hhop L.vid (by simp) j hj).trans (h.vid j hj)
    type := (hheader L.type (by simp)).trans h.type }

/-- The records of some routes are there, one after the other. -/
def AllWritten (L : RtbdLayout) (mem m : ℕ → UInt8) : List FibNode → ℕ → Prop
  | [], _ => True
  | e :: es, r1 => Written L mem m e r1 ∧ AllWritten L mem m es (r1 + L.recordSize e)

/-- Where the records of some routes end. -/
def recordsEnd (L : RtbdLayout) (es : List FibNode) (r1 : ℕ) : ℕ :=
  r1 + (es.map L.recordSize).sum

theorem recordsEnd_cons (e : FibNode) (es : List FibNode) (r1 : ℕ) :
    recordsEnd L (e :: es) r1 = recordsEnd L es (r1 + L.recordSize e) := by
  rw [recordsEnd, List.map_cons, List.sum_cons, ← Nat.add_assoc]
  rfl

theorem recordsWrites_within (hes : ∀ e ∈ es, e.Sendable L) :
    ∀ w ∈ L.recordsWrites es r1, w.Within r1 (recordsEnd L es r1) := by
  induction es generalizing r1 with
  | nil => exact fun w hw => absurd hw List.not_mem_nil
  | cons e es ih =>
    obtain ⟨he, hes⟩ := List.forall_mem_cons.mp hes
    intro w hw
    rw [recordsEnd_cons]
    rcases List.mem_append.mp hw with hw | hw
    · obtain ⟨hlo, hhi⟩ := recordWrites_within he.vid w hw
      exact ⟨hlo, hhi.trans (Nat.le_add_right _ _)⟩
    · obtain ⟨hlo, hhi⟩ := ih hes w hw
      exact ⟨(Nat.le_add_right _ _).trans hlo, hhi⟩

/-- `typeAt` looks only at what is written later. -/
theorem AllWritten.of_mem (h : AllWritten L m' m es r1) (hm : ∀ q, r1 ≤ q → m' q = mem q) :
    AllWritten L mem m es r1 := by
  induction es generalizing r1 with
  | nil => trivial
  | cons e es ih =>
    refine ⟨{ h.1 with type := h.1.type.trans (Buffer.num_congr fun i _ => hm _ ?_) },
      ih h.2 fun q hq => hm q ((Nat.le_add_right _ _).trans hq)⟩
    rw [Nat.add_assoc]
    exact Nat.le_add_right _ _

/-- All records are there after the loop. -/
theorem allWritten_recordsWrites (hes : ∀ e ∈ es, e.Sendable L) (r1 : ℕ) (mem : ℕ → UInt8) :
    AllWritten L mem (writes (L.recordsWrites es r1) mem) es r1 := by
  induction es generalizing r1 mem with
  | nil => trivial
  | cons e es ih =>
    obtain ⟨he, hes⟩ := List.forall_mem_cons.mp hes
    rw [recordsWrites, Buffer.writes_append]
    have hrecord := written_recordWrites (L := L) he r1 mem
    have hrest := ih hes (r1 + L.recordSize e) (writes (L.recordWrites e r1) mem)
    refine ⟨hrecord.congr he.vid fun q _ hq => ?_, hrest.of_mem fun q hq => ?_⟩
    · -- the records that follow lie above this one
      refine Buffer.writes_of_not_mem fun w hw => Or.inl ?_
      exact hq.trans_le (recordsWrites_within hes w hw).1
    · refine Buffer.writes_of_not_mem fun w hw => Or.inr ?_
      exact (recordWrites_within he.vid w hw).2.trans hq

/-! ## The messages -/

/-- The buffer has room for the records, and for what `fdbman_sync_routing` sends with the last
one. -/
theorem recordsEnd_le (hes : ∀ e ∈ es, e.Sendable L) (r1 : ℕ) :
    recordsEnd L es r1 + (L.msg - L.gws) * es.length ≤
      r1 + L.msg * es.length + L.hop * (es.map fun e => e.gw.length).sum := by
  have hgws := L.gws_le
  induction es generalizing r1 with
  | nil => simp [recordsEnd]
  | cons e es ih =>
    obtain ⟨he, hes⟩ := List.forall_mem_cons.mp hes
    have hih := ih hes (r1 + L.recordSize e)
    rw [recordsEnd_cons, List.map_cons, List.sum_cons, List.length_cons]
    rw [recordSize, ← he.vid] at hih ⊢
    simp only [Nat.mul_add, Nat.mul_one, Nat.mul_comm L.hop e.gw.length] at hih ⊢
    omega

theorem mapM_eq_some_map {α β : Type} {f : α → Option β} {g : α → β} {l : List α}
    (h : ∀ x ∈ l, f x = some (g x)) : l.mapM f = some (l.map g) := by
  induction l with
  | nil => rfl
  | cons x l ih =>
    obtain ⟨hx, hl⟩ := List.forall_mem_cons.mp h
    rw [List.mapM_cons, hx, ih hl]
    rfl

/-- What a unit reads from the message of a record. -/
theorem receive_record (h : Written L mem m e r1) (he : e.Sendable L) (hr1 : L.notif ≤ r1)
    (hnotif : num m (r1 - L.notif) L.notif = L.RCN_ROUTE) :
    L.receive (bytesAt m (r1 - L.notif) (L.msg + e.vid.length * L.hop + L.notif)) =
      some (if L.typeAt mem r1 = AF_INET then .route e.routeMsg
        else if L.typeAt mem r1 = AF_INET6 then .routeV6 (L.routeV6At m e r1) else .ignored) := by
  have hgws := L.gws_le
  have hsub : ∀ k, r1 - L.notif + (L.notif + k) = r1 + k := fun k => by omega
  -- what is read from the header, and from a next hop
  have hin : ∀ off n, off + n ≤ L.gws →
      (Buf.ofList (bytesAt m (r1 - L.notif) (L.msg + e.vid.length * L.hop + L.notif))).get
        (L.notif + off) n = some (num m (r1 + off) n) := fun off n hoff => by
    rw [Buf.get_ofList_bytesAt (by omega), hsub]
  have hheader : ∀ f ∈ [L.type, L.op, L.dst, L.dst_len, L.gw_count],
      (Buf.ofList (bytesAt m (r1 - L.notif) (L.msg + e.vid.length * L.hop + L.notif))).get
        (L.notif + f.off) f.width = some (num m (r1 + f.off) f.width) := fun f hf =>
    hin f.off f.width (L.inside f hf)
  have hnext : ∀ j < e.vid.length, ∀ off n, off + n ≤ L.hop →
      (Buf.ofList (bytesAt m (r1 - L.notif) (L.msg + e.vid.length * L.hop + L.notif))).get
        (L.hopAt L.notif j + off) n = some (num m (L.hopAt r1 j + off) n) :=
          fun j hj off n hoff => by
    have hle := hopAt_le (L := L) hj L.notif
    simp only [hopAt] at hle ⊢
    rw [Buf.get_ofList_bytesAt (by omega)]
    refine congrArg (fun p => some (num m p n)) ?_
    omega
  have hhop : ∀ f ∈ [L.gw, L.vid], ∀ j < e.vid.length,
      (Buf.ofList (bytesAt m (r1 - L.notif) (L.msg + e.vid.length * L.hop + L.notif))).get
        (L.hopAt L.notif j + f.off) f.width = some (num m (L.hopAt r1 j + f.off) f.width) :=
    fun f hf j hj => hnext j hj f.off f.width (L.hop_inside f hf)
  have hfirst : (Buf.ofList (bytesAt m (r1 - L.notif)
      (L.msg + e.vid.length * L.hop + L.notif))).get 0 L.notif = some L.RCN_ROUTE := by
    rw [Buf.get_ofList_bytesAt (by omega), Nat.add_zero, hnotif]
  have hpos : 0 < e.vid.length := he.vid ▸ he.room.pos
  have hdst := hin L.dst_v6 16 L.dst_v6_inside
  have hgwV6 := hnext 0 hpos L.gw_v6 16 L.gw_v6_inside
  have hvid0 : num m (L.hopAt r1 0 + L.vid.off) L.vid.width = e.vid.headD 0 := by
    rw [h.vid 0 hpos, ← List.getD_eq_getElem _ 0 hpos]
    cases e.vid <;> rfl
  unfold receive
  generalize Buf.ofList (bytesAt m _ _) = b at hheader hhop hfirst hdst hgwV6 ⊢
  have hgw : (List.range e.vid.length).mapM (fun i => do
      let addr ← b.get (L.hopAt L.notif i + L.gw.off) L.gw.width
      let vid ← b.get (L.hopAt L.notif i + L.vid.off) L.vid.width
      some (⟨htonl (BitVec.ofNat 32 addr), vid⟩ : Gw)) = some (List.zipWith Gw.mk e.gw e.vid) := by
    rw [mapM_eq_some_map (g := fun i => (⟨e.gw.getD i 0, e.vid.getD i 0⟩ : Gw)) fun i hi => ?_]
    · refine congrArg some (List.ext_getElem ?_ fun i hi hi' => ?_)
      · rw [List.length_map, List.length_range, List.length_zipWith, he.vid, Nat.min_self]
      · rw [List.length_map, List.length_range] at hi
        rw [List.getElem_map, List.getElem_range, List.getElem_zipWith, List.getD_eq_getElem _ _ hi,
          List.getD_eq_getElem _ _ (he.vid ▸ hi)]
    · have hi := List.mem_range.mp hi
      rw [hhop L.gw (by simp) i hi, hhop L.vid (by simp) i hi, h.gw i (he.vid ▸ hi), h.vid i hi,
        List.getD_eq_getElem _ _ hi, List.getD_eq_getElem _ _ (he.vid ▸ hi)]
      simp only [Option.bind_eq_bind, Option.bind_some, BitVec.ofNat_toNat, BitVec.setWidth_eq,
        htonl_htonl]
  have hop : L.routeOp L.RRTO_ADD = .RRTO_ADD := if_pos rfl
  simp only [hfirst, hheader L.dst_len (by simp), hheader L.type (by simp), hheader L.dst (by simp),
    hheader L.gw_count (by simp), hheader L.op (by simp), hdst, hgwV6, hhop L.vid (by simp) 0 hpos,
    hvid0, h.dst_len, h.type, h.dst, h.gw_count, h.op, hop, Option.bind_eq_bind, Option.bind_some,
    ne_eq, not_true_eq_false, if_false] at hgw ⊢
  rw [hgw]
  simp only [Option.bind_some, BitVec.ofNat_toNat, BitVec.setWidth_eq, htonl_htonl]
  split_ifs
  · rfl
  · rfl
  · rfl

/-- The IPv6 route of a record depends on its bytes only. -/
theorem routeV6At_congr (e : FibNode) (hm : ∀ q, r1 ≤ q → m' q = m q) :
    L.routeV6At m' e r1 = L.routeV6At m e r1 := by
  have hdst : num m' (r1 + L.dst_v6) 16 = num m (r1 + L.dst_v6) 16 :=
    Buffer.num_congr fun i _ => hm _ (by omega)
  have hgw : num m' (L.hopAt r1 0 + L.gw_v6) 16 = num m (L.hopAt r1 0 + L.gw_v6) 16 := by
    refine Buffer.num_congr fun i _ => hm _ ?_
    simp only [hopAt]
    omega
  rw [routeV6At, routeV6At, hdst, hgw]

/-- The loop sends each record once. -/
theorem syncLoop_records {b : Buf} (h : AllWritten L mem m es r1)
    (hb : ∀ q, r1 ≤ q → b.byte q = m q)
    (hes : ∀ e ∈ es, e.Sendable L) (hr1 : L.notif ≤ r1)
    (hsize : recordsEnd L es r1 + (L.msg - L.gws) * es.length ≤ b.size) :
    ∃ msgs, syncLoop L es.length b r1 = some msgs ∧
      msgs.mapM L.receive = some (L.cmds mem m es r1) := by
  have hgws := L.gws_le
  induction es generalizing r1 b with
  | nil => exact ⟨[], rfl, rfl⟩
  | cons e es ih =>
    obtain ⟨he, hes⟩ := List.forall_mem_cons.mp hes
    rw [recordsEnd_cons, List.length_cons, Nat.mul_add, Nat.mul_one] at hsize
    have hrest : r1 + L.recordSize e ≤ recordsEnd L es (r1 + L.recordSize e) := Nat.le_add_right _ _
    have hcount : L.recordSize e = L.gws + e.vid.length * L.hop := rfl
    -- the notification is written below the record
    have hput : b.put ⟨r1 - L.notif, L.notif, L.RCN_ROUTE⟩ =
        some { b with byte := Write.apply b.byte ⟨r1 - L.notif, L.notif, L.RCN_ROUTE⟩ } :=
      if_pos (by simp only; omega)
    have habove : ∀ q, r1 ≤ q →
        Write.apply b.byte ⟨r1 - L.notif, L.notif, L.RCN_ROUTE⟩ q = m q := fun q hq =>
      (Write.apply_of_not_mem (Or.inr (by simp only; omega))).trans (hb q hq)
    have hnotif := Write.num_apply (m := b.byte)
        (w := ⟨r1 - L.notif, L.notif, L.RCN_ROUTE⟩) L.notif_lt
    generalize Write.apply b.byte ⟨r1 - L.notif, L.notif, L.RCN_ROUTE⟩ = byte at hput habove hnotif
    have hrecord : Written L mem byte e r1 := h.1.congr he.vid fun q hq _ => habove q hq
    obtain ⟨hcountlo, hcounthi⟩ := header_within (L := L) (f := L.gw_count) (by simp) r1 0
    have hget : Buf.get { b with byte := byte } (r1 + L.gw_count.off) L.gw_count.width =
        some e.vid.length := by
      refine (Buf.get_eq_some ?_).trans (congrArg some hrecord.gw_count)
      simp only [Member.write] at hcounthi
      simp only
      omega
    have hcopy : Buf.copy { b with byte := byte } (r1 - L.notif)
        (L.msg + e.vid.length * L.hop + L.notif) =
        some (bytesAt byte (r1 - L.notif) (L.msg + e.vid.length * L.hop + L.notif)) :=
      if_pos (by simp only; omega)
    have hsend : fdbmanSendRtbd L
        (bytesAt byte (r1 - L.notif) (L.msg + e.vid.length * L.hop + L.notif)) =
        some (bytesAt byte (r1 - L.notif) (L.msg + e.vid.length * L.hop + L.notif)) := by
      refine if_pos ?_
      rw [Buffer.length_bytesAt, ← he.vid]
      exact he.room.send
    obtain ⟨msgs, hmsgs, hreceive⟩ := ih (b := { b with byte := byte }) h.2
      (fun q hq => habove q ((Nat.le_add_right _ _).trans hq)) hes
      (hr1.trans (Nat.le_add_right _ _)) (by simp only; omega)
    refine ⟨bytesAt byte (r1 - L.notif) (L.msg + e.vid.length * L.hop + L.notif) :: msgs, ?_, ?_⟩
    · rw [hcount, ← Nat.add_assoc] at hmsgs
      rw [List.length_cons, syncLoop, hput]
      simp only [Option.bind_eq_bind, Option.bind_some, hget, hcopy, hsend, hmsgs]
    · rw [List.mapM_cons, receive_record hrecord he hr1 hnotif, hreceive,
        routeV6At_congr e habove]
      rfl

end RtbdLayout

/-- What the master sends to a new unit is read back: the loops stay within the buffers, and from
the messages the unit reads the routes whose record has `type` `AF_INET` by chance. -/
theorem sync_of_sendable (L : RtbdLayout) (mem : ℕ → UInt8) {f : Fib}
    (hes : ∀ e ∈ exported f, e.Sendable L) (hn : (exported f).length < 2 ^ 32) :
    ∃ p msgs, fibGetRoutes L f mem = some p ∧ fdbmanSyncRouting L p = some msgs ∧
      msgs.mapM L.receive = some (L.cmds mem p.byte (exported f) 4) := by
  have hend := RtbdLayout.recordsEnd_le (L := L) hes 4
  have hpos : 4 + L.msg * (exported f).length + L.hop *
      ((exported f).map fun e => e.gw.length).sum =
    L.bufferSize (exported f) := rfl
  have hlo : 4 ≤ RtbdLayout.recordsEnd L (exported f) 4 := Nat.le_add_right _ _
  have hwithin : ∀ w ∈ L.recordsWrites (exported f) 4,
      w.Within 4 (RtbdLayout.recordsEnd L (exported f) 4) := RtbdLayout.recordsWrites_within hes
  have hputs : fibGetRoutes L f mem = some ⟨L.bufferSize (exported f),
      writes (⟨0, 4, (exported f).length⟩ :: L.recordsWrites (exported f) 4) mem⟩ := by
    refine Buf.putAll_eq_some (List.forall_mem_cons.mpr ⟨by simp only; omega, fun w hw => ?_⟩)
    obtain ⟨-, hhi⟩ := hwithin w hw
    simp only
    omega
  -- the number of records lies below them
  have hcount : num (writes
      (⟨0, 4, (exported f).length⟩ :: L.recordsWrites (exported f) 4) mem) 0 4 =
      (exported f).length := by
    refine (Buffer.num_writes_of_apart fun w hw => Or.inl (hwithin w hw).1).trans ?_
    exact Write.num_apply (w := ⟨0, 4, (exported f).length⟩) hn
  have hwritten : RtbdLayout.AllWritten L mem
      (writes (⟨0, 4, (exported f).length⟩ :: L.recordsWrites (exported f) 4) mem)
          (exported f) 4 := by
    refine (RtbdLayout.allWritten_recordsWrites hes 4 _).of_mem fun q hq => ?_
    exact Write.apply_of_not_mem (Or.inr hq)
  generalize writes (⟨0, 4, (exported f).length⟩ :: L.recordsWrites (exported f) 4) mem = byte
    at hputs hcount hwritten
  obtain ⟨msgs, hmsgs, hreceive⟩ := RtbdLayout.syncLoop_records
    (b := ⟨L.bufferSize (exported f), byte⟩) hwritten (fun _ _ => rfl) hes L.notif_le
      (by simp only; omega)
  refine ⟨_, msgs, hputs, ?_, hreceive⟩
  rw [fdbmanSyncRouting, Buf.get_eq_some (by simp only; omega), hcount]
  exact hmsgs

end Presteramgr
