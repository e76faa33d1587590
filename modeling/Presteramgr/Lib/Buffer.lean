import Mathlib.Algebra.Order.Ring.Nat
import Mathlib.Data.List.GetD
import Mathlib.Tactic.Common

/-!
# Numbers in a buffer

A buffer is an array of bytes. Numbers are written to it and read from it with the lowest byte
first, and accesses that go beyond it fail.

## Main definitions

* `Buf`: a buffer, with `Buf.get`, `Buf.put` and `Buf.copy`;
* `Write`: a number, with the place where it is written;
* `Member`: the place of a member of a record.

## Main results

* `putAll_eq_some`: writes within the buffer succeed;
* `num_writes_of_mem` and `num_writes_of_apart`: of writes that are apart from each other, each can
  be read back, and nothing else has changed.
-/

namespace Buffer

/-- The bytes of a number of `n` bytes, the lowest first. -/
def bytesOf : ℕ → ℕ → List UInt8
  | 0, _ => []
  | n + 1, v => UInt8.ofNat (v % 256) :: bytesOf n (v / 256)

/-- The number that has these bytes. -/
def numOf : List UInt8 → ℕ
  | [] => 0
  | b :: bs => b.toNat + 256 * numOf bs

/-- A number that fits into the bytes is read back from them. -/
theorem numOf_bytesOf {n v : ℕ} (hv : v < 256 ^ n) : numOf (bytesOf n v) = v := by
  induction n generalizing v with
  | zero =>
    obtain rfl : v = 0 := by simpa using hv
    rfl
  | succ n ih =>
    have hlow : (UInt8.ofNat (v % 256)).toNat = v % 256 :=
      UInt8.toNat_ofNat_of_lt' (Nat.mod_lt _ (by decide))
    have hhigh : v / 256 < 256 ^ n :=
      Nat.div_lt_of_lt_mul (by rwa [Nat.pow_succ, Nat.mul_comm] at hv)
    rw [bytesOf, numOf, hlow, ih hhigh]
    exact Nat.mod_add_div v 256

/-- A number has as many bytes as are asked for. -/
@[simp]
theorem length_bytesOf (n v : ℕ) : (bytesOf n v).length = n := by
  induction n generalizing v with
  | zero => rfl
  | succ n ih => rw [bytesOf, List.length_cons, ih]

/-- What the bytes stand for fits into them. -/
theorem numOf_lt (bs : List UInt8) : numOf bs < 256 ^ bs.length := by
  induction bs with
  | nil => exact Nat.one_pos
  | cons b bs ih =>
    have hb : b.toNat < 256 := b.toNat_lt
    rw [numOf, List.length_cons, Nat.pow_succ]
    omega

/-- Bytes are made again from the number they stand for. -/
theorem bytesOf_numOf (bs : List UInt8) : bytesOf bs.length (numOf bs) = bs := by
  induction bs with
  | nil => rfl
  | cons b bs ih =>
    have hb : b.toNat < 256 := b.toNat_lt
    have hdiv : (b.toNat + 256 * numOf bs) / 256 = numOf bs := by omega
    have hmod : (b.toNat + 256 * numOf bs) % 256 = b.toNat := by omega
    rw [List.length_cons, bytesOf, numOf, hdiv, hmod, ih, UInt8.ofNat_toNat]

/-- A number of `n` bytes with its bytes in the other order. -/
def swapBytes (n v : ℕ) : ℕ := numOf (bytesOf n v).reverse

/-- A swapped number fits into the same bytes. -/
theorem swapBytes_lt (n v : ℕ) : swapBytes n v < 256 ^ n := by
  simpa [swapBytes] using numOf_lt (bytesOf n v).reverse

/-- Swapping the bytes twice gives the number back. -/
theorem swapBytes_swapBytes {n v : ℕ} (hv : v < 256 ^ n) : swapBytes n (swapBytes n v) = v := by
  have hbytes : bytesOf n (swapBytes n v) = (bytesOf n v).reverse := by
    simpa [swapBytes] using bytesOf_numOf (bytesOf n v).reverse
  rw [swapBytes, hbytes, List.reverse_reverse, numOf_bytesOf hv]

/-! ## Bytes by address -/

/-- The bytes from `p` on. -/
def bytesAt (m : ℕ → UInt8) (p n : ℕ) : List UInt8 := (List.range n).map fun i => m (p + i)

/-- The number of `n` bytes at `p`. -/
def num (m : ℕ → UInt8) (p n : ℕ) : ℕ := numOf (bytesAt m p n)

/-- A read of `n` bytes has `n` bytes. -/
@[simp]
theorem length_bytesAt (m : ℕ → UInt8) (p n : ℕ) : (bytesAt m p n).length = n := by
  rw [bytesAt, List.length_map, List.length_range]

/-- A read sees only the bytes of its range. -/
theorem bytesAt_congr {m m' : ℕ → UInt8} {p p' n : ℕ} (h : ∀ i < n, m (p + i) = m' (p' + i)) :
    bytesAt m p n = bytesAt m' p' n :=
  List.map_congr_left fun i hi => h i (List.mem_range.mp hi)

/-- A number is read from the bytes of its range only. -/
theorem num_congr {m m' : ℕ → UInt8} {p p' n : ℕ} (h : ∀ i < n, m (p + i) = m' (p' + i)) :
    num m p n = num m' p' n := congrArg numOf (bytesAt_congr h)

/-- A number of `width` bytes that is written at `pos`. -/
structure Write where
  pos : ℕ
  width : ℕ
  val : ℕ

namespace Write

/-- The bytes after the write. -/
def apply (m : ℕ → UInt8) (w : Write) : ℕ → UInt8 := fun q =>
  if w.pos ≤ q then (bytesOf w.width w.val).getD (q - w.pos) (m q) else m q

/-- The places of two writes have no byte in common. -/
def Apart (w w' : Write) : Prop := w.pos + w.width ≤ w'.pos ∨ w'.pos + w'.width ≤ w.pos

/-- The write stays between two addresses. -/
def Within (lo hi : ℕ) (w : Write) : Prop := lo ≤ w.pos ∧ w.pos + w.width ≤ hi

variable {m : ℕ → UInt8} {w : Write}

/-- Writes are apart whichever is named first. -/
theorem Apart.symm {w' : Write} (h : w.Apart w') : w'.Apart w := Or.symm h

/-- A write leaves the bytes outside its range alone. -/
theorem apply_of_not_mem {q : ℕ} (hq : q < w.pos ∨ w.pos + w.width ≤ q) : w.apply m q = m q := by
  unfold apply
  split_ifs with hle
  · exact List.getD_eq_default _ _ (by rw [length_bytesOf]; omega)
  · rfl

/-- A write stores the bytes of its value in order. -/
theorem apply_of_lt {i : ℕ} (hi : i < w.width) :
    w.apply m (w.pos + i) = (bytesOf w.width w.val).get ⟨i, by simpa using hi⟩ := by
  rw [apply, if_pos (Nat.le_add_right _ _), Nat.add_sub_cancel_left]
  simp [hi]

/-- What is written is read. -/
theorem num_apply (hv : w.val < 256 ^ w.width) : num (w.apply m) w.pos w.width = w.val := by
  have hbytes : bytesAt (w.apply m) w.pos w.width = bytesOf w.width w.val := by
    apply List.ext_getElem
    · simp [bytesAt]
    · intro i hi hi'
      simp only [bytesAt, List.getElem_map, List.getElem_range]
      exact apply_of_lt (by simpa using hi')
  rw [num, hbytes, numOf_bytesOf hv]

end Write

/-- The bytes after some writes. -/
def writes (ws : List Write) (m : ℕ → UInt8) : ℕ → UInt8 := ws.foldl Write.apply m

variable {ws : List Write} {m : ℕ → UInt8}

/-- No write has this byte. -/
theorem writes_of_not_mem {q : ℕ} (h : ∀ w ∈ ws, q < w.pos ∨ w.pos + w.width ≤ q) :
    writes ws m q = m q := by
  induction ws generalizing m with
  | nil => rfl
  | cons w ws ih =>
    refine (ih fun w' hw' => h w' (List.mem_cons_of_mem _ hw')).trans ?_
    exact Write.apply_of_not_mem (h w List.mem_cons_self)

/-- Two lists of writes are carried out one after the other. -/
theorem writes_append (ws ws' : List Write) (m : ℕ → UInt8) :
    writes (ws ++ ws') m = writes ws' (writes ws m) := List.foldl_append

/-- A number that no write touches is read as before. -/
theorem num_writes_of_apart {p n : ℕ} (h : ∀ w ∈ ws, p + n ≤ w.pos ∨ w.pos + w.width ≤ p) :
    num (writes ws m) p n = num m p n :=
  num_congr fun i hi => writes_of_not_mem fun w hw => by
    have hw := h w hw
    omega

/-- Of writes that are apart from each other each can be read back. -/
theorem num_writes_of_mem (hapart : ws.Pairwise Write.Apart) {w : Write} (hw : w ∈ ws)
    (hv : w.val < 256 ^ w.width) : num (writes ws m) w.pos w.width = w.val := by
  induction ws generalizing m with
  | nil => exact absurd hw List.not_mem_nil
  | cons w' ws ih =>
    obtain ⟨hhead, htail⟩ := List.pairwise_cons.mp hapart
    rcases List.mem_cons.mp hw with rfl | hw
    · exact (num_writes_of_apart fun w' hw' => hhead w' hw').trans (Write.num_apply hv)
    · exact ih htail hw

/-! ## Buffers -/

/-- A buffer of `size` bytes. -/
structure Buf where
  size : ℕ
  byte : ℕ → UInt8

namespace Buf

variable (b : Buf)

/-- The number of `n` bytes at `p`. -/
def get (p n : ℕ) : Option ℕ := if p + n ≤ b.size then some (num b.byte p n) else none

/-- A write. -/
def put (w : Write) : Option Buf :=
  if w.pos + w.width ≤ b.size then some { b with byte := w.apply b.byte } else none

/-- `memcpy` from the buffer. -/
def copy (p n : ℕ) : Option (List UInt8) :=
  if p + n ≤ b.size then some (bytesAt b.byte p n) else none

/-- Some writes, one after the other. -/
def putAll (ws : List Write) : Option Buf := ws.foldlM put b

/-- The bytes of a message. -/
def ofList (l : List UInt8) : Buf := ⟨l.length, fun i => l.getD i 0⟩

variable {b}

/-- Writes within the buffer succeed. -/
theorem putAll_eq_some {ws : List Write} (h : ∀ w ∈ ws, w.pos + w.width ≤ b.size) :
    b.putAll ws = some { b with byte := writes ws b.byte } := by
  induction ws generalizing b with
  | nil => rfl
  | cons w ws ih =>
    have hput : b.put w = some { b with byte := w.apply b.byte } := if_pos (h w List.mem_cons_self)
    rw [putAll, List.foldlM_cons, hput]
    exact ih fun w' hw' => h w' (List.mem_cons_of_mem _ hw')

/-- A read within the buffer gives its number. -/
theorem get_eq_some {p n : ℕ} (h : p + n ≤ b.size) : b.get p n = some (num b.byte p n) := if_pos h

/-- A number in a copy. -/
theorem get_ofList_bytesAt {m : ℕ → UInt8} {p n q k : ℕ} (h : q + k ≤ n) :
    (ofList (bytesAt m p n)).get q k = some (num m (p + q) k) := by
  have hsize : (ofList (bytesAt m p n)).size = n := by simp [ofList, bytesAt]
  rw [get_eq_some (by rwa [hsize])]
  refine congrArg some (num_congr fun i hi => ?_)
  have hlt : q + i < n := by omega
  simp [ofList, bytesAt, hlt, Nat.add_assoc]

end Buf

/-! ## Records -/

/-- The place of a member of a record. -/
structure Member where
  off : ℕ
  width : ℕ

namespace Member

/-- The value of a member of the record at `r`. -/
def write (f : Member) (r v : ℕ) : Write := ⟨r + f.off, f.width, v⟩

/-- Two members have no byte in common. -/
def Apart (f f' : Member) : Prop := f.off + f.width ≤ f'.off ∨ f'.off + f'.width ≤ f.off

/-- Members are apart whichever is named first. -/
theorem Apart.symm {f f' : Member} (h : f.Apart f') : f'.Apart f := Or.symm h

/-- Members that are apart are written apart, whatever the values. -/
theorem Apart.write {f f' : Member} (h : f.Apart f') (r v v' : ℕ) :
    (f.write r v).Apart (f'.write r v') := by
  unfold Apart at h
  simp only [Write.Apart, Member.write]
  omega

end Member

end Buffer
