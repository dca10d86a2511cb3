import Mathlib.Data.List.GetD
import Mathlib.Tactic.Ring

/-!
# Byte buffers as Go reads and writes them

A buffer is a list of bytes.  The buffers read here are made by `make([]byte, n)` or taken from
the wire, so their capacity is their length, and an index or a slice past it panics: the
partial readers return `none` there.  Big-endian words are read and written as
`encoding/binary.BigEndian` does, by their values.  The bits of a buffer are counted from the
most significant bit of its first byte, as address prefixes count them (`bitAt`).

Nothing here is specific to the program.
-/

namespace Zebra.Lib

/-- `binary.BigEndian.Uint16(b[i:])` on a buffer that holds the two bytes. -/
def beUint16 (b : List UInt8) (i : Nat) : UInt16 :=
  UInt16.ofNat ((b.getD i 0).toNat * 2 ^ 8 + (b.getD (i + 1) 0).toNat)

/-- `binary.BigEndian.Uint32(b[i:])` on a buffer that holds the four bytes. -/
def beUint32 (b : List UInt8) (i : Nat) : UInt32 :=
  UInt32.ofNat ((b.getD i 0).toNat * 2 ^ 24 + (b.getD (i + 1) 0).toNat * 2 ^ 16 +
    (b.getD (i + 2) 0).toNat * 2 ^ 8 + (b.getD (i + 3) 0).toNat)

/-- `binary.BigEndian.PutUint16`: the two bytes of the word, high byte first. -/
def putUint16 (v : UInt16) : List UInt8 := [UInt8.ofNat (v.toNat / 2 ^ 8), UInt8.ofNat v.toNat]

/-- `binary.BigEndian.PutUint32`: the four bytes of the word, high byte first. -/
def putUint32 (v : UInt32) : List UInt8 :=
  [UInt8.ofNat (v.toNat / 2 ^ 24), UInt8.ofNat (v.toNat / 2 ^ 16), UInt8.ofNat (v.toNat / 2 ^ 8),
    UInt8.ofNat v.toNat]

/-- `b[i]`, which panics past the end. -/
def getByte? (b : List UInt8) (i : Nat) : Option UInt8 := b[i]?

/-- `binary.BigEndian.Uint16(b[i:i+2])`, which panics past the end. -/
def getUint16? (b : List UInt8) (i : Nat) : Option UInt16 :=
  if i + 2 ≤ b.length then some (beUint16 b i) else none

/-- `binary.BigEndian.Uint32(b[i:i+4])`, which panics past the end. -/
def getUint32? (b : List UInt8) (i : Nat) : Option UInt32 :=
  if i + 4 ≤ b.length then some (beUint32 b i) else none

/-- `b[lo:hi]`, which panics when `hi` passes the end (or `lo` passes `hi`). -/
def slice? (b : List UInt8) (lo hi : Nat) : Option (List UInt8) :=
  if lo ≤ hi ∧ hi ≤ b.length then some ((b.drop lo).take (hi - lo)) else none

@[simp] lemma length_putUint16 (v : UInt16) : (putUint16 v).length = 2 := rfl

@[simp] lemma length_putUint32 (v : UInt32) : (putUint32 v).length = 4 := rfl

/-- A word is read the same behind any prefix. -/
lemma beUint16_append (pre b : List UInt8) (i : Nat) :
    beUint16 (pre ++ b) (pre.length + i) = beUint16 b i := by
  simp only [beUint16, List.getD_append_right _ _ _ _ (Nat.le_add_right _ _),
    show pre.length + i + 1 = pre.length + (i + 1) by omega, Nat.add_sub_cancel_left]

/-- A word is read the same whatever follows it. -/
lemma beUint16_append_right (b post : List UInt8) {i : Nat} (hi : i + 2 ≤ b.length) :
    beUint16 (b ++ post) i = beUint16 b i := by
  simp only [beUint16, List.getD_append _ _ _ _ (show i < b.length by omega),
    List.getD_append _ _ _ _ (show i + 1 < b.length by omega)]

/-- What `PutUint16` writes, `Uint16` reads back. -/
@[simp] lemma beUint16_putUint16 (v : UInt16) (post : List UInt8) :
    beUint16 (putUint16 v ++ post) 0 = v := by
  have hv := v.toNat_lt
  simp only [beUint16, putUint16, List.cons_append, List.getD_cons_zero, List.getD_cons_succ,
    UInt8.toNat_ofNat', Nat.reducePow]
  have hsplit : v.toNat / 256 % 256 * 256 + v.toNat % 256 = v.toNat := by omega
  rw [hsplit, UInt16.ofNat_toNat]

/-- What `PutUint32` writes, `Uint32` reads back. -/
@[simp] lemma beUint32_putUint32 (v : UInt32) (post : List UInt8) :
    beUint32 (putUint32 v ++ post) 0 = v := by
  have hv := v.toNat_lt
  simp only [beUint32, putUint32, List.cons_append, List.getD_cons_zero, List.getD_cons_succ,
    UInt8.toNat_ofNat', Nat.reducePow]
  have hsplit : v.toNat / 16777216 % 256 * 16777216 + v.toNat / 65536 % 256 * 65536 +
      v.toNat / 256 % 256 * 256 + v.toNat % 256 = v.toNat := by omega
  rw [hsplit, UInt32.ofNat_toNat]

/-- What `Uint16` reads, `PutUint16` writes back. -/
lemma putUint16_beUint16 (a b : UInt8) (post : List UInt8) :
    putUint16 (beUint16 (a :: b :: post) 0) = [a, b] := by
  have ha := a.toNat_lt
  have hb := b.toNat_lt
  simp only [beUint16, putUint16, List.getD_cons_zero, List.getD_cons_succ, UInt16.toNat_ofNat',
    List.cons.injEq, and_true]
  constructor <;> apply UInt8.toNat_inj.1
  · simp only [UInt8.toNat_ofNat']
    omega
  · simp only [UInt8.toNat_ofNat']
    omega

lemma getUint32?_putUint32 (v : UInt32) (post : List UInt8) :
    getUint32? (putUint32 v ++ post) 0 = some v := by
  simp [getUint32?]

/-! ### Decoders -/

/-- A decoder's step after a successful one runs on its result. -/
@[simp] lemma except_ok_bind {ε α β : Type} (a : α) (f : α → Except ε β) :
    (Except.ok a >>= f) = f a := rfl

/-! ### Runs of fixed-size records -/

/-- The loop `for i := 0; i < n; i++ { x := read(data); data = data[size:] }`: `n` records of
`size` bytes, one after the other. -/
def readRecords {α : Type} (read : List UInt8 → α) (size : Nat) : Nat → List UInt8 → List α
  | 0, _ => []
  | n + 1, b => read b :: readRecords read size n (b.drop size)

/-- Records written one after the other by a writer of `size` bytes are read back by a reader
that inverts it. -/
lemma readRecords_flatMap {α β : Type} {read : List UInt8 → α} {write : β → List UInt8}
    {f : β → α} {size : Nat} (hlen : ∀ x, (write x).length = size)
    (hread : ∀ x rest, read (write x ++ rest) = f x) (xs : List β) (rest : List UInt8) :
    readRecords read size xs.length (xs.flatMap write ++ rest) = xs.map f := by
  induction xs with
  | nil => rfl
  | cons x xs ih =>
    have hdrop : (write x ++ (xs.flatMap write ++ rest)).drop size = xs.flatMap write ++ rest :=
      List.drop_left' (hlen x)
    rw [List.length_cons, List.flatMap_cons, List.append_assoc, readRecords, hdrop, ih, hread,
      List.map_cons]

lemma length_flatMap_of_length_eq {β : Type} {write : β → List UInt8} {size : Nat}
    (hlen : ∀ x, (write x).length = size) (xs : List β) :
    (xs.flatMap write).length = size * xs.length := by
  induction xs with
  | nil => rfl
  | cons x xs ih =>
    rw [List.flatMap_cons, List.length_append, ih, hlen, List.length_cons, Nat.mul_succ]
    omega

lemma length_flatMap_putUint32 (vs : List UInt32) :
    (vs.flatMap putUint32).length = 4 * vs.length :=
  length_flatMap_of_length_eq length_putUint32 vs

/-! ### Bits -/

/-- Bit `i` of a buffer, counted from the most significant bit of its first byte; bits past the
end read as zero. -/
def bitAt (b : List UInt8) (i : Nat) : Bool := (b.getD (i / 8) 0).toNat.testBit (7 - i % 8)

lemma testBit_uint8_of_le {x : UInt8} {k : Nat} (hk : 8 ≤ k) : x.toNat.testBit k = false :=
  Nat.testBit_lt_two_pow (lt_of_lt_of_le x.toNat_lt (Nat.pow_le_pow_right (by omega) hk))

/-- Two bytes are equal when their eight bits are. -/
lemma uint8_eq_iff_testBit {x y : UInt8} :
    x = y ↔ ∀ k < 8, x.toNat.testBit k = y.toNat.testBit k := by
  refine ⟨fun h k _ => h ▸ rfl, fun h => UInt8.toNat_inj.1 (Nat.eq_of_testBit_eq fun k => ?_)⟩
  by_cases hk : k < 8
  · exact h k hk
  · rw [testBit_uint8_of_le (by omega), testBit_uint8_of_le (by omega)]

/-- A mask cleared by the difference of two bytes: they agree on the mask's bits. -/
lemma uint8_and_xor_eq_zero_iff (m x y : UInt8) :
    m &&& (x ^^^ y) = 0 ↔
      ∀ k < 8, m.toNat.testBit k = true → x.toNat.testBit k = y.toNat.testBit k := by
  rw [← UInt8.toNat_inj, UInt8.toNat_and, UInt8.toNat_xor, UInt8.toNat_zero]
  constructor
  · intro h k _ hm
    have hk := congrArg (Nat.testBit · k) h
    simp only [Nat.testBit_and, Nat.testBit_xor, hm, Nat.zero_testBit, Bool.true_and] at hk
    simpa using hk
  · intro h
    apply Nat.eq_of_testBit_eq
    intro k
    simp only [Nat.testBit_and, Nat.testBit_xor, Nat.zero_testBit]
    by_cases hk : k < 8
    · cases hm : m.toNat.testBit k
      · rfl
      · simp [h k hk hm]
    · rw [testBit_uint8_of_le (by omega), Bool.false_and]

/-- Bit `k` of the byte at `j` is bit `8 * j + k` of the buffer. -/
lemma bitAt_eight_mul_add (b : List UInt8) (j : Nat) {k : Nat} (hk : k < 8) :
    bitAt b (8 * j + k) = (b.getD j 0).toNat.testBit (7 - k) := by
  have h1 : (8 * j + k) / 8 = j := by omega
  have h2 : (8 * j + k) % 8 = k := by omega
  simp only [bitAt, h1, h2]

/-- Two buffers agree on their first `n` bits when they agree on their first `n / 8` bytes and on
the first `n % 8` bits of the next one. -/
lemma bitAt_agree_iff (a b : List UInt8) (n : Nat) :
    (∀ i < n, bitAt a i = bitAt b i) ↔
      (∀ j < n / 8, a.getD j 0 = b.getD j 0) ∧
        ∀ k < n % 8, bitAt a (8 * (n / 8) + k) = bitAt b (8 * (n / 8) + k) := by
  constructor
  · intro h
    refine ⟨fun j hj => uint8_eq_iff_testBit.2 fun k hk => ?_, fun k hk => h _ (by omega)⟩
    have hbit := h (8 * j + (7 - k)) (by omega)
    rwa [bitAt_eight_mul_add a j (by omega), bitAt_eight_mul_add b j (by omega),
      show 7 - (7 - k) = k by omega] at hbit
  · rintro ⟨hbytes, hbits⟩ i hi
    -- a bit of a whole byte, or one of the first bits of the cut byte
    by_cases hj : i / 8 < n / 8
    · simp only [bitAt, hbytes _ hj]
    · have hi' : i = 8 * (n / 8) + i % 8 := by omega
      rw [hi']
      exact hbits _ (by omega)

end Zebra.Lib
