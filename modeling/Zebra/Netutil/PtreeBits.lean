import Zebra.Netutil.Ptree
import Zebra.Netutil.PrefixMatch
import Zebra.Lib.BitTrie

/-!
# The tree's key tests as tests on bit strings

`ptree.go` compares keys byte by byte with `keyMatch` and reads single bits with `bitCheck`.
On keys long enough for the lengths compared (`len ≤ 8 * key.length`, which is also what
keeps the Go code from indexing past a key), both read the first bits of the keys, `keyBits`:
`keyMatch` says whether one key's bit string is a prefix of the other's (`keyMatch_iff`), and
`bitCheck` gives the next bit (`getD_keyBits`).  The walk condition of `Acquire`, `Lookup` and
`Match` is then "the node's bit string is a prefix of the key's" (`walk_iff`), and `bitsLe`,
the order of the list model, is the lexicographic order on bit strings (`bitsLe_iff`).
-/

namespace Zebra.Netutil
open Zebra.Lib

/-- The first `len` bits of a key, as `bitCheck` reads them. -/
def keyBits (key : List UInt8) (len : Nat) (reverse : Bool) : List Bool :=
  (List.range len).map fun i => bitCheck key i reverse

variable {α : Type}

theorem PtreeNode.bits_eq (n : PtreeNode α) (reverse : Bool) :
    n.bits reverse = keyBits n.key n.keyLength reverse := rfl

@[simp] theorem length_keyBits (key : List UInt8) (len : Nat) (reverse : Bool) :
    (keyBits key len reverse).length = len := by
  simp [keyBits]

theorem getD_keyBits (key : List UInt8) (len : Nat) (reverse : Bool) {i : Nat} (hi : i < len) :
    (keyBits key len reverse).getD i false = bitCheck key i reverse := by
  simp [keyBits, hi]

/-- The bit test of `bitCheck` is the bit of the byte. -/
theorem uint8_shiftRight_and_one (x : UInt8) {k : Nat} (hk : k < 8) :
    (x >>> k.toUInt8 &&& 1 == 1) = x.toNat.testBit k := by
  have hk' : k.toUInt8.toNat % 8 = k := by
    rw [Nat.toUInt8, UInt8.toNat_ofNat']
    omega
  have hbit : (x >>> k.toUInt8 &&& 1).toNat = x.toNat / 2 ^ k % 2 := by
    rw [UInt8.toNat_and, UInt8.toNat_shiftRight, hk', UInt8.toNat_one, Nat.and_one_is_mod,
      Nat.shiftRight_eq_div_pow]
  rw [Nat.testBit_eq_decide_div_mod_eq, ← hbit]
  cases h : (x >>> k.toUInt8 &&& 1) == 1 <;> simp_all [← UInt8.toNat_inj]

/-- `bitCheck` reads bit `i` of the key, inverted in a tree ordered in reverse. -/
theorem bitCheck_eq (key : List UInt8) (i : Nat) (reverse : Bool) :
    bitCheck key i reverse = (bitAt key i ^^ reverse) := by
  rw [bitCheck, uint8_shiftRight_and_one _ (by omega)]
  cases reverse <;> simp [bitAt]

/-- One key's bits are a prefix of another's exactly when the two agree on the shorter's
length. -/
theorem keyBits_prefix_iff {k1 k2 : List UInt8} {l1 l2 : Nat} (reverse : Bool) (hl : l1 ≤ l2) :
    keyBits k1 l1 reverse <+: keyBits k2 l2 reverse ↔ ∀ i < l1, bitAt k1 i = bitAt k2 i := by
  have htake : (keyBits k2 l2 reverse).take l1 = keyBits k2 l1 reverse := by
    rw [keyBits, keyBits, ← List.map_take, List.take_range, Nat.min_eq_left hl]
  rw [List.prefix_iff_eq_take, length_keyBits, htake]
  constructor
  · intro h i hi
    have hi' : (keyBits k1 l1 reverse).getD i false = (keyBits k2 l1 reverse).getD i false := by
      rw [h]
    rwa [getD_keyBits _ _ _ hi, getD_keyBits _ _ _ hi, bitCheck_eq, bitCheck_eq,
      Bool.xor_left_inj] at hi'
  · intro h
    simp only [keyBits, List.map_inj_left, List.mem_range]
    intro i hi
    rw [bitCheck_eq, bitCheck_eq, h i hi]

/-- Whole bytes compared by `take` agree exactly where the keys are long enough. -/
theorem take_eq_take_iff {k1 k2 : List UInt8} {n : Nat} (h1 : n ≤ k1.length)
    (h2 : n ≤ k2.length) : k1.take n = k2.take n ↔ ∀ j < n, k1.getD j 0 = k2.getD j 0 := by
  constructor
  · intro h j hj
    have hj' := congrArg (·[j]?) h
    simp only [List.getElem?_take, hj, if_true] at hj'
    rw [List.getD_eq_getElem?_getD, List.getD_eq_getElem?_getD, hj']
  · intro h
    apply List.ext_getElem (by simp [h1, h2])
    intro j hj hj'
    simp only [List.length_take] at hj hj'
    have := h j (by omega)
    rw [List.getD_eq_getElem _ _ (by omega), List.getD_eq_getElem _ _ (by omega)] at this
    simpa only [List.getElem_take] using this

/-- `keyMatch` on keys long enough for the first length: the first key is no longer, and the
keys agree on its bits. -/
theorem keyMatch_iff {k1 k2 : List UInt8} {l1 l2 : Nat} (h1 : l1 ≤ 8 * k1.length)
    (h2 : l1 ≤ 8 * k2.length) :
    keyMatch k1 l1 k2 l2 = true ↔ l1 ≤ l2 ∧ ∀ i < l1, bitAt k1 i = bitAt k2 i := by
  unfold keyMatch
  by_cases hlt : l2 < l1
  · simp only [if_pos hlt, Bool.false_eq_true, false_iff, not_and]
    omega
  rw [if_neg hlt, Nat.min_eq_left (by omega), bitAt_agree_iff]
  -- the whole bytes by `take`, the cut byte under its mask
  have hbytes : k1.take (l1 / 8) = k2.take (l1 / 8) ↔ _ := take_eq_take_iff (by omega) (by omega)
  have hcut : ((l1 % 8 == 0) || (MaskBits.getD (l1 % 8) 0 &&&
      (k1.getD (l1 / 8) 0 ^^^ k2.getD (l1 / 8) 0)) == 0) = true ↔
      ∀ k < l1 % 8, bitAt k1 (8 * (l1 / 8) + k) = bitAt k2 (8 * (l1 / 8) + k) := by
    by_cases hs : l1 % 8 = 0
    · simp [hs]
    · simp only [Bool.or_eq_true, beq_iff_eq, hs, false_or]
      rw [maskBits_and_xor_eq_zero_iff (by omega)]
      refine forall₂_congr fun k hk => ?_
      rw [bitAt_eight_mul_add _ _ (by omega), bitAt_eight_mul_add _ _ (by omega)]
  simp only [Bool.and_eq_true, beq_iff_eq, hcut, hbytes]
  constructor
  · rintro ⟨hc, hb⟩
    exact ⟨by omega, hb, hc⟩
  · rintro ⟨-, hb, hc⟩
    exact ⟨hc, hb⟩

/-- The walk condition of `Acquire`, `Lookup` and `Match` at a node: its bits are a prefix of
the key's. -/
theorem walk_iff {key : List UInt8} {len : Nat} (reverse : Bool) (n : PtreeNode α)
    (hn : n.keyLength ≤ 8 * n.key.length) (hkey : len ≤ 8 * key.length) :
    (n.keyLength ≤ len ∧ keyMatch n.key n.keyLength key len = true) ↔
      n.bits reverse <+: keyBits key len reverse := by
  constructor
  · rintro ⟨hl, hm⟩
    rw [PtreeNode.bits_eq, keyBits_prefix_iff _ hl]
    exact ((keyMatch_iff hn (by omega)).1 hm).2
  · intro h
    have hl : n.keyLength ≤ len := by simpa [PtreeNode.bits_eq] using h.length_le
    rw [PtreeNode.bits_eq, keyBits_prefix_iff _ hl] at h
    exact ⟨hl, (keyMatch_iff hn (by omega)).2 ⟨hl, h⟩⟩

/-- `bitsLe`, the order of the list model, is the lexicographic order on bit strings. -/
theorem bitsLe_iff (a b : List Bool) : bitsLe a b = true ↔ a = b ∨ List.Lex (· < ·) a b := by
  induction a generalizing b with
  | nil =>
    cases b with
    | nil => simp [bitsLe]
    | cons y ys => simp [bitsLe]
  | cons x xs ih =>
    cases b with
    | nil => simp [bitsLe]
    | cons y ys =>
      rw [bitsLe, List.cons_lex_cons_iff]
      by_cases hxy : x = y
      · subst hxy
        simp [ih]
      · cases x <;> cases y <;> simp_all

end Zebra.Netutil
