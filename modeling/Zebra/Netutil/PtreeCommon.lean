import Zebra.Netutil.PtreeLinked

/-!
# The node at the bits two keys share

`nodeCommon` finds how many leading bits a node's key shares with a key in two loops: over
whole bytes (`commonBytes`), then over the bits of the first byte that differs, a mask shifted
right one bit at a time (`commonBits`).  It then copies the shared bytes, with the last one cut
by `MaskBits`, into a new key.  `nodeCommon_spec` says what the result is, for a node whose key
is not a prefix of the key, the only case `Acquire` calls it in: a node with no reference and no
item, shorter than the node and no longer than the key, whose key has the shared bits and bytes
enough for them, and at whose length the two keys differ unless it is the key's own.
-/

namespace Zebra.Netutil
open Zebra.Lib

variable {α : Type}

namespace Linked

/-- The byte loop stops at a byte where the keys differ, or after `fuel` bytes, and the keys
agree on the bytes it passes. -/
theorem commonBytes_spec (k1 k2 : List UInt8) : ∀ (fuel i : Nat),
    i ≤ commonBytes k1 k2 fuel i ∧ commonBytes k1 k2 fuel i ≤ i + fuel ∧
    (∀ m, i ≤ m → m < commonBytes k1 k2 fuel i → k1.getD m 0 = k2.getD m 0) ∧
    (commonBytes k1 k2 fuel i < i + fuel →
      k1.getD (commonBytes k1 k2 fuel i) 0 ≠ k2.getD (commonBytes k1 k2 fuel i) 0)
  | 0, i => ⟨le_rfl, le_rfl, fun _ hm hm' => absurd hm' (by simp [commonBytes]; omega),
      fun h => absurd h (by simp [commonBytes])⟩
  | fuel + 1, i => by
    rw [commonBytes]
    split
    · next heq =>
      obtain ⟨h1, h2, h3, h4⟩ := commonBytes_spec k1 k2 fuel (i + 1)
      refine ⟨by omega, by omega, fun m hm hm' => ?_, fun hlt => h4 (by omega)⟩
      rcases Nat.eq_or_lt_of_le hm with rfl | hm
      · exact heq
      · exact h3 m hm hm'
    · next hne => exact ⟨le_rfl, by omega, fun m hm hm' => absurd hm' (by omega), fun _ => hne⟩

/-- The mask of `nodeCommon` after `p` shifts: bit `7 - p` alone, none from `p = 8` on. -/
def maskAfter (p : Nat) : UInt8 := Nat.iterate (· >>> 1) p 0x80

theorem maskAfter_succ (p : Nat) : maskAfter (p + 1) = maskAfter p >>> 1 :=
  Function.iterate_succ_apply' _ _ _

theorem maskAfter_of_le {p : Nat} (hp : 8 ≤ p) : maskAfter p = 0 := by
  induction p, hp using Nat.le_induction with
  | base => decide
  | succ p _ ih => rw [maskAfter_succ, ih]; rfl

theorem maskAfter_and_eq_zero (x y : UInt8) {p : Nat} (hp : p < 8) :
    maskAfter p &&& (x ^^^ y) = 0 ↔ x.toNat.testBit (7 - p) = y.toNat.testBit (7 - p) := by
  have hm : ∀ p < 8, ∀ k < 8, (maskAfter p).toNat.testBit k = decide (k = 7 - p) := by decide
  rw [Zebra.Lib.uint8_and_xor_eq_zero_iff]
  constructor
  · intro h
    exact h (7 - p) (by omega) (by rw [hm p hp _ (by omega)]; simp)
  · intro h k hk hmk
    rw [hm p hp k hk, decide_eq_true_eq] at hmk
    subst hmk
    exact h

/-- The bit loop in byte `i` after `p` bits: the keys agree on the bits it passes, and where it
stops before its fuel runs out, they differ at a bit of that byte. -/
theorem commonBits_spec (k1 k2 : List UInt8) (i : Nat) : ∀ (fuel p : Nat),
    8 * i + p ≤ commonBits (k1.getD i 0 ^^^ k2.getD i 0) fuel (maskAfter p) (8 * i + p) ∧
    commonBits (k1.getD i 0 ^^^ k2.getD i 0) fuel (maskAfter p) (8 * i + p) ≤ 8 * i + p + fuel ∧
    (∀ q, 8 * i + p ≤ q →
      q < commonBits (k1.getD i 0 ^^^ k2.getD i 0) fuel (maskAfter p) (8 * i + p) →
      q < 8 * i + 8 → bitAt k1 q = bitAt k2 q) ∧
    (commonBits (k1.getD i 0 ^^^ k2.getD i 0) fuel (maskAfter p) (8 * i + p) < 8 * i + p + fuel →
      commonBits (k1.getD i 0 ^^^ k2.getD i 0) fuel (maskAfter p) (8 * i + p) < 8 * i + 8 ∧
      bitAt k1 (commonBits (k1.getD i 0 ^^^ k2.getD i 0) fuel (maskAfter p) (8 * i + p)) ≠
        bitAt k2 (commonBits (k1.getD i 0 ^^^ k2.getD i 0) fuel (maskAfter p) (8 * i + p)))
  | 0, p => ⟨le_rfl, le_rfl, fun _ hq hq' => absurd hq' (by simp [commonBits]; omega),
      fun h => absurd h (by simp [commonBits])⟩
  | fuel + 1, p => by
    rw [commonBits]
    split
    · next hz =>
      obtain ⟨h1, h2, h3, h4⟩ := commonBits_spec k1 k2 i fuel (p + 1)
      rw [show 8 * i + (p + 1) = 8 * i + p + 1 by omega] at h1 h2 h3 h4
      rw [← maskAfter_succ]
      refine ⟨by omega, by omega, fun q hq hq' hq8 => ?_, fun hlt => h4 (by omega)⟩
      rcases Nat.eq_or_lt_of_le hq with rfl | hq
      · -- the bit the mask tested
        have hp : p < 8 := by omega
        rw [maskAfter_and_eq_zero _ _ hp] at hz
        rwa [bitAt_eight_mul_add _ _ hp, bitAt_eight_mul_add _ _ hp]
      · exact h3 q hq hq' hq8
    · next hz =>
      have hp : p < 8 := by
        by_contra hp
        rw [maskAfter_of_le (by omega)] at hz
        exact hz (by simp)
      rw [maskAfter_and_eq_zero _ _ hp] at hz
      refine ⟨le_rfl, by omega, fun q hq hq' => absurd hq' (by omega), fun _ => ⟨by omega, ?_⟩⟩
      rwa [bitAt_eight_mul_add _ _ hp, bitAt_eight_mul_add _ _ hp]

/-- A byte that differs from another differs in one of its eight bits. -/
theorem exists_bitAt_ne_of_getD_ne {k1 k2 : List UInt8} {i : Nat}
    (h : k1.getD i 0 ≠ k2.getD i 0) : ∃ q, 8 * i ≤ q ∧ q < 8 * i + 8 ∧ bitAt k1 q ≠ bitAt k2 q := by
  by_contra hall
  push Not at hall
  refine h (uint8_eq_iff_testBit.2 fun k hk => ?_)
  have := hall (8 * i + (7 - k)) (by omega) (by omega)
  rwa [bitAt_eight_mul_add _ _ (by omega), bitAt_eight_mul_add _ _ (by omega),
    show 7 - (7 - k) = k by omega] at this

theorem bitToOctet_spec (n : Nat) : n ≤ 8 * bitToOctet n := by
  have := Nat.le_max_left ((n + 7) / 8) 1
  unfold bitToOctet
  omega

/-- The length `nodeCommon` computes from its two loops: the keys agree below it, differ at it
unless it reaches `keyLength`, and it ends inside the byte the byte loop stopped at. -/
theorem commonLength_spec (k1 k2 : List UInt8) (l1 l2 : Nat)
    (hoff : ¬(l1 ≤ l2 ∧ ∀ q < l1, bitAt k1 q = bitAt k2 q)) {i cl : Nat}
    (hi : commonBytes k1 k2 (min l1 l2 / 8) 0 = i)
    (hcl : (if i * 8 ≠ l2 then commonBits (k1.getD i 0 ^^^ k2.getD i 0) (l2 - i * 8) 0x80 (i * 8)
      else i * 8) = cl) :
    cl ≤ l2 ∧ cl < l1 ∧ (∀ q < cl, bitAt k1 q = bitAt k2 q) ∧
      (cl = l2 ∨ bitAt k1 cl ≠ bitAt k2 cl) ∧ 8 * i ≤ cl ∧ (cl = 8 * i ∨ cl < 8 * i + 8) := by
  obtain ⟨-, hi_le, hbytes, hdiff⟩ := commonBytes_spec k1 k2 (min l1 l2 / 8) 0
  simp only [Nat.zero_add, hi] at hi_le hbytes hdiff
  have hlimit : 8 * (min l1 l2 / 8) ≤ min l1 l2 ∧ min l1 l2 < 8 * (min l1 l2 / 8) + 8 := by
    omega
  have hbelow : ∀ q < 8 * i, bitAt k1 q = bitAt k2 q := fun q hq => by
    simp only [bitAt, hbytes (q / 8) (Nat.zero_le _) (by omega)]
  -- within the byte the loop stopped at, the keys differ before `l2`, or `l2` ends inside it
  have hcut : l2 < 8 * i + 8 ∨
      ∃ q, 8 * i ≤ q ∧ q < 8 * i + 8 ∧ q < l2 ∧ bitAt k1 q ≠ bitAt k2 q := by
    by_cases hil : i < min l1 l2 / 8
    · obtain ⟨q, hq, hq', hne⟩ := exists_bitAt_ne_of_getD_ne (hdiff hil)
      exact .inr ⟨q, hq, hq', by omega, hne⟩
    by_cases hl2 : l2 < 8 * i + 8
    · exact .inl hl2
    · have hl1 : l1 ≤ l2 := by omega
      obtain ⟨q, hq, hne⟩ : ∃ q < l1, bitAt k1 q ≠ bitAt k2 q := by
        by_contra hall
        push Not at hall
        exact hoff ⟨hl1, hall⟩
      have hq8 : 8 * i ≤ q := by
        by_contra hq8
        exact hne (hbelow q (by omega))
      exact .inr ⟨q, hq8, by omega, by omega, hne⟩
  -- the length, with the keys agreeing below it
  have hcl : cl ≤ l2 ∧ 8 * i ≤ cl ∧ (cl = 8 * i ∨ cl < 8 * i + 8) ∧
      (∀ q < cl, bitAt k1 q = bitAt k2 q) ∧ (cl = l2 ∨ bitAt k1 cl ≠ bitAt k2 cl) := by
    by_cases h8 : i * 8 = l2
    · have hcl : cl = 8 * i := by rw [← hcl, if_neg (not_not.2 h8)]; omega
      rw [hcl]
      exact ⟨by omega, le_rfl, .inl rfl, hbelow, .inl (by omega)⟩
    · obtain ⟨h1, h2, h3, h4⟩ := commonBits_spec k1 k2 i (l2 - i * 8) 0
      rw [show 8 * i + 0 = i * 8 by omega] at h1 h2 h3 h4
      have hcl : cl = commonBits (k1.getD i 0 ^^^ k2.getD i 0) (l2 - i * 8) (maskAfter 0)
          (i * 8) := by rw [← hcl, if_pos h8]; rfl
      rw [← hcl] at h1 h2 h3 h4
      have hlt : cl < 8 * i + 8 := by
        rcases hcut with hl2 | ⟨q, hq, hq', hql, hne⟩
        · omega
        · by_contra hge
          exact hne (h3 q (by omega) (by omega) hq')
      clear hcut
      have hle : cl ≤ l2 := by omega
      have h8i : 8 * i ≤ cl := by omega
      refine ⟨hle, h8i, .inr hlt, fun q hq => ?_, ?_⟩
      · by_cases hq8 : q < 8 * i
        · exact hbelow q hq8
        · exact h3 q (by omega) hq (by omega)
      · by_cases hcl2 : cl = l2
        · exact .inl hcl2
        · exact .inr (h4 (by omega)).2
  obtain ⟨hle, h8i, hbyte, hagree, hend⟩ := hcl
  -- it stops before `l1`, or the node's key would be a prefix of the key
  have hlt1 : cl < l1 := by
    by_contra hge
    exact hoff ⟨by omega, fun q hq => hagree q (by omega)⟩
  exact ⟨hle, hlt1, hagree, hend, h8i, hbyte⟩

/-- `nodeCommon` of a node off the key: a node with no reference and no item whose length is
shorter than the node's and no longer than the key's, at which the keys differ unless it is the
key's; its key holds the bits the two keys share below it. -/
theorem nodeCommon_spec (n : PtreeNode α) (key : List UInt8) (len : Nat)
    (hoff : ¬(n.keyLength ≤ len ∧ ∀ q < n.keyLength, bitAt n.key q = bitAt key q)) :
    (nodeCommon n key len).keyLength ≤ len ∧ (nodeCommon n key len).keyLength < n.keyLength ∧
    (∀ q < (nodeCommon n key len).keyLength,
      bitAt (nodeCommon n key len).key q = bitAt n.key q ∧ bitAt n.key q = bitAt key q) ∧
    ((nodeCommon n key len).keyLength = len ∨
      bitAt n.key (nodeCommon n key len).keyLength ≠ bitAt key (nodeCommon n key len).keyLength) ∧
    (nodeCommon n key len).keyLength ≤ 8 * (nodeCommon n key len).key.length ∧
    (nodeCommon n key len).refcnt = 0 ∧ (nodeCommon n key len).item = none := by
  set i := commonBytes n.key key (min n.keyLength len / 8) 0 with hi
  set cl := (if i * 8 ≠ len then commonBits (n.key.getD i 0 ^^^ key.getD i 0) (len - i * 8) 0x80
    (i * 8) else i * 8) with hcl
  obtain ⟨hle, hlt, hagree, hend, h8i, hbyte⟩ :=
    commonLength_spec n.key key n.keyLength len hoff hi.symm hcl.symm
  have hlen : (nodeCommon n key len).keyLength = cl := rfl
  have hkey : (nodeCommon n key len).key = (List.range (bitToOctet cl)).map fun j =>
      if j < i then n.key.getD j 0
      else if cl ≠ i * 8 ∧ j = i then n.key.getD i 0 &&& MaskBits.getD (cl % 8) 0 else 0 := rfl
  have hoct := bitToOctet_spec cl
  rw [hlen, hkey]
  refine ⟨hle, hlt, fun q hq => ⟨?_, hagree q hq⟩, hend, by simpa using hoct, rfl, rfl⟩
  -- the bytes below the cut one are the node's, and the cut one keeps its bits below `cl`
  have hq8 : q / 8 < bitToOctet cl := by omega
  simp only [bitAt]
  rw [List.getD_eq_getElem _ _ (by simpa using hq8), List.getElem_map, List.getElem_range]
  split_ifs with hj hb
  · rfl
  · obtain ⟨-, hqi⟩ := hb
    rw [UInt8.toNat_and, Nat.testBit_and, testBit_maskBits (by omega) (by omega), hqi]
    simp only [Bool.and_eq_left_iff_imp, decide_eq_true_eq]
    omega
  · exfalso
    omega

end Linked

end Zebra.Netutil
