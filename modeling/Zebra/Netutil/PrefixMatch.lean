import Zebra.Netutil.Prefix
import Zebra.Lib.Bytes

/-!
# Prefix containment

`Prefix.Match` asks whether a prefix `q` lies inside a prefix `p`: both addresses of one family,
`q`'s prefix no shorter, and the first `p.length` bits of the two addresses equal.  It compares
the whole bytes of `p`'s prefix from the last one down, and the leading bits of the byte the
prefix cuts through `MaskBits`.

On an address of a family with a prefix length within it, every index it reads is in range and
it computes exactly that containment (`match_eq_inside`).
-/

namespace Zebra.Netutil
open Zebra.Lib

namespace Prefix

/-- `s[i]` at a Go `int` index: a panic below zero or past the end. -/
def getAt? {α : Type} (s : List α) (i : Int) : Option α := if i < 0 then none else s[i.toNat]?

@[simp] lemma getAt?_natCast {α : Type} (s : List α) (i : Nat) : getAt? s i = s[i]? := rfl

/-- The loop of `Prefix.Match` over the whole bytes: bytes `offset - 1` down to `0` compared, the
first that differs deciding; an index past an address panics. -/
def matchBytes (a b : List UInt8) : Nat → Option Bool
  | 0 => some true
  | offset + 1 => do
    let x ← a[offset]?
    let y ← b[offset]?
    if x ≠ y then some false else matchBytes a b offset

/-- `Prefix.Match`: whether `q` lies inside `p`, compared on the whole bytes of `p`'s prefix and on
the leading bits of the byte it cuts, with Go's truncating `/` and `%`; `none` where an index
passes the addresses or, on a negative length, falls under zero. -/
def «match» (p q : Prefix) : Option Bool :=
  if p.length > q.length then some false
  else if p.ip.length ≠ q.ip.length then some false
  else if p.ip.length ≠ 4 ∧ p.ip.length ≠ 16 then some false
  else
    let offset := p.length.tdiv 8
    let shift := p.length.tmod 8
    -- the loop reads `p.IP[offset - 1]` first, under zero for a negative `offset`
    let loop := if offset < 0 then none else matchBytes p.ip q.ip offset.toNat
    if shift ≠ 0 then do
      let m ← getAt? MaskBits shift
      let x ← getAt? p.ip offset
      let y ← getAt? q.ip offset
      if m &&& (x ^^^ y) ≠ 0 then some false else loop
    else loop

/-- What `Match` is for: `q` lies inside `p`, an address of the same length whose first
`p.length` bits are `p`'s, with a prefix at least as long. -/
def Inside (p q : Prefix) : Prop :=
  q.ip.length = p.ip.length ∧ p.length ≤ q.length ∧
    ∀ i < p.length.toNat, bitAt p.ip i = bitAt q.ip i

instance (p q : Prefix) : Decidable (p.Inside q) := inferInstanceAs (Decidable (_ ∧ _ ∧ _))

lemma matchBytes_eq {a b : List UInt8} {n : Nat} (ha : n ≤ a.length) (hb : n ≤ b.length) :
    matchBytes a b n = some (decide (∀ j < n, a.getD j 0 = b.getD j 0)) := by
  induction n with
  | zero => simp [matchBytes]
  | succ n ih =>
    have hbelow : (∀ j < n + 1, a.getD j 0 = b.getD j 0) ↔
        a.getD n 0 = b.getD n 0 ∧ ∀ j < n, a.getD j 0 = b.getD j 0 := by
      constructor
      · intro h
        exact ⟨h n (by omega), fun j hj => h j (by omega)⟩
      · rintro ⟨hn, h⟩ j hj
        rcases Nat.lt_succ_iff_lt_or_eq.1 hj with hj | rfl
        · exact h j hj
        · exact hn
    rw [matchBytes, List.getElem?_eq_getElem (by omega), List.getElem?_eq_getElem (by omega),
      ← List.getD_eq_getElem _ 0, ← List.getD_eq_getElem _ 0, ih (by omega) (by omega)]
    -- both reads succeed: the byte at `n` decides, or the loop goes on below it
    by_cases hn : a.getD n 0 = b.getD n 0
    · show (if a.getD n 0 ≠ b.getD n 0 then some false else some _) = _
      rw [if_neg (not_not.2 hn)]
      simp only [hbelow, hn, true_and]
    · show (if a.getD n 0 ≠ b.getD n 0 then some false else some _) = _
      rw [if_pos hn]
      simp only [hbelow, hn, false_and, decide_false]

end Prefix

lemma testBit_maskBits {s k : Nat} (hs : s ≤ 8) (hk : k < 8) :
    (MaskBits.getD s 0).toNat.testBit k = decide (8 - s ≤ k) := by
  have h : ∀ s < 9, ∀ k < 8, (MaskBits.getD s 0).toNat.testBit k = decide (8 - s ≤ k) := by
    decide
  exact h s (by omega) k hk

/-- `MaskBits[s]` cleared by the difference of two bytes: their first `s` bits agree. -/
lemma maskBits_and_xor_eq_zero_iff {s : Nat} (hs : s < 8) (x y : UInt8) :
    MaskBits.getD s 0 &&& (x ^^^ y) = 0 ↔
      ∀ j < s, x.toNat.testBit (7 - j) = y.toNat.testBit (7 - j) := by
  rw [uint8_and_xor_eq_zero_iff]
  constructor
  · intro h j hj
    exact h (7 - j) (by omega) (by rw [testBit_maskBits (by omega) (by omega)]; simp; omega)
  · intro h k hk hm
    rw [testBit_maskBits (by omega) hk, decide_eq_true_eq] at hm
    have hbit := h (7 - k) (by omega)
    rwa [show 7 - (7 - k) = k by omega] at hbit

namespace Prefix

/-- Inside a prefix of length `n` of an address of the same length, with a prefix no longer:
the whole bytes of the prefix agree, and the leading bits of the byte it cuts. -/
lemma inside_iff {p q : Prefix} {n : Nat} (hn : p.length = n) (hip : p.ip.length = q.ip.length)
    (hlen : p.length ≤ q.length) :
    p.Inside q ↔ (∀ j < n / 8, p.ip.getD j 0 = q.ip.getD j 0) ∧
      ∀ k < n % 8, bitAt p.ip (8 * (n / 8) + k) = bitAt q.ip (8 * (n / 8) + k) := by
  rw [Inside, ← bitAt_agree_iff, hn, Int.toNat_natCast]
  exact ⟨fun h => h.2.2, fun h => ⟨hip.symm, hn ▸ hlen, h⟩⟩

/-- A length that is one has Go's offset and shift as its quotient and remainder by eight. -/
lemma tdiv_tmod_natCast (n : Nat) :
    (n : Int).tdiv 8 = ((n / 8 : Nat) : Int) ∧ (n : Int).tmod 8 = ((n % 8 : Nat) : Int) :=
  ⟨rfl, rfl⟩

/-- On an address of a family, a prefix length within it and a length of `p` that is one,
`Match` computes `Inside`: every index it reads is in range. -/
theorem match_eq_inside {p q : Prefix} (hp : 0 ≤ p.length) (hq : q.ip.length = 4 ∨ q.ip.length = 16)
    (hql : q.length ≤ 8 * q.ip.length) : p.«match» q = some (decide (p.Inside q)) := by
  obtain ⟨n, hn⟩ := Int.eq_ofNat_of_zero_le hp
  unfold «match»
  by_cases hlen : p.length > q.length
  · have hni : ¬ p.Inside q := fun h => by have := h.2.1; omega
    rw [if_pos hlen, decide_eq_false hni]
  by_cases hip : p.ip.length ≠ q.ip.length
  · have hni : ¬ p.Inside q := fun h => hip h.1.symm
    rw [if_neg hlen, if_pos hip, decide_eq_false hni]
  rw [not_not] at hip
  rw [if_neg hlen, if_neg (not_not.2 hip), if_neg (by omega)]
  have hins := inside_iff hn hip (by omega)
  have hnq : n ≤ 8 * q.ip.length := by omega
  obtain ⟨hoffset, hshift⟩ := tdiv_tmod_natCast n
  have hoff0 : ¬ ((n / 8 : Nat) : Int) < 0 := by omega
  dsimp only
  simp only [hn, hoffset, hshift, hoff0, if_false, getAt?_natCast, Int.toNat_natCast]
  split_ifs with hs
  · -- the cut byte is read from both addresses, in range as the prefix is within them
    have hoff : n / 8 < p.ip.length := by omega
    have hmask : MaskBits[n % 8]? = some (MaskBits.getD (n % 8) 0) := by
      rw [List.getD_eq_getElem _ _ (by simp [MaskBits]; omega), List.getElem?_eq_getElem]
    rw [hmask, List.getElem?_eq_getElem hoff, List.getElem?_eq_getElem (by omega)]
    have hcut :
        MaskBits.getD (n % 8) 0 &&& (p.ip[n / 8] ^^^ q.ip[n / 8]) = 0 ↔
        ∀ k < n % 8, bitAt p.ip (8 * (n / 8) + k) = bitAt q.ip (8 * (n / 8) + k) := by
      rw [maskBits_and_xor_eq_zero_iff (by omega)]
      refine forall₂_congr fun k hk => ?_
      rw [bitAt_eight_mul_add _ _ (by omega), bitAt_eight_mul_add _ _ (by omega),
        List.getD_eq_getElem _ _ hoff, List.getD_eq_getElem _ _ (by omega)]
    show (if MaskBits.getD (n % 8) 0 &&& (p.ip[n / 8] ^^^ q.ip[n / 8]) ≠ 0
      then some false else matchBytes p.ip q.ip (n / 8)) = _
    rw [matchBytes_eq (by omega) (by omega)]
    by_cases hm : MaskBits.getD (n % 8) 0 &&& (p.ip[n / 8] ^^^ q.ip[n / 8]) = 0
    · rw [if_neg (not_not.2 hm), Option.some.injEq, decide_eq_decide, hins]
      exact ⟨fun h => ⟨h, hcut.1 hm⟩, fun h => h.1⟩
    · rw [if_pos hm, Option.some.injEq, eq_comm, decide_eq_false_iff_not, hins]
      exact fun h => hm (hcut.2 h.2)
  · -- a prefix of whole bytes: the loop decides alone
    rw [matchBytes_eq (by omega) (by omega), Option.some.injEq, decide_eq_decide, hins]
    exact ⟨fun h => ⟨h, fun k hk => by omega⟩, fun h => h.1⟩

/-- A negative length panics: a prefix no longer than `q`'s, of an address of `q`'s family, makes
`Match` index below zero. -/
theorem match_of_length_neg {p q : Prefix} (hp : p.length < 0) (hlen : p.length ≤ q.length)
    (hip : p.ip.length = q.ip.length) (hq : q.ip.length = 4 ∨ q.ip.length = 16) :
    p.«match» q = none := by
  obtain ⟨-, hmod, hoff⟩ := tdiv_tmod_eight_of_neg hp
  unfold «match»
  rw [if_neg (by omega), if_neg (by omega), if_neg (by omega)]
  dsimp only
  by_cases hs : p.length.tmod 8 = 0
  · -- a whole number of bytes below zero: the loop reads under zero
    rw [if_neg (not_not.2 hs), if_pos (hoff hs)]
  · -- the shift is negative: `MaskBits[shift]` reads under zero
    rw [if_pos hs, getAt?, if_pos (by omega)]
    rfl

end Prefix

end Zebra.Netutil
