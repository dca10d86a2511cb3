import Mathlib.Data.List.Basic
import Mathlib.Data.List.GetD

/-!
# Addresses and prefixes

`net.IP` is a byte slice, nil or of any length; `netutil.Prefix` pairs one with a prefix
length.  The address family of a prefix is read off the length of its address, and
`ApplyMask` clears the bits past the prefix length in place.  `keyMatch` and `bitCheck` are
the two bit tests the prefix tree of `ptree.go` walks with.
-/

namespace Zebra.Netutil

/-- `MaskBits[k]`: the byte whose `k` leading bits are set. -/
def MaskBits : List UInt8 := [0x00, 0x80, 0xc0, 0xe0, 0xf0, 0xf8, 0xfc, 0xfe, 0xff]

/-- The address families, the two indices of the per-family tables.  `AFI_MAX`, returned by
`AFI()` for an address of any other length, is `none` in `Prefix.afi`. -/
inductive Afi
  | ip
  | ip6
deriving DecidableEq, Repr

/-- The byte length of an address of the family (`net.IPv4len`, `net.IPv6len`). -/
def Afi.ipLen : Afi → Nat
  | .ip => 4
  | .ip6 => 16

lemma Afi.ipLen_inj {a b : Afi} (h : a.ipLen = b.ipLen) : a = b := by
  cases a <;> cases b <;> first | rfl | simp [Afi.ipLen] at h

/-- The key width of the family's tree (`NewPtree(32)`, `NewPtree(128)`). -/
def Afi.maxKeyBits : Afi → Nat
  | .ip => 32
  | .ip6 => 128

/-- Go's `/ 8` and `% 8` on a negative `int`: neither is above zero, and a remainder of zero
leaves a quotient under zero. -/
lemma tdiv_tmod_eight_of_neg {x : Int} (h : x < 0) :
    x.tdiv 8 ≤ 0 ∧ x.tmod 8 ≤ 0 ∧ (x.tmod 8 = 0 → x.tdiv 8 < 0) := by
  -- Go truncates toward zero, so both are those of `-x`, negated
  have hdiv : x.tdiv 8 = -((-x).tdiv 8) := by rw [Int.neg_tdiv, Int.neg_neg]
  have hmod : x.tmod 8 = -((-x).tmod 8) := by rw [Int.neg_tmod, Int.neg_neg]
  have hq := Int.tdiv_nonneg (show 0 ≤ -x by omega) (show (0 : Int) ≤ 8 by decide)
  have hr := Int.tmod_nonneg 8 (show 0 ≤ -x by omega)
  have hsplit := Int.mul_tdiv_add_tmod (-x) 8
  omega

/-- `netutil.Prefix`.  `Length` is a Go `int`: `ParsePrefix` takes it from `strconv.Atoi`, which
accepts a sign, so a prefix can carry a negative length. -/
@[ext] structure Prefix where
  ip : List UInt8
  length : Int
deriving DecidableEq, Repr

namespace Prefix

/-- `Prefix.AFI`, with `AFI_MAX` as `none`. -/
def afi (p : Prefix) : Option Afi :=
  if p.ip.length = 4 then some .ip
  else if p.ip.length = 16 then some .ip6
  else none

lemma ip_length_of_afi {p : Prefix} {afi : Afi} (h : p.afi = some afi) :
    p.ip.length = afi.ipLen := by
  unfold Prefix.afi at h
  split_ifs at h with h4 h16 <;> cases h
  · exact h4
  · exact h16

lemma afi_eq_of_ip_length {p p' : Prefix} (h : p'.ip.length = p.ip.length) : p'.afi = p.afi := by
  simp only [Prefix.afi, h]

/-- The bytes `ApplyMask` leaves for a prefix length `len`: the byte holding the last prefix bit
keeps its leading bits, every later byte becomes zero. -/
def maskBytes (ip : List UInt8) (len : Nat) : List UInt8 :=
  ip.mapIdx fun j b => if j < len / 8 then b else if j = len / 8 then b &&& MaskBits.getD (len % 8) 0
    else 0

/-- `Prefix.ApplyMask`, with Go's truncating `/` and `%`: a length whose byte `i` lies past the
address leaves it alone; below that, a negative length indexes `p.IP[i]` or `MaskBits[offset]`
under zero and panics (`none`). -/
def applyMask (p : Prefix) : Option Prefix :=
  let i := p.length.tdiv 8
  if (p.ip.length : Int) ≤ i then some p
  else if p.length < 0 then none
  else some { p with ip := maskBytes p.ip p.length.toNat }

/-- What `ApplyMask` makes of a prefix whose length is not negative. -/
def mask (p : Prefix) : Prefix :=
  if p.ip.length ≤ p.length.toNat / 8 then p else { p with ip := maskBytes p.ip p.length.toNat }

/-- `Prefix.IsDefault`: length zero and an all-zero address. -/
def isDefault (p : Prefix) : Bool :=
  p.length == 0 && p.ip.all (· == 0)

/-- `NewPrefixAFI`: the zero address of the family, of length zero. -/
def newAfi (afi : Afi) : Prefix := ⟨List.replicate afi.ipLen 0, 0⟩

/-- `Prefix.ByteLength`: the bytes the prefix bits take. -/
def byteLength (p : Prefix) : Int := (p.length + 7).tdiv 8

lemma applyMask_of_nonneg {p : Prefix} (h : 0 ≤ p.length) : p.applyMask = some p.mask := by
  have hi : p.length.tdiv 8 = ((p.length.toNat / 8 : Nat) : Int) := by
    rw [← Int.toNat_of_nonneg h]
    rfl
  unfold applyMask mask
  dsimp only
  rw [hi]
  by_cases hle : p.ip.length ≤ p.length.toNat / 8
  · rw [if_pos (by exact_mod_cast hle), if_pos hle]
  · rw [if_neg (by exact_mod_cast hle), if_neg (Int.not_lt.2 h), if_neg hle]

/-- What `ApplyMask` returns, on an address that holds a byte: the masked prefix, and the length
was no negative one. -/
lemma applyMask_eq_some {p q : Prefix} (h : p.applyMask = some q) (hip : 0 < p.ip.length) :
    0 ≤ p.length ∧ q = p.mask := by
  by_cases hn : 0 ≤ p.length
  · rw [applyMask_of_nonneg hn, Option.some.injEq] at h
    exact ⟨hn, h.symm⟩
  · -- a negative length cuts no byte past a nonempty address, and indexes under zero
    have hdiv := (tdiv_tmod_eight_of_neg (Int.not_le.1 hn)).1
    simp only [applyMask, if_neg (show ¬ (p.ip.length : Int) ≤ p.length.tdiv 8 by omega),
      if_pos (show p.length < 0 by omega), reduceCtorEq] at h

@[simp] lemma length_mask (p : Prefix) : p.mask.length = p.length := by
  simp only [mask]
  split <;> rfl

@[simp] lemma ip_length_mask (p : Prefix) : p.mask.ip.length = p.ip.length := by
  simp only [mask]
  split <;> simp [maskBytes]

@[simp] lemma afi_mask (p : Prefix) : p.mask.afi = p.afi :=
  afi_eq_of_ip_length (ip_length_mask p)

/-- `ApplyMask` keeps the address's length. -/
lemma ip_length_of_applyMask {p q : Prefix} (h : p.applyMask = some q) :
    q.ip.length = p.ip.length := by
  unfold applyMask at h
  dsimp only at h
  split_ifs at h <;> cases h <;> simp [maskBytes]

/-- What `ApplyMask` returns when the result has a family: the masked prefix, of a length that
is not negative. -/
lemma applyMask_eq_some_of_afi {p q : Prefix} {afi : Afi} (h : p.applyMask = some q)
    (hafi : q.afi = some afi) : 0 ≤ p.length ∧ q = p.mask := by
  apply applyMask_eq_some h
  rw [← ip_length_of_applyMask h, ip_length_of_afi hafi]
  cases afi <;> decide

/-- The masked prefix of an address of a family has an address of the family's length. -/
lemma ip_length_mask_of_afi {p : Prefix} {afi : Afi} (h : p.afi = some afi) :
    p.mask.ip.length = afi.ipLen := by
  rw [ip_length_mask]
  exact ip_length_of_afi h

lemma mask_of_le {p : Prefix} (hi : p.ip.length ≤ p.length.toNat / 8) : p.mask = p := by
  simp only [mask, if_pos hi]

/-- The bytes of a masked address: kept before the byte of the last prefix bit, cut to the
prefix bits in it, zero after it. -/
lemma getElem_mask {p : Prefix} (hi : p.length.toNat / 8 < p.ip.length) {j : Nat}
    (hj : j < p.ip.length) (hj' : j < p.mask.ip.length) :
    p.mask.ip[j] = if j < p.length.toNat / 8 then p.ip[j]
      else if j = p.length.toNat / 8 then p.ip[j] &&& MaskBits.getD (p.length.toNat % 8) 0
      else 0 := by
  simp only [mask, if_neg (Nat.not_le.2 hi), maskBytes, List.getElem_mapIdx]

lemma mask_mask (p : Prefix) : p.mask.mask = p.mask := by
  by_cases hi : p.length.toNat / 8 < p.ip.length
  · have hi' : p.mask.length.toNat / 8 < p.mask.ip.length := by simpa using hi
    refine Prefix.ext ?_ (length_mask _)
    apply List.ext_getElem (by simp)
    intro j hj₁ hj₂
    rw [getElem_mask hi' hj₂ hj₁, getElem_mask hi (by simpa using hj₂) hj₂]
    simp only [length_mask]
    split_ifs <;> simp [UInt8.and_assoc]
  · rw [mask_of_le (Nat.not_lt.1 hi), mask_of_le (Nat.not_lt.1 hi)]

/-- A masked prefix: a length that is one, and `ApplyMask` leaves it as it is. -/
def Masked (p : Prefix) : Prop := 0 ≤ p.length ∧ p.mask = p

lemma masked_mask {p : Prefix} (h : 0 ≤ p.length) : p.mask.Masked :=
  ⟨by simpa using h, mask_mask p⟩

lemma Masked.applyMask {p : Prefix} (hp : p.Masked) : p.applyMask = some p := by
  rw [applyMask_of_nonneg hp.1, hp.2]

/-- A byte of a masked address, read off the mask. -/
lemma Masked.getElem {p : Prefix} (hp : p.Masked) (hi : p.length.toNat / 8 < p.ip.length)
    {j : Nat} (hj : j < p.ip.length) :
    p.ip[j] = if j < p.length.toNat / 8 then p.ip[j]
      else if j = p.length.toNat / 8 then p.ip[j] &&& MaskBits.getD (p.length.toNat % 8) 0
      else 0 := by
  have hj' : j < p.mask.ip.length := by simpa using hj
  have h := getElem_mask hi hj hj'
  simp only [show p.mask = p from hp.2] at h
  exact h

/-- `PrefixFromIPPrefixlen` after `ip := make([]byte, n); copy(ip, key)`: the first `n` bytes
of the key, padded with zeros. -/
def fromKey (n : Nat) (key : List UInt8) (len : Int) : Prefix :=
  { ip := key.take n ++ List.replicate (n - key.length) 0, length := len }

end Prefix

/-- `net.IP.Equal`: equal bytes, or an IPv4 address and its IPv4-mapped IPv6 form. -/
def ipEqual (a b : List UInt8) : Bool :=
  if a.length = b.length then a == b
  else if a.length = 4 ∧ b.length = 16 then
    b.take 12 == [0, 0, 0, 0, 0, 0, 0, 0, 0, 0, 0xff, 0xff] && a == b.drop 12
  else if a.length = 16 ∧ b.length = 4 then
    a.take 12 == [0, 0, 0, 0, 0, 0, 0, 0, 0, 0, 0xff, 0xff] && a.drop 12 == b
  else false

/-- `Prefix.Equal`: `net.IP.Equal` addresses and equal lengths. -/
def Prefix.equal (p x : Prefix) : Bool := ipEqual p.ip x.ip && p.length == x.length

/-- The form `net.IP.Equal` compares: an IPv4 address as its IPv4-mapped IPv6 address, any
other slice as it is. -/
def ipCanon (a : List UInt8) : List UInt8 :=
  if a.length = 4 then [0, 0, 0, 0, 0, 0, 0, 0, 0, 0, 0xff, 0xff] ++ a else a

lemma length_ipCanon (a : List UInt8) :
    (ipCanon a).length = if a.length = 4 then 16 else a.length := by
  unfold ipCanon
  split <;> simp_all

/-- An IPv4 address equals an IPv6 one exactly when the latter is its IPv4-mapped form. -/
lemma v4_mapped_iff {a b : List UInt8} (hb : b.length = 16) :
    (b.take 12 == [0, 0, 0, 0, 0, 0, 0, 0, 0, 0, 0xff, 0xff] && a == b.drop 12) = true ↔
      [0, 0, 0, 0, 0, 0, 0, 0, 0, 0, 0xff, 0xff] ++ a = b := by
  simp only [Bool.and_eq_true, beq_iff_eq]
  constructor
  · rintro ⟨h₁, h₂⟩
    rw [← List.take_append_drop 12 b, h₁, h₂]
  · rintro rfl
    simp

/-- `net.IP.Equal` is equality of the compared forms; so it is symmetric and transitive. -/
theorem ipEqual_iff (a b : List UInt8) : ipEqual a b = true ↔ ipCanon a = ipCanon b := by
  have hl : ipCanon a = ipCanon b →
      (if a.length = 4 then 16 else a.length) = if b.length = 4 then 16 else b.length :=
    fun h => by rw [← length_ipCanon, ← length_ipCanon, h]
  unfold ipEqual
  split_ifs with h₁ h₂ h₃
  · -- equal lengths: the forms are built the same way
    rw [beq_iff_eq]
    unfold ipCanon
    rw [h₁]
    split_ifs <;> simp
  · rw [v4_mapped_iff h₂.2]
    simp [ipCanon, h₂.1, h₂.2]
  · rw [show (List.drop 12 a == b) = (b == List.drop 12 a) from Bool.beq_comm,
      v4_mapped_iff h₃.1]
    simp [ipCanon, h₃.1, h₃.2, eq_comm]
  · simp only [false_iff]
    intro h
    have := hl h
    split_ifs at this <;> omega

lemma ipEqual_comm (a b : List UInt8) : ipEqual a b = ipEqual b a := by
  rw [Bool.eq_iff_iff, ipEqual_iff, ipEqual_iff, eq_comm]

lemma ipEqual_trans {a b c : List UInt8} (h₁ : ipEqual a b = true) (h₂ : ipEqual b c = true) :
    ipEqual a c = true := by
  rw [ipEqual_iff] at *
  exact h₁.trans h₂

lemma Prefix.equal_comm (p x : Prefix) : p.equal x = x.equal p := by
  rw [Prefix.equal, Prefix.equal, ipEqual_comm, Bool.beq_comm]

lemma Prefix.equal_trans {p x y : Prefix} (h₁ : p.equal x = true) (h₂ : x.equal y = true) :
    p.equal y = true := by
  simp only [Prefix.equal, Bool.and_eq_true, beq_iff_eq] at *
  exact ⟨ipEqual_trans h₁.1 h₂.1, h₁.2.trans h₂.2⟩

/-- `Ptree.keyMatch`: the first `len1` bits of `key1` and `key2` agree and `len1 ≤ len2`.
Bytes past the end of a key read as zero; the tree only compares keys at lengths they hold. -/
def keyMatch (key1 : List UInt8) (len1 : Nat) (key2 : List UInt8) (len2 : Nat) : Bool :=
  if len2 < len1 then false
  else
    let offset := min len1 len2 / 8
    let shift := min len1 len2 % 8
    (shift == 0 ||
      (MaskBits.getD shift 0 &&& (key1.getD offset 0 ^^^ key2.getD offset 0)) == 0) &&
    key1.take offset == key2.take offset

lemma uint8_and_xor_distrib_left (m x y : UInt8) : m &&& (x ^^^ y) = (m &&& x) ^^^ (m &&& y) := by
  apply UInt8.toNat_inj.1
  simp [Nat.and_xor_distrib_left]

/-- Two masked prefixes of one address length and one prefix length match in the tree's sense
exactly when they are equal: a masked key stands at one place of the tree only. -/
theorem keyMatch_iff_eq_of_masked {a b : Prefix} (ha : a.Masked) (hb : b.Masked)
    (hw : a.ip.length = b.ip.length) (hl : a.length = b.length) :
    keyMatch a.ip a.length.toNat b.ip b.length.toNat = true ↔ a = b := by
  constructor
  · intro h
    obtain ⟨ip, len⟩ := a
    obtain ⟨ip', len'⟩ := b
    dsimp only at hw hl
    subst hl
    have hk : (len.toNat % 8 = 0 ∨ MaskBits.getD (len.toNat % 8) 0 &&&
        (ip.getD (len.toNat / 8) 0 ^^^ ip'.getD (len.toNat / 8) 0) = 0) ∧
        ip.take (len.toNat / 8) = ip'.take (len.toNat / 8) := by
      simpa [keyMatch] using h
    obtain ⟨hbyte, htake⟩ := hk
    refine Prefix.ext ?_ rfl
    by_cases hi : len.toNat / 8 < ip.length
    · apply List.ext_getElem hw
      intro j hj hj'
      rw [ha.getElem hi hj, hb.getElem (by simpa [← hw] using hi) hj']
      dsimp only
      split_ifs with h₁ h₂
      · -- a byte before the cut one: the matched bytes agree
        have h := congrArg (·[j]?) htake
        simpa [List.getElem?_take, h₁, hj, hj'] using h
      · -- the cut byte: it agrees on the prefix bits, and the mask clears the others
        subst h₂
        rcases hbyte with h0 | hx
        · simp [h0, MaskBits]
        · rw [List.getD_eq_getElem _ _ hj, List.getD_eq_getElem _ _ hj',
            uint8_and_xor_distrib_left, UInt8.xor_eq_zero_iff] at hx
          rw [UInt8.and_comm, hx, UInt8.and_comm]
      · rfl
    · -- the prefix covers the whole address: the match compares all of it
      rw [← List.take_of_length_le (Nat.le_of_not_lt hi), htake,
        List.take_of_length_le (by omega)]
  · rintro rfl
    simp [keyMatch]

/-- `bitCheck`: bit `len` of the key, counted from the most significant bit of its first byte,
inverted in a tree ordered in reverse. -/
def bitCheck (key : List UInt8) (len : Nat) (reverse : Bool) : Bool :=
  let bit := (key.getD (len / 8) 0 >>> (7 - (len % 8)).toUInt8) &&& 1 == 1
  if reverse then !bit else bit

end Zebra.Netutil
