import Mathlib.Data.List.Basic
import Mathlib.Algebra.Group.Nat.Defs

/-!
# Go's conversions of configuration text

The conversions of Go's standard library that the program applies to the text it is configured
with: `strconv.ParseUint` in base 10, `strings.Split` and `strings.Join` on a separator of one
character, and `net.ParseIP` and `net.IP.String` as the package `net` wrote them before its
rewrite over `netip` (the IPv4 parser of that time takes leading zeros).
An address is a list of bytes: `ParseIP` returns sixteen, an IPv4 address in its IPv4-mapped
form, and `To4` gives the four bytes of such an address.

Nothing here is specific to the program.
-/

namespace Zebra.Lib

/-- `strconv.ParseUint(s, 10, bitSize)`: a nonempty string of decimal digits whose value fits in
`bitSize` bits; `none` where Go returns its syntax or range error.  In base 10 Go takes no sign,
no prefix and no underscore. -/
def parseUint (s : String) (bitSize : Nat) : Option Nat :=
  let cs := s.toList
  if cs ≠ [] ∧ cs.all Char.isDigit = true then
    let n := cs.foldl (fun n c => 10 * n + (c.toNat - '0'.toNat)) 0
    if n < 2 ^ bitSize then some n else none
  else none

example : parseUint "0100" 32 = some 100 := by decide
example : parseUint "4294967296" 32 = none := by decide
example : parseUint "+1" 32 = none := by decide

/-- Decimal text holds digits only. -/
lemma not_mem_repr {c : Char} (hc : c.isDigit = false) (n : Nat) : c ∉ n.repr.toList := by
  intro h
  rw [Nat.toList_repr] at h
  rw [Nat.isDigit_of_mem_toDigits (by decide) (by decide) h] at hc
  cases hc

/-- `ParseUint` reads back the decimal text of a number that fits. -/
lemma parseUint_repr {n bitSize : Nat} (h : n < 2 ^ bitSize) :
    parseUint n.repr bitSize = some n := by
  have hdigits : (Nat.toDigits 10 n).all Char.isDigit = true :=
    List.all_eq_true.2 fun c hc => Nat.isDigit_of_mem_toDigits (by decide) (by decide) hc
  have hval : (Nat.toDigits 10 n).foldl (fun n c => 10 * n + (c.toNat - '0'.toNat)) 0 = n :=
    Nat.ofDigitChars_ten_toDigits
  unfold parseUint
  dsimp only
  rw [Nat.toList_repr, if_pos ⟨Nat.toDigits_ne_nil, hdigits⟩, hval, if_pos h]

/-! ### `strings.Split` and `strings.Join` -/

/-- `strings.Split(s, sep)` for a separator of one character: the pieces between its
occurrences; the empty string is one empty piece. -/
def stringsSplit (s : String) (sep : Char) : List String :=
  (s.toList.splitOn sep).map String.ofList

/-- `strings.Join(elems, sep)` for a separator of one character. -/
def stringsJoin (elems : List String) (sep : Char) : String :=
  String.intercalate (String.singleton sep) elems

example : stringsSplit "" ' ' = [""] := by decide

/-- Pieces without the separator, joined and split again. -/
lemma stringsSplit_stringsJoin {elems : List String} {sep : Char}
    (h : ∀ s ∈ elems, sep ∉ s.toList) (hne : elems ≠ []) :
    stringsSplit (stringsJoin elems sep) sep = elems := by
  simp only [stringsSplit, stringsJoin, String.toList_intercalate, String.toList_singleton]
  rw [List.splitOn_intercalate _ (by simpa using h) (by simpa using hne)]
  simp [Function.comp_def]

lemma stringsJoin_pair (a b : String) (sep : Char) :
    stringsJoin [a, b] sep = a ++ String.singleton sep ++ b := by
  rw [← String.toList_inj]
  simp [stringsJoin]

/-- Reading every piece back as itself reads the list back. -/
lemma mapM_eq_some_self {α : Type*} {g : α → Option α} {l : List α}
    (h : ∀ x ∈ l, g x = some x) :
    l.mapM g = some l := by
  induction l with
  | nil => rfl
  | cons a t ih =>
    rw [List.mapM_cons, h a List.mem_cons_self, ih fun x hx => h x (List.mem_cons_of_mem a hx)]
    rfl

/-! ### `net.ParseIP` and `net.IP.String` -/

/-- The bound `big` of the digit scanners `dtoi` and `xtoi`. -/
def bigScan : Nat := 0xFFFFFF

/-- The value of a hexadecimal digit. -/
def hexVal (c : Char) : Option Nat :=
  if '0' ≤ c ∧ c ≤ '9' then some (c.toNat - '0'.toNat)
  else if 'a' ≤ c ∧ c ≤ 'f' then some (c.toNat - 'a'.toNat + 10)
  else if 'A' ≤ c ∧ c ≤ 'F' then some (c.toNat - 'A'.toNat + 10)
  else none

/-- `dtoi`: the decimal number at the start of `s` and the characters it takes; `none` without a
digit or when the number reaches `big` (the value only grows with each digit, so reaching `big`
on the way is reaching it at the end). -/
def dtoi (s : List Char) : Option (Nat × Nat) :=
  let ds := s.takeWhile Char.isDigit
  let n := ds.foldl (fun n c => 10 * n + (c.toNat - '0'.toNat)) 0
  if ds = [] ∨ bigScan ≤ n then none else some (n, ds.length)

/-- `xtoi`: the hexadecimal number at the start of `s` and the characters it takes. -/
def xtoi (s : List Char) : Option (Nat × Nat) :=
  let ds := s.takeWhile fun c => (hexVal c).isSome
  let n := ds.foldl (fun n c => 16 * n + (hexVal c).getD 0) 0
  if ds = [] ∨ bigScan ≤ n then none else some (n, ds.length)

/-- `v4InV6Prefix`: the first twelve bytes of an IPv4-mapped address. -/
def v4InV6Prefix : List UInt8 := [0, 0, 0, 0, 0, 0, 0, 0, 0, 0, 0xff, 0xff]

/-- The fields of `parseIPv4`, `k` of them still to read: each but the first after a dot, a
decimal number below 256. -/
def ipv4Fields : Nat → Bool → List Char → Option (List UInt8 × List Char)
  | 0, _, s => some ([], s)
  | k + 1, first, s => do
    -- missing octets
    if s = [] then none
    let s ← if first then some s else match s with
      | '.' :: s => some s
      | _ => none
    let (n, c) ← dtoi s
    if 0xFF < n then none
    let (p, rest) ← ipv4Fields k false (s.drop c)
    pure (UInt8.ofNat n :: p, rest)

/-- `parseIPv4`: four fields and nothing after them, as an IPv4-mapped address (`IPv4`). -/
def parseIPv4 (s : List Char) : Option (List UInt8) := do
  let (p, rest) ← ipv4Fields 4 true s
  if rest = [] then some (v4InV6Prefix ++ p) else none

/-- The loop of `parseIPv6`, `acc` the bytes written so far and `ellipsis` the place of a `::`:
a hexadecimal group, or a trailing IPv4 address, then a colon and maybe a second colon.  The
loop stops at the sixteenth byte (`fuel`, eight groups, bounds it no sooner). -/
def ipv6Loop : Nat → List UInt8 → Option Nat → List Char →
    Option (List UInt8 × Option Nat × List Char)
  | 0, acc, ellipsis, s => some (acc, ellipsis, s)
  | fuel + 1, acc, ellipsis, s =>
    if 16 ≤ acc.length then some (acc, ellipsis, s)
    else do
      let (n, c) ← xtoi s
      if 0xFFFF < n then none
      if s.getD c ' ' = '.' then
        -- a trailing IPv4 address, in the last four bytes or after a `::`
        if ellipsis = none ∧ acc.length ≠ 12 then none
        if 16 < acc.length + 4 then none
        let ip4 ← parseIPv4 s
        some (acc ++ ip4.drop 12, ellipsis, [])
      else
        let acc := acc ++ [UInt8.ofNat (n / 256), UInt8.ofNat n]
        let s := s.drop c
        match s with
        | [] => some (acc, ellipsis, [])
        | [_] => none
        | d :: e :: s =>
          if d ≠ ':' then none
          else if e = ':' then
            if ellipsis.isSome then none
            else if s = [] then some (acc, some acc.length, [])
            else ipv6Loop fuel acc (some acc.length) s
          else ipv6Loop fuel acc ellipsis (e :: s)

/-- `parseIPv6` without a zone: a leading `::`, the loop, and the zeros the `::` stands for. -/
def parseIPv6 (s : List Char) : Option (List UInt8) := do
  let (ellipsis, s) := match s with
    | ':' :: ':' :: s => (some 0, s)
    | s => (none, s)
  if ellipsis.isSome ∧ s = [] then some (List.replicate 16 0)
  else
    let (acc, ellipsis, s) ← ipv6Loop 8 [] ellipsis s
    if s ≠ [] then none
    else if acc.length < 16 then
      match ellipsis with
      | none => none
      | some e => some (acc.take e ++ List.replicate (16 - acc.length) 0 ++ acc.drop e)
    else if ellipsis.isSome then none
    else some acc

/-- `net.ParseIP`: an IPv4 address if a dot comes before any colon, an IPv6 address if a colon
comes first, and nothing otherwise. -/
def parseIP (s : String) : Option (List UInt8) :=
  match s.toList.find? fun c => c = '.' ∨ c = ':' with
  | some '.' => parseIPv4 s.toList
  | some _ => parseIPv6 s.toList
  | none => none

/-- `IP.To4`: the four bytes of a four-byte or IPv4-mapped address. -/
def to4 (ip : List UInt8) : Option (List UInt8) :=
  if ip.length = 4 then some ip
  else if ip.length = 16 ∧ ip.take 12 = v4InV6Prefix then some (ip.drop 12)
  else none

/-- The sixteen-bit groups of an IPv6 address. -/
def ipv6Groups (ip : List UInt8) : List Nat :=
  (List.range 8).map fun k => (ip.getD (2 * k) 0).toNat * 256 + (ip.getD (2 * k + 1) 0).toNat

/-- The search of `IP.String` for the first longest run of zero groups, from group `i` with the
best run `(e0, e1)` so far; a run ends the step after it. -/
def zeroRun (g : List Nat) : Nat → Nat → Nat × Nat → Nat × Nat
  | 0, _, e => e
  | fuel + 1, i, (e0, e1) =>
    if 8 ≤ i then (e0, e1)
    else
      let j := i + ((g.drop i).takeWhile (· = 0)).length
      if i < j ∧ e1 - e0 < j - i then zeroRun g fuel (j + 1) (i, j)
      else zeroRun g fuel (i + 1) (e0, e1)

/-- The groups of `IP.String` from group `k`, with `::` for the run `(e0, e1)`. -/
def ipv6Text (g : List Nat) (e0 e1 : Nat) : Nat → Nat → List Char
  | 0, _ => []
  | fuel + 1, k =>
    if 8 ≤ k then []
    else if k = e0 then
      [':', ':'] ++
        if 8 ≤ e1 then [] else Nat.toDigits 16 (g.getD e1 0) ++ ipv6Text g e0 e1 fuel (e1 + 1)
    else
      (if 0 < k then [':'] else []) ++ Nat.toDigits 16 (g.getD k 0) ++ ipv6Text g e0 e1 fuel (k + 1)

/-- `net.IP.String`: dotted decimal for an IPv4 address in either form; for another sixteen-byte
address the hexadecimal groups, the first longest run of two zero groups or more written `::`. -/
def ipString (ip : List UInt8) : String :=
  if ip.length = 0 then "<nil>"
  else match to4 ip with
  | some p4 => String.ofList (['.'].intercalate (p4.map fun b => Nat.toDigits 10 b.toNat))
  | none =>
    -- `hexString`: two hexadecimal digits a byte
    if ip.length ≠ 16 then
      "?" ++ String.ofList
        (ip.flatMap fun b => [Nat.digitChar (b.toNat / 16), Nat.digitChar (b.toNat % 16)])
    else
      let g := ipv6Groups ip
      let (e0, e1) := zeroRun g 8 0 (0, 0)
      -- no `::` for a single zero group
      let (e0, e1) := if e1 - e0 ≤ 1 then (8, 8) else (e0, e1)
      String.ofList (ipv6Text g e0 e1 8 0)

example : parseIP "::ffff:10.0.0.1" = some (v4InV6Prefix ++ [10, 0, 0, 1]) := by decide
example : (parseIP "2001:DB8::1").map ipString = some "2001:db8::1" := by decide
example : (parseIP "010.0.0.1").map ipString = some "10.0.0.1" := by decide
example : (parseIP "1:0:0:1:0:0:0:1").map ipString = some "1:0:0:1::1" := by decide

end Zebra.Lib
