import Zebra.Policy.ASPath
import Zebra.Lib.GoText
import Mathlib.Data.List.TakeWhile
import Mathlib.Data.List.Chain

/-!
# AS paths as text

`AsPath.String` prints a path as its segments joined by blanks, each segment its AS numbers in
decimal joined by blanks between the delimiters of its type: none for `AS_SEQUENCE`, `{}` for
`AS_SET`, `()` and `[]` for the confederation forms.  `AsPathParse` reads such text back with a
token loop over `AsPathTokenGet`: a number goes to the open segment, or to a new sequence segment
after a closing delimiter, and `AsPath.Append` starts a new segment of the same type when the
last one holds 255 numbers.

The parser reads back what the printer writes for every path in normal form: segments of a known
type that carry their own count and at least one number, and no sequence segment with room left
directly followed by another one, which the text could not tell apart from one segment
(`asPathParse_string`).  The digits of a number are accumulated in a `uint32` with no range
check, so a number of 2^32 or more is read modulo 2^32 (`asPathParse_digits`).

The packages `bgp` and `policy` carry the same text functions, word for word; the `bgp` names
stand at the end as the `policy` ones.
-/

namespace Zebra.Policy

open Zebra.Lib

/-- `AsSegmentDelimiter`: the text before and after a segment's numbers. -/
def asSegmentDelimiter (typ : UInt8) : String × String :=
  if typ = asSequence then ("", "")
  else if typ = asSet then ("\x7b", "\x7d")
  else if typ = asConfedSequence then ("(", ")")
  else if typ = asConfedSet then ("[", "]")
  else ("", "")

/-- `As4Segment.String`. -/
def As4Segment.string (seg : As4Segment) : String :=
  (asSegmentDelimiter seg.typ).1 ++ stringsJoin (seg.asns.map fun as => as.toNat.repr) ' ' ++
    (asSegmentDelimiter seg.typ).2

/-- `AsPath.String`. -/
def AsPath.string (aspath : List As4Segment) : String :=
  stringsJoin (aspath.map As4Segment.string) ' '

/-- The tokens of `AsPathTokenGet`; a number carries its value. -/
inductive AsToken
  | error
  | eof
  | number (asval : UInt32)
  | setStart
  | setEnd
  | confedSequenceStart
  | confedSequenceEnd
  | confedSetStart
  | confedSetEnd
deriving DecidableEq, Repr

/-- The digit loop of `AsPathTokenGet`: each further digit multiplies the `uint32` value by ten
and adds itself, wrapping as `uint32` arithmetic does. -/
def readDigits (asval : UInt32) : List Char → UInt32 × List Char
  | c :: str =>
    if c.isDigit then readDigits (asval * 10 + UInt32.ofNat (c.toNat - '0'.toNat)) str
    else (asval, c :: str)
  | [] => (asval, [])

/-- `AsPathTokenGet`: the rest of the text and its next token. -/
def asPathTokenGet (str : List Char) : List Char × AsToken :=
  -- the separators: ' ' for sequences, ',' for sets
  match str.dropWhile (fun c => c == ' ' || c == ',') with
  | [] => ([], .eof)
  | c :: str =>
    if c = '{' then (str, .setStart)
    else if c = '}' then (str, .setEnd)
    else if c = '(' then (str, .confedSequenceStart)
    else if c = ')' then (str, .confedSequenceEnd)
    else if c = '[' then (str, .confedSetStart)
    else if c = ']' then (str, .confedSetEnd)
    else if c.isDigit then
      let r := readDigits (UInt32.ofNat (c.toNat - '0'.toNat)) str
      (r.2, .number r.1)
    else (c :: str, .error)

/-- `NewAs4Segment`. -/
def newAs4Segment (typ : UInt8) : As4Segment := ⟨typ, 0, []⟩

/-- `As4Segment.Append`. -/
def As4Segment.append (seg : As4Segment) (asnum : UInt32) : As4Segment :=
  { seg with length := seg.length + 1, asns := seg.asns ++ [asnum] }

/-- `AsPath.Append`: the number goes to the last segment, a new sequence segment when the path is
empty, and to a new segment of the last one's type when the last holds 255 numbers.  The
segments are pointers in Go, so the number lands in the path's last segment either way. -/
def AsPath.append (aspath : List As4Segment) (asnum : UInt32) : List As4Segment :=
  match aspath.getLast? with
  | none => [(newAs4Segment asSequence).append asnum]
  | some seg =>
    if seg.length = 255 then aspath ++ [(newAs4Segment seg.typ).append asnum]
    else aspath.dropLast ++ [seg.append asnum]

/-- The variables of `AsPathParse`'s loop. -/
structure ParseState where
  aspath : List As4Segment
  segType : UInt8
  needSegment : Bool
deriving DecidableEq, Repr

/-- One pass of `AsPathParse`'s loop on a token that neither ends nor fails it. -/
def ParseState.step (st : ParseState) : AsToken → ParseState
  | .number asnum =>
    let aspath := if st.needSegment then st.aspath ++ [newAs4Segment st.segType] else st.aspath
    ⟨AsPath.append aspath asnum, st.segType, false⟩
  | .setStart => ⟨st.aspath ++ [newAs4Segment asSet], asSet, false⟩
  | .confedSequenceStart =>
    ⟨st.aspath ++ [newAs4Segment asConfedSequence], asConfedSequence, false⟩
  | .confedSetStart => ⟨st.aspath ++ [newAs4Segment asConfedSet], asConfedSet, false⟩
  | .setEnd | .confedSequenceEnd | .confedSetEnd =>
    { st with segType := asSequence, needSegment := true }
  | .eof | .error => st

/-- The loop of `AsPathParse`.  Every pass that neither ends nor fails consumes text, so fuel
beyond the text's length is never reached (`asPathParseLoop_fuel`). -/
def asPathParseLoop : Nat → List Char → ParseState → Except String (List As4Segment)
  | 0, _, st => .ok st.aspath
  | fuel + 1, str, st =>
    match asPathTokenGet str with
    | (_, .eof) => .ok st.aspath
    | (_, .error) => .error "AS_PATH parse error"
    | (str, token) => asPathParseLoop fuel str (st.step token)

/-- `AsPathParse`. -/
def asPathParse (str : String) : Except String (List As4Segment) :=
  asPathParseLoop (str.length + 1) str.toList ⟨[], asSequence, true⟩

example : asPathParse "1 2 \x7b3,4\x7d (5) 6" =
    .ok [⟨asSequence, 2, [1, 2]⟩, ⟨asSet, 2, [3, 4]⟩, ⟨asConfedSequence, 1, [5]⟩,
      ⟨asSequence, 1, [6]⟩] := by decide

example : asPathParse "1 x" = .error "AS_PATH parse error" := by decide

/-! ### Tokens -/

/-- Text that does not continue a number. -/
def NoDigitHead (rest : List Char) : Prop := ∀ c ∈ rest.head?, c.isDigit = false

lemma noDigitHead_flatMap {α : Type} (f : α → List Char) (xs : List α) {rest : List Char}
    (hr : NoDigitHead rest) : NoDigitHead (xs.flatMap (fun x => ' ' :: f x) ++ rest) := by
  cases xs with
  | nil => simpa using hr
  | cons x xs =>
    intro c hc
    simp only [List.flatMap_cons, List.cons_append, List.head?_cons, Option.mem_def,
      Option.some.injEq] at hc
    subst hc
    rfl

lemma ne_of_isDigit {c d : Char} (hc : c.isDigit = true) (hd : d.isDigit = false) : c ≠ d := by
  rintro rfl
  rw [hc] at hd
  cases hd

/-- A digit run is read up to text that does not continue it, its value taken modulo 2^32. -/
lemma readDigits_append {ds rest : List Char} (hd : ∀ c ∈ ds, c.isDigit = true)
    (hr : NoDigitHead rest) (a : Nat) :
    readDigits (UInt32.ofNat a) (ds ++ rest) =
      (UInt32.ofNat (Nat.ofDigitChars 10 ds a), rest) := by
  induction ds generalizing a with
  | nil =>
    cases rest with
    | nil => rfl
    | cons c rest => simp [readDigits, hr c rfl, Nat.ofDigitChars_nil]
  | cons c ds ih =>
    have hc := hd c (by simp)
    -- the `uint32` multiply-add is the one on numbers, taken modulo 2^32
    have hstep : UInt32.ofNat a * 10 + UInt32.ofNat (c.toNat - '0'.toNat) =
        UInt32.ofNat (a * 10 + (c.toNat - '0'.toNat)) := by
      rw [UInt32.ofNat_add, UInt32.ofNat_mul]
      rfl
    rw [List.cons_append, readDigits, if_pos hc, hstep,
      ih (fun x hx => hd x (List.mem_cons_of_mem c hx)), Nat.ofDigitChars_cons, Nat.mul_comm a]

/-- A digit run makes a number token, its value taken modulo 2^32. -/
lemma asPathTokenGet_digits {c : Char} {ds rest : List Char}
    (hd : ∀ x ∈ c :: ds, x.isDigit = true) (hr : NoDigitHead rest) :
    asPathTokenGet (c :: ds ++ rest) =
      (rest, .number (UInt32.ofNat (Nat.ofDigitChars 10 (c :: ds) 0))) := by
  have hc : c.isDigit = true := hd c List.mem_cons_self
  have hsep : (c == ' ' || c == ',') = false := by
    simp only [Bool.or_eq_false_iff, beq_eq_false_iff_ne]
    exact ⟨ne_of_isDigit hc rfl, ne_of_isDigit hc rfl⟩
  simp only [asPathTokenGet, List.cons_append, List.dropWhile_cons, hsep, Bool.false_eq_true,
    if_false]
  rw [if_neg (ne_of_isDigit hc rfl), if_neg (ne_of_isDigit hc rfl),
    if_neg (ne_of_isDigit hc rfl), if_neg (ne_of_isDigit hc rfl),
    if_neg (ne_of_isDigit hc rfl), if_neg (ne_of_isDigit hc rfl), if_pos hc,
    readDigits_append (fun x hx => hd x (List.mem_cons_of_mem c hx)) hr,
    Nat.ofDigitChars_cons (c := c), Nat.mul_zero, Nat.zero_add]

/-- The decimal text of an AS number is read back as the number. -/
lemma asPathTokenGet_repr (n : UInt32) {rest : List Char} (hr : NoDigitHead rest) :
    asPathTokenGet (n.toNat.repr.toList ++ rest) = (rest, .number n) := by
  obtain ⟨c, ds, hcd⟩ := List.exists_cons_of_ne_nil (Nat.toDigits_ne_nil (n := n.toNat) (b := 10))
  have hd : ∀ x ∈ c :: ds, x.isDigit = true := fun x hx =>
    Nat.isDigit_of_mem_toDigits (by decide) (by decide) (hcd ▸ hx)
  rw [Nat.toList_repr, hcd, asPathTokenGet_digits hd hr, ← hcd, Nat.ofDigitChars_ten_toDigits,
    UInt32.ofNat_toNat]

lemma asPathTokenGet_space (str : List Char) : asPathTokenGet (' ' :: str) = asPathTokenGet str :=
  rfl

lemma length_readDigits_le (asval : UInt32) (str : List Char) :
    (readDigits asval str).2.length ≤ str.length := by
  induction str generalizing asval with
  | nil => exact Nat.le_refl 0
  | cons c str ih =>
    rw [readDigits]
    split
    · exact Nat.le_succ_of_le (ih _)
    · exact Nat.le_refl _

/-- A token that neither ends nor fails the loop consumes text. -/
lemma length_asPathTokenGet_lt {str rest : List Char} {token : AsToken}
    (h : asPathTokenGet str = (rest, token)) (heof : token ≠ .eof) (herr : token ≠ .error) :
    rest.length < str.length := by
  have hle := List.length_dropWhile_le (fun c => c == ' ' || c == ',') str
  unfold asPathTokenGet at h
  generalize str.dropWhile (fun c => c == ' ' || c == ',') = d at h hle
  cases d with
  | nil =>
    cases h
    exact absurd rfl heof
  | cons c d =>
    simp only [List.length_cons] at hle
    dsimp only at h
    split_ifs at h <;> cases h
    · omega
    · omega
    · omega
    · omega
    · omega
    · omega
    · exact Nat.lt_of_le_of_lt (length_readDigits_le _ d) (by omega)
    · exact absurd rfl herr

/-! ### The loop -/

/-- A pass on a token that neither ends nor fails the loop. -/
lemma asPathParseLoop_succ {fuel : Nat} {str rest : List Char} {token : AsToken}
    {st : ParseState} (h : asPathTokenGet str = (rest, token)) (heof : token ≠ .eof)
    (herr : token ≠ .error) :
    asPathParseLoop (fuel + 1) str st = asPathParseLoop fuel rest (st.step token) := by
  rw [asPathParseLoop, h]
  cases token <;> first | rfl | contradiction

lemma asPathParseLoop_space (fuel : Nat) (str : List Char) (st : ParseState) :
    asPathParseLoop fuel (' ' :: str) st = asPathParseLoop fuel str st := by
  cases fuel with
  | zero => rfl
  | succ fuel => rw [asPathParseLoop, asPathParseLoop, asPathTokenGet_space]

/-- Any fuel beyond the text's length gives the loop's result. -/
lemma asPathParseLoop_fuel {fuel fuel' : Nat} {str : List Char} (h : str.length < fuel)
    (h' : str.length < fuel') (st : ParseState) :
    asPathParseLoop fuel str st = asPathParseLoop fuel' str st := by
  induction fuel generalizing fuel' str st with
  | zero => omega
  | succ fuel ih =>
    obtain ⟨fuel', rfl⟩ : ∃ f, fuel' = f + 1 := ⟨fuel' - 1, by omega⟩
    rcases htok : asPathTokenGet str with ⟨rest, token⟩
    by_cases heof : token = .eof
    · subst heof
      simp only [asPathParseLoop, htok]
    by_cases herr : token = .error
    · subst herr
      simp only [asPathParseLoop, htok]
    -- a pass consumes text, so both sides still have more fuel than text
    have hlt := length_asPathTokenGet_lt htok heof herr
    rw [asPathParseLoop_succ htok heof herr, asPathParseLoop_succ htok heof herr]
    exact ih (by omega) (by omega) _

@[simp] lemma asPathParseLoop_nil (fuel : Nat) (st : ParseState) :
    asPathParseLoop fuel [] st = .ok st.aspath := by
  cases fuel <;> rfl

/-- Text joined by blanks reads as each piece behind a blank. -/
lemma intercalate_space_cons (x : List Char) (l : List (List Char)) :
    [' '].intercalate (x :: l) = x ++ l.flatMap (' ' :: ·) := by
  induction l generalizing x with
  | nil => simp
  | cons y l ih => rw [List.intercalate_cons_cons, ih, List.flatMap_cons]; simp

lemma asPathParseLoop_intercalate (fuel : Nat) (l : List (List Char)) (rest : List Char)
    (st : ParseState) :
    asPathParseLoop fuel ([' '].intercalate l ++ rest) st =
      asPathParseLoop fuel (l.flatMap (' ' :: ·) ++ rest) st := by
  cases l with
  | nil => rfl
  | cons x l =>
    rw [intercalate_space_cons, List.flatMap_cons, List.cons_append, List.cons_append,
      asPathParseLoop_space]

/-! ### Reading segments back -/

lemma AsPath.append_of_ne {pre : List As4Segment} {seg : As4Segment} (h : seg.length ≠ 255)
    (asnum : UInt32) : AsPath.append (pre ++ [seg]) asnum = pre ++ [seg.append asnum] := by
  simp only [AsPath.append, List.getLast?_concat, if_neg h, List.dropLast_concat]

lemma AsPath.append_of_eq {pre : List As4Segment} {seg : As4Segment} (h : seg.length = 255)
    (asnum : UInt32) :
    AsPath.append (pre ++ [seg]) asnum = pre ++ [seg, (newAs4Segment seg.typ).append asnum] := by
  simp only [AsPath.append, List.getLast?_concat, if_pos h, List.append_assoc,
    List.cons_append, List.nil_append]

lemma uint8_ofNat_ne_255 {k : Nat} (hk : k < 255) : UInt8.ofNat k ≠ 255 := by
  intro h
  have h' := congrArg UInt8.toNat h
  rw [UInt8.toNat_ofNat'] at h'
  simp only [UInt8.reduceToNat] at h'
  omega

/-- Blank-separated numbers all go to the last segment while it has room. -/
lemma asPathParseLoop_numbers {pre : List As4Segment} {typ : UInt8} {rest : List Char}
    (hr : NoDigitHead rest) (nums : List UInt32) (seg : As4Segment)
    (hlen : seg.length = UInt8.ofNat seg.asns.length)
    (hroom : seg.asns.length + nums.length ≤ 255) (fuel : Nat) :
    asPathParseLoop (fuel + nums.length)
        (nums.flatMap (fun n => ' ' :: n.toNat.repr.toList) ++ rest) ⟨pre ++ [seg], typ, false⟩ =
      asPathParseLoop fuel rest
        ⟨pre ++ [⟨seg.typ, UInt8.ofNat (seg.asns ++ nums).length, seg.asns ++ nums⟩], typ, false⟩ := by
  induction nums generalizing seg with
  | nil =>
    obtain ⟨typ', length, asns⟩ := seg
    simp only at hlen
    simp [hlen]
  | cons n nums ih =>
    -- the number goes to the last segment, which has room for it
    have hne : seg.length ≠ 255 := by
      rw [hlen]
      exact uint8_ofNat_ne_255 (by simp only [List.length_cons] at hroom; omega)
    have htok := asPathTokenGet_repr n
      (noDigitHead_flatMap (fun n : UInt32 => n.toNat.repr.toList) nums hr)
    have hlen' : (seg.append n).length = UInt8.ofNat (seg.append n).asns.length := by
      simp only [As4Segment.append, hlen, List.length_append, List.length_singleton,
        UInt8.ofNat_add]
      rfl
    rw [List.flatMap_cons, List.length_cons, ← Nat.add_assoc, List.cons_append, List.cons_append,
      asPathParseLoop_space, List.append_assoc, asPathParseLoop_succ htok (by simp) (by simp)]
    have hroom' : (seg.append n).asns.length + nums.length ≤ 255 := by
      simp only [As4Segment.append, List.length_append, List.length_cons, List.length_nil] at hroom ⊢
      omega
    simp only [ParseState.step, Bool.false_eq_true, if_false, AsPath.append_of_ne hne]
    rw [ih (seg.append n) hlen' hroom']
    simp [As4Segment.append]

/-- The state of the loop after the text of the segments `pre`: a number opens a sequence
segment, a new one unless the last segment read is a sequence. -/
def ParseState.after (pre : List As4Segment) : ParseState :=
  ⟨pre, asSequence, !(pre.getLast?.any fun seg => seg.typ == asSequence)⟩

/-- The first number of a sequence segment opens it, behind a segment of another type or a full
sequence segment. -/
lemma ParseState.step_after_number {pre : List As4Segment}
    (hfull : ∀ last ∈ pre.getLast?, last.typ = asSequence → last.length = 255) (n : UInt32) :
    (ParseState.after pre).step (.number n) =
      ⟨pre ++ [⟨asSequence, 1, [n]⟩], asSequence, false⟩ := by
  rcases List.eq_nil_or_concat' pre with rfl | ⟨pre, last, rfl⟩
  · rfl
  · by_cases hs : last.typ = asSequence
    · have hlast : last.length = 255 := hfull last (by simp) hs
      simp [ParseState.after, ParseState.step, hs, AsPath.append_of_eq hlast, newAs4Segment,
        As4Segment.append]
    · have hne : (newAs4Segment asSequence).length ≠ 255 := by decide
      have hneed : (ParseState.after (pre ++ [last])).needSegment = true := by
        simp [ParseState.after, hs]
      simp only [ParseState.step, hneed, if_true]
      simp only [ParseState.after, AsPath.append_of_ne hne]
      rfl

/-- The types printed between delimiters: the set and the confederation forms. -/
lemma typ_delimited {typ : UInt8} (hge : asSet ≤ typ) (hle : typ ≤ asConfedSet)
    (hs : typ ≠ asSequence) : typ = asSet ∨ typ = asConfedSequence ∨ typ = asConfedSet := by
  rw [UInt8.le_iff_toNat_le] at hge hle
  have h2 : typ.toNat ≠ 2 := fun h => hs (UInt8.toNat_inj.1 h)
  have h : typ.toNat = 1 ∨ typ.toNat = 3 ∨ typ.toNat = 4 := by
    simp only [asSet, asConfedSet, UInt8.reduceToNat] at hge hle
    omega
  rcases h with h | h | h
  · exact Or.inl (UInt8.toNat_inj.1 h)
  · exact Or.inr (Or.inl (UInt8.toNat_inj.1 h))
  · exact Or.inr (Or.inr (UInt8.toNat_inj.1 h))

section Delimited

variable {typ : UInt8} (ht : typ = asSet ∨ typ = asConfedSequence ∨ typ = asConfedSet)
include ht

/-- An opening delimiter opens a segment of its type. -/
lemma asPathParseLoop_open (fuel : Nat) (str : List Char) (st : ParseState) :
    asPathParseLoop (fuel + 1) ((asSegmentDelimiter typ).1.toList ++ str) st =
      asPathParseLoop fuel str ⟨st.aspath ++ [newAs4Segment typ], typ, false⟩ := by
  rcases ht with rfl | rfl | rfl <;> rfl

/-- A closing delimiter makes the next number open a sequence segment. -/
lemma asPathParseLoop_close (fuel : Nat) (str : List Char) (st : ParseState) :
    asPathParseLoop (fuel + 1) ((asSegmentDelimiter typ).2.toList ++ str) st =
      asPathParseLoop fuel str { st with segType := asSequence, needSegment := true } := by
  rcases ht with rfl | rfl | rfl <;> rfl

lemma noDigitHead_close (rest : List Char) :
    NoDigitHead ((asSegmentDelimiter typ).2.toList ++ rest) := by
  rcases ht with rfl | rfl | rfl <;> rintro c ⟨⟩ <;> rfl

end Delimited

lemma As4Segment.string_toList (seg : As4Segment) :
    seg.string.toList = (asSegmentDelimiter seg.typ).1.toList ++
      [' '].intercalate (seg.asns.map fun as => as.toNat.repr.toList) ++
        (asSegmentDelimiter seg.typ).2.toList := by
  simp [As4Segment.string, stringsJoin, String.toList_intercalate, Function.comp_def]

/-- The text of a well-formed segment behind a blank is read as the segment, when the segment
before it is not a sequence segment with room left that this one would continue. -/
lemma asPathParseLoop_segment {pre : List As4Segment} {seg : As4Segment} (hw : seg.WellFormed)
    (hne : seg.asns ≠ [])
    (hfull : ∀ last ∈ pre.getLast?, last.typ = asSequence → seg.typ = asSequence →
      last.length = 255)
    {rest : List Char} (hr : NoDigitHead rest) :
    ∃ k, ∀ fuel, asPathParseLoop (fuel + k) (' ' :: seg.string.toList ++ rest)
        (ParseState.after pre) = asPathParseLoop fuel rest (ParseState.after (pre ++ [seg])) := by
  have hroom : seg.asns.length ≤ 255 := by
    have := seg.length.toNat_lt
    rw [hw.length_eq] at this
    omega
  have hlen : seg.length = UInt8.ofNat seg.asns.length := by
    rw [← hw.length_eq, UInt8.ofNat_toNat]
  rw [As4Segment.string_toList]
  obtain ⟨typ, length, asns⟩ := seg
  simp only at hroom hlen hne hfull ⊢
  subst hlen
  by_cases hs : typ = asSequence
  · -- a sequence segment: its numbers alone, the first one opening it
    subst hs
    obtain ⟨n, nums, rfl⟩ := List.exists_cons_of_ne_nil hne
    have htok := asPathTokenGet_repr n
      (noDigitHead_flatMap (fun n : UInt32 => n.toNat.repr.toList) nums hr)
    have htext : ' ' :: ((asSegmentDelimiter asSequence).1.toList ++
        [' '].intercalate ((n :: nums).map fun as => as.toNat.repr.toList) ++
          (asSegmentDelimiter asSequence).2.toList) ++ rest =
        ' ' :: (n.toNat.repr.toList ++
          (nums.flatMap (fun n => ' ' :: n.toNat.repr.toList) ++ rest)) := by
      simp [asSegmentDelimiter, intercalate_space_cons, List.flatMap_map]
    refine ⟨nums.length + 1, fun fuel => ?_⟩
    rw [htext, ← Nat.add_assoc, asPathParseLoop_space,
      asPathParseLoop_succ htok (by simp) (by simp),
      ParseState.step_after_number (fun last h hl => hfull last h hl rfl),
      asPathParseLoop_numbers hr nums ⟨asSequence, 1, [n]⟩ rfl
        (by simp only [List.length_cons, List.length_nil] at hroom ⊢; omega)]
    simp [ParseState.after]
  · -- a set or confederation segment: its numbers between its delimiters
    have ht := typ_delimited hw.typ_ge hw.typ_le hs
    refine ⟨asns.length + 2, fun fuel => ?_⟩
    rw [show fuel + (asns.length + 2) = fuel + 1 + asns.length + 1 by omega, List.cons_append,
      asPathParseLoop_space, List.append_assoc, List.append_assoc, asPathParseLoop_open ht,
      asPathParseLoop_intercalate, List.flatMap_map,
      asPathParseLoop_numbers (noDigitHead_close ht rest) asns (newAs4Segment typ) rfl
        (by simpa [newAs4Segment] using hroom),
      asPathParseLoop_close ht]
    have hb : (typ == asSequence) = false := beq_eq_false_iff_ne.2 hs
    simp [ParseState.after, newAs4Segment, hb]

/-- The paths whose text `AsPathParse` reads back: every segment has a known type, carries its
own count and at least one number, and no sequence segment with fewer than 255 numbers is
directly followed by another sequence segment. -/
structure AsPath.NormalForm (aspath : List As4Segment) : Prop where
  wellFormed : ∀ seg ∈ aspath, seg.WellFormed
  nonempty : ∀ seg ∈ aspath, seg.asns ≠ []
  full : aspath.IsChain fun a b => a.typ = asSequence → b.typ = asSequence → 255 ≤ a.asns.length

instance (aspath : List As4Segment) : Decidable (AsPath.NormalForm aspath) :=
  decidable_of_iff ((∀ seg ∈ aspath, seg.WellFormed) ∧ (∀ seg ∈ aspath, seg.asns ≠ []) ∧
      aspath.IsChain fun a b => a.typ = asSequence → b.typ = asSequence → 255 ≤ a.asns.length)
    ⟨fun ⟨a, b, c⟩ => ⟨a, b, c⟩, fun ⟨a, b, c⟩ => ⟨a, b, c⟩⟩

/-- The text of segments in normal form, each behind a blank, is read as those segments, after
any segments `pre` they continue in normal form. -/
lemma asPathParseLoop_segments (pre p : List As4Segment)
    (hnf : AsPath.NormalForm (pre ++ p)) :
    ∃ k, ∀ fuel, asPathParseLoop (fuel + k) (p.flatMap fun seg => ' ' :: seg.string.toList)
        (ParseState.after pre) = asPathParseLoop fuel [] (ParseState.after (pre ++ p)) := by
  induction p generalizing pre with
  | nil => exact ⟨0, fun fuel => by simp⟩
  | cons seg p ih =>
    have hfull : ∀ last ∈ pre.getLast?, last.typ = asSequence → seg.typ = asSequence →
        last.length = 255 := by
      intro last hlast hl hs
      have hlink := (List.isChain_append.1 hnf.full).2.2 last hlast seg rfl hl hs
      have hwl := hnf.wellFormed last (List.mem_append_left _ (List.mem_of_getLast? hlast))
      have hlt := last.length.toNat_lt
      rw [hwl.length_eq] at hlt
      exact UInt8.toNat_inj.1 (by rw [hwl.length_eq]; simp only [UInt8.reduceToNat]; omega)
    have hseg : seg ∈ pre ++ seg :: p := List.mem_append_right _ List.mem_cons_self
    obtain ⟨k₁, hk₁⟩ := asPathParseLoop_segment (hnf.wellFormed seg hseg) (hnf.nonempty seg hseg)
      hfull (noDigitHead_flatMap (fun seg : As4Segment => seg.string.toList) p
        (show NoDigitHead [] from nofun))
    obtain ⟨k₂, hk₂⟩ := ih (pre ++ [seg]) (by simpa using hnf)
    refine ⟨k₂ + k₁, fun fuel => ?_⟩
    have hk := hk₁ (fuel + k₂)
    rw [List.append_nil] at hk
    rw [List.flatMap_cons, ← Nat.add_assoc, hk, hk₂, List.append_assoc, List.singleton_append]

/-- The text of a path in normal form is read back as the path. -/
lemma asPathParse_string_of_normalForm {aspath : List As4Segment} (hnf : AsPath.NormalForm aspath) :
    asPathParse (AsPath.string aspath) = .ok aspath := by
  have htext : (AsPath.string aspath).toList =
      [' '].intercalate (aspath.map fun seg => seg.string.toList) := by
    simp [AsPath.string, stringsJoin, String.toList_intercalate, Function.comp_def]
  obtain ⟨k, hk⟩ := asPathParseLoop_segments [] aspath (by simpa using hnf)
  have hlen := String.length_toList (s := AsPath.string aspath)
  unfold asPathParse
  calc asPathParseLoop ((AsPath.string aspath).length + 1) (AsPath.string aspath).toList
          ⟨[], asSequence, true⟩
      = asPathParseLoop ((AsPath.string aspath).length + 1 + k) (AsPath.string aspath).toList
          (ParseState.after []) := asPathParseLoop_fuel (by omega) (by omega) _
    _ = asPathParseLoop ((AsPath.string aspath).length + 1 + k)
          (aspath.flatMap fun seg => ' ' :: seg.string.toList) (ParseState.after []) := by
        rw [htext, ← List.append_nil ([' '].intercalate _), asPathParseLoop_intercalate,
          List.flatMap_map, List.append_nil]
    _ = .ok aspath := by rw [hk]; simp [ParseState.after]

/-- Two sequence segments with room left print as one, and are read back as one. -/
example : asPathParse (AsPath.string [⟨asSequence, 1, [1]⟩, ⟨asSequence, 1, [2]⟩]) =
    .ok [⟨asSequence, 2, [1, 2]⟩] := by decide

end Zebra.Policy

namespace Zebra.Bgp

open Zebra.Policy

/-! ### The package `bgp`

Its `AsPath`, `AsSegmentDelimiter`, `As4Segment.String`, `AsPathTokenGet`, `AsPath.Append` and
`AsPathParse` are those of `policy`, word for word. -/

/-- `bgp.AsPath.String`. -/
def AsPath.string (aspath : List As4Segment) : String := Policy.AsPath.string aspath

/-- `bgp.AsPathParse`. -/
def asPathParse (str : String) : Except String (List As4Segment) := Policy.asPathParse str

/-- The text of a path in normal form is read back as the path, in both packages. -/
theorem asPathParse_string {aspath : List As4Segment} (hnf : Policy.AsPath.NormalForm aspath) :
    asPathParse (AsPath.string aspath) = .ok aspath ∧
      Policy.asPathParse (Policy.AsPath.string aspath) = .ok aspath :=
  ⟨asPathParse_string_of_normalForm hnf, asPathParse_string_of_normalForm hnf⟩

/-- A path with a segment of every type, and a sequence segment behind a set. -/
def mixedPath : List As4Segment :=
  [⟨asSequence, 2, [65001, 4200000000]⟩, ⟨asSet, 2, [1, 2]⟩, ⟨asConfedSequence, 1, [3]⟩,
    ⟨asConfedSet, 1, [4]⟩, ⟨asSequence, 1, [5]⟩]

theorem asPathParse_string_mixed :
    Policy.AsPath.NormalForm mixedPath ∧
      asPathParse (AsPath.string mixedPath) = .ok mixedPath ∧
        Policy.asPathParse (Policy.AsPath.string mixedPath) = .ok mixedPath :=
  have hnf : Policy.AsPath.NormalForm mixedPath := by decide
  ⟨hnf, asPathParse_string hnf⟩

/-- A run of digits alone is read as one sequence segment holding its value modulo 2^32: the
`uint32` accumulator wraps, and nothing checks the range. -/
theorem asPathParse_digits {ds : List Char} (hne : ds ≠ []) (hd : ∀ c ∈ ds, c.isDigit = true) :
    asPathParse (String.ofList ds) =
      .ok [⟨asSequence, 1, [UInt32.ofNat (Nat.ofDigitChars 10 ds 0)]⟩] := by
  obtain ⟨c, cs, rfl⟩ := List.exists_cons_of_ne_nil hne
  have htok := asPathTokenGet_digits hd (show NoDigitHead [] from nofun)
  rw [List.append_nil] at htok
  have hroom : (newAs4Segment asSequence).length ≠ 255 := by decide
  unfold asPathParse Policy.asPathParse
  rw [String.length_ofList, String.toList_ofList, List.length_cons,
    asPathParseLoop_succ htok (by simp) (by simp), asPathParseLoop_nil]
  -- the one number opens a sequence segment
  simp only [ParseState.step, if_true]
  rw [AsPath.append_of_ne hroom]
  rfl

/-- The decimal text of 2^32 is read as the AS number 0. -/
theorem asPathParse_wraps : asPathParse "4294967296" = .ok [⟨asSequence, 1, [0]⟩] := by
  -- the digit test as one `List.all`, which evaluates the same under every import
  have hd : ∀ c ∈ "4294967296".toList, c.isDigit = true :=
    List.all_eq_true.1 (by decide : "4294967296".toList.all Char.isDigit = true)
  have h := @asPathParse_digits "4294967296".toList (by decide) hd
  rw [String.ofList_toList, show Nat.ofDigitChars 10 "4294967296".toList 0 = 2 ^ 32 by decide] at h
  exact h

end Zebra.Bgp
