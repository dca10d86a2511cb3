import Zebra.Lib.GoText
import Zebra.Lib.KeyedList

/-!
# Communities

A community value (`bgp.Community` holds a list of them) is a 32-bit number.  `Community.String`
writes each value by its name when `WellKnownCommunityMap` has one, and else as its two 16-bit
halves `high:low`, and joins them with spaces; `CommunityParse` splits a text at its spaces and
reads each word through `WellKnownCommunityStrMap`, a table of its own, or `CommunityValParse`.

The two tables are inverse to each other, and the halves are put back together as they were
taken apart, so every nonempty list of values is read back from its text
(`communityParse_string`).  The empty list is written as the empty text, which splits into one
empty word that does not parse.
-/

namespace Zebra.Bgp

open Zebra.Lib

/-- `COMMUNITY_INTERNET`. -/
def communityInternet : UInt32 := 0x00000000
/-- `COMMUNITY_GSHUT`. -/
def communityGshut : UInt32 := 0xffff0000
/-- `COMMUNITY_NO_EXPORT`. -/
def communityNoExport : UInt32 := 0xffffff01
/-- `COMMUNITY_NO_ADVERTISE`. -/
def communityNoAdvertise : UInt32 := 0xffffff02
/-- `COMMUNITY_LOCAL_AS`. -/
def communityLocalAs : UInt32 := 0xffffff03
/-- `COMMUNITY_NO_PEER`. -/
def communityNoPeer : UInt32 := 0xffffff04

/-- `WellKnownCommunityMap`: the names of the well-known communities. -/
def wellKnownCommunityMap : List (UInt32 × String) :=
  [(communityInternet, "internet"), (communityGshut, "gshut"), (communityNoExport, "no-export"),
    (communityNoAdvertise, "no-advertise"), (communityLocalAs, "local-AS"),
    (communityNoPeer, "nopeer")]

/-- `WellKnownCommunityStrMap`: the well-known communities by name, a table of its own. -/
def wellKnownCommunityStrMap : List (String × UInt32) :=
  [("internet", communityInternet), ("gshut", communityGshut), ("no-export", communityNoExport),
    ("no-advertise", communityNoAdvertise), ("local-AS", communityLocalAs),
    ("nopeer", communityNoPeer)]

namespace Community

/-- The text `Community.String` writes for one value: its well-known name, or its two halves in
decimal (`%d:%d`). -/
def valString (v : UInt32) : String :=
  match wellKnownCommunityMap.lookup v with
  | some s => s
  | none => (v >>> 16).toNat.repr ++ ":" ++ (0x0000ffff &&& v).toNat.repr

/-- `Community.String`: the values' texts joined by spaces. -/
def string (c : List UInt32) : String := stringsJoin (c.map valString) ' '

end Community

/-- `Community.Equal`: equal lengths, and equal values at each position. -/
def Community.equal (lhs rhs : List UInt32) : Bool :=
  lhs.length == rhs.length && (lhs.zip rhs).all fun (a, b) => a == b

lemma Community.equal_iff {lhs rhs : List UInt32} :
    Community.equal lhs rhs = true ↔ lhs = rhs := by
  induction lhs generalizing rhs with
  | nil => cases rhs <;> simp [Community.equal]
  | cons a t ih =>
    cases rhs with
    | nil => simp [Community.equal]
    | cons b u =>
      have ht := @ih u
      simp only [Community.equal, Bool.and_eq_true, beq_iff_eq, List.all_eq_true] at ht
      simp only [Community.equal, List.length_cons, List.zip_cons_cons, List.all_cons,
        Bool.and_eq_true, beq_iff_eq, List.all_eq_true, List.cons.injEq, Nat.add_right_cancel_iff]
      constructor
      · rintro ⟨hl, hab, hrest⟩
        exact ⟨hab, ht.1 ⟨hl, hrest⟩⟩
      · rintro ⟨rfl, rfl⟩
        exact ⟨rfl, rfl, (ht.2 rfl).2⟩

/-- `CommunityValParse`: two 16-bit halves around a colon, or else one 32-bit number; `none`
where `strconv.ParseUint` returns its error. -/
def communityValParse (s : String) : Option UInt32 :=
  match stringsSplit s ':' with
  | [asStr, valStr] => do
    let as ← parseUint asStr 16
    let val ← parseUint valStr 16
    pure (UInt32.ofNat (as <<< 16 ||| val))
  | str => (parseUint (str.headD "") 32).map UInt32.ofNat

/-- `CommunityParse`: each space-separated word a well-known name or a value
`CommunityValParse` reads. -/
def communityParse (s : String) : Option (List UInt32) :=
  (stringsSplit s ' ').mapM fun str =>
    match wellKnownCommunityStrMap.lookup str with
    | some v => some v
    | none => communityValParse str

/-- The two tables are inverse to each other: the name a well-known value is written with is read
back as that value. -/
lemma wellKnownCommunityStrMap_lookup {v : UInt32} {s : String}
    (h : wellKnownCommunityMap.lookup v = some s) : wellKnownCommunityStrMap.lookup s = some v := by
  have hinv : ∀ p ∈ wellKnownCommunityMap, wellKnownCommunityStrMap.lookup p.2 = some p.1 := by
    decide
  exact hinv (v, s) (mem_of_lookup_eq_some h)

/-- No well-known name holds a colon or a space. -/
lemma wellKnownCommunityStrMap_lookup_of_mem {s : String} {c : Char} (hc : c = ':' ∨ c = ' ')
    (h : c ∈ s.toList) : wellKnownCommunityStrMap.lookup s = none := by
  have hkeys : ∀ p ∈ wellKnownCommunityStrMap, ':' ∉ p.1.toList ∧ ' ' ∉ p.1.toList := by
    decide
  rw [Option.eq_none_iff_forall_ne_some]
  intro v hv
  have hk := hkeys (s, v) (mem_of_lookup_eq_some hv)
  rcases hc with rfl | rfl
  · exact hk.1 h
  · exact hk.2 h

lemma toNat_shiftRight_sixteen (v : UInt32) : (v >>> 16).toNat = v.toNat / 2 ^ 16 := by
  simp [UInt32.toNat_shiftRight, Nat.shiftRight_eq_div_pow]

lemma toNat_and_low (v : UInt32) : (0x0000ffff &&& v).toNat = v.toNat % 2 ^ 16 := by
  rw [UInt32.toNat_and, Nat.and_comm]
  exact Nat.and_two_pow_sub_one_eq_mod _ 16

/-- The two halves put back together. -/
lemma halves_eq (v : UInt32) :
    UInt32.ofNat ((v >>> 16).toNat <<< 16 ||| (0x0000ffff &&& v).toNat) = v := by
  rw [toNat_shiftRight_sixteen, toNat_and_low,
    ← Nat.shiftLeft_add_eq_or_of_lt (Nat.mod_lt _ (by decide)), Nat.shiftLeft_eq,
    Nat.div_add_mod', UInt32.ofNat_toNat]

/-- A value that is not well known is written as its two halves, and read back from them. -/
lemma communityValParse_valString {v : UInt32} (h : wellKnownCommunityMap.lookup v = none) :
    communityValParse (Community.valString v) = some v := by
  have hhi : (v >>> 16).toNat < 2 ^ 16 := by
    rw [toNat_shiftRight_sixteen]
    exact Nat.div_lt_of_lt_mul (by simpa using v.toNat_lt)
  have hlo : (0x0000ffff &&& v).toNat < 2 ^ 16 := by
    rw [toNat_and_low]
    exact Nat.mod_lt _ (by decide)
  have hv : Community.valString v =
      stringsJoin [(v >>> 16).toNat.repr, (0x0000ffff &&& v).toNat.repr] ':' := by
    rw [stringsJoin_pair]
    simp only [Community.valString, h]
    rfl
  have hsplit : stringsSplit (Community.valString v) ':' =
      [(v >>> 16).toNat.repr, (0x0000ffff &&& v).toNat.repr] := by
    rw [hv]
    refine stringsSplit_stringsJoin ?_ (by simp)
    intro s hs
    simp only [List.mem_cons, List.not_mem_nil, or_false] at hs
    rcases hs with rfl | rfl <;> exact not_mem_repr (by decide) _
  rw [communityValParse, hsplit]
  dsimp only
  rw [parseUint_repr hhi, parseUint_repr hlo]
  exact congrArg some (halves_eq v)

lemma valString_not_space (v : UInt32) : ' ' ∉ (Community.valString v).toList := by
  unfold Community.valString
  cases hk : wellKnownCommunityMap.lookup v with
  | some s =>
    have hnames : ∀ p ∈ wellKnownCommunityMap, ' ' ∉ p.2.toList := by decide
    exact hnames (v, s) (mem_of_lookup_eq_some hk)
  | none =>
    simp only [String.toList_append, List.mem_append, not_or]
    exact ⟨⟨not_mem_repr (by decide) _, by decide⟩, not_mem_repr (by decide) _⟩

/-- Each value's text is read back as the value: a well-known name through the table of names,
two halves through `CommunityValParse`. -/
lemma parse_valString (v : UInt32) :
    (match wellKnownCommunityStrMap.lookup (Community.valString v) with
      | some v => some v
      | none => communityValParse (Community.valString v)) = some v := by
  cases hk : wellKnownCommunityMap.lookup v with
  | some s =>
    have hs : Community.valString v = s := by rw [Community.valString, hk]
    rw [hs, wellKnownCommunityStrMap_lookup hk]
  | none =>
    have hcolon : ':' ∈ (Community.valString v).toList := by
      simp [Community.valString, hk]
    rw [wellKnownCommunityStrMap_lookup_of_mem (.inl rfl) hcolon, communityValParse_valString hk]

/-- Every nonempty list of values is read back from its text. -/
theorem communityParse_string (c : List UInt32) (hc : c ≠ []) :
    communityParse (Community.string c) = some c := by
  rw [communityParse, Community.string, stringsSplit_stringsJoin _ (by simpa using hc),
    List.mapM_map]
  · exact mapM_eq_some_self fun v _ => parse_valString v
  · intro s hs
    obtain ⟨v, -, rfl⟩ := List.mem_map.1 hs
    exact valString_not_space v

theorem communityParse_string_mixed :
    communityParse (Community.string [communityNoExport, 0x00640001, communityInternet]) =
      some [communityNoExport, 0x00640001, communityInternet] :=
  communityParse_string _ (by simp)

end Zebra.Bgp
