import Zebra.Lib.Bytes

/-!
# AS paths

An AS path (`policy.ASPath`) is a list of segments, each a type (`AS_SET`, `AS_SEQUENCE` and
their confederation forms), a count and that many AS numbers.  On the wire a segment is its type
and count bytes followed by the AS numbers, four octets each.  `ASPath.DecodeFromBytes` reads
segments until the data is used up, `Replace` renames one AS number, and `Serialize` writes the
segments back.

`DecodeFromBytes` reads back what `Serialize` writes, for paths whose segments have a known type
and carry their own count (`decodeFromBytes_serialize`), so renaming an AS number that is not in
the path, writing, reading and renaming back gives the path again, the law ZAPI's `AS_TRANS`
mapping rests on (`decodeFromBytes_replace_roundtrip`).  Its length check compares the whole
remaining data, the segment's two header bytes included, with the room the AS numbers need, so a
segment whose numbers are one or two bytes short passes the check and the reads then run past the
end (`decodeFromBytes_short_segment_panics`).
-/

namespace Zebra.Policy

open Zebra.Lib

/-- `AS_SET`. -/
def asSet : UInt8 := 1
/-- `AS_SEQUENCE`. -/
def asSequence : UInt8 := 2
/-- `AS_CONFED_SEQUENCE`. -/
def asConfedSequence : UInt8 := 3
/-- `AS_CONFED_SET`. -/
def asConfedSet : UInt8 := 4

/-- `As4Segment`. -/
structure As4Segment where
  typ : UInt8
  length : UInt8
  /-- `As`. -/
  asns : List UInt32
deriving DecidableEq, Repr

/-- `ASPath`. -/
structure ASPath where
  segs : List As4Segment
deriving DecidableEq, Repr

/-- The inner loop of `ASPath.DecodeFromBytes` with four-octet AS numbers: `n` numbers read one
after the other, where `binary.BigEndian.Uint32` panics on fewer than four bytes. -/
def readAs4 : Nat → List UInt8 → Option (List UInt32 × List UInt8)
  | 0, data => some ([], data)
  | n + 1, data => do
    let a ← getUint32? data 0
    let (asns, rest) ← readAs4 n (data.drop 4)
    pure (a :: asns, rest)

/-- The loop of `ASPath.DecodeFromBytes` with four-octet AS numbers (its one caller here passes no
`With2Octet`): the segments read, in order, and the error that stopped the loop.  `fuel` bounds
the passes; each pass consumes two bytes at least. -/
def decodeSegs : Nat → List UInt8 → Option (List As4Segment × Option String)
  | 0, _ => some ([], none)
  | fuel + 1, data =>
    if data.length = 0 then some ([], none)
    else if data.length < 2 then some ([], some "Invalid segment length")
    else
      let typ := data.getD 0 0
      if typ < asSet ∨ typ > asConfedSet then some ([], some "Invalid segment type")
      else
        let length := data.getD 1 0
        if data.length < length.toNat * 4 then some ([], some "Invalid segment length")
        else
          match readAs4 length.toNat (data.drop 2) with
          | none => none
          | some (asns, rest) =>
            (decodeSegs fuel rest).map fun (segs, err) => (⟨typ, length, asns⟩ :: segs, err)

namespace ASPath

/-- `ASPath.DecodeFromBytes`: the path with the segments read appended, even those read before an
error, and the error; `none` where it panics. -/
def decodeFromBytes (aspath : ASPath) (data : List UInt8) : Option (ASPath × Option String) :=
  (decodeSegs data.length data).map fun (segs, err) => (⟨aspath.segs ++ segs⟩, err)

/-- `As4Segment.Replace`: every AS number `fromAs` becomes `toAs`. -/
def segReplace (fromAs toAs : UInt32) (seg : As4Segment) : As4Segment :=
  { seg with asns := seg.asns.map fun a => if a = fromAs then toAs else a }

/-- `ASPath.Replace`. -/
def replace (aspath : ASPath) (fromAs toAs : UInt32) : ASPath :=
  ⟨aspath.segs.map (segReplace fromAs toAs)⟩

/-- `As4Segment.Serialize`: type, count and the AS numbers. -/
def segSerialize (seg : As4Segment) : List UInt8 :=
  [seg.typ, seg.length] ++ seg.asns.flatMap putUint32

/-- `ASPath.Serialize`. -/
def serialize (aspath : ASPath) : List UInt8 := aspath.segs.flatMap segSerialize

end ASPath

/-- A segment `Serialize` writes so that `DecodeFromBytes` can read it: a known type, and its
count that of its AS numbers. -/
structure As4Segment.WellFormed (seg : As4Segment) : Prop where
  typ_ge : asSet ≤ seg.typ
  typ_le : seg.typ ≤ asConfedSet
  length_eq : seg.length.toNat = seg.asns.length

instance (seg : As4Segment) : Decidable seg.WellFormed :=
  decidable_of_iff (asSet ≤ seg.typ ∧ seg.typ ≤ asConfedSet ∧ seg.length.toNat = seg.asns.length)
    ⟨fun ⟨a, b, c⟩ => ⟨a, b, c⟩, fun ⟨a, b, c⟩ => ⟨a, b, c⟩⟩

lemma readAs4_flatMap_putUint32 (asns : List UInt32) (rest : List UInt8) :
    readAs4 asns.length (asns.flatMap putUint32 ++ rest) = some (asns, rest) := by
  induction asns with
  | nil => rfl
  | cons a asns ih =>
    have hdrop : (putUint32 a ++ (asns.flatMap putUint32 ++ rest)).drop 4 =
        asns.flatMap putUint32 ++ rest := List.drop_left' (length_putUint32 a)
    simp only [List.length_cons, List.flatMap_cons, List.append_assoc, readAs4,
      getUint32?_putUint32, hdrop, ih]
    rfl

/-- Fewer bytes than the numbers need: a read panics on the way. -/
lemma readAs4_of_length_lt {n : Nat} {data : List UInt8} (h : data.length < 4 * n) :
    readAs4 n data = none := by
  induction n generalizing data with
  | zero => omega
  | succ n ih =>
    by_cases hd : 0 + 4 ≤ data.length
    · have hrest : readAs4 n (data.drop 4) = none := ih (by rw [List.length_drop]; omega)
      simp [readAs4, getUint32?, hd, hrest]
    · simp [readAs4, getUint32?, hd]

lemma length_segSerialize (seg : As4Segment) :
    (ASPath.segSerialize seg).length = 2 + 4 * seg.asns.length := by
  simp only [ASPath.segSerialize, List.length_append, length_flatMap_putUint32]
  rfl

/-- One pass reads a well-formed segment back and leaves what follows it. -/
lemma decodeSegs_segSerialize {seg : As4Segment} (hw : seg.WellFormed) (fuel : Nat)
    (rest : List UInt8) :
    decodeSegs (fuel + 1) (ASPath.segSerialize seg ++ rest) =
      (decodeSegs fuel rest).map fun (segs, err) => (seg :: segs, err) := by
  obtain ⟨typ, length, asns⟩ := seg
  obtain ⟨hge, hle, hlen⟩ := hw
  dsimp only at hge hle hlen
  have hsize := length_segSerialize ⟨typ, length, asns⟩
  dsimp only at hsize
  have hdata : ASPath.segSerialize ⟨typ, length, asns⟩ ++ rest =
      typ :: length :: (asns.flatMap putUint32 ++ rest) := rfl
  have hne : ¬ (ASPath.segSerialize ⟨typ, length, asns⟩ ++ rest).length = 0 := by
    rw [List.length_append, hsize]
    omega
  have htwo : ¬ (ASPath.segSerialize ⟨typ, length, asns⟩ ++ rest).length < 2 := by
    rw [List.length_append, hsize]
    omega
  have hroom : ¬ (ASPath.segSerialize ⟨typ, length, asns⟩ ++ rest).length < length.toNat * 4 := by
    rw [List.length_append, hsize, hlen]
    omega
  have htyp : ¬ (typ < asSet ∨ typ > asConfedSet) := by
    rw [UInt8.le_iff_toNat_le] at hge hle
    simp only [gt_iff_lt, UInt8.lt_iff_toNat_lt]
    omega
  rw [decodeSegs, if_neg hne, if_neg htwo]
  dsimp only
  rw [hdata, List.getD_cons_zero, List.getD_cons_succ, List.getD_cons_zero, if_neg htyp,
    ← hdata, if_neg hroom, hdata, List.drop_succ_cons, List.drop_succ_cons, List.drop_zero, hlen,
    readAs4_flatMap_putUint32]

/-- `DecodeFromBytes` reads back the segments `Serialize` writes, when they are well formed. -/
theorem decodeFromBytes_serialize {aspath : ASPath} (hw : ∀ seg ∈ aspath.segs, seg.WellFormed) :
    (⟨[]⟩ : ASPath).decodeFromBytes aspath.serialize = some (aspath, none) := by
  obtain ⟨segs⟩ := aspath
  -- each segment takes one pass; the data is longer than the number of segments
  suffices h : ∀ fuel, segs.length ≤ fuel → decodeSegs fuel (ASPath.serialize ⟨segs⟩) =
      some (segs, none) by
    have hlen : segs.length ≤ (ASPath.serialize ⟨segs⟩).length := by
      simp only [ASPath.serialize, List.length_flatMap, length_segSerialize]
      clear h hw
      induction segs with
      | nil => simp
      | cons s segs ih => simp only [List.map_cons, List.sum_cons, List.length_cons]; omega
    simp [ASPath.decodeFromBytes, h _ hlen]
  intro fuel hfuel
  induction segs generalizing fuel with
  | nil =>
    cases fuel <;> rfl
  | cons s segs ih =>
    obtain ⟨fuel, rfl⟩ : ∃ f, fuel = f + 1 := ⟨fuel - 1, by simp at hfuel; omega⟩
    have hs := hw s List.mem_cons_self
    rw [ASPath.serialize, List.flatMap_cons, decodeSegs_segSerialize hs,
      show segs.flatMap ASPath.segSerialize = ASPath.serialize ⟨segs⟩ from rfl,
      ih (fun t ht => hw t (List.mem_cons_of_mem s ht)) fuel (by simp at hfuel; omega)]
    rfl

lemma segReplace_wellFormed {seg : As4Segment} (hw : seg.WellFormed) (fromAs toAs : UInt32) :
    (ASPath.segReplace fromAs toAs seg).WellFormed :=
  ⟨hw.typ_ge, hw.typ_le, by simpa [ASPath.segReplace] using hw.length_eq⟩

lemma segReplace_segReplace {fromAs toAs : UInt32} {seg : As4Segment} (h : toAs ∉ seg.asns) :
    ASPath.segReplace toAs fromAs (ASPath.segReplace fromAs toAs seg) = seg := by
  obtain ⟨typ, length, asns⟩ := seg
  -- renaming back undoes the renaming on every number, as none of them was `toAs` before
  have hback : ∀ a ∈ asns, (if (if a = fromAs then toAs else a) = toAs then fromAs
      else if a = fromAs then toAs else a) = a := by
    intro a ha
    have hne : a ≠ toAs := fun h' => h (h' ▸ ha)
    by_cases hf : a = fromAs <;> simp [hf, hne]
  simp only [ASPath.segReplace, List.map_map, As4Segment.mk.injEq, true_and]
  exact (List.map_congr_left hback).trans (List.map_id asns)

/-- `Replace(to, from)` undoes `Replace(from, to)` on a path that does not hold `to`. -/
lemma replace_replace {aspath : ASPath} {fromAs toAs : UInt32}
    (h : ∀ seg ∈ aspath.segs, toAs ∉ seg.asns) :
    (aspath.replace fromAs toAs).replace toAs fromAs = aspath := by
  obtain ⟨segs⟩ := aspath
  simp only [ASPath.replace, List.map_map, ASPath.mk.injEq]
  exact (List.map_congr_left fun seg hseg => segReplace_segReplace (h seg hseg)).trans
    (List.map_id segs)

/-- The wire round trip, and with it the mapping of ZAPI: a path that does not hold `toAs`,
renamed, written, read and renamed back, is the path again. -/
theorem decodeFromBytes_replace_roundtrip {aspath : ASPath}
    (hw : ∀ seg ∈ aspath.segs, seg.WellFormed) :
    (⟨[]⟩ : ASPath).decodeFromBytes aspath.serialize = some (aspath, none) ∧
    ∀ fromAs toAs : UInt32, (∀ seg ∈ aspath.segs, toAs ∉ seg.asns) →
      ((⟨[]⟩ : ASPath).decodeFromBytes (aspath.replace fromAs toAs).serialize).map
        (fun r => (r.1.replace toAs fromAs, r.2)) = some (aspath, none) := by
  refine ⟨decodeFromBytes_serialize hw, fun fromAs toAs hto => ?_⟩
  have hw' : ∀ seg ∈ (aspath.replace fromAs toAs).segs, seg.WellFormed := by
    intro seg hseg
    obtain ⟨s, hs, rfl⟩ := List.mem_map.1 hseg
    exact segReplace_wellFormed (hw s hs) fromAs toAs
  rw [decodeFromBytes_serialize hw', Option.map_some, replace_replace hto]

/-- A path with `AS_TRANS` in two segments beside a four-octet AS number. -/
def transPath : ASPath :=
  ⟨[⟨asSequence, 3, [65001, 23456, 4200000000]⟩, ⟨asSet, 1, [23456]⟩]⟩

theorem decodeFromBytes_replace_roundtrip_trans :
    (∀ seg ∈ transPath.segs, seg.WellFormed) ∧
    ((⟨[]⟩ : ASPath).decodeFromBytes (transPath.replace 23456 64512).serialize).map
      (fun r => (r.1.replace 64512 23456, r.2)) = some (transPath, none) :=
  have hw : ∀ seg ∈ transPath.segs, seg.WellFormed := by decide
  ⟨hw, (decodeFromBytes_replace_roundtrip hw).2 23456 64512 (by decide)⟩

/-- A segment of a known type whose AS numbers are one or two bytes short of its count passes the
length check, which counts the segment's two header bytes, and reading its numbers then panics. -/
theorem decodeFromBytes_short_segment_panics {typ n : UInt8} {body : List UInt8}
    (hge : asSet ≤ typ) (hle : typ ≤ asConfedSet) (hcheck : n.toNat * 4 ≤ body.length + 2)
    (hshort : body.length < 4 * n.toNat) :
    (⟨[]⟩ : ASPath).decodeFromBytes (typ :: n :: body) = none := by
  have hread : readAs4 n.toNat body = none := readAs4_of_length_lt hshort
  have htyp : ¬ (typ < asSet ∨ typ > asConfedSet) := by
    rw [UInt8.le_iff_toNat_le] at hge hle
    simp only [gt_iff_lt, UInt8.lt_iff_toNat_lt]
    omega
  -- the data is two bytes longer than the body: the check passes on the header's bytes
  have htwo : ¬ body.length + 1 + 1 < 2 := by omega
  have hroom : ¬ body.length + 1 + 1 < n.toNat * 4 := by omega
  simp [ASPath.decodeFromBytes, decodeSegs, htyp, htwo, hroom, hread]

/-- A sequence segment announcing one AS number and carrying two bytes of it: the data is four
bytes long, as long as the one number needs, so the check passes, and reading the number behind
the segment's two header bytes panics. -/
theorem decodeFromBytes_reads_past_check :
    (⟨[]⟩ : ASPath).decodeFromBytes [asSequence, 1, 0, 0] = none :=
  decodeFromBytes_short_segment_panics (by decide) (by decide) (by decide) (by decide)

end Zebra.Policy
