import Zebra.Policy.PrefixList

/-!
# Prefix lists of the BGP package

The BGP package keeps prefix lists of its own (`bgp.PrefixList`), whose entries carry a number,
a prefix and the bounds `eq`, `le` and `ge` as plain numbers.  `PrefixList.Add` is the add-once
closure of `policy.PrefixList.AddWithClosure` over these entries; `PrefixListMaster.EntryAdd`
numbers an entry given the number zero with the next multiple of five above the list's largest
number.

On a list strictly sorted by number, `PrefixListEntrySlice.Add`, `AddWithClosure` and this
`Add` put the entry into the same place (`prefixList_add_agree`).
-/

namespace Zebra.Bgp

open Zebra.Lib Zebra.Netutil

/-- `bgp.PrefixListEntry`. -/
structure PrefixListEntry where
  seq : Int
  eq : Int
  le : Int
  ge : Int
  /-- `Prefix`. -/
  pfx : Prefix
deriving DecidableEq, Repr

/-- `bgp.PrefixList`, with its entries; the description is left out. -/
structure PrefixList where
  entries : List PrefixListEntry
deriving DecidableEq, Repr

namespace PrefixList

/-- `PrefixList.Add`: the closure of `AddWithClosure`, over these entries. -/
def add (plist : PrefixList) (entry : PrefixListEntry) : PrefixList :=
  ⟨Policy.addWithClosureBy (·.seq) plist.entries entry⟩

/-- `PrefixList.Delete`: every entry of the number dropped. -/
def delete (plist : PrefixList) (entry : PrefixListEntry) : PrefixList :=
  ⟨plist.entries.filter (·.seq ≠ entry.seq)⟩

/-- `PrefixList.NewSeq`: the multiple of five after the largest number, counted from zero. -/
def newSeq (plist : PrefixList) : Int :=
  let maxseq := plist.entries.foldl (fun maxseq e => if maxseq < e.seq then e.seq else maxseq) 0
  maxseq / 5 * 5 + 5

end PrefixList

/-- `bgp.PrefixListMaster`: the prefix lists by name. -/
structure PrefixListMaster where
  prefixLists : String → Option PrefixList

namespace PrefixListMaster

/-- `PrefixListMaster.PrefixListGet`: the list of the name, made empty and stored when there is
none. -/
def prefixListGet (m : PrefixListMaster) (name : String) : PrefixListMaster × PrefixList :=
  match m.prefixLists name with
  | some plist => (m, plist)
  | none => (⟨Function.update m.prefixLists name (some ⟨[]⟩)⟩, ⟨[]⟩)

/-- `PrefixListMaster.EntryAdd`: the number zero replaced by `NewSeq`, and the entry added to the
list of the name, made when there is none. -/
def entryAdd (m : PrefixListMaster) (name : String) (p : Prefix) (seq eq le ge : Int) :
    PrefixListMaster :=
  let (m, plist) := m.prefixListGet name
  let seq := if seq = 0 then plist.newSeq else seq
  ⟨Function.update m.prefixLists name (some (plist.add ⟨seq, eq, le, ge, p⟩))⟩

/-- `PrefixListMaster.EntryDelete`: nothing for a name without a list. -/
def entryDelete (m : PrefixListMaster) (name : String) (p : Prefix) (seq eq le ge : Int) :
    PrefixListMaster :=
  match m.prefixLists name with
  | none => m
  | some plist => ⟨Function.update m.prefixLists name (some (plist.delete ⟨seq, eq, le, ge, p⟩))⟩

end PrefixListMaster

theorem prefixList_add_agree {L : List Policy.PrefixListEntry}
    (hs : L.Pairwise fun a b => a.seq < b.seq) (e : Policy.PrefixListEntry) :
    Policy.PrefixListEntrySlice.add L e = (Policy.PrefixList.addWithClosure ⟨L⟩ e).entries ∧
    ∀ (B : List PrefixListEntry) (b : PrefixListEntry), B.map (·.seq) = L.map (·.seq) →
      b.seq = e.seq →
        (PrefixList.add ⟨B⟩ b).entries.map (·.seq) =
          (Policy.PrefixListEntrySlice.add L e).map (·.seq) := by
  have hadd := Policy.PrefixListEntrySlice.add_eq_insertKey hs e
  refine ⟨?_, fun B b hB hb => ?_⟩
  · rw [hadd, Policy.PrefixList.addWithClosure, Policy.addWithClosureBy_eq_insertKey hs]
  · -- the BGP entries carry the same numbers, so they are sorted as well
    have hsB : B.Pairwise fun a b => a.seq < b.seq := by
      have hsL : (L.map (·.seq)).Pairwise (· < ·) := List.pairwise_map.2 hs
      rw [← hB] at hsL
      exact List.pairwise_map.1 hsL
    rw [PrefixList.add, Policy.addWithClosureBy_eq_insertKey hsB, hadd, map_insertKey,
      map_insertKey, hB, hb]

theorem prefixList_add_agree_between :
    Policy.PrefixListEntrySlice.add Policy.PrefixList.denyPermit.entries
        ⟨15, .permit, ⟨[10, 1, 0, 0], 16⟩, none, none, none⟩ =
      (Policy.PrefixList.addWithClosure Policy.PrefixList.denyPermit
        ⟨15, .permit, ⟨[10, 1, 0, 0], 16⟩, none, none, none⟩).entries :=
  (prefixList_add_agree (by decide) _).1

end Zebra.Bgp
