import Zebra.Netutil.PrefixMatch
import Zebra.Lib.KeyedList
import Zebra.Policy.RouteMap

/-!
# Prefix lists

A prefix list (`policy.PrefixList`) is a list of entries, each with a sequence number, an action,
a prefix and optional bounds `le`, `ge` and `eq` on the length of the prefixes it matches.
`PrefixListMaster` keeps the lists by name; `EntryAdd` validates an entry and puts it into its
list by an index scan that replaces the entry of its number or splices it in before the first
larger one, and `EntryDelete` removes the first entry of a number.  `AddWithClosure` rebuilds the
list instead, with an add-once closure; the BGP package's prefix lists add entries the same way.

Over every run of `EntryAdd` and `EntryDelete` each list stays strictly sorted by number, an add
puts the entry into its place and a delete drops the entry of the number
(`prefixList_store_invariant`).  `Match` returns the action of the first entry in list order
that matches, which on a sorted list is the entry of the lowest number admitting the prefix
(`prefixList_match_lowest_seq`).  A prefix's length is a Go `int`, and `Validate` does not look
at its sign: an entry of a negative length gets in, and `Match` panics when it reaches it
(`prefixList_match_panics_of_length_neg`).
-/

namespace Zebra.Policy

open Zebra.Lib Zebra.Netutil

/-- `PrefixListEntry`: a sequence number, an action, a prefix, and the optional bounds `le`, `ge`
and `eq` on the length of a prefix it matches. -/
structure PrefixListEntry where
  seq : Int
  action : Action
  /-- `Prefix`. -/
  pfx : Prefix
  le : Option Int
  ge : Option Int
  eq : Option Int
deriving DecidableEq, Repr

namespace PrefixListEntry

/-- `PrefixListEntry.Validate`. -/
def validate (entry : PrefixListEntry) : Except String Unit :=
  match entry.eq with
  | some eq =>
    -- When 'eq' is specified neither 'le' nor 'ge' can be specified.
    if entry.le.isSome ∨ entry.ge.isSome then
      .error "Can\x27t specify eq-value with le-value or ge-value"
    else if eq ≤ entry.pfx.length then
      .error "Invalid mask length entered: Make sure len < eq-value"
    else .ok ()
  | none =>
    -- the rule len < ge-value <= le-value
    let msg := "Invalid mask length entered: Make sure len < ge-value <= le-value"
    if entry.ge.any (· ≤ entry.pfx.length) then .error msg
    else if entry.le.any (· ≤ entry.pfx.length) then .error msg
    else match entry.le, entry.ge with
      | some le, some ge => if le < ge then .error msg else .ok ()
      | _, _ => .ok ()

/-- `PrefixListEntry.Match`: the prefix lies inside the entry's, with a length its bounds
admit; `none` where `Prefix.Match` panics. -/
def «match» (entry : PrefixListEntry) (p : Prefix) : Option Bool :=
  (entry.pfx.«match» p).map fun inside =>
    if !inside then false
    else if entry.eq.isNone ∧ entry.le.isNone ∧ entry.ge.isNone then
      decide (entry.pfx.length = p.length)
    else if entry.eq.any (p.length ≠ ·) then false
    else if entry.le.any (p.length > ·) then false
    else if entry.ge.any (p.length < ·) then false
    else true

/-- The lengths an entry admits, as its bounds mean them: its own length when it gives none,
`eq` when it gives one, else at least `ge` and at most `le` where they are given. -/
def inRange (entry : PrefixListEntry) (n : Int) : Bool :=
  match entry.eq, entry.le, entry.ge with
  | some eq, _, _ => n == eq
  | none, none, none => n == entry.pfx.length
  | none, le, ge => le.all (n ≤ ·) && ge.all (· ≤ n)

/-- What an entry is for: the prefix lies inside the entry's prefix with a length in its
range. -/
def admits (entry : PrefixListEntry) (q : Prefix) : Bool :=
  decide (entry.pfx.Inside q) && entry.inRange q.length

/-- A valid entry with `eq` gives neither `le` nor `ge`. -/
lemma validate_eq_ok {entry : PrefixListEntry} (hv : entry.validate = .ok ()) {eq : Int}
    (heq : entry.eq = some eq) : entry.le = none ∧ entry.ge = none := by
  unfold validate at hv
  rw [heq] at hv
  dsimp only at hv
  split_ifs at hv with hb
  simpa [not_or] using hb

/-- On a valid entry whose length is one and a prefix of an address family, `Match` computes
`admits`. -/
theorem match_eq_admits {entry : PrefixListEntry} (hv : entry.validate = .ok ())
    (hl : 0 ≤ entry.pfx.length) {q : Prefix} (hq : q.ip.length = 4 ∨ q.ip.length = 16)
    (hql : q.length ≤ 8 * q.ip.length) : entry.«match» q = some (entry.admits q) := by
  rw [«match», Prefix.match_eq_inside hl hq hql, Option.map_some, admits]
  congr 1
  obtain ⟨seq, action, pfx, le, ge, eq⟩ := entry
  cases hin : decide (pfx.Inside q)
  · simp
  · -- inside: the bounds decide, and a valid entry with `eq` has no other bound
    cases eq with
    | some eq =>
      obtain ⟨rfl, rfl⟩ := validate_eq_ok hv rfl
      rw [Bool.eq_iff_iff]
      simp [inRange]
    | none =>
      cases le <;> cases ge <;> rw [Bool.eq_iff_iff] <;> simp [inRange, not_lt]
      -- no bound: the entry's own length, compared the other way round
      exact eq_comm

end PrefixListEntry

namespace PrefixListEntrySlice

/-- `PrefixListEntrySlice.Add`: the loop stops at the first entry whose number is not below the
new one's; an entry of the same number is replaced in place, one of a larger number gets the new
entry spliced in before it, and with none the new entry is appended. -/
def add (entries : List PrefixListEntry) (entry : PrefixListEntry) : List PrefixListEntry :=
  match entries.findIdx? (fun v => entry.seq ≤ v.seq) with
  | some i =>
    if (entries[i]?.map (·.seq)) = some entry.seq then entries.set i entry
    else if i = 0 then entry :: entries
    else entries.take i ++ entry :: entries.drop i
  | none => entries ++ [entry]

variable {entries : List PrefixListEntry} {entry a : PrefixListEntry}

lemma add_cons_of_lt (h : a.seq < entry.seq) :
    add (a :: entries) entry = a :: add entries entry := by
  have hidx : (a :: entries).findIdx? (fun v => entry.seq ≤ v.seq) =
      (entries.findIdx? (fun v => entry.seq ≤ v.seq)).map (· + 1) := by
    rw [List.findIdx?_cons, if_neg (by simpa using h)]
  unfold add
  rw [hidx]
  cases entries.findIdx? (fun v => entry.seq ≤ v.seq) with
  | none => rfl
  | some i =>
    -- the index moves by one; the splice at `0` of the tail is the splice at `1` of the list
    simp only [Option.map_some, List.getElem?_cons_succ, List.set_cons_succ, Nat.add_one_ne_zero,
      if_false, List.take_succ_cons, List.drop_succ_cons]
    split_ifs with hseq hzero
    · rfl
    · subst hzero
      rfl
    · rfl

lemma add_cons_of_le (h : entry.seq ≤ a.seq) :
    add (a :: entries) entry =
      if a.seq = entry.seq then entry :: entries else entry :: a :: entries := by
  have hidx : (a :: entries).findIdx? (fun v => entry.seq ≤ v.seq) = some 0 := by
    rw [List.findIdx?_cons, if_pos (by simpa using h)]
  unfold add
  rw [hidx]
  simp only [List.getElem?_cons_zero, Option.map_some, Option.some.injEq, List.set_cons_zero,
    if_true]

/-- On entries strictly sorted by number, `Add` puts the entry into its place. -/
theorem add_eq_insertKey (hs : entries.Pairwise fun a b => a.seq < b.seq)
    (entry : PrefixListEntry) :
    add entries entry = insertKey (·.seq) entry entries := by
  induction entries with
  | nil => rfl
  | cons a t ih =>
    rw [List.pairwise_cons] at hs
    rcases lt_trichotomy a.seq entry.seq with hlt | heq | hgt
    · rw [add_cons_of_lt hlt, insertKey_cons_of_lt hlt, ih hs.2]
    · rw [add_cons_of_le heq.ge, if_pos heq,
        insertKey_cons_of_eq heq fun z hz => heq ▸ hs.1 z hz]
    · rw [add_cons_of_le hgt.le, if_neg hgt.ne', insertKey_cons_of_gt hgt hs.1]

end PrefixListEntrySlice

section Closure

variable {α : Type*} (seq : α → Int)

/-- `addOnce` of the closure: the new entry appended, unless it was. -/
def addOnce (entry : α) (acc : List α × Bool) : List α × Bool :=
  if !acc.2 then (acc.1 ++ [entry], true) else acc

/-- One pass of the closure's loop, over the old entry `e`. -/
def closureStep (entry : α) (acc : List α × Bool) (e : α) : List α × Bool :=
  if seq e < seq entry then (acc.1 ++ [e], acc.2)
  else if seq e = seq entry then addOnce entry acc
  else
    -- `e.Seq > entry.Seq`
    let acc := addOnce entry acc
    (acc.1 ++ [e], acc.2)

/-- The loop shared by `PrefixList.AddWithClosure` and the BGP package's `PrefixList.Add`: the old
entries copied, the new entry added once, at the first old entry of an equal or larger number,
which it replaces or precedes, or else at the end. -/
def addWithClosureBy (entries : List α) (entry : α) : List α :=
  (addOnce entry (entries.foldl (closureStep seq entry) ([], false))).1

variable {seq} {entry : α}

@[simp] lemma addOnce_false (acc : List α) : addOnce entry (acc, false) = (acc ++ [entry], true) :=
  rfl

@[simp] lemma addOnce_true (acc : List α) : addOnce entry (acc, true) = (acc, true) := rfl

/-- Once the new entry is in, the entries of larger numbers are copied. -/
lemma foldl_closureStep_added {L : List α} (h : ∀ z ∈ L, seq entry < seq z) (acc : List α) :
    L.foldl (closureStep seq entry) (acc, true) = (acc ++ L, true) := by
  induction L generalizing acc with
  | nil => simp
  | cons a t ih =>
    have ha := h a List.mem_cons_self
    rw [List.foldl_cons, closureStep, if_neg (not_lt.2 ha.le), if_neg ha.ne', addOnce_true]
    simpa using ih (fun z hz => h z (List.mem_cons_of_mem a hz)) (acc ++ [a])

lemma addOnce_foldl_closureStep {L : List α} (hs : L.Pairwise fun a b => seq a < seq b)
    (acc : List α) :
    addOnce entry (L.foldl (closureStep seq entry) (acc, false)) =
      (acc ++ insertKey seq entry L, true) := by
  induction L generalizing acc with
  | nil => simp [addOnce, insertKey]
  | cons a t ih =>
    rw [List.pairwise_cons] at hs
    rw [List.foldl_cons, closureStep]
    rcases lt_trichotomy (seq a) (seq entry) with hlt | heq | hgt
    · -- a smaller number: copied, and the new entry is still to come
      rw [if_pos hlt, ih hs.2, insertKey_cons_of_lt hlt]
      simp
    · -- an equal number: the new entry takes its place, the rest are larger
      have ht : ∀ z ∈ t, seq entry < seq z := fun z hz => heq ▸ hs.1 z hz
      rw [if_neg heq.not_lt, if_pos heq, addOnce_false, foldl_closureStep_added ht, addOnce_true,
        insertKey_cons_of_eq heq ht]
      simp
    · -- a larger number: the new entry goes in before it, the rest are larger still
      have ht : ∀ z ∈ t, seq entry < seq z := fun z hz => hgt.trans (hs.1 z hz)
      rw [if_neg (not_lt.2 hgt.le), if_neg hgt.ne', addOnce_false]
      dsimp only
      rw [foldl_closureStep_added ht, addOnce_true, insertKey_cons_of_gt hgt hs.1]
      simp

/-- On entries strictly sorted by number, the closure puts the entry into its place. -/
theorem addWithClosureBy_eq_insertKey {L : List α} (hs : L.Pairwise fun a b => seq a < seq b)
    (entry : α) : addWithClosureBy seq L entry = insertKey seq entry L := by
  rw [addWithClosureBy, addOnce_foldl_closureStep hs, List.nil_append]

end Closure

/-- `PrefixList`, with its entries; its name, the master's key, and its description are left out. -/
structure PrefixList where
  entries : List PrefixListEntry
deriving DecidableEq, Repr

namespace PrefixList

/-- `PrefixList.EntryAdd`. -/
def entryAdd (plist : PrefixList) (entry : PrefixListEntry) : PrefixList :=
  ⟨PrefixListEntrySlice.add plist.entries entry⟩

/-- `PrefixList.AddWithClosure`. -/
def addWithClosure (plist : PrefixList) (entry : PrefixListEntry) : PrefixList :=
  ⟨addWithClosureBy (·.seq) plist.entries entry⟩

/-- `PrefixList.EntryDelete`: the first entry of the number removed. -/
def entryDelete (plist : PrefixList) (entry : PrefixListEntry) : PrefixList :=
  ⟨plist.entries.eraseP (·.seq = entry.seq)⟩

/-- The loop of `PrefixList.Match`: the action of the first entry that matches, `Deny` after the
last. -/
def matchEntries (p : Prefix) : List PrefixListEntry → Option Action
  | [] => some .deny
  | entry :: rest =>
    match entry.«match» p with
    | none => none
    | some true => some entry.action
    | some false => matchEntries p rest

/-- `PrefixList.Match`. -/
def «match» (plist : PrefixList) (p : Prefix) : Option Action := matchEntries p plist.entries

/-- What a prefix list is for: the entries taken in the order of their numbers, the first that
admits the prefix decides by its action, so the one of the lowest number; with none the prefix is
denied. -/
def decides (plist : PrefixList) (q : Prefix) : Action :=
  match (plist.entries.insertionSort fun a b => a.seq ≤ b.seq).find? (·.admits q) with
  | some e => e.action
  | none => .deny

/-- Over valid entries whose lengths are lengths, the loop returns the action of the first entry
that admits the prefix. -/
lemma matchEntries_eq {q : Prefix} (hq : q.ip.length = 4 ∨ q.ip.length = 16)
    (hql : q.length ≤ 8 * q.ip.length) {L : List PrefixListEntry}
    (hv : ∀ e ∈ L, e.validate = .ok ()) (hl : ∀ e ∈ L, 0 ≤ e.pfx.length) :
    matchEntries q L = some ((L.find? (·.admits q)).elim .deny (·.action)) := by
  induction L with
  | nil => rfl
  | cons e t ih =>
    rw [matchEntries, PrefixListEntry.match_eq_admits (hv e List.mem_cons_self)
      (hl e List.mem_cons_self) hq hql]
    cases ha : e.admits q
    · rw [List.find?_cons_of_neg (by simp [ha])]
      exact ih (fun z hz => hv z (List.mem_cons_of_mem e hz))
        fun z hz => hl z (List.mem_cons_of_mem e hz)
    · rw [List.find?_cons_of_pos (p := fun x : PrefixListEntry => x.admits q) ha]
      rfl

/-- On a list sorted by number, of valid entries whose lengths are lengths, `Match` is what the
list decides. -/
lemma match_eq_decides {plist : PrefixList} (hs : plist.entries.Pairwise fun a b => a.seq < b.seq)
    (hv : ∀ e ∈ plist.entries, e.validate = .ok ()) (hl : ∀ e ∈ plist.entries, 0 ≤ e.pfx.length)
    {q : Prefix} (hq : q.ip.length = 4 ∨ q.ip.length = 16) (hql : q.length ≤ 8 * q.ip.length) :
    plist.«match» q = some (plist.decides q) := by
  -- sorted already, the entries are their own order by number
  have hsort : (plist.entries.insertionSort fun a b => a.seq ≤ b.seq) = plist.entries :=
    (hs.imp le_of_lt).insertionSort_eq
  rw [«match», matchEntries_eq hq hql hv hl, decides, hsort]
  cases plist.entries.find? (·.admits q) <;> rfl

/-- An entry of a negative length, of the family of `q` and no longer than it, makes the loop
panic when it reaches the entry: `Prefix.Match` indexes below zero. -/
lemma matchEntries_of_length_neg {q : Prefix} {e : PrefixListEntry} (hneg : e.pfx.length < 0)
    (hlen : e.pfx.length ≤ q.length) (hip : e.pfx.ip.length = q.ip.length)
    (hq : q.ip.length = 4 ∨ q.ip.length = 16) (rest : List PrefixListEntry) :
    matchEntries q (e :: rest) = none := by
  rw [matchEntries, PrefixListEntry.match, Prefix.match_of_length_neg hneg hlen hip hq]
  rfl

/-- `10.1.0.0/16`. -/
def net16 : Prefix := ⟨[10, 1, 0, 0], 16⟩

/-- Two entries of one prefix and one bound: a `Deny` entry numbered 10, a `Permit` entry
numbered 20. -/
def denyPermit : PrefixList :=
  ⟨[⟨10, .deny, ⟨[10, 0, 0, 0], 8⟩, some 32, none, none⟩,
    ⟨20, .permit, ⟨[10, 0, 0, 0], 8⟩, some 32, none, none⟩]⟩

end PrefixList

/-- `PrefixListMaster`: the prefix lists by name. -/
structure PrefixListMaster where
  prefixLists : String → Option PrefixList

/-- A call of the configuration: `EntryAdd(name, entry)` or `EntryDelete(name, entry)`, with a
nil entry as `none`. -/
inductive PrefixListCall
  | entryAdd (name : String) (entry : Option PrefixListEntry)
  | entryDelete (name : String) (entry : Option PrefixListEntry)

namespace PrefixListMaster

/-- `NewPrefixListMaster`. -/
def new : PrefixListMaster := ⟨fun _ => none⟩

/-- `PrefixListMaster.Lookup`. -/
def lookup (m : PrefixListMaster) (name : String) : Option PrefixList := m.prefixLists name

/-- `m.PrefixLists[name] = plist`. -/
def set (m : PrefixListMaster) (name : String) (plist : PrefixList) : PrefixListMaster :=
  ⟨Function.update m.prefixLists name (some plist)⟩

/-- `PrefixListMaster.Get`: the list of the name, made empty and stored when there is none. -/
def get (m : PrefixListMaster) (name : String) : PrefixListMaster × PrefixList :=
  match m.lookup name with
  | some plist => (m, plist)
  | none => (m.set name ⟨[]⟩, ⟨[]⟩)

/-- `PrefixListMaster.EntryAdd`: a nil or invalid entry refused, else the list of the name,
made when there is none, changed in place through the pointer `Get` returns. -/
def entryAdd (m : PrefixListMaster) (name : String) :
    Option PrefixListEntry → Except String PrefixListMaster
  | none => .error "Empty entry addition"
  | some entry => do
    entry.validate
    let (m, plist) := m.get name
    pure (m.set name (plist.entryAdd entry))

/-- `PrefixListMaster.EntryDelete`: nothing for a nil entry or a name without a list. -/
def entryDelete (m : PrefixListMaster) (name : String) :
    Option PrefixListEntry → PrefixListMaster
  | none => m
  | some entry =>
    match m.lookup name with
    | none => m
    | some plist => m.set name (plist.entryDelete entry)

/-- One call; a refused `EntryAdd` changes nothing. -/
def call (m : PrefixListMaster) : PrefixListCall → PrefixListMaster
  | .entryAdd name entry =>
    match m.entryAdd name entry with
    | .ok m' => m'
    | .error _ => m
  | .entryDelete name entry => m.entryDelete name entry

/-- The calls one after the other. -/
def run (m : PrefixListMaster) (cs : List PrefixListCall) : PrefixListMaster := cs.foldl call m

/-- The entries of the list of a name, none when there is no list. -/
def entriesOf (m : PrefixListMaster) (name : String) : List PrefixListEntry :=
  ((m.lookup name).map (·.entries)).getD []

@[simp] lemma lookup_set_self (m : PrefixListMaster) (name : String) (plist : PrefixList) :
    (m.set name plist).lookup name = some plist :=
  Function.update_self _ _ _

@[simp] lemma lookup_set_of_ne (m : PrefixListMaster) {name name' : String} (plist : PrefixList)
    (h : name' ≠ name) : (m.set name plist).lookup name' = m.lookup name' :=
  Function.update_of_ne h _ _

@[simp] lemma set_set (m : PrefixListMaster) (name : String) (p p' : PrefixList) :
    (m.set name p).set name p' = m.set name p' := by
  simp [set]

section Lists

variable {m : PrefixListMaster} {P : PrefixList → Prop}

/-- A property of every list of the master holds after a list that has it is set. -/
lemma forall_lookup_set (hm : ∀ name plist, m.lookup name = some plist → P plist) {name : String}
    {plist : PrefixList} (hp : P plist) :
    ∀ name' p, (m.set name plist).lookup name' = some p → P p := by
  intro name' p hp'
  by_cases hn : name' = name
  · subst hn
    rw [lookup_set_self, Option.some.injEq] at hp'
    exact hp' ▸ hp
  · rw [lookup_set_of_ne _ _ hn] at hp'
    exact hm name' p hp'

/-- A property of the entries of every list, which no entries have too, holds of those of any
name. -/
lemma entriesOf_of_forall_lookup {Q : List PrefixListEntry → Prop}
    (hm : ∀ name plist, m.lookup name = some plist → Q plist.entries) (hnil : Q [])
    (name : String) : Q (m.entriesOf name) := by
  unfold PrefixListMaster.entriesOf
  cases hp : m.lookup name with
  | none => exact hnil
  | some plist => exact hm name plist hp

end Lists

/-- A valid entry is added: the list of the name becomes its old entries with the entry added. -/
lemma entryAdd_some {m : PrefixListMaster} {name : String} {entry : PrefixListEntry}
    (hv : entry.validate = .ok ()) :
    m.entryAdd name (some entry) =
      .ok (m.set name ⟨PrefixListEntrySlice.add (m.entriesOf name) entry⟩) := by
  cases hp : m.lookup name <;> simp [entryAdd, hv, get, entriesOf, hp, PrefixList.entryAdd]

/-- `EntryAdd` inverted: it succeeds on a valid entry only, and adds it. -/
lemma entryAdd_eq_ok {m m' : PrefixListMaster} {name : String} {entry : Option PrefixListEntry}
    (h : m.entryAdd name entry = .ok m') :
    ∃ e, entry = some e ∧ e.validate = .ok () ∧
      m' = m.set name ⟨PrefixListEntrySlice.add (m.entriesOf name) e⟩ := by
  cases entry with
  | none => cases h
  | some e =>
    cases hv : e.validate with
    | error msg => simp [entryAdd, hv] at h
    | ok u =>
      rw [entryAdd_some hv] at h
      exact ⟨e, rfl, hv, (Except.ok.inj h).symm⟩

/-- Every list of the master strictly sorted by number. -/
def Sorted (m : PrefixListMaster) : Prop :=
  ∀ name plist, m.lookup name = some plist → plist.entries.Pairwise fun a b => a.seq < b.seq

variable {m : PrefixListMaster}

lemma Sorted.set (hm : m.Sorted) {name : String} {plist : PrefixList}
    (hp : plist.entries.Pairwise fun a b => a.seq < b.seq) : (m.set name plist).Sorted :=
  forall_lookup_set hm hp

lemma Sorted.entriesOf (hm : m.Sorted) (name : String) :
    (m.entriesOf name).Pairwise fun a b => a.seq < b.seq :=
  entriesOf_of_forall_lookup hm .nil name

lemma Sorted.call (hm : m.Sorted) (c : PrefixListCall) : (m.call c).Sorted := by
  cases c with
  | entryAdd name entry =>
    rw [PrefixListMaster.call]
    cases h : m.entryAdd name entry with
    | error msg => exact hm
    | ok m' =>
      obtain ⟨e, -, -, rfl⟩ := entryAdd_eq_ok h
      refine hm.set ?_
      rw [PrefixListEntrySlice.add_eq_insertKey (hm.entriesOf name)]
      exact pairwise_insertKey (hm.entriesOf name) e
  | entryDelete name entry =>
    rw [PrefixListMaster.call]
    cases entry with
    | none => exact hm
    | some e =>
      rw [entryDelete]
      cases hp : m.lookup name with
      | none => exact hm
      | some plist => exact hm.set ((hm name plist hp).sublist List.eraseP_sublist)

lemma sorted_new : new.Sorted := fun _ _ h => by cases h

/-- A run from a sorted master keeps it sorted. -/
lemma Sorted.run (hm : m.Sorted) (cs : List PrefixListCall) : (m.run cs).Sorted := by
  induction cs generalizing m with
  | nil => exact hm
  | cons c cs ih => exact ih (hm.call c)

/-- Every entry of every list of the master passes `Validate`. -/
def Valid (m : PrefixListMaster) : Prop :=
  ∀ name plist, m.lookup name = some plist → ∀ e ∈ plist.entries, e.validate = .ok ()

lemma valid_new : new.Valid := fun _ _ h => by cases h

lemma Valid.set (hm : m.Valid) {name : String} {plist : PrefixList}
    (hp : ∀ e ∈ plist.entries, e.validate = .ok ()) : (m.set name plist).Valid :=
  forall_lookup_set hm hp

lemma Valid.entriesOf (hm : m.Valid) (name : String) :
    ∀ e ∈ m.entriesOf name, e.validate = .ok () :=
  entriesOf_of_forall_lookup (Q := fun L : List PrefixListEntry => ∀ e ∈ L, e.validate = .ok ()) hm
    (fun _ h => absurd h List.not_mem_nil) name

/-- A call keeps the entries valid: `EntryAdd` validates the one it adds. -/
lemma Valid.call (hs : m.Sorted) (hm : m.Valid) (c : PrefixListCall) : (m.call c).Valid := by
  cases c with
  | entryAdd name entry =>
    rw [PrefixListMaster.call]
    cases h : m.entryAdd name entry with
    | error msg => exact hm
    | ok m' =>
      obtain ⟨e, -, hv, rfl⟩ := entryAdd_eq_ok h
      refine hm.set fun x hx => ?_
      rw [PrefixListEntrySlice.add_eq_insertKey (hs.entriesOf name)] at hx
      rcases mem_insertKey hx with rfl | hx
      · exact hv
      · exact hm.entriesOf name x hx
  | entryDelete name entry =>
    rw [PrefixListMaster.call]
    cases entry with
    | none => exact hm
    | some e =>
      rw [entryDelete]
      cases hp : m.lookup name with
      | none => exact hm
      | some plist => exact hm.set fun x hx => hm name plist hp x (List.eraseP_sublist.subset hx)

lemma Valid.run (hs : m.Sorted) (hm : m.Valid) (cs : List PrefixListCall) : (m.run cs).Valid := by
  induction cs generalizing m with
  | nil => exact hm
  | cons c cs ih => exact ih (hs.call c) (hm.call hs c)

/-- Every master the calls reach from `NewPrefixListMaster` keeps each list strictly sorted by
number; on it `EntryAdd` of a valid entry puts the entry into its place in the list of the name,
and `EntryDelete` drops the entry of the number, every other list left as it was. -/
theorem prefixList_store_invariant (cs : List PrefixListCall) :
    let m := new.run cs
    m.Sorted ∧
    (∀ name entry, entry.validate = .ok () →
      m.entryAdd name (some entry) =
        .ok (m.set name ⟨insertKey (·.seq) entry (m.entriesOf name)⟩)) ∧
    (∀ name entry, m.entryDelete name (some entry) =
      match m.lookup name with
      | some plist => m.set name ⟨eraseKey (·.seq) entry.seq plist.entries⟩
      | none => m) := by
  intro m
  have hs : m.Sorted := sorted_new.run cs
  refine ⟨hs, fun name entry hv => ?_, fun name entry => ?_⟩
  · rw [entryAdd_some hv, PrefixListEntrySlice.add_eq_insertKey (hs.entriesOf name)]
  · unfold entryDelete
    cases hp : m.lookup name with
    | none => rfl
    | some plist =>
      -- the numbers are distinct, so the first entry of the number is the only one
      have hnd : (plist.entries.map (·.seq)).Nodup :=
        List.pairwise_map.2 ((hs name plist hp).imp ne_of_lt)
      simp only [PrefixList.entryDelete]
      rw [eraseP_eq_eraseKey hnd]

end PrefixListMaster

namespace PrefixList

/-- Over every list that `EntryAdd` and `EntryDelete` build from `NewPrefixListMaster`, whose
entries have lengths that are lengths, `Match` of a prefix of an address family returns the
action of the entry of the lowest number that admits the prefix, and `Deny` when none does. -/
theorem prefixList_match_lowest_seq (cs : List PrefixListCall) {name : String} {plist : PrefixList}
    (hp : (PrefixListMaster.new.run cs).lookup name = some plist)
    (hl : ∀ e ∈ plist.entries, 0 ≤ e.pfx.length) {q : Prefix}
    (hq : q.ip.length = 4 ∨ q.ip.length = 16) (hql : q.length ≤ 8 * q.ip.length) :
    plist.«match» q = some (plist.decides q) := by
  -- the lists the calls build are sorted by number and hold valid entries only
  have hs := PrefixListMaster.sorted_new.run cs name plist hp
  have hv := (PrefixListMaster.valid_new.run PrefixListMaster.sorted_new cs) name plist hp
  exact match_eq_decides hs hv hl hq hql

/-- The `Permit` entry numbered 20 added first, the `Deny` entry numbered 10 after. -/
def denyPermitCalls : List PrefixListCall :=
  [.entryAdd "p" (some ⟨20, .permit, ⟨[10, 0, 0, 0], 8⟩, some 32, none, none⟩),
    .entryAdd "p" (some ⟨10, .deny, ⟨[10, 0, 0, 0], 8⟩, some 32, none, none⟩)]

theorem prefixList_match_lowest_seq_denyPermit :
    (PrefixListMaster.new.run denyPermitCalls).lookup "p" = some denyPermit ∧
      denyPermit.«match» net16 = some (denyPermit.decides net16) :=
  have hp : (PrefixListMaster.new.run denyPermitCalls).lookup "p" = some denyPermit := by decide
  ⟨hp, prefixList_match_lowest_seq denyPermitCalls hp (by decide) (by decide) (by decide)⟩

/-- `ParsePrefix` takes the length from `strconv.Atoi`, so a configured length of minus eight on
`10.0.0.0` makes an entry of a negative length, and `Validate` lets an entry without bounds in
whatever its length.  In any list the calls build, `EntryAdd` stores it; numbered below the
other entries, it is the first `Match` tries, and `Match` panics on every prefix of its family. -/
theorem prefixList_match_panics_of_length_neg (cs : List PrefixListCall) (name : String)
    {e : PrefixListEntry} (hneg : e.pfx.length < 0)
    (hb : e.eq = none ∧ e.le = none ∧ e.ge = none)
    (hlow : ∀ e' ∈ (PrefixListMaster.new.run cs).entriesOf name, e.seq < e'.seq)
    {q : Prefix} (hip : e.pfx.ip.length = q.ip.length) (hq : q.ip.length = 4 ∨ q.ip.length = 16)
    (hql : 0 ≤ q.length) :
    ∃ m plist, (PrefixListMaster.new.run cs).entryAdd name (some e) = .ok m ∧
      m.lookup name = some plist ∧ plist.«match» q = none := by
  have hv : e.validate = .ok () := by
    obtain ⟨seq, action, pfx, le, ge, eq⟩ := e
    obtain ⟨rfl, rfl, rfl⟩ := hb
    rfl
  have hs := PrefixListMaster.sorted_new.run cs
  -- the entry goes first, ahead of every larger number
  have hfirst : PrefixListEntrySlice.add ((PrefixListMaster.new.run cs).entriesOf name) e =
      e :: (PrefixListMaster.new.run cs).entriesOf name := by
    rw [PrefixListEntrySlice.add_eq_insertKey (hs.entriesOf name), insertKey_of_forall_lt hlow]
  refine ⟨_, _, PrefixListMaster.entryAdd_some hv, PrefixListMaster.lookup_set_self _ _ _, ?_⟩
  rw [«match», hfirst]
  exact matchEntries_of_length_neg hneg (by omega) hip hq _

theorem prefixList_match_panics_minus_eight :
    ((⟨5, .permit, ⟨[10, 0, 0, 0], -8⟩, none, none, none⟩ : PrefixListEntry).pfx.length < 0 ∧
      (∀ e' ∈ (PrefixListMaster.new.run []).entriesOf "p", (5 : Int) < e'.seq)) ∧
      ∃ m plist, (PrefixListMaster.new.run []).entryAdd "p"
          (some ⟨5, .permit, ⟨[10, 0, 0, 0], -8⟩, none, none, none⟩) = .ok m ∧
        m.lookup "p" = some plist ∧ plist.«match» net16 = none :=
  ⟨⟨by decide, by decide⟩, prefixList_match_panics_of_length_neg [] "p" (by decide)
    ⟨rfl, rfl, rfl⟩ (by decide) rfl (by decide) (by decide)⟩

end PrefixList

end Zebra.Policy
