import Zebra.Lib.KeyedList
import Zebra.Lib.GoText
import Mathlib.Data.List.Induction

/-!
# Route maps

A route map (`policy.RouteMap`) is a list of entries, each with a type, `Permit` or `Deny`, a
sequence number and match clauses; the one clause the package defines is `match tag`.
`RouteMapEntryGet` finds the entry of a sequence number in the route map of a name, and makes the
route map and the entry when they are not there, appending the entry and sorting the entries by
sequence number.  `RouteMap.Match` asks whether a route satisfies a clause of some entry.

Over every run of `RouteMapEntryGet` and `MatchAdd` calls the entries of each route map stay
strictly ordered by sequence number (`run_sorted`), each with the type of the last
`RouteMapEntryGet` of its sequence number (`run_typ`).  What a route map is for, that the first
entry in that order with a clause the route satisfies decides by its type (`RouteMap.permits`),
is what `Match` computes exactly when that entry is a `Permit` entry (`match_eq_permits_iff`):
`Match` never reads the type.
-/

namespace Zebra.Policy

open Zebra.Lib

/-- `Action`, a `bool` in the source, with `Permit` true and `Deny` false. -/
inductive Action
  | deny
  | permit
deriving DecidableEq, Repr

/-- The `*pb.Rib` a route map is asked about: the clauses read its tag only. -/
structure PbRib where
  tag : UInt32
deriving DecidableEq, Repr

/-- `MatchTag`, the clause `match tag`, and the only `RouteMapMatch` the package defines. -/
structure MatchTag where
  tags : List UInt32
deriving DecidableEq, Repr

namespace MatchTag

/-- `MatchTag.Match`: the rib's tag is one of the clause's. -/
def «match» (m : MatchTag) (rib : PbRib) : Bool := m.tags.any (· == rib.tag)

/-- `MatchTag.MatchAdd`: the arguments that parse as 32-bit decimal numbers, appended in order;
the others are skipped. -/
def matchAdd (m : MatchTag) (args : List String) : MatchTag :=
  { tags := m.tags ++ args.filterMap fun tagStr => (parseUint tagStr 32).map UInt32.ofNat }

end MatchTag

/-- `RouteMapEntry`.  Its `actions` are left out: no function of the package adds one, and
`Match` does not read them. -/
structure RouteMapEntry where
  typ : Action
  seq : UInt32
  /-- `matches`. -/
  matchList : List MatchTag
deriving DecidableEq, Repr

namespace RouteMapEntry

/-- `NewRouteMapEntry`. -/
def new (typ : Action) (seq : UInt32) : RouteMapEntry := { typ, seq, matchList := [] }

/-- `RouteMapEntry.MatchAdd`: for the name `"tag"` a new `match tag` clause of the arguments, for
any other name nothing. -/
def matchAdd (ent : RouteMapEntry) (name : String) (args : List String) : RouteMapEntry :=
  if name = "tag" then { ent with matchList := ent.matchList ++ [MatchTag.matchAdd ⟨[]⟩ args] }
  else ent

/-- `RouteMapEntry.Match`: some clause of the entry holds. -/
def «match» (ent : RouteMapEntry) (rib : PbRib) : Bool := ent.matchList.any (·.«match» rib)

@[simp] lemma matchAdd_seq (ent : RouteMapEntry) (name : String) (args : List String) :
    (ent.matchAdd name args).seq = ent.seq := by
  unfold matchAdd
  split <;> rfl

@[simp] lemma matchAdd_typ (ent : RouteMapEntry) (name : String) (args : List String) :
    (ent.matchAdd name args).typ = ent.typ := by
  unfold matchAdd
  split <;> rfl

end RouteMapEntry

/-- `RouteMap`. -/
structure RouteMap where
  name : String
  entries : List RouteMapEntry
deriving DecidableEq, Repr

namespace RouteMap

/-- `RouteMapEntryAdd`: the entry appended, and the entries sorted by sequence number.  Go's
`sort.Slice` is not stable, but the entries it sorts here have distinct sequence numbers
(`Sorted`), so every sort gives the one order. -/
def routeMapEntryAdd (rmap : RouteMap) (ent : RouteMapEntry) : RouteMap :=
  { rmap with entries := (rmap.entries ++ [ent]).insertionSort fun a b => a.seq ≤ b.seq }

/-- The first entry of sequence number `seq` changed by `f` in place, as through the pointer the
loop of `RouteMapEntryGet` returns. -/
def entryModify (rmap : RouteMap) (seq : UInt32) (f : RouteMapEntry → RouteMapEntry) :
    RouteMap :=
  { rmap with entries := rmap.entries.replaceF fun e => if e.seq = seq then some (f e) else none }

/-- `RouteMap.Match`: some entry matches the route, whatever its type. -/
def «match» (rmap : RouteMap) (rib : PbRib) : Bool := rmap.entries.any (·.«match» rib)

/-- What a route map is for: the first entry in the order of the entries with a clause the route
satisfies decides, a `Permit` entry by permitting the route; with no such entry the route is
denied. -/
def permits (rmap : RouteMap) (rib : PbRib) : Bool :=
  match rmap.entries.find? (·.«match» rib) with
  | some e => e.typ == .permit
  | none => false

/-- The entries strictly ordered by sequence number, so one entry per sequence number. -/
def Sorted (rmap : RouteMap) : Prop := rmap.entries.Pairwise fun a b => a.seq < b.seq

variable {rmap : RouteMap}

lemma Sorted.nodup (h : rmap.Sorted) : (rmap.entries.map (·.seq)).Nodup :=
  List.pairwise_map.2 (h.imp UInt32.ne_of_lt)

/-- On a sorted route map the first entry of a sequence number is the only one, so changing it
changes every entry of that number. -/
lemma entries_entryModify (h : rmap.Sorted) (seq : UInt32) (f : RouteMapEntry → RouteMapEntry) :
    (rmap.entryModify seq f).entries = rmap.entries.map fun e => if e.seq = seq then f e else e :=
  replaceF_eq_map h.nodup seq f

lemma Sorted.entryModify (h : rmap.Sorted) {seq : UInt32} {f : RouteMapEntry → RouteMapEntry}
    (hf : ∀ e, (f e).seq = e.seq) : (rmap.entryModify seq f).Sorted := by
  unfold Sorted
  rw [entries_entryModify h, List.pairwise_map]
  refine h.imp fun {a b} hab => ?_
  have hseq : ∀ e : RouteMapEntry, (if e.seq = seq then f e else e).seq = e.seq := by
    intro e
    split <;> simp [hf]
  rwa [hseq, hseq]

lemma mem_routeMapEntryAdd {ent e : RouteMapEntry} :
    e ∈ (rmap.routeMapEntryAdd ent).entries ↔ e ∈ rmap.entries ∨ e = ent := by
  simp [routeMapEntryAdd]

lemma Sorted.routeMapEntryAdd (h : rmap.Sorted) {ent : RouteMapEntry}
    (hnew : ∀ e ∈ rmap.entries, e.seq ≠ ent.seq) : (rmap.routeMapEntryAdd ent).Sorted := by
  -- the 32-bit sequence numbers compare as the numbers they stand for
  have hs := pairwise_insertionSort_append (k := fun e : RouteMapEntry => e.seq.toNat)
    (fun a b => UInt32.le_iff_toNat_le) (h.imp UInt32.lt_iff_toNat_lt.1)
    fun e he hne => hnew e he (UInt32.toNat_inj.1 hne)
  exact hs.imp UInt32.lt_iff_toNat_lt.2

/-- `Match` agrees with what the route map is for exactly when the first entry that matches the
route is not a `Deny` entry. -/
theorem match_eq_permits_iff (rmap : RouteMap) (rib : PbRib) :
    rmap.«match» rib = rmap.permits rib ↔
      ∀ e, rmap.entries.find? (·.«match» rib) = some e → e.typ = .permit := by
  have hany : rmap.«match» rib = (rmap.entries.find? (·.«match» rib)).isSome := by
    rw [Bool.eq_iff_iff, List.find?_isSome, «match», List.any_eq_true]
  rw [hany, permits]
  cases hf : rmap.entries.find? (·.«match» rib) with
  | none => simp
  | some e =>
    cases ht : e.typ <;> simp [ht]

end RouteMap

/-- `RouteMapMaster`: the route maps by name. -/
structure RouteMapMaster where
  map : String → Option RouteMap

/-- A call of a configuration: `RouteMapEntryGet(name, typ, seq)`, or `MatchAdd(mname, args)` on
the entry a `RouteMapEntryGet(name, _, seq)` returned.  Entries are never removed and never change
their sequence number, so that entry stays the entry of `seq` in the route map `name`. -/
inductive RouteMapCall
  | entryGet (name : String) (typ : Action) (seq : UInt32)
  | matchAdd (name : String) (seq : UInt32) (mname : String) (args : List String)

namespace RouteMapMaster

/-- `NewRouteMapMaster`. -/
def new : RouteMapMaster := ⟨fun _ => none⟩

/-- `RouteMapLookup`. -/
def routeMapLookup (m : RouteMapMaster) (name : String) : Option RouteMap := m.map name

/-- `m.Map[name] = rmap`. -/
def set (m : RouteMapMaster) (name : String) (rmap : RouteMap) : RouteMapMaster :=
  ⟨Function.update m.map name (some rmap)⟩

/-- `RouteMapEntryGet`: the route map of the name, made when there is none; in it the first entry
of sequence number `seq`, which takes the type `typ`, or else a new entry of that type added. -/
def routeMapEntryGet (m : RouteMapMaster) (name : String) (typ : Action) (seq : UInt32) :
    RouteMapMaster × RouteMapEntry :=
  let rmap := (m.map name).getD { name, entries := [] }
  match rmap.entries.find? (·.seq == seq) with
  | some ent =>
    -- Force overwrite type when existing type is different with argument.
    let setTyp := fun e : RouteMapEntry => if e.typ ≠ typ then { e with typ } else e
    (m.set name (rmap.entryModify seq setTyp), setTyp ent)
  | none =>
    let ent := RouteMapEntry.new typ seq
    (m.set name (rmap.routeMapEntryAdd ent), ent)

/-- `ent.MatchAdd(mname, args...)` on the entry of sequence number `seq` of the route map
`name`. -/
def entryMatchAdd (m : RouteMapMaster) (name : String) (seq : UInt32) (mname : String)
    (args : List String) : RouteMapMaster :=
  match m.map name with
  | some rmap => m.set name (rmap.entryModify seq (·.matchAdd mname args))
  | none => m

/-- One call. -/
def call (m : RouteMapMaster) : RouteMapCall → RouteMapMaster
  | .entryGet name typ seq => (m.routeMapEntryGet name typ seq).1
  | .matchAdd name seq mname args => m.entryMatchAdd name seq mname args

/-- The calls one after the other. -/
def run (m : RouteMapMaster) (cs : List RouteMapCall) : RouteMapMaster := cs.foldl call m

@[simp] lemma set_map_self (m : RouteMapMaster) (name : String) (rmap : RouteMap) :
    (m.set name rmap).map name = some rmap :=
  Function.update_self _ _ _

@[simp] lemma set_map_of_ne (m : RouteMapMaster) {name name' : String} (rmap : RouteMap)
    (h : name' ≠ name) : (m.set name rmap).map name' = m.map name' :=
  Function.update_of_ne h _ _

lemma routeMapEntryGet_map_of_ne (m : RouteMapMaster) {name name' : String} (typ : Action)
    (seq : UInt32) (h : name' ≠ name) : (m.routeMapEntryGet name typ seq).1.map name' = m.map name' := by
  unfold routeMapEntryGet
  dsimp only
  split <;> exact set_map_of_ne _ _ h

lemma entryMatchAdd_map_of_ne (m : RouteMapMaster) {name name' : String} (seq : UInt32)
    (mname : String) (args : List String) (h : name' ≠ name) :
    (m.entryMatchAdd name seq mname args).map name' = m.map name' := by
  unfold entryMatchAdd
  split
  · exact set_map_of_ne _ _ h
  · rfl

/-- Every route map of the master is sorted. -/
def Sorted (m : RouteMapMaster) : Prop := ∀ name rmap, m.map name = some rmap → rmap.Sorted

variable {m : RouteMapMaster} {name : String}

lemma Sorted.set (hm : m.Sorted) {rmap : RouteMap} (hr : rmap.Sorted) : (m.set name rmap).Sorted := by
  intro name' r hr'
  by_cases hn : name' = name
  · subst hn
    rw [set_map_self] at hr'
    cases hr'
    exact hr
  · rw [set_map_of_ne _ _ hn] at hr'
    exact hm name' r hr'

lemma Sorted.getD (hm : m.Sorted) (name : String) :
    ((m.map name).getD { name, entries := [] }).Sorted := by
  cases hr : m.map name with
  | none => exact List.Pairwise.nil
  | some r => exact hm name r hr

/-- `RouteMapEntryGet` on a sorted master, inverted: in the route map of the name, an entry is the
entry `seq` with the type `typ`, or an entry of another number that was there. -/
lemma mem_routeMapEntryGet (hm : m.Sorted) {typ : Action} {seq : UInt32} {r : RouteMap}
    (hr : (m.routeMapEntryGet name typ seq).1.map name = some r) :
    ∀ e ∈ r.entries, (e.seq = seq ∧ e.typ = typ) ∨
      (e.seq ≠ seq ∧ ∃ r₀, m.map name = some r₀ ∧ e ∈ r₀.entries) := by
  intro e he
  have h₀ := hm.getD name
  -- the route map the call starts from, made empty when there is none
  have hold : ∀ e' ∈ ((m.map name).getD { name, entries := [] }).entries,
      ∃ r₀, m.map name = some r₀ ∧ e' ∈ r₀.entries := by
    cases hm₀ : m.map name with
    | none => intro e' h; cases h
    | some r₀ => exact fun e' h => ⟨r₀, rfl, h⟩
  unfold routeMapEntryGet at hr
  dsimp only at hr
  split at hr
  · rw [set_map_self, Option.some.injEq] at hr
    subst hr
    rw [RouteMap.entries_entryModify h₀] at he
    obtain ⟨e₀, he₀, rfl⟩ := List.mem_map.1 he
    by_cases hs : e₀.seq = seq
    · left
      rw [if_pos hs]
      constructor
      · split <;> simp [hs]
      · split <;> simp_all
    · right
      rw [if_neg hs]
      exact ⟨hs, hold e₀ he₀⟩
  · rename_i hnone
    rw [set_map_self, Option.some.injEq] at hr
    subst hr
    rcases RouteMap.mem_routeMapEntryAdd.1 he with he₀ | rfl
    · have hs : e.seq ≠ seq := by
        simpa using List.find?_eq_none.1 hnone e he₀
      exact .inr ⟨hs, hold e he₀⟩
    · exact .inl ⟨rfl, rfl⟩

lemma Sorted.routeMapEntryGet (hm : m.Sorted) (typ : Action) (seq : UInt32) :
    (m.routeMapEntryGet name typ seq).1.Sorted := by
  have h₀ := hm.getD name
  unfold RouteMapMaster.routeMapEntryGet
  dsimp only
  split
  · refine hm.set (h₀.entryModify fun e => ?_)
    split <;> rfl
  · rename_i hnone
    refine hm.set (h₀.routeMapEntryAdd fun e he => ?_)
    simpa [RouteMapEntry.new] using List.find?_eq_none.1 hnone e he

/-- `MatchAdd` on a sorted master, inverted: in the route map of the name, an entry stands where
an entry of the same number and type was. -/
lemma mem_entryMatchAdd (hm : m.Sorted) {seq : UInt32} {mname : String} {args : List String}
    {r : RouteMap} (hr : (m.entryMatchAdd name seq mname args).map name = some r) :
    ∀ e ∈ r.entries, ∃ r₀, m.map name = some r₀ ∧
      ∃ e₀ ∈ r₀.entries, e₀.seq = e.seq ∧ e₀.typ = e.typ := by
  intro e he
  unfold entryMatchAdd at hr
  split at hr
  · rename_i r₀ hr₀
    rw [set_map_self, Option.some.injEq] at hr
    subst hr
    rw [RouteMap.entries_entryModify (hm name r₀ hr₀)] at he
    obtain ⟨e₀, he₀, rfl⟩ := List.mem_map.1 he
    refine ⟨r₀, hr₀, e₀, he₀, ?_⟩
    split <;> simp
  · -- without the route map there is no entry to change
    rename_i hnone
    rw [hnone] at hr
    cases hr

lemma Sorted.entryMatchAdd (hm : m.Sorted) (seq : UInt32) (mname : String) (args : List String) :
    (m.entryMatchAdd name seq mname args).Sorted := by
  unfold RouteMapMaster.entryMatchAdd
  split
  · rename_i r₀ hr₀
    exact hm.set ((hm name r₀ hr₀).entryModify fun e => by simp)
  · exact hm

lemma Sorted.call (hm : m.Sorted) (c : RouteMapCall) : (m.call c).Sorted := by
  cases c with
  | entryGet name typ seq => exact hm.routeMapEntryGet typ seq
  | matchAdd name seq mname args => exact hm.entryMatchAdd seq mname args

lemma sorted_new : new.Sorted := fun _ _ h => by cases h

/-- Every run keeps the entries of every route map strictly ordered by sequence number. -/
theorem run_sorted (cs : List RouteMapCall) : (new.run cs).Sorted := by
  suffices ∀ m : RouteMapMaster, m.Sorted → (m.run cs).Sorted from this new sorted_new
  induction cs with
  | nil => exact fun m hm => hm
  | cons c cs ih => exact fun m hm => ih (m.call c) (hm.call c)

end RouteMapMaster

namespace RouteMapCall

/-- The type the call asks the entry `seq` of the route map `name` to have, if it does. -/
def getTyp (name : String) (seq : UInt32) : RouteMapCall → Option Action
  | .entryGet n typ s => if n = name ∧ s = seq then some typ else none
  | .matchAdd .. => none

/-- The type the last `RouteMapEntryGet` of `name` and `seq` among the calls asks for. -/
def lastGetTyp (name : String) (seq : UInt32) (cs : List RouteMapCall) : Option Action :=
  cs.reverse.findSome? (getTyp name seq)

lemma lastGetTyp_append (name : String) (seq : UInt32) (cs : List RouteMapCall)
    (c : RouteMapCall) :
    lastGetTyp name seq (cs ++ [c]) = (c.getTyp name seq).or (lastGetTyp name seq cs) := by
  simp only [lastGetTyp, List.reverse_append, List.reverse_cons, List.reverse_nil,
    List.nil_append, List.singleton_append, List.findSome?_cons]
  cases c.getTyp name seq <;> rfl

end RouteMapCall

namespace RouteMapMaster

open RouteMapCall

variable {m : RouteMapMaster} {name : String}

/-- One call, for the types: the entries of the route map `name` have the type the call asks for,
or else the type they had. -/
lemma call_typ (hm : m.Sorted) {T : UInt32 → Option Action}
    (hT : ∀ r, m.map name = some r → ∀ e ∈ r.entries, T e.seq = some e.typ) (c : RouteMapCall) :
    ∀ r, (m.call c).map name = some r →
      ∀ e ∈ r.entries, (c.getTyp name e.seq).or (T e.seq) = some e.typ := by
  intro r hr e he
  cases c with
  | entryGet n typ s =>
    by_cases hn : n = name
    · subst hn
      rcases mem_routeMapEntryGet hm hr e he with ⟨hs, ht⟩ | ⟨hs, r₀, hr₀, he₀⟩
      · simp [getTyp, hs, ht]
      · simp [getTyp, Ne.symm hs, hT r₀ hr₀ e he₀]
    · have hr' : m.map name = some r :=
        (routeMapEntryGet_map_of_ne m typ s (Ne.symm hn)).symm.trans hr
      simp [getTyp, hn, hT r hr' e he]
  | matchAdd n s mname args =>
    have hkeep : ∃ r₀, m.map name = some r₀ ∧
        ∃ e₀ ∈ r₀.entries, e₀.seq = e.seq ∧ e₀.typ = e.typ := by
      by_cases hn : n = name
      · subst hn
        exact mem_entryMatchAdd hm hr e he
      · have hr' : m.map name = some r :=
          (entryMatchAdd_map_of_ne m s mname args (Ne.symm hn)).symm.trans hr
        exact ⟨r, hr', e, he, rfl, rfl⟩
    obtain ⟨r₀, hr₀, e₀, he₀, hs, ht⟩ := hkeep
    rw [← hs, ← ht]
    simpa [getTyp] using hT r₀ hr₀ e₀ he₀

/-- Every run leaves each entry with the type of the last `RouteMapEntryGet` of its route map and
sequence number. -/
theorem run_typ (cs : List RouteMapCall) :
    ∀ r, (new.run cs).map name = some r → ∀ e ∈ r.entries, lastGetTyp name e.seq cs = some e.typ := by
  induction cs using List.reverseRecOn with
  | nil => intro r hr; cases hr
  | append_singleton cs c ih =>
    intro r hr e he
    rw [run, List.foldl_append] at hr
    rw [lastGetTyp_append]
    exact call_typ (T := fun s => lastGetTyp name s cs) (run_sorted cs) ih c r hr e he

/-- The route map `test` with one `Deny` entry, of sequence number 10, holding the clause
`match tag 100`. -/
def denyTag100 : RouteMapMaster :=
  new.run [.entryGet "test" .deny 10, .matchAdd "test" 10 "tag" ["100"]]

/-- `Match` is true for a route of tag 100 on `denyTag100`, whose only entry, the one that matches
the route, is a `Deny` entry. -/
theorem routeMap_match_deny_entry :
    ∃ rmap, denyTag100.routeMapLookup "test" = some rmap ∧
      rmap.entries.map (fun e => (e.typ, e.seq, e.«match» ⟨100⟩)) = [(.deny, 10, true)] ∧
      rmap.«match» ⟨100⟩ = true :=
  ⟨⟨"test", [⟨.deny, 10, [⟨[100]⟩]⟩]⟩, by decide, by decide, by decide⟩

end RouteMapMaster

end Zebra.Policy
