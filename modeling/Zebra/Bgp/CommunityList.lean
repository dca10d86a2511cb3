import Zebra.Bgp.Community
import Zebra.Policy.RouteMap

/-!
# Community lists

A community list (`bgp.CommunityList`) has a type, standard or expanded, and entries, each an
action with the communities of a text (standard) or the text itself (expanded).  The lists are
kept by name in a `CommunityListMap`.  `CommunityListAdd` gets the list of the name through
`CommunityListGet`, which makes and stores a standard list when there is none, before it checks
the type, parses the text and appends the entry unless an equal one is there;
`CommunityListDelete` drops the entries equal to the one the text makes.

Deleting what was added to a list of its type that held no equal entry gives the map back
(`communityListDelete_communityListAdd`).  An add of an expanded list under a new name returns a
type mismatch and leaves a standard list made under the name
(`communityListAdd_expanded_fresh`).
-/

namespace Zebra.Bgp

open Zebra.Policy

/-- `CommunityListType`. -/
inductive CommunityListType
  /-- `CommunityListStandard`, the zero value. -/
  | standard
  /-- `CommunityListExpanded`. -/
  | expanded
deriving DecidableEq, Repr

/-- `CommunityListEntry`. -/
structure CommunityListEntry where
  typ : CommunityListType
  policy : Action
  community : List UInt32
  regstr : String
deriving DecidableEq, Repr

namespace CommunityListEntry

/-- `CommunityListEntry.Equal`: the same action and type, and the same communities for a
standard entry, the same expression for an expanded one. -/
def equal (lhs rhs : CommunityListEntry) : Bool :=
  lhs.policy == rhs.policy && lhs.typ == rhs.typ &&
    match lhs.typ with
    | .standard => Community.equal lhs.community rhs.community
    | .expanded => lhs.regstr == rhs.regstr

lemma equal_self (e : CommunityListEntry) : e.equal e = true := by
  cases h : e.typ <;> simp [equal, h, Community.equal_iff]

end CommunityListEntry

/-- `NewCommunityListEntry`: a standard entry holds the communities of the text, an expanded one
the text itself; `none` where `CommunityParse` fails. -/
def newCommunityListEntry (typ : CommunityListType) (policy : Action) (str : String) :
    Option CommunityListEntry :=
  match typ with
  | .standard => (communityParse str).map fun com => ⟨typ, policy, com, ""⟩
  | .expanded => some ⟨typ, policy, [], str⟩

/-- `CommunityList`, with its type and entries; its name, the map's key, is left out. -/
structure CommunityList where
  typ : CommunityListType
  entry : List CommunityListEntry
deriving DecidableEq, Repr

/-- An error of the community-list calls: a text of the file, or the error
`strconv.ParseUint` returns to `CommunityParse`, whose text is left out. -/
inductive CommunityListError
  | text (s : String)
  | parseUint
deriving DecidableEq, Repr

/-- `CommunityListMap`: the community lists by name. -/
structure CommunityListMap where
  lists : String → Option CommunityList

namespace CommunityListMap

/-- `NewCommunityListMap`. -/
def new : CommunityListMap := ⟨fun _ => none⟩

/-- `clist[name] = list`. -/
def set (clist : CommunityListMap) (name : String) (list : CommunityList) : CommunityListMap :=
  ⟨Function.update clist.lists name (some list)⟩

/-- `CommunityListGet`: the list of the name, made with the zero type, `CommunityListStandard`,
and stored when there is none. -/
def communityListGet (clist : CommunityListMap) (name : String) :
    CommunityListMap × CommunityList :=
  match clist.lists name with
  | some list => (clist, list)
  | none => (clist.set name ⟨.standard, []⟩, ⟨.standard, []⟩)

/-- `CommunityListAdd`: the map after the call, which `CommunityListGet` has changed before any
check, and the error returned. -/
def communityListAdd (clist : CommunityListMap) (name : String) (typ : CommunityListType)
    (policy : Action) (str : String) : CommunityListMap × Option CommunityListError :=
  let (clist, list) := clist.communityListGet name
  if list.typ ≠ typ then (clist, some (.text "community-list type mismatch"))
  else
    match newCommunityListEntry typ policy str with
    | none => (clist, some .parseUint)
    | some entry =>
      if list.entry.any (·.equal entry) then (clist, none)
      else (clist.set name { list with entry := list.entry ++ [entry] }, none)

/-- `CommunityListDelete`: the entries equal to the one the text makes dropped. -/
def communityListDelete (clist : CommunityListMap) (name : String) (typ : CommunityListType)
    (policy : Action) (str : String) : CommunityListMap × Option CommunityListError :=
  match clist.lists name with
  | none => (clist, some (.text ("community-list name " ++ name ++ " dose not exist")))
  | some list =>
    if list.typ ≠ typ then (clist, some (.text "community-list type mismatch"))
    else
      match newCommunityListEntry typ policy str with
      | none => (clist, some .parseUint)
      | some entry =>
        (clist.set name { list with entry := list.entry.filter (!·.equal entry) }, none)

@[simp] lemma lists_set_self (clist : CommunityListMap) (name : String) (list : CommunityList) :
    (clist.set name list).lists name = some list :=
  Function.update_self _ _ _

@[simp] lemma set_set (clist : CommunityListMap) (name : String) (l l' : CommunityList) :
    (clist.set name l).set name l' = clist.set name l' := by
  simp [set]

lemma set_of_lists_eq {clist : CommunityListMap} {name : String} {list : CommunityList}
    (h : clist.lists name = some list) : clist.set name list = clist := by
  cases clist
  simp only [set, CommunityListMap.mk.injEq]
  exact Function.update_eq_self_iff.2 h.symm

/-- An add to a list of its type, with a text that parses: the entry appended unless an equal
one is there, and no error. -/
lemma communityListAdd_of_typ {clist : CommunityListMap} {name : String} {list : CommunityList}
    (hl : clist.lists name = some list) {typ : CommunityListType} (ht : list.typ = typ)
    {policy : Action} {str : String} {entry : CommunityListEntry}
    (he : newCommunityListEntry typ policy str = some entry) :
    clist.communityListAdd name typ policy str =
      (if list.entry.any (·.equal entry) then clist
        else clist.set name { list with entry := list.entry ++ [entry] }, none) := by
  simp only [communityListAdd, communityListGet, hl, ht, ne_eq, not_true_eq_false, if_false, he]
  split <;> rfl

/-- Deleting what was just added to a list that held no equal entry gives the list back. -/
theorem communityListDelete_communityListAdd {clist : CommunityListMap} {name : String}
    {list : CommunityList} (hl : clist.lists name = some list) {typ : CommunityListType}
    (ht : list.typ = typ) {policy : Action} {str : String} {entry : CommunityListEntry}
    (he : newCommunityListEntry typ policy str = some entry)
    (hnew : list.entry.all (!·.equal entry)) :
    ((clist.communityListAdd name typ policy str).1.communityListDelete name typ policy str) =
      (clist, none) := by
  subst ht
  have hany : list.entry.any (·.equal entry) = false := by
    simpa [List.all_eq_true, List.any_eq_false] using hnew
  rw [communityListAdd_of_typ hl rfl he, hany, if_neg (by simp)]
  simp only [communityListDelete, lists_set_self, ne_eq, not_true_eq_false, if_false, he,
    set_set]
  -- the old entries stay, the new one is dropped as equal to itself
  have hfilter : (list.entry ++ [entry]).filter (!·.equal entry) = list.entry := by
    rw [List.filter_append, List.filter_eq_self.2 (by simpa [List.all_eq_true] using hnew)]
    simp [CommunityListEntry.equal_self]
  rw [hfilter]
  exact congrArg (·, none) (set_of_lists_eq hl)

/-- An add of an expanded list under a new name: `CommunityListGet` makes a standard list first,
so the add returns the type mismatch and leaves that list made. -/
theorem communityListAdd_expanded_fresh {clist : CommunityListMap} {name : String}
    (hfresh : clist.lists name = none) (policy : Action) (str : String) :
    clist.communityListAdd name .expanded policy str =
      (clist.set name ⟨.standard, []⟩, some (.text "community-list type mismatch")) := by
  simp [communityListAdd, communityListGet, hfresh]

theorem communityListAdd_expanded_new :
    new.communityListAdd "c1" .expanded .permit "_100:1_" =
      (new.set "c1" ⟨.standard, []⟩, some (.text "community-list type mismatch")) :=
  communityListAdd_expanded_fresh rfl .permit "_100:1_"

end CommunityListMap

end Zebra.Bgp
