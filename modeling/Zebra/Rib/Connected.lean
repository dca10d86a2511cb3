import Zebra.Rib.TableView
import Zebra.Rib.Interface

/-!
# Connected routes in a VRF

The connected routes of a slice, read as their next hops and source, and what `RibAdd` and
`RibDelete` of the route `connectedRib` of an address do to them.  `ViewIs v P` says that at
every place the connected routes of `v` are, as a multiset, those that the pairs `P` of an
interface index and an address stand for.  Adding the route of an address whose pointer no pair
holds adds its pair; deleting it takes out the pairs of that pointer.
-/

namespace Zebra

open Zebra.Netutil

/-- The connected routes of a slice, each as its next hops and its source. -/
def connectedOf (R : List Rib) : List (List Nexthop × RibSrc) :=
  R.filterMap fun r => if r.type = ribConnected then some (r.nexthops, r.src) else none

/-- The connected routes `RibAdd` and `RibDelete` see at the prefix `p`: those of the slice of
the node they find by `Lookup` of the masked prefix in the table of its family; none where
`ApplyMask` panics or the prefix has no family. -/
def Vrf.connectedAt (v : Vrf) (p : Prefix) : List (List Nexthop × RibSrc) :=
  match p.applyMask with
  | none => []
  | some q =>
    match q.afi with
    | none => []
    | some afi =>
      connectedOf ((((v.ribTable afi).lookup q.ip q.length.toNat).bind (·.item)).getD [])

/-- The connected route an address of the interface of index `e.1` stands for: the one next hop
through the interface, and the address as source. -/
def connectedEntry (e : Nat × IfAddr) : List Nexthop × RibSrc :=
  ([newNexthopIf e.1], .ifAddr e.2.id)

/-- The connected routes the pairs `P` stand for at the masked prefix `q`. -/
def entriesAt (P : List (Nat × IfAddr)) (q : Prefix) : List (List Nexthop × RibSrc) :=
  (P.filter fun e => e.2.pfx.mask = q).map connectedEntry

/-- `Rib.Equal` of a connected route against `ri`, read off its next hops and source. -/
def entryEqual (x : List Nexthop × RibSrc) (ri : Rib) : Bool :=
  match x.1, ri.nexthops with
  | [a], [b] => x.2 == ri.src && a.equal b
  | _, _ => false

/-- The connected routes of `v` are, place by place and in each family, those of the pairs
`P`; the address of every pair went through `RibAdd`, so its length is not negative. -/
structure ViewIs (v : Vrf) (P : List (Nat × IfAddr)) : Prop where
  length_nonneg : ∀ e ∈ P, 0 ≤ e.2.pfx.length
  slots : ∀ afi q, q.ip.length = afi.ipLen →
    (connectedOf (slotSlice (tableView (v.ribTable afi) q))).Perm (entriesAt P q)

/-! ### Connected routes of a slice -/

@[simp] lemma connectedOf_nil : connectedOf [] = [] := rfl

lemma connectedOf_append (R R' : List Rib) :
    connectedOf (R ++ R') = connectedOf R ++ connectedOf R' :=
  List.filterMap_append

lemma connectedOf_map_data (R : List Rib) : connectedOf (R.map Rib.data) = connectedOf R := by
  rw [connectedOf, List.filterMap_map]
  rfl

lemma connectedOf_newRib_connectedRib (ptr index : Nat) (addr : IfAddr) :
    connectedOf [(newRib ptr (connectedRib index addr)).data] = [connectedEntry (index, addr)] := by
  simp [connectedOf, newRib, connectedRib, connectedEntry, Rib.data]

lemma mem_connectedOf {R : List Rib} {x : List Nexthop × RibSrc} :
    x ∈ connectedOf R ↔ ∃ r ∈ R, r.type = ribConnected ∧ (r.nexthops, r.src) = x := by
  simp [connectedOf]

/-- Between connected routes, `Rib.Equal` reads next hops and source only. -/
lemma equal_eq_entryEqual {r ri : Rib} (hr : r.type = ribConnected) (hri : ri.type = ribConnected) :
    r.equal ri = entryEqual (r.nexthops, r.src) ri := by
  -- both sides match on the two next-hop lists: split them first, so that each side reduces
  rcases hn : r.nexthops with _ | ⟨a, _ | ⟨a', _⟩⟩ <;>
    rcases hm : ri.nexthops with _ | ⟨b, _ | ⟨b', _⟩⟩ <;>
    simp [Rib.equal, entryEqual, hr, hri, hn, hm]

lemma src_eq_of_equal_connected {r ri : Rib} (hr : r.type = ribConnected)
    (h : r.equal ri = true) : r.src = ri.src := by
  obtain ⟨x, y, hx, hy⟩ := Rib.single_of_equal hr h
  rw [Rib.equal_of_connected (Rib.type_eq_of_equal h) hr hx hy, Bool.and_eq_true, beq_iff_eq] at h
  exact h.1

lemma connectedOf_filter_not_equal {ri : Rib} (hri : ri.type = ribConnected) (R : List Rib) :
    connectedOf (R.filter fun r => !r.equal ri) =
      (connectedOf R).filter fun x => !entryEqual x ri := by
  induction R with
  | nil => rfl
  | cons r R ih =>
    by_cases hr : r.type = ribConnected
    · have he := equal_eq_entryEqual hr hri
      by_cases hq : r.equal ri = true
      · simp [connectedOf, hr, hq, ← he] at ih ⊢
        exact ih
      · simp [connectedOf, hr, hq, ← he] at ih ⊢
        exact ih
    · -- a route of another type is never `Equal` to a connected one, and is no connected route
      have hne : r.equal ri = false := Rib.equal_of_type_ne (by rw [hri]; exact hr)
      simp [connectedOf, hr, hne] at ih ⊢
      exact ih

/-! ### `RibAdd` and `RibDelete` of a connected route at its place -/

section Slots

variable {o : Slot} {ri new : Rib}

/-- Adding a connected route whose source no connected route of the place has appends it. -/
lemma connectedOf_slotAdd (hri : ri.type = ribConnected)
    (hsrc : ∀ r ∈ slotSlice o, r.type = ribConnected → r.src ≠ ri.src) :
    connectedOf (slotSlice (slotAdd ri new o)) = connectedOf (slotSlice o) ++ connectedOf [new.data] := by
  cases o with
  | none => rfl
  | some x =>
    obtain ⟨c, R⟩ := x
    simp only [slotSlice, Option.map_some, Option.getD_some] at hsrc ⊢
    -- a route of the same source with the same next hop, or `Equal` to `ri`, would be a
    -- connected route of the same source
    have hany : R.any (Vrf.sameSourceNexthop ri) = false := by
      rw [List.any_eq_false]
      intro r hr hs
      simp only [Vrf.sameSourceNexthop, Bool.and_eq_true, beq_iff_eq] at hs
      exact hsrc r hr (by rw [← hs.1.1, hri]) hs.1.2.symm
    have hkeep : R.filter (fun r => !r.equal ri) = R := by
      rw [List.filter_eq_self]
      intro r hr
      cases he : r.equal ri with
      | false => rfl
      | true =>
        have hc : r.type = ribConnected := by rw [Rib.type_eq_of_equal he, hri]
        exact absurd (src_eq_of_equal_connected hc he) (hsrc r hr hc)
    simp [slotAdd, hany, hkeep, connectedOf_append]

/-- Deleting a connected route takes out the connected routes `Equal` to it; when that gives
back the place's last reference, no route was left anyway. -/
lemma connectedOf_slotDelete (hri : ri.type = ribConnected)
    (hcov : ∀ c R, o = some (c, R) → R.length ≤ c) :
    connectedOf (slotSlice (slotDelete ri o)) =
      (connectedOf (slotSlice o)).filter fun x => !entryEqual x ri := by
  cases o with
  | none => rfl
  | some x =>
    obtain ⟨c, R⟩ := x
    have hR := hcov c R rfl
    simp only [slotSlice, Option.map_some, Option.getD_some]
    rw [← connectedOf_filter_not_equal hri]
    have hsplit := R.length_eq_length_filter_add (·.equal ri)
    simp only [slotDelete]
    split_ifs with he h0
    · -- nothing to delete
      have hnone : ∀ r ∈ R, r.equal ri = false := by
        intro r hr
        cases he' : r.equal ri with
        | false => rfl
        | true =>
          have hm : r ∈ R.filter (·.equal ri) := List.mem_filter.2 ⟨hr, he'⟩
          rw [List.isEmpty_iff.1 he] at hm
          cases hm
      congr 1
      exact (List.filter_eq_self.2 fun r hr => by simp [hnone r hr]).symm
    · -- the last reference: the routes not `Equal` to `ri` are none
      have hpos : 0 < (R.filter (·.equal ri)).length := by
        cases hf : R.filter (·.equal ri) with
        | nil => simp [hf] at he
        | cons _ _ => simp
      have hnil : R.filter (fun r => !r.equal ri) = [] := List.eq_nil_of_length_eq_zero (by omega)
      simp [hnil]
    · rfl

end Slots

/-! ### The connected routes the pairs stand for -/

lemma entriesAt_append (P P' : List (Nat × IfAddr)) (q : Prefix) :
    entriesAt (P ++ P') q = entriesAt P q ++ entriesAt P' q := by
  simp [entriesAt]

lemma entriesAt_singleton (e : Nat × IfAddr) (q : Prefix) :
    entriesAt [e] q = if e.2.pfx.mask = q then [connectedEntry e] else [] := by
  unfold entriesAt
  split <;> simp [*]

lemma entriesAt_perm {P P' : List (Nat × IfAddr)} (h : P.Perm P') (q : Prefix) :
    (entriesAt P q).Perm (entriesAt P' q) :=
  (h.filter _).map _

lemma entryEqual_connectedEntry (e : Nat × IfAddr) (index : Nat) (addr : IfAddr) :
    entryEqual (connectedEntry e) (connectedRib index addr) = decide (e.2.id = addr.id ∧ e.1 = index) := by
  simp [entryEqual, connectedEntry, connectedRib, Nexthop.equal, newNexthopIf, beq_eq_decide,
    Bool.decide_and]

/-- The pairs left after taking out the routes `Equal` to the connected route of `addr`. -/
lemma filter_entriesAt (P : List (Nat × IfAddr)) (q : Prefix) (index : Nat) (addr : IfAddr) :
    (entriesAt P q).filter (fun x => !entryEqual x (connectedRib index addr)) =
      entriesAt (P.filter fun e => !decide (e.2.id = addr.id ∧ e.1 = index)) q := by
  simp only [entriesAt, List.filter_map, List.filter_filter]
  congr 2
  funext e
  simp [entryEqual_connectedEntry, Bool.and_comm]

/-! ### The view of a VRF -/

namespace ViewIs

variable {g : Globals} {v v' : Vrf} {afi : Afi} {P P' : List (Nat × IfAddr)} {index : Nat}
  {addr : IfAddr}

lemma perm (h : ViewIs v P) (hP : P.Perm P') : ViewIs v P' :=
  ⟨fun e he => h.length_nonneg e (hP.mem_iff.2 he),
    fun afi q hq => (h.slots afi q hq).trans (entriesAt_perm hP q)⟩

lemma of_tableView (h : ViewIs v P)
    (hv : ∀ afi, tableView (v'.ribTable afi) = tableView (v.ribTable afi)) : ViewIs v' P := by
  refine ⟨h.length_nonneg, fun afi q hq => ?_⟩
  rw [hv afi]
  exact h.slots afi q hq

lemma of_ribTable (h : ViewIs v P) (hv : v'.ribTable = v.ribTable) : ViewIs v' P :=
  h.of_tableView fun afi => by rw [hv]

/-- A connected route of the view stands for a pair at its place. -/
lemma exists_pair (h : ViewIs v P) {q : Prefix} (hq : q.ip.length = afi.ipLen) {r : Rib}
    (hr : r ∈ slotSlice (tableView (v.ribTable afi) q)) (hc : r.type = ribConnected) :
    ∃ e ∈ P, e.2.pfx.mask = q ∧ connectedEntry e = (r.nexthops, r.src) := by
  obtain ⟨e, he, hx⟩ :=
    List.mem_map.1 ((h.slots afi q hq).subset (mem_connectedOf.2 ⟨r, hr, hc, rfl⟩))
  obtain ⟨he, hat⟩ := List.mem_filter.1 he
  exact ⟨e, he, of_decide_eq_true hat, hx⟩

/-- Adding the connected route of an address whose pointer no pair holds adds its pair. -/
theorem ribAdd_connected (ht : TableInv afi (v.ribTable afi)) (hafi : addr.pfx.afi = some afi)
    (hv : ViewIs v P) (hfresh : ∀ e ∈ P, e.2.id ≠ addr.id)
    (h : v.ribAdd g addr.pfx (connectedRib index addr) = some v') :
    ViewIs v' (P ++ [(index, addr)]) := by
  have c := Vrf.ribAdd_changesAt ht.keyed hafi h
  have hqlen : addr.pfx.mask.ip.length = afi.ipLen := Prefix.ip_length_mask_of_afi hafi
  obtain ⟨-, -, h0, -⟩ := Vrf.ribAdd_eq_some h
  refine ⟨fun e he => ?_, fun afi' q hq => ?_⟩
  · rcases List.mem_append.1 he with he | he
    · exact hv.length_nonneg e he
    · rw [List.mem_singleton.1 he]
      exact h0
  rw [entriesAt_append, entriesAt_singleton]
  by_cases hafi' : afi' = afi
  · subst hafi'
    rw [c.table.view]
    by_cases hat : addr.pfx.mask = q
    · subst hat
      -- a connected route already there stands for a pair, whose pointer is not `addr`'s
      have hsrc : ∀ r ∈ slotSlice (tableView (v.ribTable afi') addr.pfx.mask),
          r.type = ribConnected → r.src ≠ (connectedRib index addr).src := by
        intro r hr hc hs
        obtain ⟨e, he, -, hx⟩ := hv.exists_pair hq hr hc
        have hsrc : RibSrc.ifAddr e.2.id = .ifAddr addr.id := (congrArg Prod.snd hx).trans hs
        exact hfresh e he (RibSrc.ifAddr.inj hsrc)
      rw [Function.update_self, if_pos rfl, connectedOf_slotAdd rfl hsrc,
        connectedOf_newRib_connectedRib]
      exact (hv.slots afi' _ hq).append_right _
    · rw [Function.update_of_ne (Ne.symm hat), if_neg hat, List.append_nil]
      exact hv.slots afi' q hq
  · have hat : addr.pfx.mask ≠ q := fun he =>
      hafi' (Afi.ipLen_inj (by rw [← hq, ← he, hqlen]))
    rw [c.others afi' hafi', if_neg hat, List.append_nil]
    exact hv.slots afi' q hq

/-- Deleting the connected route of an address, when the only pair holding its pointer is the
pair of that address and interface index, takes that pair out. -/
theorem ribDelete_connected (ht : TableInv afi (v.ribTable afi)) (hafi : addr.pfx.afi = some afi)
    (hv : ViewIs v P) (hP : ∀ e ∈ P, e.2.id = addr.id → e = (index, addr))
    (h : v.ribDelete g addr.pfx (connectedRib index addr) = some v') :
    ViewIs v' (P.filter fun e => e.2.id ≠ addr.id) := by
  have c := Vrf.ribDelete_changesAt ht.keyed hafi h
  have hqlen : addr.pfx.mask.ip.length = afi.ipLen := Prefix.ip_length_mask_of_afi hafi
  -- the pairs of `addr`'s pointer are the pairs `Equal` to its route
  have hfilter : (P.filter fun e => !decide (e.2.id = addr.id ∧ e.1 = index)) =
      P.filter fun e => e.2.id ≠ addr.id := by
    apply List.filter_congr
    intro e he
    by_cases hid : e.2.id = addr.id
    · simp [hP e he hid]
    · simp [hid]
  -- and stand at `addr`'s place only
  have hother : ∀ q, addr.pfx.mask ≠ q →
      entriesAt (P.filter fun e => e.2.id ≠ addr.id) q = entriesAt P q := by
    intro q hq
    unfold entriesAt
    rw [List.filter_filter]
    congr 1
    apply List.filter_congr
    intro e he
    by_cases hid : e.2.id = addr.id
    · simp [hP e he hid, hq]
    · simp [hid]
  refine ⟨fun e he => hv.length_nonneg e (List.mem_of_mem_filter he), fun afi' q hq => ?_⟩
  by_cases hafi' : afi' = afi
  · subst hafi'
    rw [c.table.view]
    by_cases hat : addr.pfx.mask = q
    · subst hat
      rw [Function.update_self, connectedOf_slotDelete rfl (ht.refs _), ← hfilter,
        ← filter_entriesAt]
      exact (hv.slots afi' _ hq).filter _
    · rw [Function.update_of_ne (Ne.symm hat), hother q hat]
      exact hv.slots afi' q hq
  · have hat : addr.pfx.mask ≠ q := fun he =>
      hafi' (Afi.ipLen_inj (by rw [← hq, ← he, hqlen]))
    rw [c.others afi' hafi', hother q hat]
    exact hv.slots afi' q hq

end ViewIs

lemma viewIs_new (id : Nat) : ViewIs (Vrf.new id) [] := by
  refine ⟨by simp, fun afi q _ => ?_⟩
  simp [tableView, Vrf.new, Ptree.empty, Ptree.nodeAt, slotSlice, entriesAt]

end Zebra
