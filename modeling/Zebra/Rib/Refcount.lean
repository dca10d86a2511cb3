import Zebra.Rib.Selection
import Zebra.Rib.Clean

/-!
# The references of the RIB's prefix tree

`RibAdd` acquires the node of its prefix and gives the reference back when it replaces routes
`Rib.Equal` to the new one, `RibDelete` gives one back when it takes routes out, and `RibClean`
one for each route of its source.  When every route handed to `RibAdd` is without SRv6
encapsulation, as every caller builds them, `Rib.Equal` is symmetric and no slice holds two
related routes, so each of them gives back one reference per route that leaves: every place
keeps one reference per route (`SlotExact`, kept by `slotAdd`, `slotDelete` and `slotClean`).
Over every run from `NewVrf`, every node's count is then the number of its routes, `Lookup` finds
a node exactly where a route stands, and at most one route of a node is `Equal` to any route
(`ribTable_references`).
-/

namespace Zebra

open Zebra.Netutil

/-- A place as the RIB keeps it: one reference per route, no route related by `Rib.Equal` to a
later one, and no SRv6 encapsulation. -/
structure SlotExact (c : Nat) (R : List Rib) : Prop where
  length_eq : R.length = c
  distinct : R.Pairwise fun a b => a.equal b = false
  plain : ∀ r ∈ R, r.PlainEncap

/-- Every place of the view is kept so. -/
def ViewExact (V : Prefix → Slot) : Prop := ∀ r c R, V r = some (c, R) → SlotExact c R

namespace SlotExact

variable {c : Nat} {R : List Rib}

/-- At most one route of the place is related to any route. -/
lemma length_filter_equal (h : SlotExact c R) (ri : Rib) : (R.filter (·.equal ri)).length ≤ 1 :=
  length_filter_equal_le_one h.plain h.distinct ri

lemma sublist {R' : List Rib} (h : SlotExact c R) (hs : R'.Sublist R) : SlotExact R'.length R' :=
  ⟨rfl, h.distinct.sublist hs, fun r hr => h.plain r (hs.subset hr)⟩

/-- When routes related to `ri` are there, exactly one of them is. -/
lemma length_filter_not_equal (h : SlotExact c R) {ri : Rib}
    (hm : (R.filter (·.equal ri)).isEmpty = false) :
    (R.filter fun r => !r.equal ri).length + 1 = c := by
  have hsplit := R.length_eq_length_filter_add (·.equal ri)
  have hle := h.length_filter_equal ri
  have hpos : 0 < (R.filter (·.equal ri)).length :=
    List.length_pos_iff.2 (List.isEmpty_eq_false_iff.1 hm)
  have := h.length_eq
  omega

/-- When no route related to `ri` is there, all of them stay. -/
lemma length_filter_not_equal_of_isEmpty (h : SlotExact c R) {ri : Rib}
    (hm : (R.filter (·.equal ri)).isEmpty = true) :
    (R.filter fun r => !r.equal ri).length = c := by
  have hsplit := R.length_eq_length_filter_add (·.equal ri)
  rw [List.isEmpty_iff.1 hm, List.length_nil, zero_add] at hsplit
  rw [← hsplit, h.length_eq]

/-- The routes not related to `ri`, then the new copy of `ri`. -/
lemma replace (h : SlotExact c R) {ri : Rib} (hri : ri.PlainEncap) (ptr : Nat) :
    SlotExact ((R.filter fun r => !r.equal ri).length + 1)
      (R.filter (fun r => !r.equal ri) ++ [(newRib ptr ri).data]) := by
  have hkeep := h.sublist (List.filter_sublist (p := fun r => !r.equal ri))
  refine ⟨by simp, List.pairwise_append.2 ⟨hkeep.distinct, List.pairwise_singleton _ _, ?_⟩, ?_⟩
  · -- a route kept is not related to `ri`, nor to its copy
    intro a ha b hb
    have hcopy : a.equal (newRib ptr ri).data = a.equal ri := rfl
    rw [List.mem_singleton.1 hb, hcopy]
    simpa using (List.mem_filter.1 ha).2
  · intro r hr
    rcases List.mem_append.1 hr with hr | hr
    · exact hkeep.plain r hr
    · rw [List.mem_singleton.1 hr]
      exact hri

end SlotExact

section Slots

variable {o : Slot}

/-- `RibAdd` of a route without SRv6 encapsulation keeps its place. -/
lemma exact_slotAdd {ri : Rib} (hri : ri.PlainEncap) (ptr : Nat)
    (ho : ∀ c R, o = some (c, R) → SlotExact c R) :
    ∀ c R, slotAdd ri (newRib ptr ri) o = some (c, R) → SlotExact c R := by
  intro c' R' h
  rcases o with _ | ⟨c, R⟩
  · -- a new node, with one reference for the one route
    simp only [slotAdd, Option.some.injEq, Prod.mk.injEq] at h
    obtain ⟨rfl, rfl⟩ := h
    exact ⟨rfl, List.pairwise_singleton _ _, fun r hr => by rw [List.mem_singleton.1 hr]; exact hri⟩
  have hx := ho c R rfl
  simp only [slotAdd] at h
  split_ifs at h with hany he <;> simp only [Option.some.injEq, Prod.mk.injEq] at h <;>
    obtain ⟨rfl, rfl⟩ := h
  · exact hx
  · -- nothing related: the new route takes a reference of its own
    simpa [hx.length_filter_not_equal_of_isEmpty he] using hx.replace hri ptr
  · -- the one related route gives its reference to the new one
    simpa [hx.length_filter_not_equal (Bool.not_eq_true _ ▸ he)] using hx.replace hri ptr

/-- `RibDelete` keeps its place. -/
lemma exact_slotDelete {ri : Rib} (ho : ∀ c R, o = some (c, R) → SlotExact c R) :
    ∀ c R, slotDelete ri o = some (c, R) → SlotExact c R := by
  intro c' R' h
  rcases o with _ | ⟨c, R⟩
  · cases h
  have hx := ho c R rfl
  simp only [slotDelete] at h
  split_ifs at h with he h0 <;> simp only [Option.some.injEq, Prod.mk.injEq] at h <;>
    obtain ⟨rfl, rfl⟩ := h
  · exact hx
  · -- the one related route leaves with its reference
    have hlen := hx.length_filter_not_equal (Bool.not_eq_true _ ▸ he)
    rw [show c - 1 = (R.filter fun r => !r.equal ri).length by omega]
    exact hx.sublist List.filter_sublist

/-- `RibClean` keeps its place: each route of the source leaves with one reference. -/
lemma exact_slotClean (src : RibSrc) (ho : ∀ c R, o = some (c, R) → SlotExact c R) :
    ∀ c R, slotClean src o = some (c, R) → SlotExact c R := by
  intro c' R' h
  rcases o with _ | ⟨c, R⟩
  · cases h
  have hx := ho c R rfl
  -- the routes of the source and the others split the slice
  have hsplit := R.length_eq_length_filter_add (·.src = src)
  have hne : R.filter (·.src ≠ src) = R.filter fun x => !decide (x.src = src) :=
    List.filter_congr fun x _ => by simp
  rw [← hne] at hsplit
  simp only [slotClean] at h
  split_ifs at h with he
  · simp only [Option.some.injEq, Prod.mk.injEq] at h
    obtain ⟨rfl, rfl⟩ := h
    exact hx
  · -- the node is unlinked when no route is left, and kept with one reference per route else
    rw [slotRelease_iterate] at h
    split_ifs at h with hk
    simp only [Option.some.injEq, Prod.mk.injEq] at h
    obtain ⟨rfl, rfl⟩ := h
    have hlen : c - (R.filter (·.src = src)).length = (R.filter (·.src ≠ src)).length := by
      have := hx.length_eq
      omega
    rw [hlen]
    exact hx.sublist List.filter_sublist

end Slots

lemma ViewExact.update {V : Prefix → Slot} (hV : ViewExact V) {q : Prefix} {x : Slot}
    (hx : ∀ c R, x = some (c, R) → SlotExact c R) : ViewExact (Function.update V q x) :=
  slots_update (P := SlotExact) hV hx

namespace Vrf

/-- Both tables of the VRF are keyed, and every place keeps one reference per route. -/
structure RefsExact (v : Vrf) : Prop where
  keyed : ∀ afi, (v.ribTable afi).Keyed afi.ipLen
  exact : ∀ afi, ViewExact (tableView (v.ribTable afi))

variable {g : Globals} {v v' : Vrf} {afi : Afi} {q : Prefix} {f : Slot → Slot}

lemma refsExact_new (id : Nat) : (Vrf.new id).RefsExact := by
  refine ⟨fun afi => (tablesInv_new id afi).keyed, fun afi r c R h => ?_⟩
  simp [tableView, Vrf.new, Ptree.empty, Ptree.nodeAt] at h

/-- A change at one place that keeps that place keeps every place. -/
lemma ChangesAt.refsExact (hv : v.RefsExact) (h : v.ChangesAt afi q f v')
    (hf : ∀ c R, f (tableView (v.ribTable afi) q) = some (c, R) → SlotExact c R) :
    v'.RefsExact := by
  refine ⟨h.forall_table (P := fun afi t => t.Keyed afi.ipLen) hv.keyed h.table.keyed,
    h.forall_table (P := fun _ t => ViewExact (tableView t)) hv.exact ?_⟩
  rw [h.table.view]
  exact (hv.exact afi).update hf

theorem ribAdd_refsExact {p₀ : Prefix} {ri : Rib} (hri : ri.PlainEncap) (hv : v.RefsExact)
    (h : v.ribAdd g p₀ ri = some v') : v'.RefsExact := by
  obtain ⟨afi, hafi⟩ := ribAdd_afi h
  exact (ribAdd_changesAt (hv.keyed afi) hafi h).refsExact hv
    (exact_slotAdd hri _ (hv.exact afi _))

theorem ribDelete_refsExact {p₀ : Prefix} {ri : Rib} (hv : v.RefsExact)
    (h : v.ribDelete g p₀ ri = some v') : v'.RefsExact := by
  obtain ⟨afi, hafi⟩ := ribDelete_afi h
  exact (ribDelete_changesAt (hv.keyed afi) hafi h).refsExact hv (exact_slotDelete (hv.exact afi _))

theorem ribClean_refsExact {src : RibSrc} (hv : v.RefsExact) (h : v.ribClean g src = some v') :
    v'.RefsExact :=
  ⟨fun afi => (ribClean_itemsSatisfy hv.keyed h afi).1,
    ribClean_view (P := fun _ V => ViewExact V) (fun _ _ q hV => hV.update (exact_slotClean src (hV q)))
      hv.keyed hv.exact h⟩

/-- What a keyed table kept so says of its nodes: each holds one reference per route, and at
most one of its routes is related to any route. -/
lemma RefsExact.node (hv : v.RefsExact) (afi : Afi) {n : PtreeNode RibSlice}
    (hn : n ∈ (v.ribTable afi).nodes) :
    n.refcnt = (n.item.getD []).length ∧
      ∀ ri : Rib, ((n.item.getD []).filter (·.equal ri)).length ≤ 1 := by
  have hx := hv.exact afi n.place _ _ (tableView_of_mem (hv.keyed afi) hn)
  refine ⟨by simpa using hx.length_eq.symm, fun ri => ?_⟩
  -- flags do not touch `Rib.Equal`
  have := hx.length_filter_equal ri
  rwa [← map_data_filter_equal, List.length_map] at this

end Vrf

/-- One call of `RibAdd`, `RibDelete` or `RibClean` as the callers make them: every route
handed to `RibAdd` is without SRv6 encapsulation. -/
inductive PlainStep (g : Globals) : Vrf → Vrf → Prop
  | add {v v' : Vrf} (p : Prefix) (ri : Rib) : ri.PlainEncap → v.ribAdd g p ri = some v' →
      PlainStep g v v'
  | delete {v v' : Vrf} (p : Prefix) (ri : Rib) : v.ribDelete g p ri = some v' → PlainStep g v v'
  | clean {v v' : Vrf} (src : RibSrc) : v.ribClean g src = some v' → PlainStep g v v'

theorem PlainStep.refsExact {g : Globals} {v v' : Vrf} (hv : v.RefsExact) (h : PlainStep g v v') :
    v'.RefsExact := by
  cases h with
  | add p ri hri h => exact Vrf.ribAdd_refsExact hri hv h
  | delete p ri h => exact Vrf.ribDelete_refsExact hv h
  | clean src h => exact Vrf.ribClean_refsExact hv h

/-- The invariant over a run, by induction over its steps. -/
theorem refsExact_of_run {g : Globals} {id : Nat} {v : Vrf}
    (h : Relation.ReflTransGen (PlainStep g) (Vrf.new id) v) : v.RefsExact := by
  induction h with
  | refl => exact Vrf.refsExact_new id
  | tail _ hs ih => exact hs.refsExact ih

/-- Over every run of `RibAdd`, `RibDelete` and `RibClean` from `NewVrf` in which every route
handed to `RibAdd` is without SRv6 encapsulation, in each table every node holds one reference
per route of its slice, `Lookup` of a masked prefix of the family finds a node exactly where a
route stands, and at most one route of a node is `Rib.Equal` to any route. -/
theorem ribTable_references {g : Globals} {id : Nat} {v : Vrf}
    (h : Relation.ReflTransGen (PlainStep g) (Vrf.new id) v) (afi : Afi) :
    (∀ n ∈ (v.ribTable afi).nodes, n.refcnt = (n.item.getD []).length) ∧
      (∀ p : Prefix, p.Masked → p.ip.length = afi.ipLen →
        (((v.ribTable afi).lookup p.ip p.length.toNat).isSome = true ↔
          ∃ n ∈ (v.ribTable afi).nodes, n.place = p ∧ n.item.getD [] ≠ [])) ∧
      ∀ n ∈ (v.ribTable afi).nodes, ∀ ri : Rib,
        ((n.item.getD []).filter (·.equal ri)).length ≤ 1 := by
  have hv := refsExact_of_run h
  have hk := hv.keyed afi
  refine ⟨fun n hn => (hv.node afi hn).1, fun p hp hpw => ?_, fun n hn => (hv.node afi hn).2⟩
  rw [hk.lookup_eq hp hpw, Option.isSome_iff_exists]
  constructor
  · rintro ⟨n, hat⟩
    obtain ⟨hn, hpl⟩ := (Ptree.nodeAt_eq_some_iff hk.nodup).1 hat
    -- a node holds a reference, so a route
    have hpos := hk.refcnt_pos n hn
    rw [(hv.node afi hn).1] at hpos
    exact ⟨n, hn, hpl, List.ne_nil_of_length_pos hpos⟩
  · rintro ⟨n, hn, hpl, -⟩
    exact ⟨n, (Ptree.nodeAt_eq_some_iff hk.nodup).2 ⟨hn, hpl⟩⟩

/-- A connected route of client 1 through `seg6Nexthop`. -/
def seg6Connected : Rib := ⟨0, 0, ribConnected, 0, 0, 0, 0, [seg6Nexthop], [], .client 1⟩

/-- A connected route of client 1 through `10.0.0.1` on interface 1, without encapsulation. -/
def plainConnected : Rib :=
  ⟨0, 0, ribConnected, 0, 0, 0, 0, [{ newNexthopAddr [10, 0, 0, 1] with index := 1 }], [],
    .client 1⟩

/-- Without the callers' condition the discipline fails: the route with SRv6 encapsulation is
not `Equal` to the plain one, so both are kept, but the plain one is `Equal` to it, so deleting
the first takes both out for one reference, and the node keeps a reference with no slice. -/
example :
    (((((Vrf.new 0).ribAdd plainGlobals net24m seg6Connected).bind
        (·.ribAdd plainGlobals net24m plainConnected)).bind
        (·.ribDelete plainGlobals net24m seg6Connected)).map fun v =>
      ((v.ribTable .ip).lookup net24m.ip net24m.length.toNat).map fun n => (n.refcnt, n.item)) =
      some (some (1, none)) := by
  decide

/-- The kernel route added to a new VRF: its node holds one reference for its one route. -/
theorem ribTable_references_kernelRoute :
    Relation.ReflTransGen (PlainStep plainGlobals) (Vrf.new 0)
        (((Vrf.new 0).ribAdd plainGlobals net24 kernelRoute).getD (Vrf.new 0)) ∧
      (∀ n ∈ ((((Vrf.new 0).ribAdd plainGlobals net24 kernelRoute).getD (Vrf.new 0)).ribTable
          .ip).nodes, n.refcnt = (n.item.getD []).length) ∧
      (∀ p : Prefix, p.Masked → p.ip.length = Afi.ip.ipLen →
        ((((((Vrf.new 0).ribAdd plainGlobals net24 kernelRoute).getD (Vrf.new 0)).ribTable
          .ip).lookup p.ip p.length.toNat).isSome = true ↔
          ∃ n ∈ ((((Vrf.new 0).ribAdd plainGlobals net24 kernelRoute).getD (Vrf.new 0)).ribTable
            .ip).nodes, n.place = p ∧ n.item.getD [] ≠ [])) ∧
      ∀ n ∈ ((((Vrf.new 0).ribAdd plainGlobals net24 kernelRoute).getD (Vrf.new 0)).ribTable
          .ip).nodes, ∀ ri : Rib, ((n.item.getD []).filter (·.equal ri)).length ≤ 1 :=
  have hrun : Relation.ReflTransGen (PlainStep plainGlobals) (Vrf.new 0)
      (((Vrf.new 0).ribAdd plainGlobals net24 kernelRoute).getD (Vrf.new 0)) :=
    .single (.add net24 kernelRoute (fun h => absurd h (by decide)) rfl)
  ⟨hrun, ribTable_references hrun .ip⟩

end Zebra
