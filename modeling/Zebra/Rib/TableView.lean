import Zebra.Rib.Selection
import Zebra.Netutil.PtreeMap

/-!
# The routes of a table, place by place

`RibProcess` and the walker change the flags of ribs and nothing else.  So what a table holds,
seen at each masked prefix as the node's reference count and its slice with the flags cleared,
changes only where `RibAdd` and `RibDelete` put a route or take one out.  This module states
that view (`tableView`), the two operations on it (`placeAdd`, `placeDelete`), and proves that
the code refines them: the view after `RibAdd` or `RibDelete` is the view before with the one
place of the prefix changed as those say, whatever the walker does.
-/

namespace Zebra

open Zebra.Netutil

/-! ### `RibProcess` changes flags only -/

namespace ProcessState

lemma map_data_modifyPtr {f : Rib → Rib} (hf : FlagMap f) (ptr : Nat) (l : List Rib) :
    (modifyPtr ptr f l).map Rib.data = l.map Rib.data := by
  simp only [modifyPtr, List.map_map]
  apply List.map_congr_left
  intro r _
  by_cases hp : r.ptr = ptr <;> simp [hp, hf r]

lemma ribs_modify (s : ProcessState) {f : Rib → Rib} (hf : FlagMap f) (ptr : Nat) :
    (s.modify ptr f).ribs.map Rib.data = s.ribs.map Rib.data :=
  map_data_modifyPtr hf ptr s.ribs

@[simp] lemma ribs_emit (s : ProcessState) (c : List Call) : (s.emit c).ribs = s.ribs := rfl

lemma ribs_fibDelete (s : ProcessState) (vrfId : Nat) (p : Prefix) (ptr : Nat) :
    (s.fibDelete vrfId p ptr).ribs.map Rib.data = s.ribs.map Rib.data := by
  unfold fibDelete
  split
  · exact ribs_modify _ (flagMap_unsetFlag _) ptr
  · rfl

lemma ribs_ite_fibDelete (s : ProcessState) (c : Prop) [Decidable c] (vrfId : Nat) (p : Prefix)
    (ptr : Nat) : (if c then s else s.fibDelete vrfId p ptr).ribs.map Rib.data =
      s.ribs.map Rib.data := by
  split
  · rfl
  · exact ribs_fibDelete s vrfId p ptr

lemma ribs_fibAdd (s : ProcessState) (vrfId : Nat) (p : Prefix) (ptr : Nat) :
    (s.fibAdd vrfId p ptr).ribs.map Rib.data = s.ribs.map Rib.data := by
  unfold fibAdd
  split
  · exact ribs_modify _ (flagMap_setFlag _) ptr
  · rfl

lemma ribs_fibAddStep (s : ProcessState) (vrfId : Nat) (p : Prefix) (ptr : Nat) :
    (s.fibAddStep vrfId p ptr).ribs.map Rib.data = s.ribs.map Rib.data := by
  unfold fibAddStep
  split
  · split_ifs
    · exact ribs_fibAdd s vrfId p ptr
    · exact ribs_fibAdd s vrfId p ptr
    · rfl
  · rfl

lemma ribs_redist {s s' : ProcessState} {g : Globals} {v : Vrf} {op : Op} {p : Prefix}
    {ptr : Nat} (h : s.redist g v op p ptr = some s') : s'.ribs = s.ribs := by
  unfold redist at h
  split at h
  · obtain ⟨c, -, rfl⟩ := Option.map_eq_some_iff.1 h
    rfl
  · cases h
    rfl

/-- A fold of steps that keep the ribs up to flags keeps them. -/
lemma ribs_foldl {β : Type} (f : ProcessState → β → ProcessState)
    (hf : ∀ s b, (f s b).ribs.map Rib.data = s.ribs.map Rib.data) :
    ∀ (L : List β) (s : ProcessState), (L.foldl f s).ribs.map Rib.data = s.ribs.map Rib.data
  | [], _ => rfl
  | b :: L, s => (ribs_foldl f hf L (f s b)).trans (hf s b)

end ProcessState

lemma ribs_syncSelected {g : Globals} {v : Vrf} {p : Prefix} {s s' : ProcessState}
    {oSel nSel : Option Rib} (h : syncSelected g v p s oSel nSel = some s') :
    s'.ribs.map Rib.data = s.ribs.map Rib.data := by
  unfold syncSelected at h
  split at h
  · cases h
    rfl
  · split at h
    · rename_i o n
      split at h
      · rw [ProcessState.ribs_redist h, ProcessState.ribs_modify _ (flagMap_setFlag _),
          ProcessState.ribs_modify _ (flagMap_unsetFlag _)]
      · -- a change of route type: the old route is withdrawn before the new one is announced
        obtain ⟨s₁, h₁, h⟩ := Option.bind_eq_some_iff.1 h
        rw [ProcessState.ribs_redist h, ProcessState.ribs_modify _ (flagMap_setFlag _),
          ProcessState.ribs_redist h₁, ProcessState.ribs_modify _ (flagMap_unsetFlag _)]
    · rw [ProcessState.ribs_redist h, ProcessState.ribs_modify _ (flagMap_unsetFlag _)]
    · rw [ProcessState.ribs_redist h, ProcessState.ribs_modify _ (flagMap_setFlag _)]
    · cases h
      rfl

/-- The slice `RibProcess` returns is the slice it was given, up to flags, whatever the
globals and whatever the slice holds. -/
theorem ribProcess_data {g : Globals} {v : Vrf} {p : Prefix} {ribs dels : List Rib} {res : Bool}
    {s : ProcessState} (h : ribProcess g v p ribs dels res = some s) :
    s.ribs.map Rib.data = ribs.map Rib.data := by
  unfold ribProcess at h
  rw [ribs_syncSelected h, ProcessState.ribs_foldl _ (fun s n => s.ribs_fibAddStep _ _ _),
    ProcessState.ribs_foldl _ (fun s o => s.ribs_ite_fibDelete _ _ _ _)]
  split
  · simp [List.map_map, Function.comp_def, resolve_data]
  · rfl

/-! ### Ribs up to flags -/

lemma Rib.hasDistance_eq (r : Rib) : r.hasDistance = r.flags.testBit 2 := checkFlag_bit _ _

lemma Vrf.sameSourceNexthop_data (ri r : Rib) :
    Vrf.sameSourceNexthop ri r.data = Vrf.sameSourceNexthop ri r := rfl

lemma Vrf.sameSourceNexthop_congr {ri ri' : Rib} (h : ri'.data = ri.data) :
    Vrf.sameSourceNexthop ri' = Vrf.sameSourceNexthop ri := by
  funext r
  rw [show Vrf.sameSourceNexthop ri' r = Vrf.sameSourceNexthop ri'.data r from rfl, h]
  rfl

/-- The copy `RibAdd` stores of a resolved route is, up to flags, the copy of the route. -/
lemma newRib_resolve_data (v : Vrf) (ptr : Nat) (ri : Rib) :
    (newRib ptr (resolve v ri)).data = (newRib ptr ri).data := by
  have hdist : (resolve v ri).hasDistance = ri.hasDistance := by
    rw [Rib.hasDistance_eq, Rib.hasDistance_eq, resolve_testBit v ri (by decide)]
  -- `Resolve` touches the resolved flag only, so every copied field is the caller's
  rcases resolve_cases v ri with h | h | h <;> rw [h] at hdist ⊢ <;>
    simp only [Rib.data, newRib, hdist] <;> rfl

/-! ### The view of a table -/

/-- A place of a table up to flags: the node's reference count and its slice with the flags
cleared, `none` where no node stands. -/
abbrev Slot := Option (Nat × List Rib)

/-- A node up to flags. -/
def nodeView (n : PtreeNode RibSlice) : Nat × List Rib := (n.refcnt, (n.item.getD []).map Rib.data)

/-- The routes of a table up to flags, at each place. -/
def tableView (t : Ptree RibSlice) (r : Prefix) : Slot := (t.nodeAt r).map nodeView

/-- The slice at a place, empty where no node stands. -/
def slotSlice (o : Slot) : List Rib := (o.map (·.2)).getD []

/-- `Acquire` at the place: one reference more, or a new node with one and no slice. -/
def slotAcquire (o : Slot) : Slot := some ((o.map fun x => (x.1 + 1, x.2)).getD (1, []))

/-- `Release` at the place: one reference fewer, and the node unlinked at none. -/
def slotRelease (o : Slot) : Slot := o.bind fun x => if x.1 - 1 = 0 then none else some (x.1 - 1, x.2)

/-- `n.Item = v` at the place, when a node stands there. -/
def slotSetItem (v : Option RibSlice) (o : Slot) : Slot :=
  o.map fun x => (x.1, (v.getD []).map Rib.data)

/-- `RibAdd` of `ri` at the place, storing `new`: nothing when a route of the same source with
the same next hop is there; otherwise the routes `Equal` to `ri` are replaced by `new`, and the
place takes one reference more unless there were such routes. -/
def slotAdd (ri new : Rib) : Slot → Slot
  | none => some (1, [new.data])
  | some (c, R) =>
    if R.any (Vrf.sameSourceNexthop ri) then some (c, R)
    else some (if (R.filter (·.equal ri)).isEmpty then c + 1 else c,
      R.filter (fun r => !r.equal ri) ++ [new.data])

/-- `RibDelete` of `ri` at the place: the routes `Equal` to `ri` leave and the place gives up one
reference, unless there are none. -/
def slotDelete (ri : Rib) : Slot → Slot
  | none => none
  | some (c, R) =>
    if (R.filter (·.equal ri)).isEmpty then some (c, R)
    else if c - 1 = 0 then none else some (c - 1, R.filter fun r => !r.equal ri)

/-- No place holds more routes than references. -/
def RefsCover (V : Prefix → Slot) : Prop := ∀ r c R, V r = some (c, R) → R.length ≤ c

/-- The shape the RIB keeps in the table of a family: a tree keyed by masked prefixes of the
family, where no node holds more routes than references. -/
structure TableInv (afi : Afi) (t : Ptree RibSlice) : Prop where
  keyed : t.Keyed afi.ipLen
  refs : RefsCover (tableView t)

/-- `t'` is `t` changed at the place `q` only, by `f` on its slot, and still keyed. -/
structure ChangesAt (w : Nat) (q : Prefix) (f : Slot → Slot) (t t' : Ptree RibSlice) : Prop where
  keyed : t'.Keyed w
  view : tableView t' = Function.update (tableView t) q (f (tableView t q))

/-! ### The tree operations on the view -/

section TreeOps

variable {t t' t₁ t₂ t₃ : Ptree RibSlice} {w : Nat} {q : Prefix}

lemma tableView_pos (ht : t.Keyed w) {r : Prefix} {c : Nat} {R : List Rib}
    (h : tableView t r = some (c, R)) : 0 < c := by
  obtain ⟨n, hn, hv⟩ := Option.map_eq_some_iff.1 h
  have := ht.refcnt_pos n (Ptree.mem_of_nodeAt hn)
  simp only [nodeView, Prod.mk.injEq] at hv
  omega

/-- In a keyed table a node of the tree is seen at its own place. -/
lemma tableView_of_mem (ht : t.Keyed w) {n : PtreeNode RibSlice} (hn : n ∈ t.nodes) :
    tableView t n.place = some (nodeView n) := by
  rw [tableView, (Ptree.nodeAt_eq_some_iff ht.nodup).2 ⟨hn, rfl⟩, Option.map_some]

/-- The slice `RibAdd` and `RibDelete` find by `Lookup` is the slice of the view. -/
lemma map_data_lookup_item (ht : t.Keyed w) (hq : q.Masked) (hqw : q.ip.length = w) :
    (((t.lookup q.ip q.length.toNat).bind (·.item)).getD []).map Rib.data = slotSlice (tableView t q) := by
  rw [ht.lookup_eq hq hqw, tableView]
  cases t.nodeAt q with
  | none => rfl
  | some n => cases hi : n.item <;> simp [slotSlice, nodeView, hi]

lemma ChangesAt.refl (ht : t.Keyed w) (q : Prefix) : ChangesAt w q id t t :=
  ⟨ht, by simp⟩

lemma ChangesAt.trans {f f' : Slot → Slot} (h₁ : ChangesAt w q f t₁ t₂)
    (h₂ : ChangesAt w q f' t₂ t₃) : ChangesAt w q (f' ∘ f) t₁ t₃ := by
  refine ⟨h₂.keyed, ?_⟩
  rw [h₂.view, h₁.view, Function.update_self, Function.update_idem]
  rfl

lemma ChangesAt.congr {f f' : Slot → Slot} (h : ChangesAt w q f t t')
    (hf : f (tableView t q) = f' (tableView t q)) : ChangesAt w q f' t t' :=
  ⟨h.keyed, by rw [h.view, hf]⟩

lemma ChangesAt.setItem (ht : t.Keyed w) (hq : q.Masked) (hqw : q.ip.length = w)
    (v : Option RibSlice) : ChangesAt w q (slotSetItem v) t (t.setItem q.ip q.length.toNat v) := by
  refine ⟨ht.setItem _ _ v, funext fun r => ?_⟩
  rw [tableView, ht.nodeAt_setItem hq hqw]
  by_cases hr : r = q
  · subst hr
    cases hn : t.nodeAt r <;> simp [tableView, slotSetItem, nodeView, hn]
  · simp [hr, tableView]

lemma ChangesAt.release (ht : t.Keyed w) (hq : q.Masked) (hqw : q.ip.length = w) :
    ChangesAt w q slotRelease t (t.release q.ip q.length.toNat) := by
  refine ⟨ht.release _ _, funext fun r => ?_⟩
  rw [tableView, ht.nodeAt_release hq hqw]
  by_cases hr : r = q
  · subst hr
    cases hn : t.nodeAt r with
    | none => simp [tableView, slotRelease, hn]
    | some n =>
      by_cases h0 : n.refcnt - 1 = 0 <;>
        simp [tableView, slotRelease, nodeView, PtreeNode.delReference, h0, hn]
  · simp [hr, tableView]

lemma ChangesAt.acquire (ht : t.Keyed w) (hq : q.Masked) (hqw : q.ip.length = w)
    (h : t.acquire q.ip q.length.toNat = some t') : ChangesAt w q slotAcquire t t' := by
  refine ⟨ht.acquire hq hqw h, funext fun r => ?_⟩
  rw [tableView, ht.nodeAt_acquire hq hqw h]
  by_cases hr : r = q
  · subst hr
    cases hn : t.nodeAt r <;>
      simp [tableView, slotAcquire, nodeView, PtreeNode.addReference, Ptree.newNode, hn]
  · simp [hr, tableView]

end TreeOps

/-! ### What the operations do at their place -/

section Slots

variable {o : Slot} {ri new : Rib}

@[simp] lemma slotSlice_slotAcquire (o : Slot) : slotSlice (slotAcquire o) = slotSlice o := by
  cases o <;> rfl

lemma getD_ite_isEmpty (R : List Rib) : (if R.isEmpty then none else some R).getD [] = R := by
  cases R <;> rfl

lemma map_data_filter_equal (R : List Rib) (ri : Rib) :
    (R.filter (·.equal ri)).map Rib.data = (R.map Rib.data).filter (·.equal ri) := by
  rw [List.filter_map]
  rfl

lemma map_data_filter_not_equal (R : List Rib) (ri : Rib) :
    (R.filter fun r => !r.equal ri).map Rib.data =
      (R.map Rib.data).filter fun r => !r.equal ri := by
  rw [List.filter_map]
  rfl

/-- A place that holds a route of the same source with the same next hop: `Acquire` then
`Release` gives it back as it was. -/
lemma slotAdd_of_sameSource (hpos : ∀ c R, o = some (c, R) → 0 < c)
    (hany : (slotSlice o).any (Vrf.sameSourceNexthop ri) = true) :
    slotRelease (slotAcquire o) = slotAdd ri new o := by
  cases o with
  | none => simp [slotSlice] at hany
  | some x =>
    obtain ⟨c, R⟩ := x
    have hc := hpos c R rfl
    simp only [slotSlice, Option.map_some, Option.getD_some] at hany
    simp [slotRelease, slotAcquire, slotAdd, hany, show c ≠ 0 by omega]

/-- `slotAdd` leaves a place that holds a route of the same source through the same next hop
as it is. -/
lemma slotAdd_eq_self (hany : (slotSlice o).any (Vrf.sameSourceNexthop ri) = true) :
    slotAdd ri new o = o := by
  cases o with
  | none => simp [slotSlice] at hany
  | some x =>
    obtain ⟨c, R⟩ := x
    simp only [slotSlice, Option.map_some, Option.getD_some] at hany
    simp [slotAdd, hany]

/-- Otherwise the slice is replaced, after one reference given back when routes `Equal` to the
new one leave. -/
lemma slotAdd_of_not_sameSource (hpos : ∀ c R, o = some (c, R) → 0 < c)
    (hany : (slotSlice o).any (Vrf.sameSourceNexthop ri) = false) {ribs : List Rib}
    (hribs : ribs.map Rib.data = (slotSlice o).filter (fun r => !r.equal ri) ++ [new.data]) :
    slotSetItem (some ribs) (slotSetItem (some ribs)
      ((if ((slotSlice o).filter (·.equal ri)).isEmpty then (fun o => o) else slotRelease)
        (slotAcquire o))) = slotAdd ri new o := by
  cases o with
  | none =>
    simp only [slotSlice, Option.map_none, Option.getD_none, List.filter_nil, List.nil_append]
      at hribs
    simp [slotSetItem, slotAcquire, slotAdd, slotSlice, hribs]
  | some x =>
    obtain ⟨c, R⟩ := x
    have hc := hpos c R rfl
    simp only [slotSlice, Option.map_some, Option.getD_some] at hany hribs ⊢
    by_cases he : (R.filter (·.equal ri)).isEmpty
    · simp [slotSetItem, slotAcquire, slotAdd, hany, he, hribs]
    · simp [slotSetItem, slotAcquire, slotRelease, slotAdd, hany, he, hribs,
        show c ≠ 0 by omega]

/-- `RibDelete` that finds routes `Equal` to `ri`: the slice without them, and one reference
fewer. -/
lemma slotDelete_of_not_matched (hm : (slotSlice o).filter (·.equal ri) = []) :
    slotDelete ri o = o := by
  rcases o with _ | ⟨c, R⟩
  · rfl
  · simp only [slotSlice, Option.map_some, Option.getD_some] at hm
    simp [slotDelete, hm]

lemma slotDelete_of_matched {c : Nat} {R ribs : List Rib}
    (hm : (R.filter (·.equal ri)).isEmpty = false)
    (hribs : ribs.map Rib.data = R.filter fun r => !r.equal ri) :
    slotSetItem (some ribs) (slotRelease
      (slotSetItem (if ribs.isEmpty then none else some ribs) (some (c, R)))) =
      slotDelete ri (some (c, R)) := by
  have hin : slotSetItem (if ribs.isEmpty then none else some ribs) (some (c, R)) =
      some (c, ribs.map Rib.data) := by
    rw [slotSetItem, Option.map_some, getD_ite_isEmpty]
  rw [hin]
  by_cases h0 : c - 1 = 0 <;> simp [slotRelease, slotSetItem, slotDelete, hm, hribs, h0]

lemma refs_slotAdd (hcov : ∀ c R, o = some (c, R) → R.length ≤ c) :
    ∀ c R, slotAdd ri new o = some (c, R) → R.length ≤ c := by
  intro c' R' h
  cases o with
  | none =>
    simp only [slotAdd, Option.some.injEq, Prod.mk.injEq] at h
    obtain ⟨rfl, rfl⟩ := h
    rfl
  | some x =>
    obtain ⟨c, R⟩ := x
    have hR := hcov c R rfl
    -- the routes `Equal` to `ri` and the others split the slice
    have hsplit := R.length_eq_length_filter_add (·.equal ri)
    simp only [slotAdd] at h
    split_ifs at h with hany he <;> simp only [Option.some.injEq, Prod.mk.injEq] at h <;>
      obtain ⟨rfl, rfl⟩ := h
    · exact hR
    · rw [List.isEmpty_iff] at he
      simp only [he, List.length_nil, zero_add] at hsplit
      simp only [List.length_append, List.length_singleton]
      omega
    · have hpos : 0 < (R.filter (·.equal ri)).length := by
        cases hf : R.filter (·.equal ri) with
        | nil => simp [hf] at he
        | cons _ _ => simp
      simp only [List.length_append, List.length_singleton]
      omega

lemma refs_slotDelete (hcov : ∀ c R, o = some (c, R) → R.length ≤ c) :
    ∀ c R, slotDelete ri o = some (c, R) → R.length ≤ c := by
  intro c' R' h
  cases o with
  | none => cases h
  | some x =>
    obtain ⟨c, R⟩ := x
    have hR := hcov c R rfl
    have hsplit := R.length_eq_length_filter_add (·.equal ri)
    simp only [slotDelete] at h
    split_ifs at h with he h0 <;> simp only [Option.some.injEq, Prod.mk.injEq] at h
    · obtain ⟨rfl, rfl⟩ := h
      exact hR
    · obtain ⟨rfl, rfl⟩ := h
      have hpos : 0 < (R.filter (·.equal ri)).length :=
        List.length_pos_iff.2 (mt List.isEmpty_iff.2 he)
      omega

end Slots

/-- A property of every node of a view holds after a change at one place that keeps it there. -/
lemma slots_update {P : Nat → List Rib → Prop} {V : Prefix → Slot}
    (hV : ∀ r c R, V r = some (c, R) → P c R) {q : Prefix} {x : Slot}
    (hx : ∀ c R, x = some (c, R) → P c R) :
    ∀ r c R, Function.update V q x r = some (c, R) → P c R := by
  intro r c R h
  by_cases hr : r = q
  · subst hr
    rw [Function.update_self] at h
    exact hx c R h
  · rw [Function.update_of_ne hr] at h
    exact hV r c R h

lemma RefsCover.update {V : Prefix → Slot} (hV : RefsCover V) {q : Prefix} {x : Slot}
    (hx : ∀ c R, x = some (c, R) → R.length ≤ c) : RefsCover (Function.update V q x) :=
  slots_update (P := fun c R => R.length ≤ c) hV hx

/-! ### The VRF operations on the view -/

namespace Vrf

/-- `v'` is `v` with the table of `afi` changed at the place `q` only, by `f` on its slot, and
the table of the other family untouched. -/
structure ChangesAt (afi : Afi) (q : Prefix) (f : Slot → Slot) (v v' : Vrf) : Prop where
  table : Zebra.ChangesAt afi.ipLen q f (v.ribTable afi) (v'.ribTable afi)
  others : ∀ afi', afi' ≠ afi → v'.ribTable afi' = v.ribTable afi'

variable {g : Globals} {v v' v₁ v₂ : Vrf} {afi : Afi} {q : Prefix} {f f' : Slot → Slot}

lemma ChangesAt.refl (ht : (v.ribTable afi).Keyed afi.ipLen) (q : Prefix) :
    v.ChangesAt afi q (fun o => o) v :=
  ⟨Zebra.ChangesAt.refl ht q, fun _ _ => rfl⟩

lemma ChangesAt.trans (h₁ : v.ChangesAt afi q f v₁) (h₂ : v₁.ChangesAt afi q f' v₂) :
    v.ChangesAt afi q (f' ∘ f) v₂ :=
  ⟨h₁.table.trans h₂.table, fun afi' h => (h₂.others afi' h).trans (h₁.others afi' h)⟩

lemma ChangesAt.congr (h : v.ChangesAt afi q f v')
    (hf : f (tableView (v.ribTable afi) q) = f' (tableView (v.ribTable afi) q)) :
    v.ChangesAt afi q f' v' :=
  ⟨h.table.congr hf, h.others⟩

lemma ChangesAt.of_table {t : Ptree RibSlice}
    (h : Zebra.ChangesAt afi.ipLen q f (v.ribTable afi) t)
    (hv' : v'.ribTable = (v.setTable afi t).ribTable) : v.ChangesAt afi q f v' := by
  refine ⟨by simpa [hv'] using h, fun afi' hne => ?_⟩
  rw [hv', setTable_ribTable_of_ne _ _ hne]

/-- A change that leaves the slot as it was leaves the whole view, seen from any place. -/
lemma ChangesAt.same (h : v.ChangesAt afi q f v')
    (hf : f (tableView (v.ribTable afi) q) = tableView (v.ribTable afi) q) (q' : Prefix) :
    v.ChangesAt afi q' (fun o => o) v' := by
  refine ⟨⟨h.table.keyed, ?_⟩, h.others⟩
  rw [h.table.view, hf, Function.update_eq_self, Function.update_eq_self]

/-- A property of the table of every family holds after a change of one table that keeps it
there. -/
lemma ChangesAt.forall_table {P : Afi → Ptree RibSlice → Prop} (h : v.ChangesAt afi q f v')
    (hv : ∀ afi', P afi' (v.ribTable afi')) (ht : P afi (v'.ribTable afi)) (afi' : Afi) :
    P afi' (v'.ribTable afi') := by
  by_cases ha : afi' = afi
  · subst ha
    exact ht
  · rw [h.others afi' ha]
    exact hv afi'

lemma ChangesAt.tableInv (hv : TableInv afi (v.ribTable afi)) (h : v.ChangesAt afi q f v')
    (hf : ∀ c R, f (tableView (v.ribTable afi) q) = some (c, R) → R.length ≤ c) :
    TableInv afi (v'.ribTable afi) :=
  ⟨h.table.keyed, by rw [h.table.view]; exact hv.refs.update hf⟩

/-- `RibProcess` on the slice of the place `q` stores there the slice it was given, up to
flags. -/
lemma process_changesAt {p : Prefix} {ribs dels : List Rib} {res : Bool}
    (ht : (v.ribTable afi).Keyed afi.ipLen) (hq : q.Masked) (hqw : q.ip.length = afi.ipLen)
    (h : v.process g afi q.ip q.length.toNat p ribs dels res = some v') :
    v.ChangesAt afi q (slotSetItem (some ribs)) v' := by
  obtain ⟨s, hs, rfl⟩ := process_eq_some h
  have c := ChangesAt.setItem ht hq hqw (if s.ribs.isEmpty then none else some s.ribs)
  refine (ChangesAt.of_table c ?_).congr ?_
  · rfl
  simp only [slotSetItem, getD_ite_isEmpty, Option.getD_some, ribProcess_data hs]

/-- A node the walker visits holds, in the view, the slice `RibProcess` is given for it, so
the view does not change. -/
lemma walkNode_changesAt {t₀ : Ptree RibSlice} {n : PtreeNode RibSlice}
    (ht₀ : t₀.Keyed afi.ipLen) (hn : n ∈ t₀.nodes)
    (hv : tableView (v.ribTable afi) = tableView t₀) (ht : (v.ribTable afi).Keyed afi.ipLen)
    (h : walkNode g afi v n = some v') (q' : Prefix) : v.ChangesAt afi q' (fun o => o) v' := by
  cases hribs : n.item with
  | none =>
    rw [walkNode_of_item_none hribs] at h
    cases h
    exact ChangesAt.refl ht q'
  | some ribs =>
    rw [walkNode_of_item_some hribs] at h
    obtain ⟨hm, hw, -⟩ := ht₀.masked n hn
    refine (process_changesAt (q := n.place) ht hm hw h).same ?_ q'
    have hat : tableView t₀ n.place = some (n.refcnt, ribs.map Rib.data) := by
      rw [tableView_of_mem ht₀ hn]
      simp [nodeView, hribs]
    rw [hv, hat]
    rfl

lemma foldlM_walkNode_changesAt {t₀ : Ptree RibSlice} (ht₀ : t₀.Keyed afi.ipLen) (q' : Prefix) :
    ∀ (L : List (PtreeNode RibSlice)) (v v' : Vrf), (∀ n ∈ L, n ∈ t₀.nodes) →
      tableView (v.ribTable afi) = tableView t₀ → (v.ribTable afi).Keyed afi.ipLen →
      L.foldlM (walkNode g afi) v = some v' → v.ChangesAt afi q' (fun o => o) v'
  | [], v, v', _, _, ht, h => by
    cases h
    exact ChangesAt.refl ht q'
  | n :: L, v, v', hL, hv, ht, h => by
    rw [List.foldlM_cons] at h
    obtain ⟨v₁, h₁, h⟩ := Option.bind_eq_some_iff.1 h
    have c₁ := walkNode_changesAt ht₀ (hL n List.mem_cons_self) hv ht h₁ q'
    have hv₁ : tableView (v₁.ribTable afi) = tableView t₀ := by
      rw [c₁.table.view, Function.update_eq_self, hv]
    exact c₁.trans (foldlM_walkNode_changesAt ht₀ q' L v₁ v'
      (fun m hm => hL m (List.mem_cons_of_mem n hm)) hv₁ c₁.table.keyed h)

/-- The walker changes flags only: the view is the same at every place. -/
theorem ribWalker_changesAt (ht : (v.ribTable afi).Keyed afi.ipLen)
    (h : ribWalker g v afi = some v') (q' : Prefix) : v.ChangesAt afi q' (fun o => o) v' :=
  foldlM_walkNode_changesAt ht q' _ v v' (fun _ hn => Ptree.mem_of_mem_items hn) rfl ht h

/-- `RibAdd` changes the view at the masked prefix only, as `slotAdd` says, storing the route
under the next pointer. -/
theorem ribAdd_changesAt {p₀ : Prefix} {ri : Rib} (ht : (v.ribTable afi).Keyed afi.ipLen)
    (hafi : p₀.afi = some afi) (h : v.ribAdd g p₀ ri = some v') :
    v.ChangesAt afi p₀.mask (slotAdd ri (newRib v.nextPtr ri)) v' := by
  obtain ⟨afi', t, h0, hafi', hacq, h⟩ := ribAdd_eq_some h
  obtain rfl : afi = afi' := Option.some.inj (hafi.symm.trans hafi')
  set q := p₀.mask
  have hq : q.Masked := Prefix.masked_mask h0
  have hqw : q.ip.length = afi.ipLen := Prefix.ip_length_mask_of_afi hafi
  set o := tableView (v.ribTable afi) q
  have hpos : ∀ c R, o = some (c, R) → 0 < c := fun c R h => tableView_pos ht h
  have c₁ := ChangesAt.acquire ht hq hqw hacq
  set ri' := resolve (v.setTable afi t) ri
  have hri : ri'.data = ri.data := resolve_data _ ri
  -- the slice found after `Acquire` is the slice of the view before it
  have hold : (((t.lookup q.ip q.length.toNat).bind (·.item)).getD []).map Rib.data = slotSlice o := by
    rw [map_data_lookup_item c₁.keyed hq hqw, c₁.view, Function.update_self,
      slotSlice_slotAcquire]
  have hany : (((t.lookup q.ip q.length.toNat).bind (·.item)).getD []).any (sameSourceNexthop ri') =
      (slotSlice o).any (sameSourceNexthop ri) := by
    rw [← hold, List.any_map, sameSourceNexthop_congr hri]
    rfl
  rcases h with ⟨hdup, rfl⟩ | ⟨hdup, v₃, hproc, hwalk⟩
  · -- the same route again: the reference just taken is given back
    rw [hany] at hdup
    refine (ChangesAt.of_table (c₁.trans (ChangesAt.release c₁.keyed hq hqw)) ?_).congr ?_
    · simp
    · exact slotAdd_of_sameSource hpos hdup
  · rw [hany] at hdup
    set old := ((t.lookup q.ip q.length.toNat).bind (·.item)).getD []
    set ribs := old.filter (fun r => !r.equal ri') ++ [newRib v.nextPtr ri']
    have hdels : (old.filter (·.equal ri')).isEmpty =
        ((slotSlice o).filter (·.equal ri)).isEmpty := by
      rw [← hold, ← map_data_filter_equal, List.isEmpty_map]
      congr 2
      funext r
      exact Rib.equal_eq_of_data_eq rfl hri
    have hribs : ribs.map Rib.data =
        (slotSlice o).filter (fun r => !r.equal ri) ++ [(newRib v.nextPtr ri).data] := by
      rw [List.map_append, map_data_filter_not_equal, hold, List.map_singleton,
        newRib_resolve_data]
      congr 2
      funext r
      rw [Rib.equal_eq_of_data_eq rfl hri]
    -- the table before `RibProcess`: the reference given back, and the new slice
    have c₂ : Zebra.ChangesAt afi.ipLen q
        (if ((slotSlice o).filter (·.equal ri)).isEmpty then (fun o => o) else slotRelease) t
        (if (old.filter (·.equal ri')).isEmpty then t else t.release q.ip q.length.toNat) := by
      rw [hdels]
      split
      · exact Zebra.ChangesAt.refl c₁.keyed q
      · exact ChangesAt.release c₁.keyed hq hqw
    have c₃ := c₂.trans (ChangesAt.setItem c₂.keyed hq hqw (some ribs))
    have c₄ := process_changesAt (by simpa using c₃.keyed) hq hqw hproc
    have c₅ := ribWalker_changesAt c₄.table.keyed hwalk q
    refine ((ChangesAt.of_table (c₁.trans c₃) ?_).trans (c₄.trans c₅)).congr ?_
    · rfl
    · exact slotAdd_of_not_sameSource hpos hdup hribs

/-- An update from a source that already has a route at the prefix through the same single
next hop is dropped: after `RibAdd` every table holds, place by place, what it held before,
whatever metric, distance or path id the update carries. -/
theorem ribAdd_view_of_sameSource {p₀ : Prefix} {ri : Rib}
    (ht : (v.ribTable afi).Keyed afi.ipLen) (hafi : p₀.afi = some afi)
    (hdup : (slotSlice (tableView (v.ribTable afi) p₀.mask)).any
      (sameSourceNexthop ri) = true)
    (h : v.ribAdd g p₀ ri = some v') (afi' : Afi) :
    tableView (v'.ribTable afi') = tableView (v.ribTable afi') := by
  have c := (ribAdd_changesAt ht hafi h).same (slotAdd_eq_self hdup) p₀.mask
  by_cases he : afi' = afi
  · subst he
    rw [c.table.view, Function.update_eq_self]
  · rw [c.others afi' he]

/-- The kernel route of metric 5 at `10.0.0.7/24`, sent again with metric 7: `RibAdd` accepts
the update and the slice keeps the route of metric 5 only. -/
theorem ribAdd_drops_same_source_update :
    Reachable plainGlobals (((Vrf.new 0).ribAdd plainGlobals net24 kernelRoute).getD (Vrf.new 0)) ∧
      ((((Vrf.new 0).ribAdd plainGlobals net24 kernelRoute).getD (Vrf.new 0)).ribAdd plainGlobals
        net24 { kernelRoute with metric := 7 }).map (fun v =>
          ((((v.ribTable .ip).lookup net24m.ip net24m.length.toNat).bind (·.item)).getD []).map
            (·.metric)) = some [5] :=
  ⟨.step (@Reachable.init plainGlobals (Vrf.new 0) (fun _ => rfl) rfl)
    (.add net24 kernelRoute (by decide) (fun h => absurd h (by decide)) rfl), by decide⟩

/-- `RibDelete` changes the view at the masked prefix only, as `slotDelete` says. -/
theorem ribDelete_changesAt {p₀ : Prefix} {ri : Rib} (ht : (v.ribTable afi).Keyed afi.ipLen)
    (hafi : p₀.afi = some afi) (h : v.ribDelete g p₀ ri = some v') :
    v.ChangesAt afi p₀.mask (slotDelete ri) v' := by
  obtain ⟨afi', h0, hafi', h⟩ := ribDelete_eq_some h
  obtain rfl : afi = afi' := Option.some.inj (hafi.symm.trans hafi')
  set q := p₀.mask
  have hq : q.Masked := Prefix.masked_mask h0
  have hqw : q.ip.length = afi.ipLen := Prefix.ip_length_mask_of_afi hafi
  rcases h with ⟨hnone, hv'⟩ | ⟨n, old, found, v₃, hn, hi, hf, hproc, hwalk⟩
  · -- the early returns leave `v`, where `slotDelete` changes nothing
    rw [hv']
    refine (ChangesAt.refl ht q).congr ?_
    have hm : (slotSlice (tableView (v.ribTable afi) q)).filter (·.equal ri) = [] := by
      rw [← map_data_lookup_item ht hq hqw, ← map_data_filter_equal, hnone, List.map_nil]
    exact (slotDelete_of_not_matched hm).symm
  · rw [ht.lookup_eq hq hqw] at hn
    have hat : tableView (v.ribTable afi) q = some (nodeView n) := by rw [tableView, hn]; rfl
    set ribs := old.filter fun r => !r.equal ri
    have c₁ := ChangesAt.setItem ht hq hqw (if ribs.isEmpty then none else some ribs)
    have c₂ := c₁.trans (ChangesAt.release c₁.keyed hq hqw)
    have c₃ := process_changesAt (by simpa using c₂.keyed) hq hqw hproc
    have c₄ := ribWalker_changesAt c₃.table.keyed hwalk q
    refine ((ChangesAt.of_table c₂ ?_).trans (c₃.trans c₄)).congr ?_
    · rfl
    · have hm : ((old.map Rib.data).filter (·.equal ri)).isEmpty = false := by
        rw [← map_data_filter_equal, List.isEmpty_map]
        cases hl : old.filter (·.equal ri) with
        | nil => simp [hl] at hf
        | cons _ _ => rfl
      rw [hat, nodeView, hi, Option.getD_some]
      exact slotDelete_of_matched hm (map_data_filter_not_equal old ri)

/-! ### The shape of both tables -/

/-- Both tables of `v` keep the shape of the RIB. -/
def TablesInv (v : Vrf) : Prop := ∀ afi, TableInv afi (v.ribTable afi)

lemma tablesInv_new (id : Nat) : (Vrf.new id).TablesInv := by
  intro afi
  refine ⟨⟨by simp [Vrf.new, Ptree.empty], by simp [Vrf.new, Ptree.empty], by simp [Vrf.new,
    Ptree.empty]⟩, ?_⟩
  intro r c R h
  simp [tableView, Vrf.new, Ptree.empty, Ptree.nodeAt] at h

/-- A change at one place that keeps every place within its references keeps the shape. -/
lemma ChangesAt.tablesInv (hv : v.TablesInv) (h : v.ChangesAt afi q f v')
    (hf : ∀ c R, f (tableView (v.ribTable afi) q) = some (c, R) → R.length ≤ c) :
    v'.TablesInv :=
  h.forall_table (P := TableInv) hv (h.tableInv (hv afi) hf)

lemma ribAdd_afi {p₀ : Prefix} {ri : Rib} (h : v.ribAdd g p₀ ri = some v') :
    ∃ afi, p₀.afi = some afi :=
  let ⟨afi, _, _, hafi, _⟩ := ribAdd_eq_some h
  ⟨afi, hafi⟩

lemma ribDelete_afi {p₀ : Prefix} {ri : Rib} (h : v.ribDelete g p₀ ri = some v') :
    ∃ afi, p₀.afi = some afi :=
  let ⟨afi, _, hafi, _⟩ := ribDelete_eq_some h
  ⟨afi, hafi⟩

theorem ribAdd_tablesInv {p₀ : Prefix} {ri : Rib} (hv : v.TablesInv)
    (h : v.ribAdd g p₀ ri = some v') : v'.TablesInv := by
  obtain ⟨afi, hafi⟩ := ribAdd_afi h
  exact (ribAdd_changesAt (hv afi).keyed hafi h).tablesInv hv (refs_slotAdd ((hv afi).refs _))

theorem ribDelete_tablesInv {p₀ : Prefix} {ri : Rib} (hv : v.TablesInv)
    (h : v.ribDelete g p₀ ri = some v') : v'.TablesInv := by
  obtain ⟨afi, hafi⟩ := ribDelete_afi h
  exact (ribDelete_changesAt (hv afi).keyed hafi h).tablesInv hv
    (refs_slotDelete ((hv afi).refs _))

/-- The walker keeps the shape, and the view of both tables. -/
theorem ribWalker_tablesInv (hv : v.TablesInv) (h : ribWalker g v afi = some v') :
    v'.TablesInv ∧ ∀ afi', tableView (v'.ribTable afi') = tableView (v.ribTable afi') := by
  -- any place will do: the walker changes none
  have c := ribWalker_changesAt (hv afi).keyed h (Prefix.mk [] 0)
  refine ⟨c.tablesInv hv ((hv afi).refs _), fun afi' => ?_⟩
  by_cases ha : afi' = afi
  · subst ha
    rw [c.table.view, Function.update_eq_self]
  · rw [c.others afi' ha]

end Vrf

end Zebra
