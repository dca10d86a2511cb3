import Zebra.Rib.TableView

/-!
# `RibClean` leaves no route of its source

`RibClean(src)` ranges over the nodes of each table that hold a slice, as the table stood when
the range began, and takes the routes of `src` out of each.  One node changes the table at its
own place only, as `slotClean` says (`cleanNode_changesAt`), and in a keyed table no two nodes
stand at one place, so a place still to visit holds what it held when the range began
(`CleanInv`).  When the range ends every place is free of the source, and so is every item of
both tables (`ribClean_itemsSatisfy`); a property of the view that `slotClean` keeps at one
place holds after the range (`ribClean_view`).
-/

namespace Zebra

open Zebra.Netutil

/-- No route of the source stands at the place. -/
def SlotFree (src : RibSrc) (o : Slot) : Prop := ∀ r ∈ slotSlice o, r.src ≠ src

/-- `RibClean(src)` at a place: the routes of the source leave the slice, and the place gives up
one reference for each. -/
def slotClean (src : RibSrc) : Slot → Slot
  | none => none
  | some (c, R) =>
    if (R.filter (·.src = src)).isEmpty then some (c, R)
    else slotRelease^[(R.filter (·.src = src)).length] (some (c, R.filter (·.src ≠ src)))

/-- `Release` taken `k` times: the slice stays, and the node is unlinked once the count runs
out. -/
lemma slotRelease_iterate (k c : Nat) (R : List Rib) :
    slotRelease^[k] (some (c, R)) = if k ≠ 0 ∧ c ≤ k then none else some (c - k, R) := by
  induction k with
  | zero => simp
  | succ k ih =>
    rw [Function.iterate_succ_apply', ih]
    by_cases hk : k ≠ 0 ∧ c ≤ k
    · rw [if_pos hk, if_pos ⟨Nat.succ_ne_zero k, by omega⟩]
      rfl
    · rw [if_neg hk]
      simp only [slotRelease, Option.bind_some]
      by_cases h0 : c - k - 1 = 0
      · rw [if_pos h0, if_pos ⟨Nat.succ_ne_zero k, by omega⟩]
      · rw [if_neg h0, if_neg (by omega), Nat.sub_sub]

lemma slotFree_slotClean (src : RibSrc) (o : Slot) : SlotFree src (slotClean src o) := by
  rcases o with _ | ⟨c, R⟩
  · simp [SlotFree, slotClean, slotSlice]
  intro r hr
  simp only [slotClean] at hr
  split_ifs at hr with he
  · -- no route of the source was there
    simp only [List.isEmpty_iff, List.filter_eq_nil_iff, decide_eq_true_eq] at he
    exact he r (by simpa [slotSlice] using hr)
  · rw [slotRelease_iterate] at hr
    split_ifs at hr
    · simp [slotSlice] at hr
    · simp only [slotSlice, Option.map_some, Option.getD_some, List.mem_filter,
        decide_eq_true_eq] at hr
      exact hr.2

/-- A slice stored at a place, once the routes of the source are out of it. -/
lemma slotFree_slotSetItem {src : RibSrc} {ribs : List Rib} (h : ∀ r ∈ ribs, r.src ≠ src)
    (o : Slot) : SlotFree src (slotSetItem (some ribs) o) := by
  intro r hr
  cases o with
  | none => simp [slotSetItem, slotSlice] at hr
  | some x =>
    simp only [slotSetItem, slotSlice, Option.map_some, Option.getD_some] at hr
    obtain ⟨r₀, hr₀, rfl⟩ := List.mem_map.1 hr
    exact h r₀ hr₀

/-- `Release` taken `k` times at one place. -/
lemma ChangesAt.release_iterate {t : Ptree RibSlice} {w : Nat} {q : Prefix} (ht : t.Keyed w)
    (hq : q.Masked) (hqw : q.ip.length = w) (k : Nat) :
    ChangesAt w q slotRelease^[k] t ((fun t : Ptree RibSlice => t.release q.ip q.length.toNat)^[k] t) := by
  induction k with
  | zero => exact ChangesAt.refl ht q
  | succ k ih =>
    rw [Function.iterate_succ_apply', Function.iterate_succ']
    exact ih.trans (ChangesAt.release ih.keyed hq hqw)

/-- Flags do not touch the source: the routes of a source, up to flags. -/
lemma map_data_filter_src (R : List Rib) (src : RibSrc) :
    (R.map Rib.data).filter (·.src = src) = (R.filter (·.src = src)).map Rib.data := by
  rw [List.filter_map]
  rfl

lemma map_data_filter_not_src (R : List Rib) (src : RibSrc) :
    (R.map Rib.data).filter (·.src ≠ src) = (R.filter (·.src ≠ src)).map Rib.data := by
  rw [List.filter_map]
  rfl

namespace Vrf

variable {g : Globals} {src : RibSrc} {afi : Afi} {v v' : Vrf} {n : PtreeNode RibSlice}

/-- One node of `RibClean`, standing at its place: the table of its family changes there only,
as `slotClean` says. -/
lemma cleanNode_changesAt (ht : (v.ribTable afi).Keyed afi.ipLen) (hn : n.place.Masked)
    (hnw : n.key.length = afi.ipLen) (hat : tableView (v.ribTable afi) n.place = some (nodeView n))
    (h : cleanNode g src afi v n = some v') : v.ChangesAt afi n.place (slotClean src) v' := by
  rcases cleanNode_eq_some h with ⟨hempty, rfl⟩ | ⟨hempty, hproc⟩
  · -- no route of the source in the slice: the node is left as it is
    refine (ChangesAt.refl ht _).congr ?_
    rw [hat, nodeView]
    simp only [slotClean, map_data_filter_src, List.isEmpty_map, hempty, if_true]
  · -- the slice without the source, one reference given back per route, then `RibProcess`
    have c₁ := ChangesAt.setItem ht hn hnw
      (let ribs := (n.item.getD []).filter (·.src ≠ src); if ribs.isEmpty then none else some ribs)
    have c₂ := c₁.trans (ChangesAt.release_iterate c₁.keyed hn hnw
      ((n.item.getD []).filter (·.src = src)).length)
    have c₃ : v.ChangesAt afi n.place _ _ := ChangesAt.of_table c₂ rfl
    have c₄ := process_changesAt (q := n.place) c₃.table.keyed hn hnw hproc
    refine (c₃.trans c₄).congr ?_
    rw [hat, nodeView]
    simp only [slotClean, map_data_filter_src, map_data_filter_not_src, List.isEmpty_map,
      List.length_map, hempty,
      Function.comp_apply, slotSetItem, Option.map_some, getD_ite_isEmpty, Option.getD_some,
      slotRelease_iterate, Bool.false_eq_true, if_false]
    split_ifs <;> rfl

/-! ### The range over the items -/

/-- How a table stands while `RibClean` ranges over `rest`, the nodes of the range still to visit:
keyed, each node of `rest` standing as it stood when the range began, and every other place free
of the source. -/
structure CleanInv (src : RibSrc) (afi : Afi) (rest : List (PtreeNode RibSlice))
    (t : Ptree RibSlice) : Prop where
  keyed : t.Keyed afi.ipLen
  masked : ∀ n ∈ rest, n.place.Masked ∧ n.key.length = afi.ipLen
  nodup : (rest.map PtreeNode.place).Nodup
  pending : ∀ n ∈ rest, tableView t n.place = some (nodeView n)
  free : ∀ q, q ∉ rest.map PtreeNode.place → SlotFree src (tableView t q)

/-- The range begins over the items of a keyed table: a place no item stands at has an empty
slice. -/
lemma cleanInv_items {t : Ptree RibSlice} (ht : t.Keyed afi.ipLen) :
    CleanInv src afi t.items t := by
  have hsub : t.items.Sublist t.nodes := List.filter_sublist
  refine ⟨ht, fun n hn => ?_, (hsub.map _).nodup ht.nodup, fun n hn => ?_, fun q hq => ?_⟩
  · obtain ⟨hm, hw, -⟩ := ht.masked n (hsub.subset hn)
    exact ⟨hm, hw⟩
  · exact tableView_of_mem ht (hsub.subset hn)
  · intro r hr
    cases hq' : t.nodeAt q with
    | none => simp [tableView, slotSlice, hq'] at hr
    | some m =>
      -- the node at `q` is not an item, so it holds no slice
      have hm : m ∉ t.items := fun hm =>
        hq (List.mem_map.2 ⟨m, hm, Ptree.place_of_nodeAt hq'⟩)
      have hnone : m.item = none := by
        simpa [Ptree.items, Ptree.mem_of_nodeAt hq'] using hm
      simp [tableView, slotSlice, nodeView, hq', hnone] at hr

/-- One node of the range: it changes its place as `slotClean` says, leaves the nodes still to
visit, and its place is free after. -/
lemma CleanInv.step {rest : List (PtreeNode RibSlice)}
    (hinv : CleanInv src afi (n :: rest) (v.ribTable afi)) (h : cleanNode g src afi v n = some v') :
    CleanInv src afi rest (v'.ribTable afi) ∧ v.ChangesAt afi n.place (slotClean src) v' := by
  obtain ⟨hm, hw⟩ := hinv.masked n List.mem_cons_self
  have hc := cleanNode_changesAt hinv.keyed hm hw (hinv.pending n List.mem_cons_self) h
  have hnd := List.nodup_cons.1 hinv.nodup
  have hview := hc.table.view
  refine ⟨⟨hc.table.keyed, fun m hm => hinv.masked m (List.mem_cons_of_mem _ hm), hnd.2,
    fun m hm => ?_, fun q hq => ?_⟩, hc⟩
  · -- a node still to visit stands elsewhere than `n`
    have hne : m.place ≠ n.place := fun he => hnd.1 (he ▸ List.mem_map_of_mem hm)
    rw [hview, Function.update_of_ne hne]
    exact hinv.pending m (List.mem_cons_of_mem _ hm)
  · by_cases hqn : q = n.place
    · subst hqn
      rw [hview, Function.update_self]
      exact slotFree_slotClean src _
    · rw [hview, Function.update_of_ne hqn]
      exact hinv.free q (by simp [hqn, hq])

/-- The whole range over `rest`, by induction over it with `CleanInv.step`. -/
lemma foldlM_cleanNode {rest : List (PtreeNode RibSlice)}
    (hinv : CleanInv src afi rest (v.ribTable afi))
    (h : rest.foldlM (cleanNode g src afi) v = some v') :
    CleanInv src afi [] (v'.ribTable afi) ∧ ∀ afi', afi' ≠ afi → v'.ribTable afi' = v.ribTable afi' := by
  induction rest generalizing v with
  | nil =>
    cases h
    exact ⟨hinv, fun _ _ => rfl⟩
  | cons n rest ih =>
    obtain ⟨v₁, h₁, h₂⟩ := Option.bind_eq_some_iff.1 h
    obtain ⟨hinv₁, hc₁⟩ := hinv.step h₁
    obtain ⟨hinv', hothers'⟩ := ih hinv₁ h₂
    exact ⟨hinv', fun afi' hne => (hothers' afi' hne).trans (hc₁.others afi' hne)⟩

/-- A property of the view that a place changed by `slotClean` keeps holds after the whole
range, by induction over it. -/
lemma foldlM_cleanNode_view {P : (Prefix → Slot) → Prop}
    (hP : ∀ V q, P V → P (Function.update V q (slotClean src (V q))))
    {rest : List (PtreeNode RibSlice)} (hinv : CleanInv src afi rest (v.ribTable afi))
    (hv : P (tableView (v.ribTable afi))) (h : rest.foldlM (cleanNode g src afi) v = some v') :
    P (tableView (v'.ribTable afi)) := by
  induction rest generalizing v with
  | nil =>
    cases h
    exact hv
  | cons n rest ih =>
    obtain ⟨v₁, h₁, h₂⟩ := Option.bind_eq_some_iff.1 h
    obtain ⟨hinv₁, hc₁⟩ := hinv.step h₁
    refine ih hinv₁ ?_ h₂
    rw [hc₁.table.view]
    exact hP _ _ hv

/-- When the range is over, the table is keyed and every item of it is free of the source. -/
lemma CleanInv.itemsSatisfy {t : Ptree RibSlice} (hinv : CleanInv src afi [] t) :
    t.ItemsSatisfy (fun ribs => ∀ r ∈ ribs, r.src ≠ src) := by
  intro n hn ribs hribs r hr
  have hat := tableView_of_mem hinv.keyed hn
  -- the route up to flags stands in the view, and flags do not touch the source
  have := hinv.free n.place (by simp) r.data
  rw [hat] at this
  exact this (by simp [slotSlice, nodeView, hribs, List.mem_map_of_mem hr])

/-- `RibClean(src)` on a VRF with keyed tables keeps them keyed and leaves no route of `src` in
either. -/
theorem ribClean_itemsSatisfy (hv : ∀ afi, (v.ribTable afi).Keyed afi.ipLen)
    (h : v.ribClean g src = some v') (afi : Afi) :
    (v'.ribTable afi).Keyed afi.ipLen ∧
      (v'.ribTable afi).ItemsSatisfy (fun ribs => ∀ r ∈ ribs, r.src ≠ src) := by
  obtain ⟨v₁, h₁, h₂⟩ := ribClean_eq_some h
  obtain ⟨hip, hothers₁⟩ := foldlM_cleanNode (cleanInv_items (hv .ip)) h₁
  have hip6₁ : (v₁.ribTable .ip6).Keyed Afi.ip6.ipLen := hothers₁ .ip6 (by decide) ▸ hv .ip6
  obtain ⟨hip6, hothers'⟩ := foldlM_cleanNode (cleanInv_items hip6₁) h₂
  cases afi with
  | ip =>
    -- the range over the second family leaves the first as the first range left it
    rw [hothers' .ip (by decide)]
    exact ⟨hip.keyed, hip.itemsSatisfy⟩
  | ip6 => exact ⟨hip6.keyed, hip6.itemsSatisfy⟩

/-- A property of the view of each family that a place changed by `slotClean` keeps holds after
`RibClean(src)`. -/
theorem ribClean_view {P : Afi → (Prefix → Slot) → Prop}
    (hP : ∀ afi V q, P afi V → P afi (Function.update V q (slotClean src (V q))))
    (hk : ∀ afi, (v.ribTable afi).Keyed afi.ipLen) (hv : ∀ afi, P afi (tableView (v.ribTable afi)))
    (h : v.ribClean g src = some v') (afi : Afi) : P afi (tableView (v'.ribTable afi)) := by
  obtain ⟨v₁, h₁, h₂⟩ := ribClean_eq_some h
  have hip := foldlM_cleanNode_view (hP .ip) (cleanInv_items (hk .ip)) (hv .ip) h₁
  obtain ⟨-, hothers₁⟩ := foldlM_cleanNode (cleanInv_items (hk .ip)) h₁
  have hk₁ : (v₁.ribTable .ip6).Keyed Afi.ip6.ipLen := hothers₁ .ip6 (by decide) ▸ hk .ip6
  have hip6 := foldlM_cleanNode_view (hP .ip6) (cleanInv_items hk₁)
    (hothers₁ .ip6 (by decide) ▸ hv .ip6) h₂
  obtain ⟨-, hothers'⟩ := foldlM_cleanNode (cleanInv_items hk₁) h₂
  cases afi with
  | ip => rwa [hothers' .ip (by decide)]
  | ip6 => exact hip6

end Vrf

end Zebra
