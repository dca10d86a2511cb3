import Zebra.Rib.Table
import Zebra.Rib.ProcessSpec
import Zebra.Rib.Replace

/-!
# The selection invariant of the RIB over whole runs

Every slice of the two route tables keeps the flags `RibProcess` gives it (`NodeSel`), and no
route taken out of a slice keeps a FIB or selected flag.  The invariant carries what
`RibProcess` needs to restore this after each change: distinct pointers, all handed out
already, at most one selected route, and no two routes of a slice related by `Rib.Equal`,
so that `RibDelete` removes one route at a time.  That last point rests on `Rib.Equal`
relating two routes related to a common third, which holds only for routes without SRv6
encapsulation (`Zebra.Rib.Replace`), and `RibProcess` believes the selected flag it is given;
so the runs we follow hand `RibAdd` unselected routes without SRv6 encapsulation, as every
caller in the code does.  `AddPathDefault` is off.

Each operation is reduced to `RibProcess` on one node (`process_inv`), the walker to a run of
those (`ribWalker_inv`), and a run of operations to one step at a time (`reachable_inv`).
-/

namespace Zebra

open Zebra.Netutil Zebra.Lib

/-! ### What `Rib.Equal` reads -/

lemma Rib.equal_data (a b : Rib) : a.data.equal b.data = a.equal b := rfl

lemma Rib.equal_eq_of_data_eq {a a' b b' : Rib} (ha : a'.data = a.data) (hb : b'.data = b.data) :
    a'.equal b' = a.equal b := by
  rw [← Rib.equal_data, ha, hb, Rib.equal_data]

lemma Rib.plainEncap_iff_of_data_eq {a a' : Rib} (h : a'.data = a.data) :
    a'.PlainEncap ↔ a.PlainEncap := by
  rw [show a'.PlainEncap ↔ a'.data.PlainEncap from Iff.rfl, h]
  exact Iff.rfl

lemma equal_newRib (a : Rib) (ptr : Nat) (ri : Rib) : a.equal (newRib ptr ri) = a.equal ri := rfl

lemma plainEncap_newRib (ptr : Nat) (ri : Rib) : (newRib ptr ri).PlainEncap ↔ ri.PlainEncap :=
  Iff.rfl

lemma isSelected_newRib (ptr : Nat) (ri : Rib) : (newRib ptr ri).isSelected = ri.isSelected := rfl

/-! ### Well-formed slices -/

/-- A slice the invariant keeps: distinct pointers below `nextPtr`, no route related by
`Rib.Equal` to a later one, no SRv6 encapsulation, and the flags `RibProcess` gives. -/
structure SliceInv (nextPtr : Nat) (R : List Rib) : Prop where
  nodup : (R.map Rib.ptr).Nodup
  ptr_lt : ∀ r ∈ R, r.ptr < nextPtr
  distinct : R.Pairwise fun a b => a.equal b = false
  plain : ∀ r ∈ R, r.PlainEncap
  sel : NodeSel R

namespace SliceInv

lemma nil (k : Nat) : SliceInv k [] :=
  ⟨List.nodup_nil, by simp, List.Pairwise.nil, by simp, by simp [NodeSel]⟩

lemma mono {k k' : Nat} {R : List Rib} (h : SliceInv k R) (hk : k ≤ k') : SliceInv k' R :=
  ⟨h.nodup, fun r hr => lt_of_lt_of_le (h.ptr_lt r hr) hk, h.distinct, h.plain, h.sel⟩

/-- Every selected route of a well-formed slice is its first least resolved route, and the
pointers are distinct: at most one route is selected. -/
lemma length_filter_selected {k : Nat} {R : List Rib} (h : SliceInv k R) :
    (R.filter Rib.isSelected).length ≤ 1 := by
  have hnd : (R.filter Rib.isSelected).Nodup :=
    (List.Nodup.of_map Rib.ptr h.nodup).filter _
  rcases hF : R.filter Rib.isSelected with _ | ⟨a, _ | ⟨b, t⟩⟩
  · simp
  · simp
  · exfalso
    have ha : a ∈ R.filter Rib.isSelected := by simp [hF]
    have hb : b ∈ R.filter Rib.isSelected := by simp [hF]
    obtain ⟨haR, has⟩ := List.mem_filter.1 ha
    obtain ⟨hbR, hbs⟩ := List.mem_filter.1 hb
    have hab : a = b := by
      have := ((h.sel.2 a haR).1 has).symm.trans ((h.sel.2 b hbR).1 hbs)
      exact Option.some_injective _ this
    rw [hF, hab] at hnd
    exact (List.nodup_cons.1 hnd).1 List.mem_cons_self

end SliceInv

/-! ### One run of `RibProcess` -/

/-- What a run of `RibProcess` needs of its slice and its removed routes. -/
structure ProcessPre (nextPtr : Nat) (ribs dels : List Rib) : Prop where
  nodup : ((ribs ++ dels).map Rib.ptr).Nodup
  ptr_lt : ∀ r ∈ ribs, r.ptr < nextPtr
  one_selected : ((ribs ++ dels).filter Rib.isSelected).length ≤ 1
  distinct : ribs.Pairwise fun a b => a.equal b = false
  plain : ∀ r ∈ ribs, r.PlainEncap

lemma SliceInv.processPre {k : Nat} {R : List Rib} (h : SliceInv k R) : ProcessPre k R [] :=
  ⟨by simpa using h.nodup, h.ptr_lt, by simpa using h.length_filter_selected, h.distinct, h.plain⟩

/-- The routes an operation keeps and the routes it takes out are the slice again. -/
lemma filter_not_append_filter_perm (q : Rib → Bool) (l : List Rib) :
    List.Perm (l.filter (fun r => !q r) ++ l.filter q) l :=
  List.perm_append_comm.trans (List.filter_append_perm q l)

/-- `RibProcess` on the routes of a well-formed slice that `q` keeps, with those it takes out
as removed routes. -/
lemma SliceInv.processPre_split {k : Nat} {old : List Rib} (h : SliceInv k old) (q : Rib → Bool) :
    ProcessPre k (old.filter fun r => !q r) (old.filter q) := by
  have hperm := filter_not_append_filter_perm q old
  refine ⟨(hperm.map Rib.ptr).nodup_iff.2 h.nodup, fun r hr => h.ptr_lt r (List.mem_filter.1 hr).1,
    ?_, h.distinct.sublist List.filter_sublist, fun r hr => h.plain r (List.mem_filter.1 hr).1⟩
  rw [(hperm.filter Rib.isSelected).length_eq]
  exact h.length_filter_selected

/-- `RibProcess` on the routes of a well-formed slice that `q` keeps followed by a fresh
unselected route that no kept route is related to, with the routes `q` takes out as removed
routes: what `RibAdd` hands it. -/
lemma SliceInv.processPre_add {k : Nat} {old : List Rib} (h : SliceInv k old) (q : Rib → Bool)
    (n : Rib) (hn : n.ptr = k) (hsel : n.isSelected = false) (hplain : n.PlainEncap)
    (hq : ∀ r ∈ old, q r = false → r.equal n = false) :
    ProcessPre (k + 1) (old.filter (fun r => !q r) ++ [n]) (old.filter q) := by
  have hperm : List.Perm (old.filter (fun r => !q r) ++ [n] ++ old.filter q) (old ++ [n]) := by
    rw [List.append_assoc]
    exact (List.Perm.append_left _ List.perm_append_comm).trans
      (by rw [← List.append_assoc]; exact (filter_not_append_filter_perm q old).append_right [n])
  have hfresh : ∀ a ∈ old.map Rib.ptr, ∀ b ∈ [n].map Rib.ptr, a ≠ b := by
    intro a ha b hb
    obtain ⟨r, hr, rfl⟩ := List.mem_map.1 ha
    rw [List.map_singleton, List.mem_singleton] at hb
    rw [hb, hn]
    exact (h.ptr_lt r hr).ne
  refine ⟨(hperm.map Rib.ptr).nodup_iff.2 ?_, fun r hr => ?_, ?_, ?_, fun r hr => ?_⟩
  · rw [List.map_append]
    exact List.nodup_append.2 ⟨h.nodup, by simp, hfresh⟩
  · rcases List.mem_append.1 hr with hr | hr
    · exact Nat.lt_succ_of_lt (h.ptr_lt r (List.mem_filter.1 hr).1)
    · rw [List.mem_singleton.1 hr, hn]
      exact Nat.lt_succ_self k
  · rw [(hperm.filter Rib.isSelected).length_eq, List.filter_append,
      List.filter_singleton, hsel, cond_false, List.append_nil]
    exact h.length_filter_selected
  · refine List.pairwise_append.2 ⟨h.distinct.sublist List.filter_sublist,
      List.pairwise_singleton _ _, fun a ha b hb => ?_⟩
    rw [List.mem_singleton.1 hb]
    obtain ⟨haold, hqa⟩ := List.mem_filter.1 ha
    exact hq a haold (by simpa using hqa)
  · rcases List.mem_append.1 hr with hr | hr
    · exact h.plain r (List.mem_filter.1 hr).1
    · rw [List.mem_singleton.1 hr]
      exact hplain

lemma resolveSlice_eq_map (v : Vrf) (res : Bool) (ribs : List Rib) :
    resolveSlice v res ribs = ribs.map fun r => if res then resolve v r else r := by
  unfold resolveSlice
  cases res <;> simp

/-- The slice `RibProcess` leaves is the slice it was given, each route changed in its flags
only. -/
lemma ribProcess_ribs {g : Globals} {v : Vrf} {p : Prefix} {ribs dels : List Rib} {res : Bool}
    {s : ProcessState} (hg : g.addPathDefault = false) (hnd : ((ribs ++ dels).map Rib.ptr).Nodup)
    (hsel : ((ribs ++ dels).filter Rib.isSelected).length ≤ 1)
    (h : ribProcess g v p ribs dels res = some s) :
    ∃ F : Rib → Rib, (∀ r, (F r).data = r.data) ∧ s.ribs = ribs.map F := by
  obtain ⟨G, hs, -⟩ := ribProcess_spec hg hnd hsel h
  refine ⟨fun r => G (if res then resolve v r else r), fun r => ?_, ?_⟩
  · rw [hs.flagMap]
    split
    · exact resolve_data v r
    · rfl
  · rw [hs.ribs_eq, resolveSlice_eq_map, List.map_map]
    rfl

/-- `RibProcess` leaves a well-formed slice, and removed routes out of the FIB and
unselected. -/
theorem ribProcess_sliceInv {g : Globals} {v : Vrf} {p : Prefix} {ribs dels : List Rib}
    {res : Bool} {s : ProcessState} {k : Nat} (hg : g.addPathDefault = false)
    (hpre : ProcessPre k ribs dels) (h : ribProcess g v p ribs dels res = some s) :
    SliceInv k s.ribs ∧ ∀ r ∈ s.dels, r.isFib = false ∧ r.isSelected = false := by
  obtain ⟨hsel, hdels⟩ := ribProcess_nodeSel hg hpre.nodup hpre.one_selected h
  obtain ⟨F, hF, hribs⟩ := ribProcess_ribs hg hpre.nodup hpre.one_selected h
  have hptr : Rib.ptr ∘ F = Rib.ptr := funext fun r => Rib.ptr_eq_of_data_eq (hF r)
  refine ⟨⟨?_, ?_, ?_, ?_, hsel⟩, hdels⟩
  · rw [hribs, List.map_map, hptr]
    exact (List.nodup_append.1 (by simpa using hpre.nodup)).1
  · intro x hx
    rw [hribs] at hx
    obtain ⟨r, hr, rfl⟩ := List.mem_map.1 hx
    rw [Rib.ptr_eq_of_data_eq (hF r)]
    exact hpre.ptr_lt r hr
  · rw [hribs, List.pairwise_map]
    refine hpre.distinct.imp fun {a b} hab => ?_
    rw [Rib.equal_eq_of_data_eq (hF a) (hF b)]
    exact hab
  · intro x hx
    rw [hribs] at hx
    obtain ⟨r, hr, rfl⟩ := List.mem_map.1 hx
    exact (Rib.plainEncap_iff_of_data_eq (hF r)).2 (hpre.plain r hr)

/-! ### The invariant of a VRF -/

/-- The selection invariant: every slice of both tables is well formed, and no route taken
out of a slice keeps a FIB or selected flag. -/
structure SelectionInv (v : Vrf) : Prop where
  slices : ∀ afi, (v.ribTable afi).ItemsSatisfy (SliceInv v.nextPtr)
  removed : ∀ r ∈ v.removed, r.isFib = false ∧ r.isSelected = false

/-- The invariant while an operation changes the slice at `(key, len)` of `afi`. -/
structure SelectionInvExcept (v : Vrf) (afi : Afi) (key : List UInt8) (len : Nat) : Prop where
  others : ∀ afi', afi' ≠ afi → (v.ribTable afi').ItemsSatisfy (SliceInv v.nextPtr)
  node : (v.ribTable afi).ItemsSatisfyExcept (SliceInv v.nextPtr) key len
  removed : ∀ r ∈ v.removed, r.isFib = false ∧ r.isSelected = false

lemma SelectionInv.except {v : Vrf} (hv : SelectionInv v) (afi : Afi) (key : List UInt8)
    (len : Nat) : SelectionInvExcept v afi key len :=
  ⟨fun afi' _ => hv.slices afi', (hv.slices afi).except key len, hv.removed⟩

/-- A table replaced by one whose slices are well formed keeps the invariant. -/
lemma SelectionInv.setTable {v : Vrf} (hv : SelectionInv v) {afi : Afi} {t : Ptree RibSlice}
    (ht : t.ItemsSatisfy (SliceInv v.nextPtr)) : SelectionInv (v.setTable afi t) := by
  refine ⟨fun afi' => ?_, hv.removed⟩
  by_cases h : afi' = afi
  · subst h
    simpa using ht
  · simpa [h] using hv.slices afi'

/-- `RibProcess` on the node being changed restores the invariant. -/
theorem process_inv {g : Globals} {v v' : Vrf} {afi : Afi} {key : List UInt8} {len : Nat}
    {p : Prefix} {ribs dels : List Rib} {res : Bool} (hg : g.addPathDefault = false)
    (hv : SelectionInvExcept v afi key len) (hpre : ProcessPre v.nextPtr ribs dels)
    (h : v.process g afi key len p ribs dels res = some v') :
    SelectionInv v' ∧ v'.nextPtr = v.nextPtr := by
  obtain ⟨s, hs, rfl⟩ := Vrf.process_eq_some h
  obtain ⟨hslice, hdels⟩ := ribProcess_sliceInv hg hpre hs
  refine ⟨⟨fun afi' => ?_, fun r hr => ?_⟩, rfl⟩
  · by_cases hafi : afi' = afi
    · subst hafi
      have hitem : ∀ a, (if s.ribs.isEmpty then none else some s.ribs) = some a →
          SliceInv v.nextPtr a := by
        intro a ha
        rw [eq_of_ite_isEmpty_eq_some ha]
        exact hslice
      simpa using hv.node.setItem hitem
    · simpa [hafi] using hv.others afi' hafi
  · rcases List.mem_append.1 hr with hr | hr
    · exact hv.removed r hr
    · exact hdels r hr

/-! ### Folds over the nodes of a tree -/

/-- A step over one node that keeps an invariant when the node's slice is well formed keeps
it over any list of such nodes: the fold visits the nodes as they were when it started. -/
lemma foldlM_inv {I : Vrf → Prop} {P : Nat → List Rib → Prop}
    {f : Vrf → PtreeNode RibSlice → Option Vrf}
    (hf : ∀ v v' n, I v → (∀ R, n.item = some R → P v.nextPtr R) →
      f v n = some v' → I v' ∧ v'.nextPtr = v.nextPtr) :
    ∀ (L : List (PtreeNode RibSlice)) (v v' : Vrf), I v →
      (∀ n ∈ L, ∀ R, n.item = some R → P v.nextPtr R) →
      L.foldlM f v = some v' → I v' ∧ v'.nextPtr = v.nextPtr
  | [], v, v', hv, _, h => by
    cases h
    exact ⟨hv, rfl⟩
  | n :: L, v, v', hv, hL, h => by
    rw [List.foldlM_cons] at h
    obtain ⟨v₁, h₁, h⟩ := Option.bind_eq_some_iff.1 h
    obtain ⟨hv₁, hk₁⟩ := hf v v₁ n hv (hL n List.mem_cons_self) h₁
    obtain ⟨hv', hk'⟩ := foldlM_inv hf L v₁ v' hv₁
      (fun m hm => hk₁ ▸ hL m (List.mem_cons_of_mem n hm)) h
    exact ⟨hv', hk'.trans hk₁⟩

/-! ### The walker -/

lemma walkNode_inv {g : Globals} {afi : Afi} {v v' : Vrf} {n : PtreeNode RibSlice}
    (hg : g.addPathDefault = false) (hv : SelectionInv v)
    (hn : ∀ R, n.item = some R → SliceInv v.nextPtr R) (h : Vrf.walkNode g afi v n = some v') :
    SelectionInv v' ∧ v'.nextPtr = v.nextPtr := by
  cases hR : n.item with
  | none =>
    rw [Vrf.walkNode_of_item_none hR] at h
    cases h
    exact ⟨hv, rfl⟩
  | some R =>
    rw [Vrf.walkNode_of_item_some hR] at h
    exact process_inv hg (hv.except afi _ _) (hn R hR).processPre h

/-- The walker keeps the invariant: it visits the nodes that held a slice when it started, and
`RibProcess` on one changes no other, so each still holds the slice it had. -/
theorem ribWalker_inv {g : Globals} {v v' : Vrf} {afi : Afi} (hg : g.addPathDefault = false)
    (hv : SelectionInv v) (h : Vrf.ribWalker g v afi = some v') :
    SelectionInv v' ∧ v'.nextPtr = v.nextPtr :=
  foldlM_inv (fun _ _ _ hv hn h => walkNode_inv hg hv hn h) _ v v' hv
    (fun n hn => hv.slices afi n (Ptree.mem_of_mem_items hn)) h

/-! ### The operations -/

/-- The routes an operation finds at a node satisfy what every slice of the tree does. -/
lemma lookup_item_of_itemsSatisfy {P : List Rib → Prop} {t : Ptree RibSlice} (hnil : P [])
    (ht : t.ItemsSatisfy P) (key : List UInt8) (len : Nat) :
    P (((t.lookup key len).bind (·.item)).getD []) := by
  cases hn : t.lookup key len with
  | none => exact hnil
  | some n =>
    cases hi : n.item with
    | none => simpa [hi] using hnil
    | some R => simpa [hi] using ht n (Ptree.mem_of_lookup hn) R hi

/-- `RibAdd` of an unselected route without SRv6 encapsulation keeps the invariant. -/
theorem ribAdd_inv {g : Globals} {v v' : Vrf} {p₀ : Prefix} {ri : Rib}
    (hg : g.addPathDefault = false) (hv : SelectionInv v) (hsel : ri.isSelected = false)
    (hplain : ri.PlainEncap) (h : v.ribAdd g p₀ ri = some v') : SelectionInv v' := by
  obtain ⟨afi, t, -, -, ht, h⟩ := Vrf.ribAdd_eq_some h
  set key := p₀.mask.ip
  set len := p₀.mask.length.toNat
  have htP : t.ItemsSatisfy (SliceInv v.nextPtr) := (hv.slices afi).acquire ht
  set ri' := resolve (v.setTable afi t) ri
  set old := ((t.lookup key len).bind (·.item)).getD []
  have hold : SliceInv v.nextPtr old := lookup_item_of_itemsSatisfy (SliceInv.nil _) htP key len
  rcases h with ⟨-, rfl⟩ | ⟨-, v₃, hproc, hwalk⟩
  · -- the same route from the same source: the reference just taken is given back
    simpa using hv.setTable (htP.release key len)
  · -- the table with the slice replaced, before `RibProcess`
    set t₂ := if (old.filter (·.equal ri')).isEmpty then t else t.release key len
    have ht₂ : t₂.ItemsSatisfy (SliceInv (v.nextPtr + 1)) := by
      have : t₂.ItemsSatisfy (SliceInv v.nextPtr) := by
        by_cases he : (old.filter (·.equal ri')).isEmpty
        · simpa [t₂, he] using htP
        · simpa [t₂, he] using htP.release key len
      exact this.mono fun R hR => hR.mono (Nat.le_succ _)
    have hsel' : (newRib v.nextPtr ri').isSelected = false := by
      rw [isSelected_newRib, Rib.isSelected_eq, resolve_testBit _ _ (by decide)]
      simpa using hsel
    have hplain' : (newRib v.nextPtr ri').PlainEncap :=
      (plainEncap_newRib _ _).2 ((Rib.plainEncap_iff_of_data_eq (resolve_data _ ri)).2 hplain)
    have hpre := hold.processPre_add (·.equal ri') (newRib v.nextPtr ri') rfl hsel' hplain'
      fun r _ hr => by rw [equal_newRib]; exact hr
    refine (ribWalker_inv hg (process_inv hg ?_ hpre hproc).1 hwalk).1
    refine ⟨fun afi' hafi => ?_, ?_, hv.removed⟩
    · simpa [hafi] using (hv.slices afi').mono fun R hR => hR.mono (Nat.le_succ _)
    · simpa using (ht₂.except key len).setItem_except _

/-- `RibDelete` keeps the invariant: the slice holds at most one route related to the one
given, so the route handed to `RibProcess` as removed is the only one taken out. -/
theorem ribDelete_inv {g : Globals} {v v' : Vrf} {p₀ : Prefix} {ri : Rib}
    (hg : g.addPathDefault = false) (hv : SelectionInv v) (h : v.ribDelete g p₀ ri = some v') :
    SelectionInv v' := by
  obtain ⟨afi, -, -, h⟩ := Vrf.ribDelete_eq_some h
  set key := p₀.mask.ip
  set len := p₀.mask.length.toNat
  rcases h with ⟨-, rfl⟩ | ⟨n, old, found, v₃, hn, hold, hfound, hproc, hwalk⟩
  · -- the early returns leave `v`
    exact hv
  · have hsl : SliceInv v.nextPtr old := hv.slices afi n (Ptree.mem_of_lookup hn) old hold
    have hone : old.filter (·.equal ri) = [found] := by
      obtain ⟨ys, hys⟩ := List.getLast?_eq_some_iff.1 hfound
      have hlen := length_filter_equal_le_one hsl.plain hsl.distinct ri
      rw [hys, List.length_append, List.length_singleton] at hlen
      rw [hys, List.length_eq_zero_iff.1 (show ys.length = 0 by omega), List.nil_append]
    have hpre := hsl.processPre_split (·.equal ri)
    rw [hone] at hpre
    refine (ribWalker_inv hg (process_inv hg ?_ ?_ hproc).1 hwalk).1
    · refine ⟨fun afi' hafi => by simpa [hafi] using hv.slices afi', ?_, ?_⟩
      · simpa using (((hv.slices afi).except key len).setItem_except _).release key len
      · simpa [hone] using hv.removed
    · exact hpre

/-- The globals of the runs in this module: no `AddPathDefault`, no local policy, no watchers. -/
def plainGlobals : Globals := ⟨false, false, fun _ => WatcherRedist.empty⟩

/-- `10.0.0.0/24`. -/
def net24m : Prefix := ⟨[10, 0, 0, 0], 24⟩

/-- One node of `RibClean` keeps the invariant. -/
lemma cleanNode_inv {g : Globals} {src : RibSrc} {afi : Afi} {v v' : Vrf}
    {n : PtreeNode RibSlice} (hg : g.addPathDefault = false) (hv : SelectionInv v)
    (hn : ∀ R, n.item = some R → SliceInv v.nextPtr R) (h : Vrf.cleanNode g src afi v n = some v') :
    SelectionInv v' ∧ v'.nextPtr = v.nextPtr := by
  have hsl : SliceInv v.nextPtr (n.item.getD []) := by
    cases hi : n.item with
    | none => exact SliceInv.nil _
    | some R => exact hn R hi
  rcases Vrf.cleanNode_eq_some h with ⟨-, rfl⟩ | ⟨-, h⟩
  · -- no route of the source at the node
    exact ⟨hv, rfl⟩
  · have hpre := hsl.processPre_split fun r => decide (r.src = src)
    have hf : (n.item.getD []).filter (fun r => !decide (r.src = src)) =
        (n.item.getD []).filter fun r => decide (r.src ≠ src) := by
      simp only [decide_not]
    rw [hf] at hpre
    -- the VRF `RibProcess` runs on: the slice replaced and one reference given back per route
    generalize hw : v.setTable afi _ = w at h
    have hex : SelectionInvExcept w afi n.key n.keyLength := by
      rw [← hw]
      refine ⟨fun afi' hafi => by simpa [hafi] using hv.slices afi', ?_, hv.removed⟩
      simpa using (((hv.slices afi).except _ _).setItem_except _).release_iterate _ _ _
    have hk : w.nextPtr = v.nextPtr := by
      rw [← hw]
      rfl
    obtain ⟨hv', hk'⟩ := process_inv hg hex (hk ▸ hpre) h
    exact ⟨hv', hk'.trans hk⟩

/-- `RibClean` keeps the invariant. -/
theorem ribClean_inv {g : Globals} {v v' : Vrf} {src : RibSrc} (hg : g.addPathDefault = false)
    (hv : SelectionInv v) (h : v.ribClean g src = some v') : SelectionInv v' := by
  obtain ⟨v₁, h₁, h₂⟩ := Vrf.ribClean_eq_some h
  have hclean : ∀ afi v v' n, SelectionInv v → (∀ R, n.item = some R → SliceInv v.nextPtr R) →
      Vrf.cleanNode g src afi v n = some v' → SelectionInv v' ∧ v'.nextPtr = v.nextPtr :=
    fun _ _ _ _ hv hn h => cleanNode_inv hg hv hn h
  obtain ⟨hv₁, -⟩ := foldlM_inv (hclean .ip) _ v v₁ hv
    (fun n hn => hv.slices .ip n (Ptree.mem_of_mem_items hn)) h₁
  exact (foldlM_inv (hclean .ip6) _ v₁ v' hv₁
    (fun n hn => hv₁.slices .ip6 n (Ptree.mem_of_mem_items hn)) h₂).1

/-! ### Runs -/

/-- One operation of a run: `RibAdd` of a route as its callers hand it over (not marked
selected and, if connected, without SRv6 encapsulation), `RibDelete` of any route, and
`RibClean` of any source. -/
inductive RibStep (g : Globals) : Vrf → Vrf → Prop
  | add {v v' : Vrf} (p : Prefix) (ri : Rib) : ri.isSelected = false → ri.PlainEncap →
      v.ribAdd g p ri = some v' → RibStep g v v'
  | delete {v v' : Vrf} (p : Prefix) (ri : Rib) : v.ribDelete g p ri = some v' → RibStep g v v'
  | clean {v v' : Vrf} (src : RibSrc) : v.ribClean g src = some v' → RibStep g v v'

/-- The VRFs reached by runs from a VRF with empty tables (as `NewVrf` makes) and nothing
removed. -/
inductive Reachable (g : Globals) : Vrf → Prop
  | init {v : Vrf} : (∀ afi, (v.ribTable afi).nodes = []) → v.removed = [] → Reachable g v
  | step {v v' : Vrf} : Reachable g v → RibStep g v v' → Reachable g v'

lemma SelectionInv.init {v : Vrf} (ht : ∀ afi, (v.ribTable afi).nodes = [])
    (hr : v.removed = []) : SelectionInv v := by
  refine ⟨fun afi n hn => ?_, fun r hr' => ?_⟩
  · rw [ht afi] at hn
    cases hn
  · rw [hr] at hr'
    cases hr'

theorem RibStep.inv {g : Globals} {v v' : Vrf} (hg : g.addPathDefault = false)
    (hv : SelectionInv v) (h : RibStep g v v') : SelectionInv v' := by
  cases h with
  | add p ri hsel hplain h => exact ribAdd_inv hg hv hsel hplain h
  | delete p ri h => exact ribDelete_inv hg hv h
  | clean src h => exact ribClean_inv hg hv h

theorem reachable_inv {g : Globals} {v : Vrf} (hg : g.addPathDefault = false)
    (h : Reachable g v) : SelectionInv v := by
  induction h with
  | init ht hr => exact SelectionInv.init ht hr
  | step _ hs ih => exact hs.inv hg ih

/-! ### The selection as the design states it -/

/-- The selection of every slice of both tables: (a) the FIB routes are the resolved routes
whose distance is least among the resolved routes; (b) at most one route is selected, one is
as soon as a route is resolved, and it is the first resolved route of least distance and then
least metric; (c) no route taken out of its slice keeps a FIB or selected flag. -/
def SelectionCorrect (v : Vrf) : Prop :=
  (∀ afi, ∀ n ∈ (v.ribTable afi).nodes, ∀ R, n.item = some R →
    (∀ r ∈ R, r.isFib = true ↔
      r.isResolved = true ∧ ∀ r' ∈ R, r'.isResolved = true → r.distance ≤ r'.distance) ∧
    (R.filter Rib.isSelected).length ≤ 1 ∧
    ((∃ r ∈ R, r.isResolved = true) → ∃ r ∈ R, r.isSelected = true) ∧
    (∀ r ∈ R, r.isSelected = true ↔ (R.filter Rib.isResolved).argmin selKey = some r)) ∧
  ∀ r ∈ v.removed, r.isFib = false ∧ r.isSelected = false

/-- A well-formed slice has the selection the design states. -/
lemma SliceInv.correct {k : Nat} {R : List Rib} (h : SliceInv k R) :
    (∀ r ∈ R, r.isFib = true ↔
      r.isResolved = true ∧ ∀ r' ∈ R, r'.isResolved = true → r.distance ≤ r'.distance) ∧
    (R.filter Rib.isSelected).length ≤ 1 ∧
    ((∃ r ∈ R, r.isResolved = true) → ∃ r ∈ R, r.isSelected = true) ∧
    (∀ r ∈ R, r.isSelected = true ↔ (R.filter Rib.isResolved).argmin selKey = some r) := by
  refine ⟨fun r hr => ?_, h.length_filter_selected, ?_, h.sel.2⟩
  · rw [h.sel.1 r hr, mem_minClass, List.mem_filter]
    simp only [List.mem_filter, and_imp, distKey, hr, true_and, UInt8.le_iff_toNat_le]
  · -- some resolved route: the scan picks one
    rintro ⟨r, hr, hres⟩
    cases ha : (R.filter Rib.isResolved).argmin selKey with
    | none =>
      rw [List.argmin_eq_none] at ha
      exact absurd (ha ▸ List.mem_filter.2 ⟨hr, hres⟩) List.not_mem_nil
    | some a =>
      have haR := (List.mem_filter.1 (List.argmin_mem ha)).1
      exact ⟨a, haR, (h.sel.2 a haR).2 ha⟩

theorem SelectionInv.correct {v : Vrf} (hv : SelectionInv v) : SelectionCorrect v :=
  ⟨fun afi n hn R hR => (hv.slices afi n hn R hR).correct, hv.removed⟩

/-- Over every run of `RibAdd`, `RibDelete` and `RibClean` from an empty VRF, with
`AddPathDefault` off and every route handed to `RibAdd` unselected and without SRv6
encapsulation, every state has the selection the design states. -/
theorem ribSelection_invariant {g : Globals} (hg : g.addPathDefault = false) {v : Vrf}
    (h : Reachable g v) : SelectionCorrect v :=
  (reachable_inv hg h).correct

/-- `10.0.0.0/24`, given unmasked. -/
def net24 : Prefix := ⟨[10, 0, 0, 7], 24⟩

/-- A kernel route of metric 5 on interface 1. -/
def kernelRoute : Rib := ⟨0, 0, ribKernel, 0, 0, 5, 0, [newNexthopIf 1], [], .client 1⟩

theorem ribSelection_invariant_kernelRoute :
    SelectionCorrect (((Vrf.new 0).ribAdd plainGlobals net24 kernelRoute).getD (Vrf.new 0)) :=
  ribSelection_invariant rfl (.step (@Reachable.init plainGlobals (Vrf.new 0) (fun _ => rfl) rfl)
    (.add net24 kernelRoute (by decide) (fun h => absurd h (by decide)) rfl))

/-- A connected route of metric 1 on interface 2, handed over marked selected. -/
def selectedConnectedRoute : Rib :=
  ⟨0, ribFlagSelected, ribConnected, 0, 0, 1, 0, [newNexthopIf 2], [], .client 2⟩

lemma SelectionCorrect.selected_le_one {v : Vrf} (h : SelectionCorrect v) (afi : Afi) :
    ((v.ribTable afi).nodes.all fun n =>
      decide (((n.item.getD []).filter Rib.isSelected).length ≤ 1)) = true := by
  rw [List.all_eq_true]
  intro n hn
  cases hi : n.item with
  | none => simp
  | some R => simpa using (h.1 afi n hn R hi).2.1

/-- Without the callers' conditions the selection fails: a connected route handed to `RibAdd`
already marked selected is taken by `RibProcess` for the old selected route, which is then
the new one too, so the kernel route selected before keeps its flag. -/
theorem ribAdd_selected_route_selects_twice :
    (((Vrf.new 0).ribAdd plainGlobals net24 kernelRoute).bind fun v =>
        v.ribAdd plainGlobals net24 selectedConnectedRoute).isSome = true ∧
      ¬ SelectionCorrect ((((Vrf.new 0).ribAdd plainGlobals net24 kernelRoute).bind fun v =>
        v.ribAdd plainGlobals net24 selectedConnectedRoute).getD (Vrf.new 0)) := by
  refine ⟨by decide, fun hc => ?_⟩
  have htwo : (((((Vrf.new 0).ribAdd plainGlobals net24 kernelRoute).bind fun v =>
      v.ribAdd plainGlobals net24 selectedConnectedRoute).getD (Vrf.new 0)).ribTable .ip).nodes.all
        (fun n => decide (((n.item.getD []).filter Rib.isSelected).length ≤ 1)) = false := by
    decide
  rw [hc.selected_le_one .ip] at htwo
  cases htwo

end Zebra
