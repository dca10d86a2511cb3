import Zebra.Netutil.PtreeView

/-!
# The linked tree refines the list model

The linked tree of `ptree.go` and the list model of `Ptree` show their callers the same entries:
the nodes of the linked tree that hold a reference, in preorder, have the views of the list
model's nodes, in its order (`Refines`).  Every call keeps that, each of the two trees keeping its
invariant (`Refines.apply`), and then `Lookup`, `Match`, `Top` and `Next` answer alike
(`Refines.lookup_view`, `Refines.match_view`, `Refines.items_view`).  So does every run of calls
from two empty trees (`Reach`).

Three disciplines of the Go callers are needed, and named where they are used (`Ptree.Allows`):
keys carry the bytes their lengths need; `n.Item = v` with an item is made on a node the caller
holds; and the last reference to a node is given back only once its item is gone, as
`ReleaseWithItem` does.  Without the last, a node with both links keeps its item after its last
reference and `Top` still visits it, where the list model has dropped it.

The nodes shown are compared by their bits: a node `Acquire` makes at the bits two keys share
has a key cut to the bytes those bits need, where the list model keeps the key it was given.
-/

namespace Zebra.Netutil
open Zebra.Lib BinTree

variable {α : Type}

/-- A call that changes a `Ptree`: `Acquire`, `Release` of the node at a key, `n.Item = v` on it,
`AcquireWithItem` and `ReleaseWithItem`. -/
inductive PtreeOp (α : Type) where
  | acquire (key : List UInt8) (len : Nat)
  | release (key : List UInt8) (len : Nat)
  | setItem (key : List UInt8) (len : Nat) (v : Option α)
  | acquireWithItem (key : List UInt8) (len : Nat) (v : α)
  | releaseWithItem (key : List UInt8) (len : Nat) (v : α)

namespace Ptree

/-- A call on the list model.  `Acquire` past the width returns `nil` and leaves the tree as it
is. -/
def apply [DecidableEq α] (s : Ptree α) : PtreeOp α → Ptree α
  | .acquire key len => (s.acquire key len).getD s
  | .release key len => s.release key len
  | .setItem key len v => s.setItem key len v
  | .acquireWithItem key len v => (s.acquireWithItem key len v).getD s
  | .releaseWithItem key len v => s.releaseWithItem key len v

/-- What the Go callers keep to when they make a call, read on the list model: the key has the
bytes its length needs; the last reference to a node goes only once its item has; and an item is
set only on a node that is there. -/
def Allows (s : Ptree α) : PtreeOp α → Prop
  | .acquire key len => len ≤ 8 * key.length
  | .release key len =>
    len ≤ 8 * key.length ∧ ∀ n ∈ s.nodes, n.isAt key len = true → n.refcnt = 1 → n.item = none
  | .setItem key len v => len ≤ 8 * key.length ∧ (v = none ∨ ∃ n ∈ s.nodes, n.isAt key len = true)
  | .acquireWithItem key len _ => len ≤ 8 * key.length
  | .releaseWithItem key len _ => len ≤ 8 * key.length

end Ptree

namespace Linked

/-- The views of the linked tree's nodes that hold a reference, in preorder. -/
def Ptree.views (t : Ptree α) : List (List Bool × Nat × Option α) :=
  heldViews t.reverse t.top.preorder

/-- The linked tree's invariant: from `top` it is a trie of its nodes' bits whose keys have the
bytes their lengths need, and a node with no reference holds no item. -/
structure Ptree.Wf (t : Ptree α) : Prop where
  trie : Trie t.reverse [] t.top
  item_none : ∀ n ∈ t.top.preorder, n.refcnt = 0 → n.item = none

theorem Ptree.acquire_eq (t : Ptree α) (key : List UInt8) (len : Nat) :
    t.acquire key len = if t.maxKeyBits < len then none
      else some { t with top := acquireTree (acquireWalk t.reverse key len t.top) } := by
  unfold Ptree.acquire
  split
  · rfl
  · cases acquireWalk t.reverse key len t.top <;> rfl

/-- A call on the linked tree.  `Acquire` past the width returns `nil` and leaves the tree as it
is. -/
def Ptree.apply [DecidableEq α] (t : Ptree α) : PtreeOp α → Ptree α
  | .acquire key len => (t.acquire key len).getD t
  | .release key len => t.release key len
  | .setItem key len v => t.setItem key len v
  | .acquireWithItem key len v => (t.acquireWithItem key len v).getD t
  | .releaseWithItem key len v => t.releaseWithItem key len v

namespace Ptree

section Ops

variable {t : Ptree α} {key : List UInt8} {len : Nat}

theorem wf_empty (maxKeyBits : Nat) (reverse : Bool) : (Ptree.empty maxKeyBits reverse : Ptree α).Wf :=
  ⟨Trie.nil, fun _ h => by simp [Ptree.empty] at h⟩

theorem Wf.pairwise (hw : t.Wf) :
    t.top.preorder.Pairwise fun x y => List.Lex (· < ·) (x.bits t.reverse) (y.bits t.reverse) :=
  hw.trie.labelled.pairwise

theorem Wf.sorted (hw : t.Wf) : Entries.Sorted t.views :=
  heldViews_sorted hw.pairwise

/-- `Acquire` in the linked tree, within the width: the invariant holds after it, and the entry at
the key gets one reference more, or a first one with no item. -/
theorem Wf.acquire (hw : t.Wf) (hkey : len ≤ 8 * key.length) {t' : Ptree α}
    (h : t.acquire key len = some t') :
    t'.Wf ∧ t'.maxKeyBits = t.maxKeyBits ∧ t'.reverse = t.reverse ∧
      Entries.Replaces (keyBits key len t.reverse)
        (some (Entries.afterAcquire (Entries.entryAt t.views (keyBits key len t.reverse))))
        t.views t'.views := by
  rw [acquire_eq] at h
  split_ifs at h
  cases h
  refine ⟨?_, rfl, rfl, ?_⟩ <;>
    by_cases hex : ∃ m ∈ t.top.preorder, m.bits t.reverse = keyBits key len t.reverse
  · -- a node at the key takes one more reference in place
    obtain ⟨m, hm, hmb⟩ := hex
    rw [acquireWalk_of_mem hkey hw.trie hm hmb]
    refine ⟨hw.trie.map
      (updateAtBits_keeps (·.key) (g := PtreeNode.addReference) (fun _ => rfl) _ _)
      (updateAtBits_keeps (·.keyLength) (g := PtreeNode.addReference) (fun _ => rfl) _ _),
      fun x hx hx0 => ?_⟩
    obtain ⟨y, hy, rfl⟩ := List.mem_map.1 (by simpa [acquireTree] using hx)
    by_cases hyb : y.bits t.reverse = keyBits key len t.reverse
    · rw [updateAtBits_of_eq _ hyb] at hx0
      cases hx0
    · rw [updateAtBits_of_ne _ hyb] at hx0 ⊢
      exact hw.item_none y hy hx0
  · push Not at hex
    obtain ⟨hT, hA⟩ := acquireWalk_adds hkey hw.trie List.nil_prefix hex
    obtain ⟨add, -, -, h1, -, hrest⟩ := hA.new
    refine ⟨hT, fun x hx hx0 => ?_⟩
    rcases hrest x hx with hx | rfl | ⟨-, hnone⟩
    · exact hw.item_none x hx hx0
    · rw [h1] at hx0
      cases hx0
    · exact hnone
  · obtain ⟨m, hm, hmb⟩ := hex
    have hT : acquireTree (acquireWalk t.reverse key len t.top) =
        t.top.map (updateAtBits t.reverse (keyBits key len t.reverse) PtreeNode.addReference) := by
      rw [acquireWalk_of_mem hkey hw.trie hm hmb]
      rfl
    simp only [views, hT, preorder_map]
    refine replaces_heldViews_map hw.pairwise PtreeNode.addReference (fun _ => rfl)
      (fun o => some (Entries.afterAcquire o)) (fun x hx _ => ?_) fun hno => absurd hmb (hno m hm)
    -- a node without a reference holds no item, so it starts from the entry of a new node
    by_cases hpos : 0 < x.refcnt
    · simp [heldEntry, hpos, PtreeNode.addReference, Entries.afterAcquire]
    · have hnone := hw.item_none x hx (by omega)
      simp [heldEntry, hnone, PtreeNode.addReference, Entries.afterAcquire,
        Nat.eq_zero_of_not_pos hpos]
  · push Not at hex
    obtain ⟨-, hA⟩ := acquireWalk_adds hkey hw.trie List.nil_prefix hex
    rw [views, views, entryAt_heldViews_of_forall_ne hex]
    exact hA.replaces_heldViews hex

/-- `Release` in the linked tree: the entry at the key loses a reference, and goes with its last.
The invariant holds after it where the caller gives back the last reference to a node only once
its item is gone. -/
theorem Wf.release (hw : t.Wf) (hkey : len ≤ 8 * key.length)
    (hlast : ∀ x ∈ t.top.preorder, x.bits t.reverse = keyBits key len t.reverse →
      x.refcnt = 1 → x.item = none) :
    (t.release key len).Wf ∧
      Entries.Replaces (keyBits key len t.reverse)
        (Entries.afterRelease (Entries.entryAt t.views (keyBits key len t.reverse)))
        t.views (t.release key len).views := by
  obtain ⟨hT, hmem, hheld⟩ := releaseWalk_spec hkey hw.trie
  have hviews : (t.release key len).views = heldViews t.reverse (t.top.preorder.map
      (updateAtBits t.reverse (keyBits key len t.reverse) PtreeNode.delReference)) := by
    rw [← preorder_map]
    exact congrArg (List.map (·.view t.reverse)) hheld
  refine ⟨⟨hT, fun x hx hx0 => ?_⟩, ?_⟩
  · obtain ⟨y, hy, rfl⟩ := List.mem_map.1 (by simpa using hmem x hx)
    by_cases hyb : y.bits t.reverse = keyBits key len t.reverse
    · rw [updateAtBits_of_eq _ hyb] at hx0 ⊢
      -- the node at the key is left with none: it had its last one, or none at all
      have hle : y.refcnt = 0 ∨ y.refcnt = 1 := by
        simp only [PtreeNode.delReference] at hx0
        omega
      rcases hle with h0 | h1
      · exact hw.item_none y hy h0
      · exact hlast y hy hyb h1
    · rw [updateAtBits_of_ne _ hyb] at hx0 ⊢
      exact hw.item_none y hy hx0
  · rw [hviews]
    refine replaces_heldViews_map hw.pairwise PtreeNode.delReference (fun _ => rfl)
      Entries.afterRelease (fun x _ _ => ?_) fun _ => rfl
    by_cases h1 : x.refcnt - 1 = 0
    · by_cases hpos : 0 < x.refcnt <;>
        simp [heldEntry, hpos, h1, PtreeNode.delReference, Entries.afterRelease]
    · have hpos : 0 < x.refcnt := by omega
      have h2 : 0 < x.refcnt - 1 := Nat.pos_of_ne_zero h1
      simp [heldEntry, hpos, h1, h2, PtreeNode.delReference, Entries.afterRelease]

/-- `n.Item = v` in the linked tree: the entry at the key, if there is one, takes the item.  The
invariant holds after it where an item is set only on a node that holds a reference. -/
theorem Wf.setItem (hw : t.Wf) (hkey : len ≤ 8 * key.length) (v : Option α)
    (hheld : v = none ∨
      ∀ x ∈ t.top.preorder, x.bits t.reverse = keyBits key len t.reverse → 0 < x.refcnt) :
    (t.setItem key len v).Wf ∧
      Entries.Replaces (keyBits key len t.reverse)
        (Entries.afterSetItem v (Entries.entryAt t.views (keyBits key len t.reverse)))
        t.views (t.setItem key len v).views := by
  have htop : (t.setItem key len v).top = t.top.map
      (updateAtBits t.reverse (keyBits key len t.reverse) fun x => { x with item := v }) :=
    setItemWalk_eq hkey hw.trie v
  refine ⟨⟨?_, fun x hx hx0 => ?_⟩, ?_⟩
  · rw [htop]
    exact hw.trie.map
      (updateAtBits_keeps (·.key) (g := fun x => { x with item := v }) (fun _ => rfl) _ _)
      (updateAtBits_keeps (·.keyLength) (g := fun x => { x with item := v }) (fun _ => rfl) _ _)
  · rw [htop, preorder_map] at hx
    obtain ⟨y, hy, rfl⟩ := List.mem_map.1 hx
    by_cases hyb : y.bits t.reverse = keyBits key len t.reverse
    · rw [updateAtBits_of_eq _ hyb] at hx0 ⊢
      -- an item goes only on a node holding a reference
      rcases hheld with rfl | hpos
      · rfl
      · exact absurd hx0 (Nat.pos_iff_ne_zero.1 (hpos y hy hyb))
    · rw [updateAtBits_of_ne _ hyb] at hx0 ⊢
      exact hw.item_none y hy hx0
  · rw [views, views, htop, preorder_map]
    refine replaces_heldViews_map hw.pairwise (fun x => { x with item := v }) (fun _ => rfl)
      (Entries.afterSetItem v) (fun x _ _ => ?_) fun _ => rfl
    by_cases hpos : 0 < x.refcnt <;> simp [heldEntry, hpos, Entries.afterSetItem]

/-! ### What the linked tree answers -/

/-- `Lookup` in the linked tree: the view at the key's bits, within the width. -/
theorem Wf.lookup_view (hw : t.Wf) (hkey : len ≤ 8 * key.length) :
    (t.lookup key len).map (·.view t.reverse) =
      if t.maxKeyBits < len then none else t.views.find? (·.1 = keyBits key len t.reverse) := by
  unfold Ptree.lookup
  split
  · rfl
  · rw [lookupWalk_eq hkey hw.trie, views, heldViews, List.find?_map]
    rfl

/-- `Match` in the linked tree: the last view in preorder whose bits are a prefix of the key's,
within the width. -/
theorem Wf.match_view (hw : t.Wf) (hkey : len ≤ 8 * key.length) :
    (t.match key len).map (·.view t.reverse) =
      if t.maxKeyBits < len then none
      else (t.views.filter (·.1 <+: keyBits key len t.reverse)).getLast? := by
  unfold Ptree.match
  split
  · rfl
  · rw [matchWalk_eq hkey hw.trie, Option.or_none, views, heldViews, List.filter_map,
      List.getLast?_map]
    rfl

/-- `Match` is the longest-prefix match: within the width it returns a node exactly when the node
holds a reference, its bits are a prefix of the key's, and no other such node is longer. -/
theorem Wf.match_eq_some_iff (hw : t.Wf) (hkey : len ≤ 8 * key.length) (hmax : len ≤ t.maxKeyBits)
    {m : PtreeNode α} :
    t.match key len = some m ↔
      m ∈ t.top.preorder ∧ 0 < m.refcnt ∧ m.bits t.reverse <+: keyBits key len t.reverse ∧
        ∀ x ∈ t.top.preorder, 0 < x.refcnt → x.bits t.reverse <+: keyBits key len t.reverse →
          x.keyLength ≤ m.keyLength := by
  unfold Ptree.match
  rw [if_neg (Nat.not_lt.2 hmax), matchWalk_eq hkey hw.trie, Option.or_none,
    getLast?_eq_some_iff_of_pairwise
      (pairwise_keyLength_of_prefix_filter (l := heldNodes t.top) (hw.pairwise.filter _)
        (keyBits key len t.reverse))]
  simp only [heldNodes, List.mem_filter, decide_eq_true_eq, and_imp]
  constructor
  · rintro ⟨⟨⟨hm, hpos⟩, hb⟩, hlong⟩
    exact ⟨hm, hpos, hb, fun x hx hxpos hxb => hlong x hx hxpos hxb⟩
  · rintro ⟨hm, hpos, hb, hlong⟩
    exact ⟨⟨⟨hm, hpos⟩, hb⟩, hlong⟩

/-- `Top` and `Next` in the linked tree visit the views that hold an item, in preorder: a node
that holds an item holds a reference. -/
theorem Wf.items_view (hw : t.Wf) :
    t.items.map (·.view t.reverse) = t.views.filter (·.2.2.isSome) := by
  rw [views, heldViews, List.filter_map, List.filter_filter]
  congr 1
  refine List.filter_congr fun x hx => ?_
  by_cases hi : x.item.isSome
  · have hpos : 0 < x.refcnt := Nat.pos_of_ne_zero fun h0 => by
      simp [hw.item_none x hx h0] at hi
    simp [hi, hpos, Function.comp]
  · simp [hi, Function.comp]

end Ops

end Ptree

/-! ### The two trees side by side -/

/-- The linked tree stands for the list model: the same width and order, and the same entries in
the same order. -/
structure Refines (t : Ptree α) (s : Zebra.Netutil.Ptree α) : Prop where
  maxKeyBits_eq : t.maxKeyBits = s.maxKeyBits
  reverse_eq : t.reverse = s.reverse
  views_eq : t.views = s.views

section Refines

variable {t : Ptree α} {s : Zebra.Netutil.Ptree α} {key : List UInt8} {len : Nat}

theorem refines_empty (maxKeyBits : Nat) (reverse : Bool) :
    Refines (Ptree.empty maxKeyBits reverse : Ptree α) (Zebra.Netutil.Ptree.empty maxKeyBits reverse) :=
  ⟨rfl, rfl, rfl⟩

/-- A call that changes the entry at the key alike on both sides keeps them side by side. -/
theorem Refines.of_replaces (hR : Refines t s) {t' : Ptree α} {s' : Zebra.Netutil.Ptree α}
    (e : Option (Nat × Option α) → Option (Nat × Option α)) (hw' : t'.Wf) (hs' : s'.Wf)
    (hmax : t'.maxKeyBits = t.maxKeyBits ∧ s'.maxKeyBits = s.maxKeyBits)
    (hrev : t'.reverse = t.reverse ∧ s'.reverse = s.reverse)
    (ht : Entries.Replaces (keyBits key len t.reverse)
      (e (Entries.entryAt t.views (keyBits key len t.reverse))) t.views t'.views)
    (hs : Entries.Replaces (keyBits key len s.reverse)
      (e (Entries.entryAt s.views (keyBits key len s.reverse))) s.views s'.views) :
    Refines t' s' := by
  refine ⟨by rw [hmax.1, hmax.2, hR.maxKeyBits_eq], by rw [hrev.1, hrev.2, hR.reverse_eq], ?_⟩
  rw [hR.reverse_eq, hR.views_eq] at ht
  exact ht.eq hs hw'.sorted hs'.sorted

/-- Release's discipline, read on the linked tree: a node at the key with one reference holds no
item. -/
theorem Refines.last_item (hR : Refines t s) (hs : s.Wf) (hkey : len ≤ 8 * key.length)
    (hlast : ∀ n ∈ s.nodes, n.isAt key len = true → n.refcnt = 1 → n.item = none) :
    ∀ x ∈ t.top.preorder, x.bits t.reverse = keyBits key len t.reverse →
      x.refcnt = 1 → x.item = none := by
  intro x hx hxb h1
  -- the node holds a reference, so the list model has a node with its view
  have hv : x.view t.reverse ∈ s.views := by
    rw [← hR.views_eq]
    exact mem_heldViews.2 ⟨x, hx, by omega, rfl⟩
  obtain ⟨n, hn, hnx⟩ := List.mem_map.1 hv
  have hbits : n.bits s.reverse = keyBits key len s.reverse := by
    have hfst := congrArg Prod.fst hnx
    simp only [PtreeNode.view_fst] at hfst
    rw [hfst, hxb, hR.reverse_eq]
  have hentry := congrArg Prod.snd hnx
  simp only [PtreeNode.view_snd, Prod.mk.injEq] at hentry
  rw [← hentry.2]
  exact hlast n hn ((PtreeNode.isAt_iff s.reverse (hs.fits n hn) hkey).2 hbits) (hentry.1.trans h1)

/-- `n.Item = v`'s discipline, read on the linked tree: the node at the key holds a reference. -/
theorem Refines.held_of_mem (hR : Refines t s) (hw : t.Wf) (hs : s.Wf)
    (hkey : len ≤ 8 * key.length) {n : PtreeNode α} (hn : n ∈ s.nodes)
    (hat : n.isAt key len = true) :
    ∀ x ∈ t.top.preorder, x.bits t.reverse = keyBits key len t.reverse → 0 < x.refcnt := by
  intro x hx hxb
  have hv : n.view s.reverse ∈ t.views := by
    rw [hR.views_eq]
    exact List.mem_map.2 ⟨n, hn, rfl⟩
  obtain ⟨y, hy, hpos, hyn⟩ := mem_heldViews.1 hv
  -- the node shown is the trie's only node at the key
  have hyb : y.bits t.reverse = x.bits t.reverse := by
    have hfst := congrArg Prod.fst hyn
    simp only [PtreeNode.view_fst] at hfst
    rw [hfst, (PtreeNode.isAt_iff s.reverse (hs.fits n hn) hkey).1 hat, hxb, hR.reverse_eq]
  rwa [← eq_of_pairwise_lex_of_key_eq (·.bits t.reverse) hw.pairwise hy hx hyb]

theorem Refines.acquire (hR : Refines t s) (hw : t.Wf) (hs : s.Wf) (hkey : len ≤ 8 * key.length) :
    (t.acquire key len = none ∧ s.acquire key len = none) ∨
      ∃ t' s', t.acquire key len = some t' ∧ s.acquire key len = some s' ∧
        Refines t' s' ∧ t'.Wf ∧ s'.Wf := by
  by_cases hmax : t.maxKeyBits < len
  · refine .inl ⟨by rw [Ptree.acquire_eq, if_pos hmax], ?_⟩
    unfold Zebra.Netutil.Ptree.acquire
    rw [if_pos (hR.maxKeyBits_eq ▸ hmax)]
  · obtain ⟨s', hs'⟩ : ∃ s', s.acquire key len = some s' := by
      unfold Zebra.Netutil.Ptree.acquire
      rw [if_neg (hR.maxKeyBits_eq ▸ hmax)]
      split <;> exact ⟨_, rfl⟩
    obtain ⟨t', ht'⟩ : ∃ t', t.acquire key len = some t' := ⟨_, by rw [Ptree.acquire_eq, if_neg hmax]⟩
    obtain ⟨hw', htmax, htrev, ht⟩ := hw.acquire hkey ht'
    obtain ⟨hs'', hsmax, hsrev, hsr⟩ := hs.acquire hkey hs'
    exact .inr ⟨t', s', ht', hs', hR.of_replaces (fun o => some (Entries.afterAcquire o)) hw' hs''
      ⟨htmax, hsmax⟩ ⟨htrev, hsrev⟩ ht hsr, hw', hs''⟩

theorem Refines.release (hR : Refines t s) (hw : t.Wf) (hs : s.Wf) (hkey : len ≤ 8 * key.length)
    (hlast : ∀ n ∈ s.nodes, n.isAt key len = true → n.refcnt = 1 → n.item = none) :
    Refines (t.release key len) (s.release key len) ∧ (t.release key len).Wf ∧
      (s.release key len).Wf := by
  obtain ⟨hw', ht⟩ := hw.release hkey (hR.last_item hs hkey hlast)
  obtain ⟨hs', hsr⟩ := hs.release hkey
  exact ⟨hR.of_replaces Entries.afterRelease hw' hs' ⟨rfl, rfl⟩ ⟨rfl, rfl⟩ ht hsr, hw', hs'⟩

theorem Refines.setItem (hR : Refines t s) (hw : t.Wf) (hs : s.Wf) (hkey : len ≤ 8 * key.length)
    (v : Option α) (hheld : v = none ∨ ∃ n ∈ s.nodes, n.isAt key len = true) :
    Refines (t.setItem key len v) (s.setItem key len v) ∧ (t.setItem key len v).Wf ∧
      (s.setItem key len v).Wf := by
  have hheld' : v = none ∨
      ∀ x ∈ t.top.preorder, x.bits t.reverse = keyBits key len t.reverse → 0 < x.refcnt := by
    rcases hheld with hv | ⟨n, hn, hat⟩
    · exact .inl hv
    · exact .inr (hR.held_of_mem hw hs hkey hn hat)
  obtain ⟨hw', ht⟩ := hw.setItem hkey v hheld'
  obtain ⟨hs', hsr⟩ := hs.setItem hkey v
  exact ⟨hR.of_replaces (Entries.afterSetItem v) hw' hs' ⟨rfl, rfl⟩ ⟨rfl, rfl⟩ ht hsr, hw', hs'⟩

/-- `Lookup` answers alike on both sides. -/
theorem Refines.lookup_view (hR : Refines t s) (hw : t.Wf) (hs : s.Wf)
    (hkey : len ≤ 8 * key.length) :
    (t.lookup key len).map (·.view t.reverse) = (s.lookup key len).map (·.view s.reverse) := by
  rw [hw.lookup_view hkey, hs.lookup_view hkey, hR.maxKeyBits_eq, hR.views_eq, hR.reverse_eq]

/-- `Match` answers alike on both sides. -/
theorem Refines.match_view (hR : Refines t s) (hw : t.Wf) (hs : s.Wf)
    (hkey : len ≤ 8 * key.length) :
    (t.match key len).map (·.view t.reverse) = (s.match key len).map (·.view s.reverse) := by
  rw [hw.match_view hkey, hs.match_view hkey, hR.maxKeyBits_eq, hR.views_eq, hR.reverse_eq]

/-- `Top` and `Next` visit alike on both sides. -/
theorem Refines.items_view (hR : Refines t s) (hw : t.Wf) :
    t.items.map (·.view t.reverse) = s.items.map (·.view s.reverse) := by
  rw [hw.items_view, Zebra.Netutil.Ptree.items_view, hR.views_eq]

end Refines

/-! ### Calls and runs -/

/-- After `Acquire` in the list model, a node at the key that holds an item holds a reference
besides the one just taken: an item is only ever set on a node that was there. -/
theorem refcnt_of_acquire {s s' : Zebra.Netutil.Ptree α} {key : List UInt8} {len : Nat}
    (hs : s.Wf) (hkey : len ≤ 8 * key.length) (h : s.acquire key len = some s') {n : PtreeNode α}
    (hn : n ∈ s'.nodes) (hat : n.bits s.reverse = keyBits key len s.reverse)
    (hi : n.item.isSome) : 2 ≤ n.refcnt := by
  obtain ⟨-, -, hrev, hr⟩ := hs.acquire hkey h
  have hv := (hr (n.view s'.reverse)).1 (List.mem_map.2 ⟨n, hn, rfl⟩)
  rw [hrev] at hv
  rcases hv with ⟨hne, -⟩ | ⟨-, he⟩
  · exact absurd hat hne
  · cases hentry : Entries.entryAt s.views (keyBits key len s.reverse) with
    | none =>
      rw [hentry] at he
      simp only [Entries.afterAcquire, PtreeNode.view_snd, Option.some.injEq, Prod.mk.injEq] at he
      rw [← he.2] at hi
      cases hi
    | some ci =>
      -- the entry was there before, with a reference of its own
      obtain ⟨c, i⟩ := ci
      rw [hentry] at he
      simp only [Entries.afterAcquire, PtreeNode.view_snd, Option.some.injEq, Prod.mk.injEq] at he
      obtain ⟨m, hm, hmv⟩ := List.mem_map.1 ((Entries.entryAt_eq_some_iff hs.sorted).1 hentry)
      have hc : m.refcnt = c := by simpa using congrArg (·.2.1) hmv
      have := hs.refcnt_pos m hm
      omega

section Calls

variable {t : Ptree α} {s : Zebra.Netutil.Ptree α} {key : List UInt8} {len : Nat}

theorem Refines.acquireWithItem (hR : Refines t s) (hw : t.Wf) (hs : s.Wf)
    (hkey : len ≤ 8 * key.length) (v : α) :
    Refines ((t.acquireWithItem key len v).getD t) ((s.acquireWithItem key len v).getD s) ∧
      ((t.acquireWithItem key len v).getD t).Wf ∧ ((s.acquireWithItem key len v).getD s).Wf := by
  rcases hR.acquire hw hs hkey with ⟨ht, hs'⟩ | ⟨t₁, s₁, ht₁, hs₁, hR₁, hw₁, hsw₁⟩
  · simp only [Ptree.acquireWithItem, Zebra.Netutil.Ptree.acquireWithItem, ht, hs',
      Option.map_none, Option.getD_none]
    exact ⟨hR, hw, hs⟩
  · simp only [Ptree.acquireWithItem, Zebra.Netutil.Ptree.acquireWithItem, ht₁, hs₁,
      Option.map_some, Option.getD_some]
    have hl := hR₁.lookup_view hw₁ hsw₁ hkey
    cases hls : s₁.lookup key len with
    | none =>
      have hlt : t₁.lookup key len = none := by simpa [hls] using hl
      simp only [hlt]
      exact ⟨hR₁, hw₁, hsw₁⟩
    | some n =>
      rw [hls, Option.map_some] at hl
      obtain ⟨m, hlt, hmn⟩ := Option.map_eq_some_iff.1 hl
      have hitem : m.item = n.item := by simpa using congrArg (·.2.2) hmn
      simp only [hlt, hitem]
      have hn := Zebra.Netutil.Ptree.mem_of_lookup hls
      have hat := Zebra.Netutil.Ptree.isAt_of_lookup hls
      split
      · -- the node holds an item already: the reference just taken goes back
        next hi =>
        refine hR₁.release hw₁ hsw₁ hkey fun n' hn' hat' h1 => ?_
        obtain ⟨-, -, hrev, -⟩ := hs.acquire hkey hs₁
        have hb : n.bits s.reverse = keyBits key len s.reverse := by
          rw [← hrev]
          exact (PtreeNode.isAt_iff s₁.reverse (hsw₁.fits n hn) hkey).1 hat
        have hb' : n'.bits s₁.reverse = n.bits s₁.reverse := by
          rw [(PtreeNode.isAt_iff s₁.reverse (hsw₁.fits n' hn') hkey).1 hat',
            (PtreeNode.isAt_iff s₁.reverse (hsw₁.fits n hn) hkey).1 hat]
        rw [eq_of_pairwise_lex_of_key_eq (·.bits s₁.reverse) hsw₁.pairwise hn' hn hb'] at h1 ⊢
        have := refcnt_of_acquire hs hkey hs₁ hn hb hi
        omega
      · exact hR₁.setItem hw₁ hsw₁ hkey (some v) (.inr ⟨n, hn, hat⟩)

variable [DecidableEq α]

theorem Refines.releaseWithItem (hR : Refines t s) (hw : t.Wf) (hs : s.Wf)
    (hkey : len ≤ 8 * key.length) (v : α) :
    Refines (t.releaseWithItem key len v) (s.releaseWithItem key len v) ∧
      (t.releaseWithItem key len v).Wf ∧ (s.releaseWithItem key len v).Wf := by
  have hl := hR.lookup_view hw hs hkey
  unfold Ptree.releaseWithItem Zebra.Netutil.Ptree.releaseWithItem
  cases hls : s.lookup key len with
  | none =>
    have hlt : t.lookup key len = none := by simpa [hls] using hl
    simp only [hlt]
    exact ⟨hR, hw, hs⟩
  | some n =>
    rw [hls, Option.map_some] at hl
    obtain ⟨m, hlt, hmn⟩ := Option.map_eq_some_iff.1 hl
    have hitem : m.item = n.item := by simpa using congrArg (·.2.2) hmn
    simp only [hlt, hitem]
    split
    · -- the item goes first, then the reference
      obtain ⟨hR₂, hw₂, hs₂⟩ := hR.setItem hw hs hkey none (.inl rfl)
      refine hR₂.release hw₂ hs₂ hkey fun n' hn' hat' _ => ?_
      obtain ⟨y, -, rfl⟩ := List.mem_map.1 hn'
      by_cases hy : y.isAt key len = true
      · rw [PtreeNode.updateAt, if_pos hy]
      · rw [PtreeNode.updateAt, if_neg hy] at hat'
        exact absurd hat' hy
    · exact ⟨hR, hw, hs⟩

/-- Every call the Go callers may make keeps the two trees side by side, each keeping its
invariant. -/
theorem Refines.apply (hR : Refines t s) (hw : t.Wf) (hs : s.Wf) {op : PtreeOp α}
    (hop : s.Allows op) : Refines (t.apply op) (s.apply op) ∧ (t.apply op).Wf ∧ (s.apply op).Wf := by
  cases op with
  | acquire key len =>
    rcases hR.acquire hw hs hop with ⟨ht, hs'⟩ | ⟨t', s', ht', hs', h⟩
    · simp only [Ptree.apply, Zebra.Netutil.Ptree.apply, ht, hs', Option.getD_none]
      exact ⟨hR, hw, hs⟩
    · simp only [Ptree.apply, Zebra.Netutil.Ptree.apply, ht', hs', Option.getD_some]
      exact h
  | release key len => exact hR.release hw hs hop.1 hop.2
  | setItem key len v => exact hR.setItem hw hs hop.1 v hop.2
  | acquireWithItem key len v => exact hR.acquireWithItem hw hs hop v
  | releaseWithItem key len v => exact hR.releaseWithItem hw hs hop v

/-- The pairs of trees the linked tree and the list model reach from `NewPtree` under the same
calls, each allowed where it is made. -/
inductive Reach : Ptree α → Zebra.Netutil.Ptree α → Prop
  | empty (maxKeyBits : Nat) (reverse : Bool) :
    Reach (Ptree.empty maxKeyBits reverse) (Zebra.Netutil.Ptree.empty maxKeyBits reverse)
  | step {t : Ptree α} {s : Zebra.Netutil.Ptree α} (op : PtreeOp α) :
    Reach t s → s.Allows op → Reach (t.apply op) (s.apply op)

theorem Reach.invariant (h : Reach t s) : Refines t s ∧ t.Wf ∧ s.Wf := by
  induction h with
  | empty maxKeyBits reverse =>
    exact ⟨refines_empty maxKeyBits reverse, Ptree.wf_empty maxKeyBits reverse,
      Zebra.Netutil.Ptree.wf_empty maxKeyBits reverse⟩
  | step op _ hop ih => exact ih.1.apply ih.2.1 ih.2.2 hop

/-- Along every run of allowed calls from `NewPtree`, the nodes of the linked tree that hold a
reference show, in preorder, the entries of the list model's nodes in its order. -/
theorem reach_views (h : Reach t s) : t.views = s.views :=
  h.invariant.1.views_eq

/-- The calls of `commonRemove`: `10.0.0.0/8` and `11.0.0.0/8` acquired, which links a node at
their common `10.0.0.0/7` above them (`nodeCommon`), then `10.0.0.0/8` released, which removes
its node and the common one with it (`nodeRemove`). -/
def commonRemoveOps : List (PtreeOp Unit) :=
  [.acquire [10, 0, 0, 0] 8, .acquire [11, 0, 0, 0] 8, .release [10, 0, 0, 0] 8]

/-- The linked tree after `commonRemoveOps`. -/
def commonRemove : Ptree Unit := commonRemoveOps.foldl Ptree.apply (Ptree.empty 32 false)

/-- The list model after `commonRemoveOps`. -/
def commonRemoveList : Zebra.Netutil.Ptree Unit :=
  commonRemoveOps.foldl Zebra.Netutil.Ptree.apply (Zebra.Netutil.Ptree.empty 32 false)

lemma reach_commonRemove : Reach commonRemove commonRemoveList :=
  .step (.release [10, 0, 0, 0] 8)
    (.step (.acquire [11, 0, 0, 0] 8)
      (.step (.acquire [10, 0, 0, 0] 8) (.empty 32 false) (show 8 ≤ 8 * 4 by decide))
      (show 8 ≤ 8 * 4 by decide))
    (by unfold Zebra.Netutil.Ptree.Allows; decide)

/-- The two acquires link three nodes, the common one among them; the release leaves one. -/
example : (((Ptree.empty 32 false : Ptree Unit).apply (.acquire [10, 0, 0, 0] 8)).apply
    (.acquire [11, 0, 0, 0] 8)).top.preorder.length = 3 := by decide

example : commonRemove.top.preorder.length = 1 := by decide

theorem reach_views_acquire : commonRemove.views = commonRemoveList.views :=
  reach_views reach_commonRemove

/-- Along every run of allowed calls from `NewPtree`, `Lookup`, `Match`, `Top` and `Next` of the
linked tree answer as those of the list model do: with nodes at the same bits, holding the same
references and item. -/
theorem reach_answers (h : Reach t s) (hkey : len ≤ 8 * key.length) :
    (t.lookup key len).map (·.view t.reverse) = (s.lookup key len).map (·.view s.reverse) ∧
      (t.match key len).map (·.view t.reverse) = (s.match key len).map (·.view s.reverse) ∧
      t.items.map (·.view t.reverse) = s.items.map (·.view s.reverse) := by
  obtain ⟨hR, hw, hs⟩ := h.invariant
  exact ⟨hR.lookup_view hw hs hkey, hR.match_view hw hs hkey, hR.items_view hw⟩

theorem reach_answers_acquire :
    (commonRemove.lookup [11, 1, 0, 0] 16).map (·.view false) =
        (commonRemoveList.lookup [11, 1, 0, 0] 16).map (·.view false) ∧
      (commonRemove.match [11, 1, 0, 0] 16).map (·.view false) =
        (commonRemoveList.match [11, 1, 0, 0] 16).map (·.view false) ∧
      commonRemove.items.map (·.view false) = commonRemoveList.items.map (·.view false) :=
  reach_answers reach_commonRemove (show 16 ≤ 8 * 4 by decide)

/-- Every linked tree reached by allowed calls from `NewPtree` is a trie of its nodes' bits, each
node's key has the bytes its length needs, and a node holding no reference holds no item. -/
theorem reach_trie (h : Reach t s) :
    Labelled (·.bits t.reverse) [] t.top ∧
      (∀ n ∈ t.top.preorder, n.keyLength ≤ 8 * n.key.length) ∧
      (∀ n ∈ t.top.preorder, n.refcnt = 0 → n.item = none) := by
  obtain ⟨-, hw, -⟩ := h.invariant
  exact ⟨hw.trie.labelled, hw.trie.fits, hw.item_none⟩

theorem reach_trie_acquire :
    Labelled (·.bits false) [] commonRemove.top ∧
      (∀ n ∈ commonRemove.top.preorder, n.keyLength ≤ 8 * n.key.length) ∧
      (∀ n ∈ commonRemove.top.preorder, n.refcnt = 0 → n.item = none) :=
  reach_trie reach_commonRemove

/-- On every linked tree reached by allowed calls, `Match` is the longest-prefix match: within the
width it returns a node exactly when the node holds a reference, its bits are a prefix of the
key's, and no other such node is longer. -/
theorem reach_match_longest (h : Reach t s) (hkey : len ≤ 8 * key.length)
    (hmax : len ≤ t.maxKeyBits) {m : PtreeNode α} :
    t.match key len = some m ↔
      m ∈ t.top.preorder ∧ 0 < m.refcnt ∧ m.bits t.reverse <+: keyBits key len t.reverse ∧
        ∀ x ∈ t.top.preorder, 0 < x.refcnt → x.bits t.reverse <+: keyBits key len t.reverse →
          x.keyLength ≤ m.keyLength :=
  h.invariant.2.1.match_eq_some_iff hkey hmax

theorem reach_match_longest_acquire :
    commonRemove.match [11, 1, 0, 0] 16 =
        some { key := [11, 0, 0, 0], keyLength := 8, refcnt := 1, item := none } ↔
      { key := [11, 0, 0, 0], keyLength := 8, refcnt := 1, item := none } ∈
          commonRemove.top.preorder ∧
        0 < 1 ∧ keyBits [11, 0, 0, 0] 8 false <+: keyBits [11, 1, 0, 0] 16 false ∧
        ∀ x ∈ commonRemove.top.preorder,
          0 < x.refcnt → x.bits false <+: keyBits [11, 1, 0, 0] 16 false → x.keyLength ≤ 8 :=
  reach_match_longest reach_commonRemove (show 16 ≤ 8 * 4 by decide) (show 16 ≤ 32 by decide)

end Calls

end Linked

end Zebra.Netutil
