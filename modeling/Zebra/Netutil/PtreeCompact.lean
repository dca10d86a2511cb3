import Zebra.Netutil.PtreeRefine

/-!
# No dead nodes in the linked prefix tree

A node of `ptree.go` that holds no reference is only there to branch.  `Acquire` makes such a
node only where the key parts from a node off it (`nodeCommon`), with that node on one link and
the new node at the key on the other, or takes a reference on it at once.  `Release` takes a
node left with no reference out unless it has both links (`nodeRemove`), and then each parent
with no reference that is left with one link.  So every tree the calls reach is `Branching` for
the nodes that hold a reference, and it has fewer than twice as many nodes as the prefixes it
holds, as many as the list model has nodes.

`Top` and `Next` visit the nodes in preorder, which on a trie is the order of their bits: the
nodes that hold an item come out with their prefixes strictly increasing.
-/

namespace Zebra.Netutil
open Zebra.Lib BinTree

variable {α : Type}

namespace Linked

section Release

variable {reverse : Bool} {key : List UInt8} {len : Nat}

/-- `nodeRemove` keeps the node only with both links, and otherwise puts one of them in its
place. -/
theorem nodeRemove_branching {n : PtreeNode α} {l r : BinTree (PtreeNode α)}
    (hl : Branching (0 < ·.refcnt) l) (hr : Branching (0 < ·.refcnt) r) :
    Branching (0 < ·.refcnt) (nodeRemove n l r).1 := by
  cases l with
  | nil => exact hr
  | node a al ar =>
    cases r with
    | nil => exact hl
    | node c cl cr => exact ⟨fun _ => ⟨node_ne_nil _ _ _, node_ne_nil _ _ _⟩, hl, hr⟩

theorem nodeRemove_ne_nil {n : PtreeNode α} {l r : BinTree (PtreeNode α)}
    (h : (nodeRemove n l r).2 = false) : (nodeRemove n l r).1 ≠ .nil := by
  cases l with
  | nil => simp at h
  | node a al ar =>
    cases r with
    | nil => simp at h
    | node c cl cr => simp [nodeRemove]

/-- The step that ends each level of `Release` keeps the tree branching, where a node it keeps
with no reference still has both links. -/
theorem ite_nodeRemove_branching {n : PtreeNode α} {l r : BinTree (PtreeNode α)} {p : Prop}
    [Decidable p] (hl : Branching (0 < ·.refcnt) l) (hr : Branching (0 < ·.refcnt) r)
    (hn : ¬p → n.refcnt = 0 → l ≠ .nil ∧ r ≠ .nil) :
    Branching (0 < ·.refcnt) (if p then nodeRemove n l r else (.node n l r, false)).1 := by
  by_cases h : p
  · rw [if_pos h]
    exact nodeRemove_branching hl hr
  · rw [if_neg h]
    exact ⟨fun h0 => hn h (by simpa using h0), hl, hr⟩

theorem ite_nodeRemove_ne_nil {n : PtreeNode α} {l r : BinTree (PtreeNode α)} {p : Prop}
    [Decidable p] (h : (if p then nodeRemove n l r else (.node n l r, false)).2 = false) :
    (if p then nodeRemove n l r else (.node n l r, false)).1 ≠ .nil := by
  by_cases hp : p
  · rw [if_pos hp] at h ⊢
    exact nodeRemove_ne_nil h
  · rw [if_neg hp]
    exact node_ne_nil _ _ _

/-- A subtree `Release` walks into is still there unless the walk reports a node taken out. -/
theorem releaseWalk_ne_nil {t : BinTree (PtreeNode α)} (ht : t ≠ .nil)
    (h : (releaseWalk reverse key len t).2 = false) : (releaseWalk reverse key len t).1 ≠ .nil := by
  cases t with
  | nil => exact absurd rfl ht
  | node n l r =>
    rw [releaseWalk] at h ⊢
    by_cases hw : n.keyLength ≤ len ∧ keyMatch n.key n.keyLength key len = true
    · rw [if_pos hw] at h ⊢
      by_cases he : n.keyLength = len
      · rw [if_pos he] at h ⊢
        exact ite_nodeRemove_ne_nil h
      · rw [if_neg he] at h ⊢
        by_cases hc : bitCheck key n.keyLength reverse = true
        · rw [if_pos hc] at h ⊢
          rcases hR : releaseWalk reverse key len r with ⟨r', removed⟩
          rw [hR] at h
          exact ite_nodeRemove_ne_nil h
        · rw [if_neg hc] at h ⊢
          rcases hR : releaseWalk reverse key len l with ⟨l', removed⟩
          rw [hR] at h
          exact ite_nodeRemove_ne_nil h
    · rw [if_neg hw]
      exact node_ne_nil _ _ _

/-- `Release` keeps the tree branching: a parent with no reference whose walked link reports no
node taken out still has that link. -/
theorem releaseWalk_branching {t : BinTree (PtreeNode α)} (h : Branching (0 < ·.refcnt) t) :
    Branching (0 < ·.refcnt) (releaseWalk reverse key len t).1 := by
  induction t with
  | nil => trivial
  | node n l r ihl ihr =>
    obtain ⟨hn, hl, hr⟩ := h
    have hn0 : n.refcnt = 0 → l ≠ .nil ∧ r ≠ .nil := fun h0 => hn (by simp [h0])
    rw [releaseWalk]
    by_cases hw : n.keyLength ≤ len ∧ keyMatch n.key n.keyLength key len = true
    · rw [if_pos hw]
      by_cases he : n.keyLength = len
      · -- the node at the key, left with no reference, goes unless it has both links
        rw [if_pos he]
        exact ite_nodeRemove_branching hl hr fun hpos h0 => absurd h0 hpos
      · rw [if_neg he]
        cases hc : bitCheck key n.keyLength reverse
        · rw [if_neg Bool.false_ne_true]
          have hne : l ≠ .nil → (releaseWalk reverse key len l).2 = false →
              (releaseWalk reverse key len l).1 ≠ .nil := releaseWalk_ne_nil
          have hl' := ihl hl
          rcases hR : releaseWalk reverse key len l with ⟨l', removed⟩
          rw [hR] at hl' hne
          exact ite_nodeRemove_branching hl' hr fun hkeep h0 =>
            ⟨hne (hn0 h0).1 (by simpa [h0] using hkeep), (hn0 h0).2⟩
        · rw [if_pos rfl]
          have hne : r ≠ .nil → (releaseWalk reverse key len r).2 = false →
              (releaseWalk reverse key len r).1 ≠ .nil := releaseWalk_ne_nil
          have hr' := ihr hr
          rcases hR : releaseWalk reverse key len r with ⟨r', removed⟩
          rw [hR] at hr' hne
          exact ite_nodeRemove_branching hl hr' fun hkeep h0 =>
            ⟨(hn0 h0).1, hne (hn0 h0).2 (by simpa [h0] using hkeep)⟩
    · rw [if_neg hw]
      exact ⟨hn, hl, hr⟩

end Release

section Acquire

variable {reverse : Bool} {key : List UInt8} {len : Nat}

/-- Linking a subtree below a node keeps it branching: the link it takes was a link of the node,
and the other one stays. -/
theorem nodeLink_branching {n add : PtreeNode α} {l r al ar l' r' : BinTree (PtreeNode α)}
    (hn : n.refcnt = 0 → l ≠ .nil ∧ r ≠ .nil) (hl : Branching (0 < ·.refcnt) l)
    (hr : Branching (0 < ·.refcnt) r) (hadd : Branching (0 < ·.refcnt) (.node add al ar))
    (hL : nodeLink reverse n l r add al ar = (l', r')) :
    Branching (0 < ·.refcnt) (.node n l' r') := by
  unfold nodeLink at hL
  split at hL <;> cases hL
  · exact ⟨fun h0 => ⟨(hn (by simpa using h0)).1, node_ne_nil _ _ _⟩, hl, hadd⟩
  · exact ⟨fun h0 => ⟨node_ne_nil _ _ _, (hn (by simpa using h0)).2⟩, hadd, hr⟩

/-- The new node at the key, with its reference and no links. -/
theorem branching_newPtreeNode :
    Branching (0 < ·.refcnt)
      (.node ((newPtreeNode key len : PtreeNode α).addReference) .nil .nil) :=
  ⟨fun h1 => by simp [PtreeNode.addReference, newPtreeNode] at h1, trivial, trivial⟩

/-- `Acquire` at a node off the key keeps the tree branching: the node at the shared bits has the
old node on one link and, unless it takes the reference itself, the new node on the other. -/
theorem acquireWalk_off_branching (hkey : len ≤ 8 * key.length) {n : PtreeNode α}
    {l r : BinTree (PtreeNode α)} (hfits : n.keyLength ≤ 8 * n.key.length)
    (hoff : ¬n.bits reverse <+: keyBits key len reverse)
    (h : Branching (0 < ·.refcnt) (.node n l r)) :
    Branching (0 < ·.refcnt) (acquireTree (acquireWalk reverse key len (.node n l r))) ∧
      acquireTree (acquireWalk reverse key len (.node n l r)) ≠ .nil := by
  obtain ⟨-, -, -, hend, -, hc0, -⟩ := nodeCommon_bits hoff
  rw [acquireWalk, if_neg (mt (walk_iff reverse n hfits hkey).1 hoff)]
  generalize nodeCommon n key len = c at hend hc0 ⊢
  have hadd : (0 < c.addReference.refcnt : Bool) = true := by simp [PtreeNode.addReference]
  unfold nodeLink
  by_cases he : c.keyLength = len
  · -- the shared node is at the key and takes the reference, with the old node on one link
    subst he
    by_cases hb : bitCheck n.key c.keyLength reverse = true <;>
      simp only [hb, ne_eq, not_true_eq_false, ↓reduceIte, acquireTree]
    · exact ⟨⟨fun h1 => absurd (h1.symm.trans hadd) Bool.false_ne_true, trivial, h⟩, node_ne_nil _ _ _⟩
    · exact ⟨⟨fun h1 => absurd (h1.symm.trans hadd) Bool.false_ne_true, h, trivial⟩, node_ne_nil _ _ _⟩
  · -- the old node and the new one part at the shared node's length, one on each link
    have hk : bitCheck key c.keyLength reverse = !bitCheck n.key c.keyLength reverse :=
      Bool.eq_not_iff.2 (hend.resolve_left he).symm
    by_cases hb : bitCheck n.key c.keyLength reverse = true
    · have hk' : bitCheck key c.keyLength reverse = false := by rw [hk, hb]; rfl
      simp only [hb, hk', he, ne_eq, not_false_eq_true, Bool.false_eq_true, ↓reduceIte,
        PtreeNode.key_addReference, key_newPtreeNode, acquireTree]
      exact ⟨⟨fun _ => ⟨node_ne_nil _ _ _, node_ne_nil _ _ _⟩, branching_newPtreeNode, h⟩, node_ne_nil _ _ _⟩
    · have hk' : bitCheck key c.keyLength reverse = true := by
        rw [hk, Bool.eq_false_iff.2 hb]; rfl
      simp only [hb, hk', he, ne_eq, not_false_eq_true, Bool.false_eq_true, ↓reduceIte,
        PtreeNode.key_addReference, key_newPtreeNode, acquireTree]
      exact ⟨⟨fun _ => ⟨node_ne_nil _ _ _, node_ne_nil _ _ _⟩, h, branching_newPtreeNode⟩, node_ne_nil _ _ _⟩

/-- `Acquire` keeps the tree branching: past a node short of the key it links what the walk made
of the link it took, at a node off the key the shared node takes that node's place, and at the
node at the key it adds a reference.  The walk always leaves a node below the link. -/
theorem acquireWalk_branching (hkey : len ≤ 8 * key.length) {pre : List Bool}
    {t : BinTree (PtreeNode α)} (ht : Trie reverse pre t) (h : Branching (0 < ·.refcnt) t) :
    Branching (0 < ·.refcnt) (acquireTree (acquireWalk reverse key len t)) ∧
      acquireTree (acquireWalk reverse key len t) ≠ .nil := by
  induction t generalizing pre with
  | nil => exact ⟨branching_newPtreeNode, node_ne_nil _ _ _⟩
  | node n l r ihl ihr =>
    obtain ⟨-, hfits⟩ := ht.root
    by_cases hp : n.bits reverse <+: keyBits key len reverse
    · obtain ⟨hn, hl, hr⟩ := h
      have hn0 : n.refcnt = 0 → l ≠ .nil ∧ r ≠ .nil := fun h0 => hn (by simp [h0])
      rw [acquireWalk, if_pos ((walk_iff reverse n hfits hkey).2 hp)]
      by_cases he : n.keyLength = len
      · -- the node at the key takes the reference in place
        rw [if_pos he]
        exact ⟨⟨fun h1 => by simp [PtreeNode.addReference] at h1, hl, hr⟩, node_ne_nil _ _ _⟩
      · rw [if_neg he]
        -- the link the key's bit names gets what the walk made of it
        by_cases hc : bitCheck key n.keyLength reverse = true
        · rw [if_pos hc]
          obtain ⟨hr', hrn⟩ := ihr ht.right hr
          rcases hW : acquireWalk reverse key len r with r' | ⟨add, al, ar⟩ <;>
            rw [hW] at hr' hrn <;> dsimp only
          · exact ⟨⟨fun h0 => ⟨(hn h0).1, hrn⟩, hl, hr'⟩, node_ne_nil _ _ _⟩
          · rcases hL : nodeLink reverse n l r add al ar with ⟨l', r''⟩
            exact ⟨nodeLink_branching hn0 hl hr hr' hL, node_ne_nil _ _ _⟩
        · rw [if_neg hc]
          obtain ⟨hl', hln⟩ := ihl ht.left hl
          rcases hW : acquireWalk reverse key len l with l' | ⟨add, al, ar⟩ <;>
            rw [hW] at hl' hln <;> dsimp only
          · exact ⟨⟨fun h0 => ⟨hln, (hn h0).2⟩, hl', hr⟩, node_ne_nil _ _ _⟩
          · rcases hL : nodeLink reverse n l r add al ar with ⟨l'', r'⟩
            exact ⟨nodeLink_branching hn0 hl hr hl' hL, node_ne_nil _ _ _⟩
    · exact acquireWalk_off_branching hkey hfits hp h

end Acquire

namespace Ptree

section Ops

variable {t : Ptree α} {key : List UInt8} {len : Nat}

theorem acquire_branching (hw : t.Wf) (hkey : len ≤ 8 * key.length)
    (hb : Branching (0 < ·.refcnt) t.top) {t' : Ptree α} (h : t.acquire key len = some t') :
    Branching (0 < ·.refcnt) t'.top := by
  rw [acquire_eq] at h
  split_ifs at h
  cases h
  exact (acquireWalk_branching hkey hw.trie hb).1

theorem release_branching (hb : Branching (0 < ·.refcnt) t.top) :
    Branching (0 < ·.refcnt) (t.release key len).top :=
  releaseWalk_branching hb

/-- Writing an item changes no node's references and no link. -/
theorem setItem_branching (hw : t.Wf) (hkey : len ≤ 8 * key.length)
    (hb : Branching (0 < ·.refcnt) t.top) (v : Option α) :
    Branching (0 < ·.refcnt) (t.setItem key len v).top := by
  show Branching _ (setItemWalk t.reverse key len v t.top)
  rw [setItemWalk_eq hkey hw.trie]
  exact hb.map (updateAtBits_keeps (fun n => decide (0 < n.refcnt))
    (g := fun x => { x with item := v }) (fun _ => rfl) _ _)

theorem acquireWithItem_branching (hw : t.Wf) (hkey : len ≤ 8 * key.length)
    (hb : Branching (0 < ·.refcnt) t.top) (v : α) :
    Branching (0 < ·.refcnt) ((t.acquireWithItem key len v).getD t).top := by
  unfold Ptree.acquireWithItem
  cases ht : t.acquire key len with
  | none => exact hb
  | some t' =>
    have hw' := (hw.acquire hkey ht).1
    have hb' := acquire_branching hw hkey hb ht
    simp only [Option.map_some, Option.getD_some]
    split
    · split
      · exact release_branching hb'
      · exact setItem_branching hw' hkey hb' _
    · exact hb'

theorem releaseWithItem_branching [DecidableEq α] (hw : t.Wf) (hkey : len ≤ 8 * key.length)
    (hb : Branching (0 < ·.refcnt) t.top) (v : α) :
    Branching (0 < ·.refcnt) (t.releaseWithItem key len v).top := by
  unfold Ptree.releaseWithItem
  split
  · split
    · exact release_branching (setItem_branching hw hkey hb none)
    · exact hb
  · exact hb

end Ops

end Ptree

section Calls

variable {t : Ptree α} {s : Zebra.Netutil.Ptree α}

/-- Every tree the calls reach is branching for the nodes holding a reference. -/
theorem Reach.branching [DecidableEq α] (h : Reach t s) : Branching (0 < ·.refcnt) t.top := by
  induction h with
  | empty maxKeyBits reverse => trivial
  | @step t₁ s₁ op hreach hop ih =>
    have hw := hreach.invariant.2.1
    cases op with
    | acquire key len =>
      show Branching _ ((t₁.acquire key len).getD t₁).top
      cases ht : t₁.acquire key len with
      | none => exact ih
      | some t' => exact Ptree.acquire_branching hw hop ih ht
    | release key len => exact Ptree.release_branching ih
    | setItem key len v => exact Ptree.setItem_branching hw hop.1 ih v
    | acquireWithItem key len v => exact Ptree.acquireWithItem_branching hw hop ih v
    | releaseWithItem key len v => exact Ptree.releaseWithItem_branching hw hop ih v

/-- Two `/8`s that part at their last bit hang below the `/7` they share, which holds no
reference and has both links. -/
example : ((((Ptree.empty 32 false : Ptree Unit).apply (.acquire [10, 0, 0, 0] 8)).apply
    (.acquire [11, 0, 0, 0] 8)).top.preorder.map fun n => (n.keyLength, n.refcnt)) =
    [(7, 0), (8, 1), (8, 1)] := by decide

/-- Along every run of allowed calls from `NewPtree`, every node of the linked tree that holds no
reference has both links, so the tree has fewer than twice as many nodes as the list model has
prefixes, and none when it has none. -/
theorem reach_compact [DecidableEq α] (h : Reach t s) :
    Branching (0 < ·.refcnt) t.top ∧ t.top.preorder.length ≤ 2 * s.nodes.length - 1 := by
  have hb := h.branching
  -- the nodes holding a reference are as many as the list model's nodes
  have hlen : (t.top.preorder.filter (0 < ·.refcnt)).length = s.nodes.length := by
    simpa [Ptree.views, heldViews, Zebra.Netutil.Ptree.views] using
      congrArg List.length h.invariant.1.views_eq
  exact ⟨hb, hlen ▸ hb.length_preorder_le⟩

theorem reach_compact_two_acquires :
    Branching (0 < ·.refcnt)
        (((Ptree.empty 32 false : Ptree Unit).apply (.acquire [10, 0, 0, 0] 8)).apply
          (.acquire [11, 0, 0, 0] 8)).top ∧
      (((Ptree.empty 32 false : Ptree Unit).apply (.acquire [10, 0, 0, 0] 8)).apply
          (.acquire [11, 0, 0, 0] 8)).top.preorder.length ≤
        2 * (((Zebra.Netutil.Ptree.empty 32 false : Zebra.Netutil.Ptree Unit).apply
          (.acquire [10, 0, 0, 0] 8)).apply (.acquire [11, 0, 0, 0] 8)).nodes.length - 1 :=
  reach_compact (Reach.step (.acquire [11, 0, 0, 0] 8)
    (Reach.step (.acquire [10, 0, 0, 0] 8) (Reach.empty 32 false) (show 8 ≤ 8 * 4 by decide))
    (show 8 ≤ 8 * 4 by decide))

/-- Along every run of allowed calls from `NewPtree`, `Top` and `Next` visit the nodes holding an
item with their bits strictly increasing: in the order of the prefixes, each prefix once. -/
theorem reach_items_sorted [DecidableEq α] (h : Reach t s) :
    (t.items.map (·.bits t.reverse)).Pairwise (List.Lex (· < ·)) := by
  rw [List.pairwise_map]
  exact h.invariant.2.1.pairwise.filter _

theorem reach_items_sorted_two_items :
    ((((Ptree.empty 32 false : Ptree Unit).apply (.acquireWithItem [11, 0, 0, 0] 8 ())).apply
        (.acquireWithItem [10, 0, 0, 0] 8 ())).items.map (·.bits false)).Pairwise
      (List.Lex (· < ·)) :=
  reach_items_sorted (Reach.step (.acquireWithItem [10, 0, 0, 0] 8 ())
    (Reach.step (.acquireWithItem [11, 0, 0, 0] 8 ()) (Reach.empty 32 false)
      (show 8 ≤ 8 * 4 by decide))
    (show 8 ≤ 8 * 4 by decide))

end Calls

end Linked

end Zebra.Netutil
