import Zebra.Netutil.PtreeCommon

/-!
# What the walks of the linked tree do

Every walk of `ptree.go` goes down from `top` while the node's bits are a prefix of the key's
(`walk_iff`), to the link the key's next bit names.  On a tree that is a trie of its nodes' bits
(`Trie`), each walk is then a statement about the nodes in preorder, and the callers see only
the nodes holding a reference (`heldNodes`):

* `Lookup` finds the node holding a reference whose bits are the key's (`lookupWalk_eq`);
* `Match` the last node holding a reference whose bits are a prefix of the key's
  (`matchWalk_eq`);
* `n.Item = v` changes the node at the key in place (`setItemWalk_eq`), and so does `Acquire`
  where there is one (`acquireWalk_of_mem`);
* `Acquire` where there is none adds a node at the key with one reference, and besides it only
  nodes with no reference and no item (`acquireWalk_adds`), and the tree stays a trie;
* `Release` takes a reference off the node at the key, and the nodes `nodeRemove` takes out
  hold none (`releaseWalk_spec`).
-/

namespace Zebra.Netutil
open Zebra.Lib BinTree

variable {α : Type}

@[simp] theorem PtreeNode.length_bits (n : PtreeNode α) (reverse : Bool) :
    (n.bits reverse).length = n.keyLength := by
  simp [PtreeNode.bits_eq]

theorem PtreeNode.getD_bits (n : PtreeNode α) (reverse : Bool) {i : Nat} (hi : i < n.keyLength) :
    (n.bits reverse).getD i false = bitCheck n.key i reverse :=
  getD_keyBits _ _ _ hi

@[simp] theorem PtreeNode.key_addReference (n : PtreeNode α) : n.addReference.key = n.key := rfl

@[simp] theorem key_newPtreeNode (key : List UInt8) (len : Nat) :
    (newPtreeNode key len : PtreeNode α).key = key := rfl

@[simp] theorem PtreeNode.bits_addReference (n : PtreeNode α) (reverse : Bool) :
    n.addReference.bits reverse = n.bits reverse := rfl

@[simp] theorem PtreeNode.bits_delReference (n : PtreeNode α) (reverse : Bool) :
    n.delReference.bits reverse = n.bits reverse := rfl

@[simp] theorem PtreeNode.bits_setItem (n : PtreeNode α) (v : Option α) (reverse : Bool) :
    ({ n with item := v } : PtreeNode α).bits reverse = n.bits reverse := rfl

namespace Linked

/-- The subtree below a link is a trie of its nodes' bits below `pre`, and each node's key has
the bytes its length needs, the bytes the walks read. -/
structure Trie (reverse : Bool) (pre : List Bool) (t : BinTree (PtreeNode α)) : Prop where
  labelled : Labelled (·.bits reverse) pre t
  fits : ∀ n ∈ t.preorder, n.keyLength ≤ 8 * n.key.length

/-- The nodes below a link that hold a reference, in preorder: the nodes the callers see. -/
def heldNodes (t : BinTree (PtreeNode α)) : List (PtreeNode α) :=
  t.preorder.filter (0 < ·.refcnt)

@[simp] theorem heldNodes_nil : heldNodes (.nil : BinTree (PtreeNode α)) = [] := rfl

theorem heldNodes_node (n : PtreeNode α) (l r : BinTree (PtreeNode α)) :
    heldNodes (.node n l r) =
      (if 0 < n.refcnt then [n] else []) ++ (heldNodes l ++ heldNodes r) := by
  by_cases h : 0 < n.refcnt <;> simp [heldNodes, h]

section Trie

variable {reverse : Bool} {pre : List Bool} {n : PtreeNode α} {l r t : BinTree (PtreeNode α)}

theorem Trie.nil : Trie reverse pre (.nil : BinTree (PtreeNode α)) :=
  ⟨trivial, by simp⟩

theorem Trie.root (h : Trie reverse pre (.node n l r)) :
    pre <+: n.bits reverse ∧ n.keyLength ≤ 8 * n.key.length :=
  ⟨h.labelled.1, h.fits n (by simp)⟩

theorem Trie.left (h : Trie reverse pre (.node n l r)) :
    Trie reverse (n.bits reverse ++ [false]) l :=
  ⟨h.labelled.2.1, fun x hx => h.fits x (by simp [hx])⟩

theorem Trie.right (h : Trie reverse pre (.node n l r)) :
    Trie reverse (n.bits reverse ++ [true]) r :=
  ⟨h.labelled.2.2, fun x hx => h.fits x (by simp [hx])⟩

theorem Trie.node (hn : pre <+: n.bits reverse) (hfits : n.keyLength ≤ 8 * n.key.length)
    (hl : Trie reverse (n.bits reverse ++ [false]) l)
    (hr : Trie reverse (n.bits reverse ++ [true]) r) : Trie reverse pre (.node n l r) := by
  refine ⟨⟨hn, hl.labelled, hr.labelled⟩, fun x hx => ?_⟩
  simp only [preorder_node, List.mem_cons, List.mem_append] at hx
  rcases hx with rfl | hx | hx
  · exact hfits
  · exact hl.fits x hx
  · exact hr.fits x hx

theorem Trie.mono {pre' : List Bool} (hp : pre' <+: pre) (h : Trie reverse pre t) :
    Trie reverse pre' t :=
  ⟨h.labelled.mono hp, h.fits⟩

/-- A map that keeps every node's key and length keeps the tree a trie. -/
theorem Trie.map {f : PtreeNode α → PtreeNode α} (hkey : ∀ x, (f x).key = x.key)
    (hlen : ∀ x, (f x).keyLength = x.keyLength) (h : Trie reverse pre t) :
    Trie reverse pre (t.map f) := by
  have hbits : ∀ x, (f x).bits reverse = x.bits reverse := fun x => by
    simp only [PtreeNode.bits_eq, hkey, hlen]
  refine ⟨h.labelled.map hbits, fun x hx => ?_⟩
  obtain ⟨y, hy, rfl⟩ := List.mem_map.1 (by simpa using hx)
  rw [hkey, hlen]
  exact h.fits y hy

end Trie

/-! ### The test at a node -/

section Key

variable {reverse : Bool} {key : List UInt8} {len : Nat} {n : PtreeNode α}

/-- On a node whose bits are a prefix of the key's, the walks stop where the lengths agree: at the
node whose bits are the key's. -/
theorem keyLength_eq_iff (h : n.bits reverse <+: keyBits key len reverse) :
    n.keyLength = len ↔ n.bits reverse = keyBits key len reverse := by
  constructor
  · intro he
    exact h.eq_of_length (by simp [he])
  · intro he
    simpa using congrArg List.length he

/-- Past a node short of the key, the walks take the link of the key's next bit, which extends
the node's bits as the key's do. -/
theorem prefix_append_branch (h : n.bits reverse <+: keyBits key len reverse) (hne : n.keyLength ≠ len) :
    n.bits reverse ++ [bitCheck key n.keyLength reverse] <+: keyBits key len reverse := by
  have hlt : n.keyLength < len := lt_of_le_of_ne (by simpa using h.length_le) hne
  have hbit := prefix_append_getD h (by simpa using hlt)
  rwa [PtreeNode.length_bits, getD_keyBits _ _ _ hlt] at hbit

/-- The other link of a node short of the key leads away from it. -/
theorem not_prefix_other_branch (h : n.bits reverse <+: keyBits key len reverse)
    (hne : n.keyLength ≠ len) :
    ¬n.bits reverse ++ [!bitCheck key n.keyLength reverse] <+: keyBits key len reverse := by
  intro hno
  have hbit := getD_length_of_prefix_append hno
  rw [getD_length_of_prefix_append (prefix_append_branch h hne)] at hbit
  cases hc : bitCheck key n.keyLength reverse <;> simp [hc] at hbit

/-- Nothing below a node whose bits are the key's is at the key. -/
theorem not_prefix_below (h : n.bits reverse = keyBits key len reverse) (c : Bool) :
    ¬n.bits reverse ++ [c] <+: keyBits key len reverse := fun hp => by
  have := hp.length_le
  rw [← h] at this
  simp at this

end Key

/-! ### `Lookup` and `Match` -/

section Read

variable {reverse : Bool} {key : List UInt8} {len : Nat}

theorem find?_heldNodes_node (p : PtreeNode α → Bool) (n : PtreeNode α)
    (l r : BinTree (PtreeNode α)) :
    (heldNodes (.node n l r)).find? p =
      if 0 < n.refcnt ∧ p n then some n
      else ((heldNodes l).find? p).or ((heldNodes r).find? p) := by
  by_cases h : 0 < n.refcnt <;> by_cases hp : p n <;> simp [heldNodes_node, List.find?_append, h, hp]

theorem find?_heldNodes_eq_none {p : PtreeNode α → Bool} {t : BinTree (PtreeNode α)}
    (h : ∀ x ∈ t.preorder, p x = false) : (heldNodes t).find? p = none :=
  List.find?_eq_none.2 fun x hx => by simp [h x (List.mem_filter.1 hx).1]

theorem filter_heldNodes_eq_nil {p : PtreeNode α → Bool} {t : BinTree (PtreeNode α)}
    (h : ∀ x ∈ t.preorder, p x = false) : (heldNodes t).filter p = [] :=
  List.filter_eq_nil_iff.2 fun x hx => by simp [h x (List.mem_filter.1 hx).1]

theorem getLast?_filter_ite_or (c : Prop) [Decidable c] (p : PtreeNode α → Bool)
    (n : PtreeNode α) (m : Option (PtreeNode α)) :
    ((if c then [n] else []).filter p).getLast?.or m = if c ∧ p n then some n else m := by
  by_cases hc : c <;> by_cases hp : p n <;> simp [hc, hp]

/-- No node below bits that lead away from `b` has bits that are a prefix of `b`. -/
theorem Trie.not_prefix_of_mem {reverse : Bool} {pre b : List Bool} {t : BinTree (PtreeNode α)}
    (h : Trie reverse pre t) (hb : ¬pre <+: b) {x : PtreeNode α} (hx : x ∈ t.preorder) :
    ¬x.bits reverse <+: b :=
  fun hxb => hb ((h.labelled.prefix_of_mem hx).trans hxb)

/-- The bits below a node off `b` lead away from `b`. -/
theorem not_prefix_append {p b : List Bool} (hp : ¬p <+: b) (c : Bool) : ¬p ++ [c] <+: b :=
  fun h => hp ((List.prefix_append _ _).trans h)

/-- `Lookup`: the node holding a reference whose bits are the key's. -/
theorem lookupWalk_eq (hkey : len ≤ 8 * key.length) {pre : List Bool}
    {t : BinTree (PtreeNode α)} (ht : Trie reverse pre t) :
    lookupWalk reverse key len t =
      (heldNodes t).find? (·.bits reverse = keyBits key len reverse) := by
  induction t generalizing pre with
  | nil => rfl
  | node n l r ihl ihr =>
    obtain ⟨-, hfits⟩ := ht.root
    -- below bits that lead away from the key, no node is at it
    have haway : ∀ {c : Bool}, ¬n.bits reverse ++ [c] <+: keyBits key len reverse →
        ∀ t', Trie reverse (n.bits reverse ++ [c]) t' →
          (heldNodes t').find? (fun x : PtreeNode α => x.bits reverse = keyBits key len reverse) =
            none :=
      fun hno t' ht' => find?_heldNodes_eq_none fun x hx => by
        simpa using fun hxb : x.bits reverse = keyBits key len reverse =>
          ht'.not_prefix_of_mem hno hx (hxb ▸ List.prefix_refl _)
    rw [lookupWalk, find?_heldNodes_node]
    by_cases hp : n.bits reverse <+: keyBits key len reverse
    · rw [if_pos ((walk_iff reverse n hfits hkey).2 hp)]
      by_cases he : n.keyLength = len
      · -- the node is at the key, and nothing below it is
        have hb := (keyLength_eq_iff hp).1 he
        rw [if_pos he, haway (not_prefix_below hb _) l ht.left,
          haway (not_prefix_below hb _) r ht.right]
        by_cases hn : 0 < n.refcnt <;> simp [hb, hn]
      · have hb : n.bits reverse ≠ keyBits key len reverse := mt (keyLength_eq_iff hp).2 he
        have hno := not_prefix_other_branch hp he
        rw [if_neg he, if_neg (show ¬(0 < n.refcnt ∧
          decide (n.bits reverse = keyBits key len reverse) = true) by simp [hb])]
        -- the walk takes the key's branch; the other one holds nothing at the key
        cases hc : bitCheck key n.keyLength reverse
        · rw [if_neg Bool.false_ne_true, haway (by simpa [hc] using hno) r ht.right,
            Option.or_none, ihl ht.left]
        · rw [if_pos rfl, haway (by simpa [hc] using hno) l ht.left, Option.none_or,
            ihr ht.right]
    · -- the node and every node below it are off the key
      have hb : n.bits reverse ≠ keyBits key len reverse := fun hb => hp (hb ▸ List.prefix_refl _)
      rw [if_neg (mt (walk_iff reverse n hfits hkey).1 hp), if_neg (by simp [hb]),
        haway (not_prefix_append hp _) l ht.left, haway (not_prefix_append hp _) r ht.right]
      rfl

/-- `Match`: the last node holding a reference whose bits are a prefix of the key's, or what the
walk had matched before. -/
theorem matchWalk_eq (hkey : len ≤ 8 * key.length) {pre : List Bool}
    {t : BinTree (PtreeNode α)} (ht : Trie reverse pre t) (m : Option (PtreeNode α)) :
    matchWalk reverse key len m t =
      (((heldNodes t).filter (·.bits reverse <+: keyBits key len reverse)).getLast?).or m := by
  induction t generalizing pre m with
  | nil => rfl
  | node n l r ihl ihr =>
    obtain ⟨-, hfits⟩ := ht.root
    -- below bits that lead away from the key, no node is a prefix of it
    have haway : ∀ {c : Bool}, ¬n.bits reverse ++ [c] <+: keyBits key len reverse →
        ∀ t', Trie reverse (n.bits reverse ++ [c]) t' →
          (heldNodes t').filter (fun x : PtreeNode α => x.bits reverse <+: keyBits key len reverse) =
            [] :=
      fun hno t' ht' => filter_heldNodes_eq_nil fun x hx => by
        simpa using ht'.not_prefix_of_mem hno hx
    rw [matchWalk, heldNodes_node, List.filter_append, List.filter_append, List.getLast?_append,
      List.getLast?_append, Option.or_assoc, Option.or_assoc, getLast?_filter_ite_or]
    by_cases hp : n.bits reverse <+: keyBits key len reverse
    · rw [if_pos ((walk_iff reverse n hfits hkey).2 hp)]
      simp only [hp, decide_true, and_true]
      by_cases he : n.keyLength = len
      · -- the node is at the key: nothing below it is a prefix of the key
        have hb := (keyLength_eq_iff hp).1 he
        rw [if_pos he, haway (not_prefix_below hb _) l ht.left,
          haway (not_prefix_below hb _) r ht.right]
        rfl
      · have hno := not_prefix_other_branch hp he
        rw [if_neg he]
        cases hc : bitCheck key n.keyLength reverse
        · rw [if_neg Bool.false_ne_true, haway (by simpa [hc] using hno) r ht.right,
            List.getLast?_nil, Option.none_or, ihl ht.left]
        · rw [if_pos rfl, haway (by simpa [hc] using hno) l ht.left, List.getLast?_nil,
            Option.none_or, ihr ht.right]
    · -- nothing below a node off the key is a prefix of it
      rw [if_neg (mt (walk_iff reverse n hfits hkey).1 hp), if_neg (by simp [hp]),
        haway (not_prefix_append hp _) l ht.left, haway (not_prefix_append hp _) r ht.right]
      rfl

end Read

/-! ### Changes in place: `n.Item = v`, and `Acquire` at a node that is there -/

/-- `g` applied to a node whose bits are `b`. -/
def updateAtBits (reverse : Bool) (b : List Bool) (g : PtreeNode α → PtreeNode α)
    (x : PtreeNode α) : PtreeNode α :=
  if x.bits reverse = b then g x else x

theorem updateAtBits_of_eq {reverse : Bool} {b : List Bool} (g : PtreeNode α → PtreeNode α)
    {x : PtreeNode α} (h : x.bits reverse = b) : updateAtBits reverse b g x = g x :=
  if_pos h

theorem updateAtBits_of_ne {reverse : Bool} {b : List Bool} (g : PtreeNode α → PtreeNode α)
    {x : PtreeNode α} (h : x.bits reverse ≠ b) : updateAtBits reverse b g x = x :=
  if_neg h

/-- What `g` keeps of a node, `updateAtBits` keeps. -/
theorem updateAtBits_keeps {β : Type} (fld : PtreeNode α → β) {g : PtreeNode α → PtreeNode α}
    (hg : ∀ x, fld (g x) = fld x) (reverse : Bool) (b : List Bool) (x : PtreeNode α) :
    fld (updateAtBits reverse b g x) = fld x := by
  unfold updateAtBits
  split
  · exact hg x
  · rfl

section InPlace

variable {reverse : Bool} {key : List UInt8} {len : Nat}

/-- Below bits that lead away from `b`, a change at `b` changes nothing. -/
theorem Trie.map_updateAtBits {pre b : List Bool} {t : BinTree (PtreeNode α)}
    (h : Trie reverse pre t) (hb : ¬pre <+: b) (g : PtreeNode α → PtreeNode α) :
    t.map (updateAtBits reverse b g) = t :=
  map_eq_self fun x hx =>
    if_neg fun hxb : x.bits reverse = b => h.not_prefix_of_mem hb hx (hxb ▸ List.prefix_refl _)

/-- `n.Item = v` on the node at the key: the walk rewrites that node in place. -/
theorem setItemWalk_eq (hkey : len ≤ 8 * key.length) {pre : List Bool}
    {t : BinTree (PtreeNode α)} (ht : Trie reverse pre t) (v : Option α) :
    setItemWalk reverse key len v t =
      t.map (updateAtBits reverse (keyBits key len reverse) fun x => { x with item := v }) := by
  induction t generalizing pre with
  | nil => rfl
  | node n l r ihl ihr =>
    obtain ⟨-, hfits⟩ := ht.root
    rw [setItemWalk, map_node]
    by_cases hp : n.bits reverse <+: keyBits key len reverse
    · rw [if_pos ((walk_iff reverse n hfits hkey).2 hp)]
      by_cases he : n.keyLength = len
      · -- the node is at the key, and nothing below it is
        have hb := (keyLength_eq_iff hp).1 he
        rw [if_pos he, ht.left.map_updateAtBits (not_prefix_below hb _),
          ht.right.map_updateAtBits (not_prefix_below hb _), updateAtBits, if_pos hb]
      · have hb : n.bits reverse ≠ keyBits key len reverse := mt (keyLength_eq_iff hp).2 he
        have hno := not_prefix_other_branch hp he
        rw [if_neg he, updateAtBits, if_neg hb]
        cases hc : bitCheck key n.keyLength reverse
        · rw [if_neg Bool.false_ne_true, ihl ht.left,
            ht.right.map_updateAtBits (by simpa [hc] using hno)]
        · rw [if_pos rfl, ihr ht.right, ht.left.map_updateAtBits (by simpa [hc] using hno)]
    · have hb : n.bits reverse ≠ keyBits key len reverse := fun hb => hp (hb ▸ List.prefix_refl _)
      rw [if_neg (mt (walk_iff reverse n hfits hkey).1 hp), updateAtBits, if_neg hb,
        ht.left.map_updateAtBits (not_prefix_append hp _),
        ht.right.map_updateAtBits (not_prefix_append hp _)]

/-- `Acquire` where a node is at the key, with or without a reference: that node takes one more,
in place. -/
theorem acquireWalk_of_mem (hkey : len ≤ 8 * key.length) {pre : List Bool}
    {t : BinTree (PtreeNode α)} (ht : Trie reverse pre t) {m : PtreeNode α}
    (hm : m ∈ t.preorder) (hmb : m.bits reverse = keyBits key len reverse) :
    acquireWalk reverse key len t =
      .inl (t.map (updateAtBits reverse (keyBits key len reverse) PtreeNode.addReference)) := by
  induction t generalizing pre with
  | nil => simp at hm
  | node n l r ihl ihr =>
    obtain ⟨-, hfits⟩ := ht.root
    -- the node's bits are a prefix of the key's, as of every node below it
    have hp : n.bits reverse <+: keyBits key len reverse :=
      hmb ▸ (show Labelled (·.bits reverse) (n.bits reverse) (.node n l r) from
        ⟨List.prefix_refl _, ht.labelled.2⟩).prefix_of_mem hm
    rw [acquireWalk, if_pos ((walk_iff reverse n hfits hkey).2 hp), map_node]
    by_cases he : n.keyLength = len
    · have hb := (keyLength_eq_iff hp).1 he
      rw [if_pos he, ht.left.map_updateAtBits (not_prefix_below hb _),
        ht.right.map_updateAtBits (not_prefix_below hb _), updateAtBits, if_pos hb]
    · have hb : n.bits reverse ≠ keyBits key len reverse := mt (keyLength_eq_iff hp).2 he
      have hno := not_prefix_other_branch hp he
      rw [if_neg he, updateAtBits, if_neg hb]
      simp only [preorder_node, List.mem_cons, List.mem_append] at hm
      -- the node at the key is on the key's branch
      cases hc : bitCheck key n.keyLength reverse
      · have hml : m ∈ l.preorder := by
          rcases hm with rfl | hm | hm
          · exact absurd hmb hb
          · exact hm
          · exact absurd (hmb ▸ ht.right.labelled.prefix_of_mem hm) (by simpa [hc] using hno)
        rw [if_neg Bool.false_ne_true, ihl ht.left hml,
          ht.right.map_updateAtBits (by simpa [hc] using hno)]
      · have hmr : m ∈ r.preorder := by
          rcases hm with rfl | hm | hm
          · exact absurd hmb hb
          · exact absurd (hmb ▸ ht.left.labelled.prefix_of_mem hm) (by simpa [hc] using hno)
          · exact hm
        rw [if_pos rfl, ihr ht.right hmr, ht.left.map_updateAtBits (by simpa [hc] using hno)]

end InPlace

/-! ### `Acquire` where no node is at the key -/

/-- The subtree an `acquireWalk` result stands for: the new subtree, or the node made for the
last node matched to link, with its links. -/
def acquireTree :
    BinTree (PtreeNode α) ⊕ (PtreeNode α × BinTree (PtreeNode α) × BinTree (PtreeNode α)) →
      BinTree (PtreeNode α)
  | .inl t => t
  | .inr (add, l, r) => .node add l r

/-- Where no node is at the key `b`, the subtree `t'` `Acquire` makes of `t` keeps every node of
`t` and has a node at `b` with one reference and no item; its other new nodes hold no reference
and no item. -/
structure Adds (reverse : Bool) (b : List Bool) (t t' : BinTree (PtreeNode α)) : Prop where
  old : ∀ x ∈ t.preorder, x ∈ t'.preorder
  new : ∃ add ∈ t'.preorder, add.bits reverse = b ∧ add.refcnt = 1 ∧ add.item = none ∧
    ∀ x ∈ t'.preorder, x ∈ t.preorder ∨ x = add ∨ (x.refcnt = 0 ∧ x.item = none)

section Adds

variable {reverse : Bool} {b : List Bool} {n : PtreeNode α} {l r l' r' : BinTree (PtreeNode α)}

theorem Adds.node_left (h : Adds reverse b l l') :
    Adds reverse b (.node n l r) (.node n l' r) := by
  obtain ⟨add, hadd, hb, h1, hnone, hrest⟩ := h.new
  refine ⟨fun x hx => ?_, add, by simp [hadd], hb, h1, hnone, fun x hx => ?_⟩
  · simp only [preorder_node, List.mem_cons, List.mem_append] at hx ⊢
    rcases hx with hx | hx | hx
    · exact .inl hx
    · exact .inr (.inl (h.old x hx))
    · exact .inr (.inr hx)
  · simp only [preorder_node, List.mem_cons, List.mem_append] at hx ⊢
    rcases hx with hx | hx | hx
    · exact .inl (.inl hx)
    · rcases hrest x hx with hx | hx | hx
      · exact .inl (.inr (.inl hx))
      · exact .inr (.inl hx)
      · exact .inr (.inr hx)
    · exact .inl (.inr (.inr hx))

theorem Adds.node_right (h : Adds reverse b r r') :
    Adds reverse b (.node n l r) (.node n l r') := by
  obtain ⟨add, hadd, hb, h1, hnone, hrest⟩ := h.new
  refine ⟨fun x hx => ?_, add, by simp [hadd], hb, h1, hnone, fun x hx => ?_⟩
  · simp only [preorder_node, List.mem_cons, List.mem_append] at hx ⊢
    rcases hx with hx | hx | hx
    · exact .inl hx
    · exact .inr (.inl hx)
    · exact .inr (.inr (h.old x hx))
  · simp only [preorder_node, List.mem_cons, List.mem_append] at hx ⊢
    rcases hx with hx | hx | hx
    · exact .inl (.inl hx)
    · exact .inl (.inr (.inl hx))
    · rcases hrest x hx with hx | hx | hx
      · exact .inl (.inr (.inr hx))
      · exact .inr (.inl hx)
      · exact .inr (.inr hx)

end Adds

section Acquire

variable {reverse : Bool} {key : List UInt8} {len : Nat}

/-- `bitCheck` of a node's key at a shorter node's length is the bit its bits take there. -/
theorem bitCheck_of_prefix_append {n a : PtreeNode α} {c : Bool}
    (h : n.bits reverse ++ [c] <+: a.bits reverse) : bitCheck a.key n.keyLength reverse = c := by
  have hlen := h.length_le
  simp only [List.length_append, PtreeNode.length_bits, List.length_singleton] at hlen
  rw [← getD_keyBits a.key a.keyLength reverse (by omega), ← PtreeNode.bits_eq,
    ← PtreeNode.length_bits n reverse, getD_length_of_prefix_append h]

/-- `nodeLink` puts a subtree below the link its root's bits take after the node's. -/
theorem nodeLink_of_prefix_bits {node add : PtreeNode α} {c : Bool}
    (h : node.bits reverse ++ [c] <+: add.bits reverse) (left right al ar : BinTree (PtreeNode α)) :
    nodeLink reverse node left right add al ar =
      if c then (left, .node add al ar) else (.node add al ar, right) := by
  rw [nodeLink, bitCheck_of_prefix_append h]

/-- The new node `Acquire` makes at the key: its bits are the key's. -/
@[simp] theorem bits_newPtreeNode :
    ((newPtreeNode key len).addReference : PtreeNode α).bits reverse = keyBits key len reverse :=
  rfl

/-- Past a node short of the key, `Acquire` rebuilds the node over what the walk made of the
link the key's bit names: a new subtree, or a node for that link. -/
theorem acquireTree_walk_node {n : PtreeNode α} {l r : BinTree (PtreeNode α)}
    (hfits : n.keyLength ≤ 8 * n.key.length) (hkey : len ≤ 8 * key.length)
    (hp : n.bits reverse <+: keyBits key len reverse) (he : n.keyLength ≠ len) :
    (bitCheck key n.keyLength reverse = false →
      Trie reverse (n.bits reverse ++ [false]) (acquireTree (acquireWalk reverse key len l)) →
      acquireTree (acquireWalk reverse key len (.node n l r)) =
        .node n (acquireTree (acquireWalk reverse key len l)) r) ∧
    (bitCheck key n.keyLength reverse = true →
      Trie reverse (n.bits reverse ++ [true]) (acquireTree (acquireWalk reverse key len r)) →
      acquireTree (acquireWalk reverse key len (.node n l r)) =
        .node n l (acquireTree (acquireWalk reverse key len r))) := by
  rw [acquireWalk, if_pos ((walk_iff reverse n hfits hkey).2 hp), if_neg he]
  constructor
  · intro hc hT
    rw [hc, if_neg Bool.false_ne_true]
    rcases hw : acquireWalk reverse key len l with l' | ⟨a, al, ar⟩
    · rfl
    · rw [hw] at hT
      simp only [acquireTree, nodeLink_of_prefix_bits hT.root.1, Bool.false_eq_true, ↓reduceIte]
  · intro hc hT
    rw [hc, if_pos rfl]
    rcases hw : acquireWalk reverse key len r with r' | ⟨a, al, ar⟩
    · rfl
    · rw [hw] at hT
      simp only [acquireTree, nodeLink_of_prefix_bits hT.root.1, ↓reduceIte]

/-- `nodeCommon` on bits, for a node off the key: a node with no reference and no item whose bits
are a prefix of both the node's and the key's, shorter than the node's, and after which the two
take different branches unless they end with the key. -/
theorem nodeCommon_bits {n : PtreeNode α} (hoff : ¬n.bits reverse <+: keyBits key len reverse) :
    (nodeCommon n key len).bits reverse <+: n.bits reverse ∧
    (nodeCommon n key len).bits reverse <+: keyBits key len reverse ∧
    (nodeCommon n key len).keyLength < n.keyLength ∧
    ((nodeCommon n key len).keyLength = len ∨
      bitCheck n.key (nodeCommon n key len).keyLength reverse ≠
        bitCheck key (nodeCommon n key len).keyLength reverse) ∧
    (nodeCommon n key len).keyLength ≤ 8 * (nodeCommon n key len).key.length ∧
    (nodeCommon n key len).refcnt = 0 ∧ (nodeCommon n key len).item = none := by
  have hoff' : ¬(n.keyLength ≤ len ∧ ∀ q < n.keyLength, bitAt n.key q = bitAt key q) :=
    fun ⟨hl, hq⟩ => hoff (by rw [PtreeNode.bits_eq, keyBits_prefix_iff _ hl]; exact hq)
  obtain ⟨hle, hlt, hagree, hend, hcfits, hc0, hcnone⟩ := nodeCommon_spec n key len hoff'
  refine ⟨?_, ?_, hlt, ?_, hcfits, hc0, hcnone⟩
  · rw [PtreeNode.bits_eq, PtreeNode.bits_eq, keyBits_prefix_iff _ hlt.le]
    exact fun q hq => (hagree q hq).1
  · rw [PtreeNode.bits_eq, keyBits_prefix_iff _ hle]
    exact fun q hq => (hagree q hq).1.trans (hagree q hq).2
  · rcases hend with hend | hend
    · exact .inl hend
    · refine .inr ?_
      rwa [bitCheck_eq, bitCheck_eq, ne_eq, Bool.xor_left_inj]

/-- `Acquire` at a node off the key: the node at the bits the two share takes its place, with the
node below it on the link of its next bit and, unless the shared node is at the key and takes
the reference itself, a new node at the key on the other link. -/
theorem acquireWalk_off (hkey : len ≤ 8 * key.length) {pre : List Bool} {n : PtreeNode α}
    {l r : BinTree (PtreeNode α)} (ht : Trie reverse pre (.node n l r))
    (hpre : pre <+: keyBits key len reverse) (hoff : ¬n.bits reverse <+: keyBits key len reverse) :
    Trie reverse pre (acquireTree (acquireWalk reverse key len (.node n l r))) ∧
      Adds reverse (keyBits key len reverse) (.node n l r)
        (acquireTree (acquireWalk reverse key len (.node n l r))) := by
  obtain ⟨hpn, hfits⟩ := ht.root
  obtain ⟨hcn, hcb, hlt, hend, hcfits, hc0, hcnone⟩ := nodeCommon_bits hoff
  rw [acquireWalk, if_neg (mt (walk_iff reverse n hfits hkey).1 hoff)]
  generalize nodeCommon n key len = c at hcn hcb hlt hend hcfits hc0 hcnone ⊢
  have hplen : pre.length ≤ len := by simpa using hpre.length_le
  -- the shared bits extend the bound: the node and the key agree with it below its length
  have hpc : pre <+: c.bits reverse := by
    refine List.prefix_of_prefix_length_le hpre hcb ?_
    by_contra hshort
    have hshort' : c.keyLength < pre.length := by simpa using hshort
    rcases hend with hcl | hne
    · omega
    · apply hne
      rw [← n.getD_bits reverse hlt, getD_of_prefix_of_lt hpn hshort', ← getD_of_prefix_of_lt hpre hshort',
        getD_keyBits _ _ _ (by omega)]
  have hN : Trie reverse (c.bits reverse ++ [bitCheck n.key c.keyLength reverse]) (.node n l r) := by
    refine Trie.node ?_ hfits ht.left ht.right
    have h := prefix_append_getD hcn (by simpa using hlt)
    rwa [PtreeNode.length_bits, n.getD_bits reverse hlt] at h
  by_cases hcl : c.keyLength = len
  · -- the shared node is at the key: it takes the reference, with the node on one link
    have hcb' : c.bits reverse = keyBits key len reverse := hcb.eq_of_length (by simp [hcl])
    have hadd : Adds reverse (keyBits key len reverse) (.node n l r)
        (.node c.addReference (.node n l r) .nil) ∧
        Adds reverse (keyBits key len reverse) (.node n l r)
          (.node c.addReference .nil (.node n l r)) := by
      constructor <;> refine ⟨fun x hx => by simp only [preorder_node] at hx ⊢; simp [hx],
        c.addReference, by simp, by simp [hcb'],
        by simp [PtreeNode.addReference, hc0], hcnone, fun x hx => ?_⟩ <;>
      · rw [preorder_node, preorder_nil, List.mem_cons] at hx
        rcases hx with rfl | hx
        · exact .inr (.inl rfl)
        · exact .inl (by simpa using hx)
    have hcl' : ¬c.keyLength ≠ len := not_not.2 hcl
    cases hs : bitCheck n.key c.keyLength reverse <;>
      simp only [nodeLink, hs, hcl', Bool.false_eq_true, ↓reduceIte, acquireTree] <;> rw [hs] at hN
    · exact ⟨Trie.node hpc hcfits hN Trie.nil, hadd.1⟩
    · exact ⟨Trie.node hpc hcfits Trie.nil hN, hadd.2⟩
  · -- otherwise the node and a new node at the key go below it, on the links they differ on
    have hclt : c.keyLength < len := lt_of_le_of_ne (by simpa using hcb.length_le) hcl
    have hK : Trie reverse (c.bits reverse ++ [bitCheck key c.keyLength reverse])
        (.node (newPtreeNode key len : PtreeNode α).addReference .nil .nil) := by
      refine Trie.node ?_ hkey Trie.nil Trie.nil
      have h := prefix_append_getD hcb (by simpa using hclt)
      rwa [PtreeNode.length_bits, getD_keyBits _ _ _ hclt] at h
    have hne := hend.resolve_left hcl
    have hadd : ∀ L R : BinTree (PtreeNode α),
        (L = .node n l r ∧ R = .node (newPtreeNode key len : PtreeNode α).addReference .nil .nil) ∨
        (R = .node n l r ∧ L = .node (newPtreeNode key len : PtreeNode α).addReference .nil .nil) →
        Adds reverse (keyBits key len reverse) (.node n l r) (.node c L R) := by
      rintro L R (⟨rfl, rfl⟩ | ⟨rfl, rfl⟩) <;>
        refine ⟨fun x hx => by simp only [preorder_node, List.mem_cons, List.mem_append] at hx ⊢; tauto,
          (newPtreeNode key len).addReference, by simp, rfl, rfl,
          rfl, fun x hx => ?_⟩ <;>
      · rw [preorder_node, List.mem_cons, List.mem_append] at hx
        rcases hx with rfl | hx | hx
        · exact .inr (.inr ⟨hc0, hcnone⟩)
        · first | exact .inl hx | exact .inr (.inl (by simpa using hx))
        · first | exact .inl hx | exact .inr (.inl (by simpa using hx))
    cases hs : bitCheck n.key c.keyLength reverse <;>
      cases hk : bitCheck key c.keyLength reverse <;>
      simp only [nodeLink, hs, hk, hcl, ne_eq, not_false_eq_true, Bool.false_eq_true, ↓reduceIte,
        PtreeNode.key_addReference, key_newPtreeNode, acquireTree] <;> rw [hs] at hN <;> rw [hk] at hK
    · exact absurd (hs.trans hk.symm) hne
    · exact ⟨Trie.node hpc hcfits hN hK, hadd _ _ (.inl ⟨rfl, rfl⟩)⟩
    · exact ⟨Trie.node hpc hcfits hK hN, hadd _ _ (.inr ⟨rfl, rfl⟩)⟩
    · exact absurd (hs.trans hk.symm) hne

/-- `Acquire` where no node is at the key: the tree stays a trie, and gains a node at the key with
one reference and no item, besides only nodes with no reference and no item. -/
theorem acquireWalk_adds (hkey : len ≤ 8 * key.length) {pre : List Bool}
    {t : BinTree (PtreeNode α)} (ht : Trie reverse pre t) (hpre : pre <+: keyBits key len reverse)
    (hnot : ∀ x ∈ t.preorder, x.bits reverse ≠ keyBits key len reverse) :
    Trie reverse pre (acquireTree (acquireWalk reverse key len t)) ∧
      Adds reverse (keyBits key len reverse) t (acquireTree (acquireWalk reverse key len t)) := by
  induction t generalizing pre with
  | nil =>
    -- a new node at the key
    refine ⟨Trie.node hpre hkey Trie.nil Trie.nil, fun x hx => by simp at hx,
      (newPtreeNode key len).addReference, by simp [acquireWalk, acquireTree], rfl, rfl, rfl,
      fun x hx => .inr (.inl (by simpa [acquireWalk, acquireTree] using hx))⟩
  | node n l r ihl ihr =>
    obtain ⟨hpn, hfits⟩ := ht.root
    by_cases hp : n.bits reverse <+: keyBits key len reverse
    · -- the walk passes the node, which is not at the key, to the key's branch
      have he : n.keyLength ≠ len := fun he => hnot n (by simp) ((keyLength_eq_iff hp).1 he)
      have hside := prefix_append_branch hp he
      obtain ⟨hleft, hright⟩ := acquireTree_walk_node hfits hkey hp he (l := l) (r := r)
      cases hc : bitCheck key n.keyLength reverse
      · rw [hc] at hside
        obtain ⟨hT, hA⟩ := ihl ht.left hside fun x hx => hnot x (by simp [hx])
        rw [hleft hc hT]
        exact ⟨Trie.node hpn hfits hT ht.right, hA.node_left⟩
      · rw [hc] at hside
        obtain ⟨hT, hA⟩ := ihr ht.right hside fun x hx => hnot x (by simp [hx])
        rw [hright hc hT]
        exact ⟨Trie.node hpn hfits ht.left hT, hA.node_right⟩
    · exact acquireWalk_off hkey ht hpre hp

end Acquire

/-! ### `Release` -/

section Release

variable {reverse : Bool} {key : List UInt8} {len : Nat}

@[simp] theorem nodeRemove_nil_left (n : PtreeNode α) (r : BinTree (PtreeNode α)) :
    nodeRemove n .nil r = (r, true) := rfl

@[simp] theorem nodeRemove_nil_right (n a : PtreeNode α) (al ar : BinTree (PtreeNode α)) :
    nodeRemove n (.node a al ar) .nil = (.node a al ar, true) := rfl

/-- `nodeRemove` keeps the tree a trie and adds no node, and where the node holds no reference
the nodes holding one are the same. -/
theorem nodeRemove_spec {pre : List Bool} {n : PtreeNode α} {l r : BinTree (PtreeNode α)}
    (ht : Trie reverse pre (.node n l r)) :
    Trie reverse pre (nodeRemove n l r).1 ∧
      (∀ x ∈ (nodeRemove n l r).1.preorder, x ∈ (BinTree.node n l r).preorder) ∧
      (n.refcnt = 0 → heldNodes (nodeRemove n l r).1 = heldNodes (.node n l r)) := by
  obtain ⟨hpn, -⟩ := ht.root
  -- a child that takes the node's place is a trie below the node's own bound
  have hl := ht.left.mono (hpn.trans (List.prefix_append _ _))
  have hr := ht.right.mono (hpn.trans (List.prefix_append _ _))
  cases l with
  | nil => exact ⟨hr, fun x hx => by simp_all, fun h0 => by simp [heldNodes_node, h0]⟩
  | node a al ar =>
    cases r with
    | nil => exact ⟨hl, fun x hx => by simp_all, fun h0 => by simp [heldNodes_node, h0]⟩
    | node c cl cr => exact ⟨ht, fun x hx => hx, fun _ => rfl⟩

/-- The step that ends each level of `Release`: `nodeRemove` of a node with no reference, or the
node kept as it is. -/
theorem ite_nodeRemove_spec {pre : List Bool} {n : PtreeNode α} {l r : BinTree (PtreeNode α)}
    {p : Prop} [Decidable p] (ht : Trie reverse pre (.node n l r)) (hp : p → n.refcnt = 0) :
    Trie reverse pre (if p then nodeRemove n l r else (.node n l r, false)).1 ∧
      (∀ x ∈ (if p then nodeRemove n l r else (.node n l r, false)).1.preorder,
        x ∈ (BinTree.node n l r).preorder) ∧
      heldNodes (if p then nodeRemove n l r else (.node n l r, false)).1 =
        heldNodes (.node n l r) := by
  by_cases h : p
  · obtain ⟨hT, hmem, hheld⟩ := nodeRemove_spec ht
    rw [if_pos h]
    exact ⟨hT, hmem, hheld (hp h)⟩
  · rw [if_neg h]
    exact ⟨ht, fun x hx => hx, rfl⟩

/-- `Release`: the tree stays a trie, and its nodes are those of the tree with one reference fewer
on the node at the key, less some that hold no reference. -/
theorem releaseWalk_spec (hkey : len ≤ 8 * key.length) {pre : List Bool}
    {t : BinTree (PtreeNode α)} (ht : Trie reverse pre t) :
    Trie reverse pre (releaseWalk reverse key len t).1 ∧
      (∀ x ∈ (releaseWalk reverse key len t).1.preorder,
        x ∈ (t.map (updateAtBits reverse (keyBits key len reverse)
          PtreeNode.delReference)).preorder) ∧
      heldNodes (releaseWalk reverse key len t).1 =
        heldNodes (t.map (updateAtBits reverse (keyBits key len reverse) PtreeNode.delReference)) := by
  induction t generalizing pre with
  | nil => exact ⟨Trie.nil, fun x hx => hx, rfl⟩
  | node n l r ihl ihr =>
    obtain ⟨hpn, hfits⟩ := ht.root
    rw [releaseWalk, map_node]
    by_cases hp : n.bits reverse <+: keyBits key len reverse
    · rw [if_pos ((walk_iff reverse n hfits hkey).2 hp)]
      by_cases he : n.keyLength = len
      · -- the node at the key loses a reference, and goes if it has none left and a link free
        have hb := (keyLength_eq_iff hp).1 he
        rw [if_pos he, ht.left.map_updateAtBits (not_prefix_below hb _),
          ht.right.map_updateAtBits (not_prefix_below hb _), updateAtBits, if_pos hb]
        exact ite_nodeRemove_spec (Trie.node (by simpa using hpn) hfits ht.left ht.right) id
      · have hb : n.bits reverse ≠ keyBits key len reverse := mt (keyLength_eq_iff hp).2 he
        have hno := not_prefix_other_branch hp he
        rw [if_neg he, updateAtBits, if_neg hb]
        -- below the key's branch, then the node itself if it holds no reference
        cases hc : bitCheck key n.keyLength reverse
        · rw [if_neg Bool.false_ne_true, ht.right.map_updateAtBits (by simpa [hc] using hno)]
          obtain ⟨hT, hmem, hheld⟩ := ihl ht.left
          rcases hR : releaseWalk reverse key len l with ⟨l', removed⟩
          rw [hR] at hT hmem hheld
          obtain ⟨hT', hmem', hheld'⟩ :=
            ite_nodeRemove_spec (p := removed = true ∧ n.refcnt = 0)
              (Trie.node hpn hfits hT ht.right) And.right
          refine ⟨hT', fun x hx => ?_, by rw [hheld', heldNodes_node, heldNodes_node, hheld]⟩
          have hx := hmem' x hx
          simp only [preorder_node, List.mem_cons, List.mem_append] at hx ⊢
          rcases hx with hx | hx | hx
          · exact .inl hx
          · exact .inr (.inl (hmem x hx))
          · exact .inr (.inr hx)
        · rw [if_pos rfl, ht.left.map_updateAtBits (by simpa [hc] using hno)]
          obtain ⟨hT, hmem, hheld⟩ := ihr ht.right
          rcases hR : releaseWalk reverse key len r with ⟨r', removed⟩
          rw [hR] at hT hmem hheld
          obtain ⟨hT', hmem', hheld'⟩ :=
            ite_nodeRemove_spec (p := removed = true ∧ n.refcnt = 0)
              (Trie.node hpn hfits ht.left hT) And.right
          refine ⟨hT', fun x hx => ?_, by rw [hheld', heldNodes_node, heldNodes_node, hheld]⟩
          have hx := hmem' x hx
          simp only [preorder_node, List.mem_cons, List.mem_append] at hx ⊢
          rcases hx with hx | hx | hx
          · exact .inl hx
          · exact .inr (.inl hx)
          · exact .inr (.inr (hmem x hx))
    · -- off the key, nothing changes
      have hb : n.bits reverse ≠ keyBits key len reverse := fun hb => hp (hb ▸ List.prefix_refl _)
      rw [if_neg (mt (walk_iff reverse n hfits hkey).1 hp), updateAtBits, if_neg hb,
        ht.left.map_updateAtBits (not_prefix_append hp _),
        ht.right.map_updateAtBits (not_prefix_append hp _)]
      exact ⟨ht, fun x hx => hx, rfl⟩

end Release

end Linked

end Zebra.Netutil
