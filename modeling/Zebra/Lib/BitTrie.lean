import Mathlib.Data.List.Lex
import Mathlib.Data.Bool.Basic
import Mathlib.Data.List.MinMax
import Mathlib.Data.List.Sort

/-!
# Binary tries over bit strings

A binary tree whose nodes carry bit strings as labels is a trie when every label extends the bit
string its place in the tree stands for: the whole tree's for the root, and for a left or right
child its parent's label followed by `false` or `true` (`Labelled`).  Three facts about such a
tree.  Its preorder walk lists the labels in lexicographic order, a parent before its children
and the `false` branch before the `true` one (`Labelled.pairwise`).  The walk from the root that
follows the bits of a string `b` meets exactly the nodes whose labels are prefixes of `b`, in
preorder (`Labelled.path_eq_filter`).  And two lists strictly ordered by a key that have the
same elements are equal (`eq_of_pairwise_lex_of_mem_iff`): that is how a walk of a trie is
compared with a sorted list.

Nothing here is specific to the program.
-/

namespace Zebra.Lib

section Lex

variable {a b p : List Bool}

/-- A bit string comes before its extensions. -/
theorem lex_lt_of_prefix_append {c : Bool} (h : p ++ [c] <+: a) : List.Lex (· < ·) p a := by
  obtain ⟨s, rfl⟩ := h
  simpa using List.Lex.append_left (· < ·) (List.Lex.nil (a := c) (l := s)) p

/-- Strings through the `false` branch after `p` come before those through the `true` one. -/
theorem lex_lt_of_branch (ha : p ++ [false] <+: a) (hb : p ++ [true] <+: b) :
    List.Lex (· < ·) a b := by
  obtain ⟨s, rfl⟩ := ha
  obtain ⟨t, rfl⟩ := hb
  have h : List.Lex (· < ·) (false :: s) (true :: t) := List.Lex.rel (by decide)
  simpa using List.Lex.append_left (· < ·) h p

/-- The bit after `p` of a string that extends `p ++ [c]` is `c`. -/
theorem getD_length_of_prefix_append {c : Bool} (h : p ++ [c] <+: b) : b.getD p.length false = c := by
  obtain ⟨s, rfl⟩ := h
  simp

/-- A prefix of a longer string, followed by that string's next bit, is still a prefix of it. -/
theorem prefix_append_getD (h : p <+: a) (hlen : p.length < a.length) :
    p ++ [a.getD p.length false] <+: a := by
  obtain ⟨s, rfl⟩ := h
  cases s with
  | nil => simp at hlen
  | cons c s => exact ⟨s, by simp⟩

/-- A string and its prefix agree below the prefix's length. -/
theorem getD_of_prefix_of_lt (h : p <+: a) {i : Nat} (hi : i < p.length) :
    a.getD i false = p.getD i false := by
  obtain ⟨s, rfl⟩ := h
  simp [List.getElem?_append_left hi]

/-- Of two prefixes of one string, the one first in lexicographic order is the shorter. -/
theorem length_lt_of_lex_of_prefixes (ha : a <+: b) (hc : p <+: b) (h : List.Lex (· < ·) a p) :
    a.length < p.length := by
  rcases List.prefix_or_prefix_of_prefix ha hc with hap | hpa
  · rcases Nat.lt_or_ge a.length p.length with hlt | hge
    · exact hlt
    · have := hap.eq_of_length (le_antisymm hap.length_le hge)
      subst this
      exact absurd h (irrefl_of (List.Lex (· < ·)) a)
  · -- a proper prefix comes first, so `p` cannot be a prefix of `a`
    obtain ⟨s, rfl⟩ := hpa
    cases s with
    | nil => simp at h
    | cons c s =>
      have hp : List.Lex (· < ·) p (p ++ c :: s) := by
        simpa using List.Lex.append_left (· < ·) (List.Lex.nil (a := c) (l := s)) p
      exact absurd h (asymm_of (List.Lex (· < ·)) hp)

/-- Two lists strictly ordered by a key, with the same elements, are equal. -/
theorem eq_of_pairwise_lex_of_mem_iff {γ : Type} (key : γ → List Bool) {l l' : List γ}
    (h : l.Pairwise fun x y => List.Lex (· < ·) (key x) (key y))
    (h' : l'.Pairwise fun x y => List.Lex (· < ·) (key x) (key y))
    (hmem : ∀ x, x ∈ l ↔ x ∈ l') : l = l' := by
  have hirr : ∀ {x y : γ}, List.Lex (· < ·) (key x) (key y) → x ≠ y := fun hxy hxy' => by
    subst hxy'
    exact irrefl_of (List.Lex (· < ·)) _ hxy
  have hperm := (List.perm_ext_iff_of_nodup (h.imp hirr) (h'.imp hirr)).2 hmem
  exact hperm.eq_of_pairwise (fun _ _ _ _ hxy hyx => absurd hyx (asymm_of _ hxy)) h h'

section Keyed

variable {γ : Type} (key : γ → List Bool)

/-- In a list strictly ordered by a key, an element is the only one with its key. -/
theorem eq_of_pairwise_lex_of_key_eq {l : List γ}
    (h : l.Pairwise fun x y => List.Lex (· < ·) (key x) (key y)) {x y : γ} (hx : x ∈ l)
    (hy : y ∈ l) (hxy : key x = key y) : x = y := by
  induction l with
  | nil => simp at hx
  | cons z l ih =>
    rw [List.pairwise_cons] at h
    simp only [List.mem_cons] at hx hy
    rcases hx with rfl | hx <;> rcases hy with rfl | hy
    · rfl
    · exact absurd (hxy ▸ h.1 y hy) (irrefl_of (List.Lex (· < ·)) _)
    · exact absurd (hxy ▸ h.1 x hx) (irrefl_of (List.Lex (· < ·)) _)
    · exact ih h.2 hx hy

/-- Inserting by a relation that is "same key or lexicographically before" keeps a list strictly
ordered by its key, when the new key is not in it. -/
theorem pairwise_orderedInsert (r : γ → γ → Prop) [DecidableRel r]
    (hr : ∀ x y, r x y ↔ key x = key y ∨ List.Lex (· < ·) (key x) (key y)) (a : γ) :
    ∀ {l : List γ}, l.Pairwise (fun x y => List.Lex (· < ·) (key x) (key y)) →
      (∀ x ∈ l, key x ≠ key a) →
      (l.orderedInsert r a).Pairwise fun x y => List.Lex (· < ·) (key x) (key y)
  | [], _, _ => List.pairwise_singleton _ a
  | b :: l, h, ha => by
    rw [List.pairwise_cons] at h
    rw [List.orderedInsert_cons]
    by_cases hab : r a b
    · -- the new element goes first: it comes before `b`, and so before all that follows `b`
      have hlt : List.Lex (· < ·) (key a) (key b) :=
        ((hr a b).1 hab).resolve_left fun he => ha b (by simp) he.symm
      rw [if_pos hab, List.pairwise_cons, List.pairwise_cons]
      refine ⟨fun y hy => ?_, h⟩
      rcases List.mem_cons.1 hy with rfl | hy
      · exact hlt
      · exact lt_trans (α := List Bool) hlt (h.1 y hy)
    · -- otherwise `b` comes before it, and before all the rest
      have hlt : List.Lex (· < ·) (key b) (key a) := by
        rcases trichotomous_of (List.Lex (· < ·)) (key a) (key b) with hl | he | hl
        · exact absurd ((hr a b).2 (.inr hl)) hab
        · exact absurd ((hr a b).2 (.inl he)) hab
        · exact hl
      rw [if_neg hab, List.pairwise_cons]
      refine ⟨fun y hy => ?_, pairwise_orderedInsert r hr a h.2 fun x hx => ha x (by simp [hx])⟩
      rcases (List.mem_orderedInsert r).1 hy with rfl | hy
      · exact hlt
      · exact h.1 y hy

end Keyed

/-- In a list along which `f` strictly grows, the last element is the one of largest `f`. -/
theorem argmax_eq_getLast? {γ : Type} {f : γ → Nat} {l : List γ}
    (h : l.Pairwise fun x y => f x < f y) : l.argmax f = l.getLast? := by
  induction l using List.reverseRecOn with
  | nil => rfl
  | append_singleton l a ih =>
    rw [List.pairwise_append] at h
    obtain ⟨hl, -, hla⟩ := h
    rw [List.argmax_concat, ih hl, List.getLast?_concat]
    cases hlast : l.getLast? with
    | none => rfl
    | some c => simp [hla c (List.mem_of_getLast? hlast) a (List.mem_singleton_self a)]

/-- In a list along which `f` strictly grows, the last element is the one whose `f` is at least
every other's. -/
theorem getLast?_eq_some_iff_of_pairwise {γ : Type} {f : γ → Nat} {l : List γ}
    (h : l.Pairwise fun x y => f x < f y) {m : γ} :
    l.getLast? = some m ↔ m ∈ l ∧ ∀ x ∈ l, f x ≤ f m := by
  induction l using List.reverseRecOn with
  | nil => simp
  | append_singleton l a ih =>
    rw [List.pairwise_append] at h
    obtain ⟨-, -, hla⟩ := h
    have hlt : ∀ x ∈ l, f x < f a := fun x hx => hla x hx a (List.mem_singleton_self a)
    rw [List.getLast?_concat, Option.some.injEq]
    constructor
    · rintro rfl
      refine ⟨by simp, fun x hx => ?_⟩
      rcases List.mem_append.1 hx with hx | hx
      · exact (hlt x hx).le
      · rw [List.mem_singleton.1 hx]
    · rintro ⟨hm, hmax⟩
      -- an element before the last is below it
      rcases List.mem_append.1 hm with hm | hm
      · exact absurd (hmax a (by simp)) (Nat.not_le.2 (hlt m hm))
      · exact (List.mem_singleton.1 hm).symm

end Lex

/-- A binary tree with a value at each node. -/
inductive BinTree (β : Type) where
  | nil
  | node (x : β) (left right : BinTree β)
deriving Repr

namespace BinTree

variable {β : Type}

/-- The nodes, each before its left subtree and that before its right subtree. -/
def preorder : BinTree β → List β
  | nil => []
  | node x l r => x :: (l.preorder ++ r.preorder)

theorem node_ne_nil (x : β) (l r : BinTree β) : node x l r ≠ nil :=
  fun h => by cases h

@[simp] theorem preorder_nil : (nil : BinTree β).preorder = [] := rfl

@[simp] theorem preorder_node (x : β) (l r : BinTree β) :
    (node x l r).preorder = x :: (l.preorder ++ r.preorder) := rfl

/-- The tree with `f` applied at every node. -/
def map (f : β → β) : BinTree β → BinTree β
  | nil => nil
  | node x l r => node (f x) (l.map f) (r.map f)

@[simp] theorem map_nil (f : β → β) : (nil : BinTree β).map f = nil := rfl

@[simp] theorem map_node (f : β → β) (x : β) (l r : BinTree β) :
    (node x l r).map f = node (f x) (l.map f) (r.map f) := rfl

@[simp] theorem preorder_map (f : β → β) (t : BinTree β) :
    (t.map f).preorder = t.preorder.map f := by
  induction t with
  | nil => rfl
  | node x l r ihl ihr => simp [ihl, ihr]

/-- A map that fixes every node leaves the tree as it is. -/
theorem map_eq_self {f : β → β} {t : BinTree β} (h : ∀ x ∈ t.preorder, f x = x) : t.map f = t := by
  induction t with
  | nil => rfl
  | node x l r ihl ihr =>
    simp only [preorder_node, List.mem_cons, List.mem_append] at h
    rw [map_node, h x (.inl rfl), ihl fun y hy => h y (.inr (.inl hy)),
      ihr fun y hy => h y (.inr (.inr hy))]

section Labelled

variable (lbl : β → List Bool)

/-- The tree is a trie for the labels `lbl` below the bit string `pre`: every label extends
`pre`, and the labels of a node's left and right subtrees extend its own followed by `false`
and by `true`. -/
def Labelled : List Bool → BinTree β → Prop
  | _, nil => True
  | pre, node x l r =>
    pre <+: lbl x ∧ Labelled (lbl x ++ [false]) l ∧ Labelled (lbl x ++ [true]) r

/-- The walk from the root towards the bit string `b`: past a node whose label is a prefix of
`b`, on to the subtree of the bit of `b` after the label (the left one past the end of `b`);
the walk stops at a node whose label is not a prefix of `b`. -/
def path (b : List Bool) : BinTree β → List β
  | nil => []
  | node x l r =>
    if lbl x <+: b then x :: (if b.getD (lbl x).length false then r.path b else l.path b)
    else []

@[simp] theorem labelled_nil (pre : List Bool) : Labelled lbl pre nil := trivial

@[simp] theorem labelled_node (pre : List Bool) (x : β) (l r : BinTree β) :
    Labelled lbl pre (node x l r) ↔
      pre <+: lbl x ∧ Labelled lbl (lbl x ++ [false]) l ∧ Labelled lbl (lbl x ++ [true]) r :=
  Iff.rfl

variable {lbl} {pre pre' : List Bool} {t : BinTree β}

theorem Labelled.prefix_of_mem (h : Labelled lbl pre t) {x : β} (hx : x ∈ t.preorder) :
    pre <+: lbl x := by
  induction t generalizing pre with
  | nil => simp at hx
  | node y l r ihl ihr =>
    obtain ⟨hy, hl, hr⟩ := h
    rw [preorder_node, List.mem_cons, List.mem_append] at hx
    rcases hx with rfl | hx | hx
    · exact hy
    · exact hy.trans ((List.prefix_append _ _).trans (ihl hl hx))
    · exact hy.trans ((List.prefix_append _ _).trans (ihr hr hx))

theorem Labelled.mono (hp : pre' <+: pre) (h : Labelled lbl pre t) : Labelled lbl pre' t := by
  cases t with
  | nil => trivial
  | node x l r => exact ⟨hp.trans h.1, h.2⟩

/-- A map that keeps every label keeps the tree a trie. -/
theorem Labelled.map {f : β → β} (hf : ∀ x, lbl (f x) = lbl x) (h : Labelled lbl pre t) :
    Labelled lbl pre (t.map f) := by
  induction t generalizing pre with
  | nil => trivial
  | node x l r ihl ihr =>
    obtain ⟨hx, hl, hr⟩ := h
    exact ⟨hf x ▸ hx, hf x ▸ ihl hl, hf x ▸ ihr hr⟩

/-- The preorder walk of a trie lists its labels in strictly increasing lexicographic order. -/
theorem Labelled.pairwise (h : Labelled lbl pre t) :
    t.preorder.Pairwise fun x y => List.Lex (· < ·) (lbl x) (lbl y) := by
  induction t generalizing pre with
  | nil => simp
  | node x l r ihl ihr =>
    obtain ⟨-, hl, hr⟩ := h
    rw [preorder_node, List.pairwise_cons, List.pairwise_append]
    refine ⟨fun y hy => ?_, ihl hl, ihr hr, fun y hy z hz => ?_⟩
    · -- a node comes before every node below it
      rw [List.mem_append] at hy
      rcases hy with hy | hy
      · exact lex_lt_of_prefix_append (hl.prefix_of_mem hy)
      · exact lex_lt_of_prefix_append (hr.prefix_of_mem hy)
    · -- and the left subtree before the right one
      exact lex_lt_of_branch (hl.prefix_of_mem hy) (hr.prefix_of_mem hz)

/-- No label of a trie below a string that is not a prefix of `b` is a prefix of `b`. -/
theorem Labelled.filter_eq_nil (h : Labelled lbl pre t) (hb : ¬pre <+: b) :
    t.preorder.filter (fun x => lbl x <+: b) = [] :=
  List.filter_eq_nil_iff.2 fun _ hx hxb => hb ((h.prefix_of_mem hx).trans (of_decide_eq_true hxb))

/-- The walk towards `b` meets exactly the nodes whose labels are prefixes of `b`, in
preorder. -/
theorem Labelled.path_eq_filter (h : Labelled lbl pre t) (b : List Bool) :
    t.path lbl b = t.preorder.filter fun x => lbl x <+: b := by
  induction t generalizing pre with
  | nil => rfl
  | node x l r ihl ihr =>
    obtain ⟨-, hl, hr⟩ := h
    rw [path, preorder_node, List.filter_cons, List.filter_append]
    by_cases hx : lbl x <+: b
    · rw [if_pos hx, if_pos (decide_eq_true hx)]
      -- the walk takes the branch of the next bit of `b`; no label on the other one is a prefix
      cases hbit : b.getD (lbl x).length false
      · have hno : ¬lbl x ++ [true] <+: b := fun hb => by
          rw [getD_length_of_prefix_append hb] at hbit
          cases hbit
        rw [if_neg Bool.false_ne_true, ihl hl, hr.filter_eq_nil hno, List.append_nil]
      · have hno : ¬lbl x ++ [false] <+: b := fun hb => by
          rw [getD_length_of_prefix_append hb] at hbit
          cases hbit
        rw [if_pos rfl, ihr hr, hl.filter_eq_nil hno, List.nil_append]
    · -- every label below extends the node's, so none is a prefix of `b` either
      rw [if_neg hx, if_neg (by simpa using hx),
        hl.filter_eq_nil (fun hb => hx ((List.prefix_append _ _).trans hb)),
        hr.filter_eq_nil (fun hb => hx ((List.prefix_append _ _).trans hb))]
      rfl

end Labelled

section Branching

variable (p : β → Bool)

/-- Every node that `p` does not mark has both subtrees: the unmarked nodes are there only to
branch. -/
def Branching : BinTree β → Prop
  | nil => True
  | node x l r => (p x = false → l ≠ nil ∧ r ≠ nil) ∧ Branching l ∧ Branching r

@[simp] theorem branching_nil : Branching p (nil : BinTree β) := trivial

@[simp] theorem branching_node (x : β) (l r : BinTree β) :
    Branching p (node x l r) ↔
      (p x = false → l ≠ nil ∧ r ≠ nil) ∧ Branching p l ∧ Branching p r :=
  Iff.rfl

variable {p} {t : BinTree β}

@[simp] theorem map_eq_nil_iff {f : β → β} : t.map f = nil ↔ t = nil := by
  cases t <;> simp

theorem length_preorder_pos (h : t ≠ nil) : 0 < t.preorder.length := by
  cases t with
  | nil => exact absurd rfl h
  | node x l r => simp

/-- A map that keeps the marks keeps the tree branching. -/
theorem Branching.map {f : β → β} (hf : ∀ x, p (f x) = p x) (h : Branching p t) :
    Branching p (t.map f) := by
  induction t with
  | nil => trivial
  | node x l r ihl ihr =>
    obtain ⟨hx, hl, hr⟩ := h
    refine ⟨fun hfx => ?_, ihl hl, ihr hr⟩
    obtain ⟨hln, hrn⟩ := hx (by rwa [hf] at hfx)
    exact ⟨by simpa using hln, by simpa using hrn⟩

/-- A tree whose unmarked nodes all branch has fewer than twice as many nodes as marked ones. -/
theorem Branching.length_preorder_le (h : Branching p t) :
    t.preorder.length ≤ 2 * (t.preorder.filter p).length - 1 := by
  induction t with
  | nil => simp
  | node x l r ihl ihr =>
    obtain ⟨hx, hl, hr⟩ := h
    have hsl := ihl hl
    have hsr := ihr hr
    cases hpx : p x
    · -- an unmarked node has two subtrees, each with a marked node of its own
      obtain ⟨hln, hrn⟩ := hx hpx
      have hl0 := length_preorder_pos hln
      have hr0 := length_preorder_pos hrn
      simp only [preorder_node, List.filter_cons, hpx, Bool.false_eq_true, ↓reduceIte,
        List.filter_append, List.length_cons, List.length_append]
      omega
    · simp only [preorder_node, List.filter_cons, hpx, ↓reduceIte, List.filter_append,
        List.length_cons, List.length_append]
      omega

end Branching

end BinTree

end Zebra.Lib
