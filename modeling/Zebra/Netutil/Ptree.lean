import Zebra.Netutil.Prefix
import Mathlib.Data.List.Sort
import Mathlib.Data.List.MinMax

/-!
# The reference-counted prefix tree of `ptree.go`

`Ptree` is a Patricia trie whose nodes carry a reference count and an item.  `Acquire`
adds a reference, creating the node at a new key; `Release` drops one and unlinks the node
when none is left; `Lookup` returns the node at a key only while it holds a reference;
`Match` returns the longest such node whose key covers an address; `Top` and `Next` visit
the nodes that hold an item, parents before children and the `0` branch before the `1`
branch (the reverse in a tree ordered in reverse).

We keep the nodes that hold a reference as a list in that visiting order and drop the
branch nodes the trie adds for its own shape: those hold neither a reference nor an item,
so no operation below can observe them.
-/

namespace Zebra.Netutil

/-- A node of the tree: the key it was created with, its length, its reference count and its
item (`Item`, `nil` as `none`). -/
structure PtreeNode (α : Type) where
  key : List UInt8
  keyLength : Nat
  refcnt : Nat
  item : Option α
deriving Repr

/-- `Ptree`: its width, its order and the nodes holding a reference, in visiting order. -/
structure Ptree (α : Type) where
  maxKeyBits : Nat
  reverse : Bool
  nodes : List (PtreeNode α)
deriving Repr

variable {α : Type}

namespace PtreeNode

/-- The node stands at `(key, len)`: it has that length and its first `len` bits are those
of `key`, the test `Acquire` and `Lookup` stop at. -/
def isAt (n : PtreeNode α) (key : List UInt8) (len : Nat) : Bool :=
  n.keyLength == len && keyMatch n.key len key len

/-- Apply `f` to the node if it stands at `(key, len)`. -/
def updateAt (key : List UInt8) (len : Nat) (f : PtreeNode α → PtreeNode α) (n : PtreeNode α) :
    PtreeNode α :=
  if n.isAt key len then f n else n

/-- `addReference`. -/
def addReference (n : PtreeNode α) : PtreeNode α := { n with refcnt := n.refcnt + 1 }

/-- `delReference`, before the unlinking at zero: the count never goes below zero. -/
def delReference (n : PtreeNode α) : PtreeNode α := { n with refcnt := n.refcnt - 1 }

/-- The branch bits of the node's key, as `bitCheck` reads them. -/
def bits (n : PtreeNode α) (reverse : Bool) : List Bool :=
  (List.range n.keyLength).map fun i => bitCheck n.key i reverse

end PtreeNode

/-- Preorder on branch bits: a key before its extensions, the `false` branch first. -/
def bitsLe : List Bool → List Bool → Bool
  | [], _ => true
  | _ :: _, [] => false
  | x :: xs, y :: ys => if x == y then bitsLe xs ys else (!x && y)

namespace Ptree

/-- `NewPtree(maxKeyBits)`. -/
def empty (maxKeyBits : Nat) (reverse : Bool := false) : Ptree α :=
  { maxKeyBits, reverse, nodes := [] }

/-- `Acquire`: `nil` (here `none`) past the width; otherwise one more reference on the node at
the key, created in its visiting position with no item when there is none. -/
def acquire (t : Ptree α) (key : List UInt8) (len : Nat) : Option (Ptree α) :=
  if t.maxKeyBits < len then none
  else if t.nodes.any (·.isAt key len) then
    some { t with nodes := t.nodes.map (PtreeNode.updateAt key len PtreeNode.addReference) }
  else
    let add : PtreeNode α := { key, keyLength := len, refcnt := 1, item := none }
    some { t with nodes := t.nodes.orderedInsert (fun a b => bitsLe (a.bits t.reverse)
                                                                  (b.bits t.reverse)) add }

/-- `Release`: one reference fewer on the node at the key, which is unlinked at zero. -/
def release (t : Ptree α) (key : List UInt8) (len : Nat) : Ptree α :=
  let nodes := t.nodes.map (PtreeNode.updateAt key len PtreeNode.delReference)
  { t with nodes := nodes.filter fun n => !(n.isAt key len && n.refcnt == 0) }

/-- `Lookup`: the node at the key while it holds a reference. -/
def lookup (t : Ptree α) (key : List UInt8) (len : Nat) : Option (PtreeNode α) :=
  if t.maxKeyBits < len then none
  else t.nodes.find? fun n => n.isAt key len && 0 < n.refcnt

/-- `LookupByMaxBits`: `Lookup` at the width of the tree. -/
def lookupByMaxBits (t : Ptree α) (key : List UInt8) : Option (PtreeNode α) :=
  t.lookup key t.maxKeyBits

/-- `AcquireByMaxBits`: `Acquire` at the width of the tree. -/
def acquireByMaxBits (t : Ptree α) (key : List UInt8) : Option (Ptree α) :=
  t.acquire key t.maxKeyBits

/-- `Match`: the longest node holding a reference whose key covers the first `len` bits of
`key`, the deepest such node on the walk down the trie. -/
def «match» (t : Ptree α) (key : List UInt8) (len : Nat) : Option (PtreeNode α) :=
  if t.maxKeyBits < len then none
  else (t.nodes.filter fun n => 0 < n.refcnt && keyMatch n.key n.keyLength key len).argmax
    (·.keyLength)

/-- `n.Item = v` for the node at the key. -/
def setItem (t : Ptree α) (key : List UInt8) (len : Nat) (v : Option α) : Ptree α :=
  { t with nodes := t.nodes.map (PtreeNode.updateAt key len fun n => { n with item := v }) }

/-- The nodes `Top` and `Next` visit: those holding an item, in visiting order. -/
def items (t : Ptree α) : List (PtreeNode α) :=
  t.nodes.filter (·.item.isSome)

/-- `LookupTop`: the first node holding an item. -/
def lookupTop (t : Ptree α) : Option (PtreeNode α) :=
  t.items.head?

/-- `AcquireWithItem`: a node that already holds an item is given back its reference and the
call returns `nil`; otherwise the node takes the item.  `none` stands for the `nil` that
`Acquire` returns past the width, which `AcquireWithItem` dereferences. -/
def acquireWithItem (t : Ptree α) (key : List UInt8) (len : Nat) (v : α) : Option (Ptree α) :=
  (t.acquire key len).map fun t' =>
    match t'.lookup key len with
    | some n => if n.item.isSome then t'.release key len else t'.setItem key len (some v)
    | none => t'

/-- `ReleaseWithItem`: only a node holding exactly this item gives it up with its reference. -/
def releaseWithItem [DecidableEq α] (t : Ptree α) (key : List UInt8) (len : Nat) (v : α) :
    Ptree α :=
  match t.lookup key len with
  | some n => if n.item = some v then (t.setItem key len none).release key len else t
  | none => t

/-! ### What the operations do to the items -/

/-- Every item a node of the tree holds satisfies `P`. -/
def ItemsSatisfy (P : α → Prop) (t : Ptree α) : Prop :=
  ∀ n ∈ t.nodes, ∀ a, n.item = some a → P a

/-- Every item a node of the tree holds satisfies `P`, those of the nodes at `(key, len)` aside. -/
def ItemsSatisfyExcept (P : α → Prop) (t : Ptree α) (key : List UInt8) (len : Nat) : Prop :=
  ∀ n ∈ t.nodes, n.isAt key len = false → ∀ a, n.item = some a → P a

/-- `n` stands where `n₀` stands and holds its item. -/
def SamePlace (n n₀ : PtreeNode α) : Prop :=
  n.key = n₀.key ∧ n.keyLength = n₀.keyLength ∧ n.item = n₀.item

lemma samePlace_updateAt {f : PtreeNode α → PtreeNode α} (hf : ∀ n, SamePlace (f n) n)
    (key : List UInt8) (len : Nat) (n : PtreeNode α) :
    SamePlace (PtreeNode.updateAt key len f n) n := by
  unfold PtreeNode.updateAt
  split
  · exact hf n
  · exact ⟨rfl, rfl, rfl⟩

lemma SamePlace.isAt {n n₀ : PtreeNode α} (h : SamePlace n n₀) (key : List UInt8) (len : Nat) :
    n.isAt key len = n₀.isAt key len := by
  unfold PtreeNode.isAt
  rw [h.1, h.2.1]

/-- Every node after `Acquire` is a node from before, or the new node, which holds no item. -/
lemma mem_acquire {t t' : Ptree α} {key : List UInt8} {len : Nat}
    (ht : t.acquire key len = some t') {n : PtreeNode α} (hn : n ∈ t'.nodes) :
    (∃ n₀ ∈ t.nodes, SamePlace n n₀) ∨ n.item = none := by
  unfold acquire at ht
  split_ifs at ht
  · cases ht
    obtain ⟨n₀, hn₀, rfl⟩ := List.mem_map.1 hn
    exact .inl ⟨n₀, hn₀, samePlace_updateAt
      (fun n => (⟨rfl, rfl, rfl⟩ : SamePlace (PtreeNode.addReference n) n)) key len n₀⟩
  · cases ht
    rcases (List.mem_orderedInsert _).1 hn with rfl | hn
    · exact .inr rfl
    · exact .inl ⟨n, hn, rfl, rfl, rfl⟩

/-- Every node after `Release` is a node from before. -/
lemma mem_release {t : Ptree α} {key : List UInt8} {len : Nat} {n : PtreeNode α}
    (hn : n ∈ (t.release key len).nodes) : ∃ n₀ ∈ t.nodes, SamePlace n n₀ := by
  obtain ⟨hn, -⟩ := List.mem_filter.1 hn
  obtain ⟨n₀, hn₀, rfl⟩ := List.mem_map.1 hn
  exact ⟨n₀, hn₀, samePlace_updateAt
    (fun n => (⟨rfl, rfl, rfl⟩ : SamePlace (PtreeNode.delReference n) n)) key len n₀⟩

/-- Every node after `n.Item = v` at `(key, len)` stands where a node from before stands, and
holds its item or, at `(key, len)`, `v`. -/
lemma mem_setItem {t : Ptree α} {key : List UInt8} {len : Nat} {v : Option α} {n : PtreeNode α}
    (hn : n ∈ (t.setItem key len v).nodes) :
    ∃ n₀ ∈ t.nodes, n.key = n₀.key ∧ n.keyLength = n₀.keyLength ∧
      n.item = if n₀.isAt key len then v else n₀.item := by
  obtain ⟨n₀, hn₀, rfl⟩ := List.mem_map.1 hn
  refine ⟨n₀, hn₀, ?_⟩
  unfold PtreeNode.updateAt
  split <;> simp_all

lemma ItemsSatisfy.mono {P Q : α → Prop} {t : Ptree α} (h : t.ItemsSatisfy P)
    (hPQ : ∀ a, P a → Q a) : t.ItemsSatisfy Q :=
  fun n hn a ha => hPQ a (h n hn a ha)

lemma ItemsSatisfy.except {P : α → Prop} {t : Ptree α} (h : t.ItemsSatisfy P)
    (key : List UInt8) (len : Nat) : t.ItemsSatisfyExcept P key len :=
  fun n hn _ => h n hn

lemma ItemsSatisfy.acquire {P : α → Prop} {t t' : Ptree α} {key : List UInt8} {len : Nat}
    (h : t.ItemsSatisfy P) (ht : t.acquire key len = some t') : t'.ItemsSatisfy P := by
  intro n hn a ha
  rcases mem_acquire ht hn with ⟨n₀, hn₀, hsame⟩ | hnone
  · exact h n₀ hn₀ a (hsame.2.2 ▸ ha)
  · rw [hnone] at ha
    cases ha

lemma ItemsSatisfyExcept.release {P : α → Prop} {t : Ptree α} {key : List UInt8} {len : Nat}
    (h : t.ItemsSatisfyExcept P key len) (key' : List UInt8) (len' : Nat) :
    (t.release key' len').ItemsSatisfyExcept P key len := by
  intro n hn hat a ha
  obtain ⟨n₀, hn₀, hsame⟩ := mem_release hn
  exact h n₀ hn₀ (hsame.isAt key len ▸ hat) a (hsame.2.2 ▸ ha)

lemma ItemsSatisfyExcept.release_iterate {P : α → Prop} {t : Ptree α} {key : List UInt8}
    {len : Nat} (h : t.ItemsSatisfyExcept P key len) (key' : List UInt8) (len' k : Nat) :
    ((fun t : Ptree α => t.release key' len')^[k] t).ItemsSatisfyExcept P key len := by
  induction k with
  | zero => exact h
  | succ k ih =>
    rw [Function.iterate_succ_apply']
    exact ih.release key' len'

lemma ItemsSatisfy.release {P : α → Prop} {t : Ptree α} (h : t.ItemsSatisfy P)
    (key : List UInt8) (len : Nat) : (t.release key len).ItemsSatisfy P := by
  intro n hn a ha
  obtain ⟨n₀, hn₀, hsame⟩ := mem_release hn
  exact h n₀ hn₀ a (hsame.2.2 ▸ ha)

/-- Setting the item at `(key, len)` leaves the other items as they were. -/
lemma ItemsSatisfyExcept.setItem_except {P : α → Prop} {t : Ptree α} {key : List UInt8}
    {len : Nat} (h : t.ItemsSatisfyExcept P key len) (v : Option α) :
    (t.setItem key len v).ItemsSatisfyExcept P key len := by
  intro n hn hat a ha
  obtain ⟨n₀, hn₀, hkey, hlen, hitem⟩ := mem_setItem hn
  have hat₀ : n₀.isAt key len = false := by
    rw [← hat]
    unfold PtreeNode.isAt
    rw [hkey, hlen]
  rw [hitem, hat₀, if_neg Bool.false_ne_true] at ha
  exact h n₀ hn₀ hat₀ a ha

/-- Setting the item at `(key, len)` to one satisfying `P` restores `P` everywhere. -/
lemma ItemsSatisfyExcept.setItem {P : α → Prop} {t : Ptree α} {key : List UInt8} {len : Nat}
    (h : t.ItemsSatisfyExcept P key len) {v : Option α} (hv : ∀ a, v = some a → P a) :
    (t.setItem key len v).ItemsSatisfy P := by
  intro n hn a ha
  obtain ⟨n₀, hn₀, -, -, hitem⟩ := mem_setItem hn
  by_cases hat : n₀.isAt key len = true
  · rw [hitem, if_pos hat] at ha
    exact hv a ha
  · rw [hitem, if_neg hat] at ha
    exact h n₀ hn₀ (by simpa using hat) a ha

lemma mem_of_mem_items {t : Ptree α} {n : PtreeNode α} (hn : n ∈ t.items) : n ∈ t.nodes :=
  (List.mem_filter.1 hn).1

lemma mem_of_lookup {t : Ptree α} {key : List UInt8} {len : Nat} {n : PtreeNode α}
    (h : t.lookup key len = some n) : n ∈ t.nodes := by
  unfold lookup at h
  split at h
  · cases h
  · exact List.mem_of_find?_eq_some h

lemma isAt_of_lookup {t : Ptree α} {key : List UInt8} {len : Nat} {n : PtreeNode α}
    (h : t.lookup key len = some n) : n.isAt key len = true := by
  unfold lookup at h
  split at h
  · cases h
  · exact (Bool.and_eq_true _ _ ▸ List.find?_some h).1

end Ptree

end Zebra.Netutil
