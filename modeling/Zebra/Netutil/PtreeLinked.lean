import Zebra.Netutil.PtreeBits

/-!
# The linked prefix tree of `ptree.go`

The tree as the Go code builds it from `*PtreeNode` links.  A link is `nil` or a node with its
`left` and `right` links, a `BinTree` of nodes; the `parent` links are the way back up that
tree, which the recursion here takes on its way out.  Each walk is the loop of the Go function
it is named after: from `top`, on while the node's key matches the key and is no longer
(`keyMatch`), to the `right` link where the key's next bit (`bitCheck`) is one and to the
`left` link where it is zero.

`Acquire` adds a reference to the node at the key where the walk finds one (a node kept only
to branch, with no reference, included).  Otherwise it makes one where the walk ended: at a
`nil` link a new node, and at a node off the key first a node at the bits the two keys share
(`nodeCommon`), which takes the place of the old node and links it below; the new node is that
node itself when the key has no more bits than they share.  `Release` takes a reference off the
node at the key; a node left with none and fewer than two links is taken out, its one child in
its place, and so is each parent with no reference above it (`nodeRemove`).  `Top` and `Next`
visit the nodes that hold an item in preorder (`items`); the references they take and give
back while they walk cancel out and are left out.

`Release` takes the node itself; here it is named by its key, the node the walk to that key
finds, which is the node a pointer from `Acquire` or `Lookup` points to.
-/

namespace Zebra.Netutil
open Zebra.Lib

variable {α : Type}

/-- `bitToOctet`: the bytes of a key of `maxKeyBits` bits, at least one. -/
def bitToOctet (maxKeyBits : Nat) : Nat := max ((maxKeyBits + 7) / 8) 1

/-- `NewPtreeNode`: a node at the key, with no reference and no item. -/
def newPtreeNode (key : List UInt8) (keyLength : Nat) : PtreeNode α :=
  { key, keyLength, refcnt := 0, item := none }

namespace Linked

/-- `Ptree`: the nodes from the `top` link, the width of the keys and their order. -/
structure Ptree (α : Type) where
  top : BinTree (PtreeNode α)
  maxKeyBits : Nat
  reverse : Bool

/-- `NewPtree(maxKeyBits)`, ordered in reverse after `ReverseOrderSet`. -/
def Ptree.empty (maxKeyBits : Nat) (reverse : Bool := false) : Ptree α :=
  { top := .nil, maxKeyBits, reverse }

/-- The byte loop of `nodeCommon`: from byte `i`, the first of the next `fuel` bytes where the
keys differ, or the byte after them. -/
def commonBytes (key1 key2 : List UInt8) : Nat → Nat → Nat
  | 0, i => i
  | fuel + 1, i => if key1.getD i 0 = key2.getD i 0 then commonBytes key1 key2 fuel (i + 1) else i

/-- The bit loop of `nodeCommon`: one bit further while the bit of `mask` is clear in the
difference of the two bytes, at most `fuel` times. -/
def commonBits (diff : UInt8) : Nat → UInt8 → Nat → Nat
  | 0, _, commonLength => commonLength
  | fuel + 1, mask, commonLength =>
    if mask &&& diff = 0 then commonBits diff fuel (mask >>> 1) (commonLength + 1)
    else commonLength

/-- `nodeCommon`: a node with no reference at the bits that `node`'s key and `key` share, at most
`keyLength` of them.  Its key has the bytes those bits need, the cut one masked. -/
def nodeCommon (node : PtreeNode α) (key : List UInt8) (keyLength : Nat) : PtreeNode α :=
  let i := commonBytes node.key key (min node.keyLength keyLength / 8) 0
  let commonLength :=
    if i * 8 ≠ keyLength then
      commonBits (node.key.getD i 0 ^^^ key.getD i 0) (keyLength - i * 8) 0x80 (i * 8)
    else i * 8
  let boundary := commonLength ≠ i * 8
  let commonKey := (List.range (bitToOctet commonLength)).map fun j =>
    if j < i then node.key.getD j 0
    else if boundary ∧ j = i then node.key.getD i 0 &&& MaskBits.getD (commonLength % 8) 0
    else 0
  newPtreeNode commonKey commonLength

/-- `nodeLink(node, add)`: the subtree of `add` becomes `node`'s `right` link where `add`'s key has
a one at `node`'s length, its `left` link otherwise; the result is `node`'s two links. -/
def nodeLink (reverse : Bool) (node : PtreeNode α) (left right : BinTree (PtreeNode α))
    (add : PtreeNode α) (addLeft addRight : BinTree (PtreeNode α)) :
    BinTree (PtreeNode α) × BinTree (PtreeNode α) :=
  if bitCheck add.key node.keyLength reverse then (left, .node add addLeft addRight)
  else (.node add addLeft addRight, right)

/-- The walk of `Acquire` below a link.  It ends at a node at the key, whose reference is added
in place (`inl`: the new subtree), or at a `nil` link or a node off the key, where it makes a
subtree for the last node it matched to link (`inr`: its root and links). -/
def acquireWalk (reverse : Bool) (key : List UInt8) (keyLength : Nat) :
    BinTree (PtreeNode α) →
      BinTree (PtreeNode α) ⊕ (PtreeNode α × BinTree (PtreeNode α) × BinTree (PtreeNode α))
  | .nil => .inr ((newPtreeNode key keyLength).addReference, .nil, .nil)
  | .node n l r =>
    if n.keyLength ≤ keyLength ∧ keyMatch n.key n.keyLength key keyLength then
      if n.keyLength = keyLength then .inl (.node n.addReference l r)
      else if bitCheck key n.keyLength reverse then
        match acquireWalk reverse key keyLength r with
        | .inl r' => .inl (.node n l r')
        | .inr (add, al, ar) =>
          let (l', r') := nodeLink reverse n l r add al ar
          .inl (.node n l' r')
      else
        match acquireWalk reverse key keyLength l with
        | .inl l' => .inl (.node n l' r)
        | .inr (add, al, ar) =>
          let (l', r') := nodeLink reverse n l r add al ar
          .inl (.node n l' r')
    else
      -- the node is off the key: the node at the bits they share takes its place
      let add := nodeCommon n key keyLength
      let (cl, cr) := nodeLink reverse add .nil .nil n l r
      if add.keyLength ≠ keyLength then
        let (cl', cr') :=
          nodeLink reverse add cl cr (newPtreeNode key keyLength).addReference .nil .nil
        .inr (add, cl', cr')
      else .inr (add.addReference, cl, cr)

/-- `Acquire`: `nil` (here `none`) past the width; otherwise one more reference on the node at the
key, made where there is none. -/
def Ptree.acquire (t : Ptree α) (key : List UInt8) (keyLength : Nat) : Option (Ptree α) :=
  if t.maxKeyBits < keyLength then none
  else
    some { t with
      top := match acquireWalk t.reverse key keyLength t.top with
        | .inl top => top
        | .inr (add, l, r) => .node add l r }

/-- The walk of `Lookup`: the node at the key while it holds a reference. -/
def lookupWalk (reverse : Bool) (key : List UInt8) (keyLength : Nat) :
    BinTree (PtreeNode α) → Option (PtreeNode α)
  | .nil => none
  | .node n l r =>
    if n.keyLength ≤ keyLength ∧ keyMatch n.key n.keyLength key keyLength then
      if n.keyLength = keyLength then (if 0 < n.refcnt then some n else none)
      else if bitCheck key n.keyLength reverse then lookupWalk reverse key keyLength r
      else lookupWalk reverse key keyLength l
    else none

/-- `Lookup`. -/
def Ptree.lookup (t : Ptree α) (key : List UInt8) (keyLength : Nat) : Option (PtreeNode α) :=
  if t.maxKeyBits < keyLength then none else lookupWalk t.reverse key keyLength t.top

/-- `LookupByMaxBits`. -/
def Ptree.lookupByMaxBits (t : Ptree α) (key : List UInt8) : Option (PtreeNode α) :=
  t.lookup key t.maxKeyBits

/-- The walk of `Match`: the last node met on the way to the key that holds a reference. -/
def matchWalk (reverse : Bool) (key : List UInt8) (keyLength : Nat)
    (matched : Option (PtreeNode α)) : BinTree (PtreeNode α) → Option (PtreeNode α)
  | .nil => matched
  | .node n l r =>
    if n.keyLength ≤ keyLength ∧ keyMatch n.key n.keyLength key keyLength then
      let matched := if 0 < n.refcnt then some n else matched
      if n.keyLength = keyLength then matched
      else if bitCheck key n.keyLength reverse then matchWalk reverse key keyLength matched r
      else matchWalk reverse key keyLength matched l
    else matched

/-- `Match`. -/
def Ptree.«match» (t : Ptree α) (key : List UInt8) (keyLength : Nat) : Option (PtreeNode α) :=
  if t.maxKeyBits < keyLength then none else matchWalk t.reverse key keyLength none t.top

/-- `nodeRemove` of a node with links `l` and `r`: with both links it stays; otherwise its one
child, or `nil`, takes its place (`true`: it was taken out). -/
def nodeRemove (n : PtreeNode α) :
    BinTree (PtreeNode α) → BinTree (PtreeNode α) → BinTree (PtreeNode α) × Bool
  | l@(.node ..), r@(.node ..) => (.node n l r, false)
  | l@(.node ..), .nil => (l, true)
  | .nil, r => (r, true)

/-- The walk of `Release` with `delReference` and the `nodeRemove` it starts: the node at the
key loses a reference and, left with none, goes unless it has both links; then each parent left
with no reference goes the same way, up from there. -/
def releaseWalk (reverse : Bool) (key : List UInt8) (keyLength : Nat) :
    BinTree (PtreeNode α) → BinTree (PtreeNode α) × Bool
  | .nil => (.nil, false)
  | .node n l r =>
    if n.keyLength ≤ keyLength ∧ keyMatch n.key n.keyLength key keyLength then
      if n.keyLength = keyLength then
        if n.delReference.refcnt = 0 then nodeRemove n.delReference l r
        else (.node n.delReference l r, false)
      else if bitCheck key n.keyLength reverse then
        let (r', removed) := releaseWalk reverse key keyLength r
        if removed ∧ n.refcnt = 0 then nodeRemove n l r' else (.node n l r', false)
      else
        let (l', removed) := releaseWalk reverse key keyLength l
        if removed ∧ n.refcnt = 0 then nodeRemove n l' r else (.node n l' r, false)
    else (.node n l r, false)

/-- `Release` of the node at the key. -/
def Ptree.release (t : Ptree α) (key : List UInt8) (keyLength : Nat) : Ptree α :=
  { t with top := (releaseWalk t.reverse key keyLength t.top).1 }

/-- The walk to the node at the key that `n.Item = v` writes. -/
def setItemWalk (reverse : Bool) (key : List UInt8) (keyLength : Nat) (v : Option α) :
    BinTree (PtreeNode α) → BinTree (PtreeNode α)
  | .nil => .nil
  | .node n l r =>
    if n.keyLength ≤ keyLength ∧ keyMatch n.key n.keyLength key keyLength then
      if n.keyLength = keyLength then .node { n with item := v } l r
      else if bitCheck key n.keyLength reverse then .node n l (setItemWalk reverse key keyLength v r)
      else .node n (setItemWalk reverse key keyLength v l) r
    else .node n l r

/-- `n.Item = v` for the node at the key. -/
def Ptree.setItem (t : Ptree α) (key : List UInt8) (keyLength : Nat) (v : Option α) : Ptree α :=
  { t with top := setItemWalk t.reverse key keyLength v t.top }

/-- The nodes `Top` and `Next` visit: those holding an item, in preorder. -/
def Ptree.items (t : Ptree α) : List (PtreeNode α) :=
  t.top.preorder.filter (·.item.isSome)

/-- `LookupTop`. -/
def Ptree.lookupTop (t : Ptree α) : Option (PtreeNode α) :=
  t.items.head?

/-- `AcquireWithItem`: a node that holds an item already gives back its reference and the call
returns `nil`; otherwise the node takes the item.  `none` stands for the `nil` of `Acquire` past
the width, which `AcquireWithItem` dereferences. -/
def Ptree.acquireWithItem (t : Ptree α) (key : List UInt8) (keyLength : Nat) (v : α) :
    Option (Ptree α) :=
  (t.acquire key keyLength).map fun t' =>
    match t'.lookup key keyLength with
    | some n => if n.item.isSome then t'.release key keyLength else t'.setItem key keyLength (some v)
    | none => t'

/-- `ReleaseWithItem`: only a node holding exactly this item gives it up with its reference. -/
def Ptree.releaseWithItem [DecidableEq α] (t : Ptree α) (key : List UInt8) (keyLength : Nat)
    (v : α) : Ptree α :=
  match t.lookup key keyLength with
  | some n => if n.item = some v then (t.setItem key keyLength none).release key keyLength else t
  | none => t

/-- A `/8` acquired under a `/16` becomes the node at the bits the two share, and keeps the one
key byte those bits need. -/
example :
    (((Ptree.empty 32 : Ptree Unit).acquire [10, 1, 0, 0] 16).bind
      (·.acquire [10, 0, 0, 0] 8)).map (fun t => t.top.preorder.map fun n => (n.key, n.refcnt)) =
      some [([10], 1), ([10, 1, 0, 0], 1)] := by
  decide

end Linked

end Zebra.Netutil
