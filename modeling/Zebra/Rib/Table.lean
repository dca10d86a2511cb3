import Zebra.Rib.Process

/-!
# The RIB operations: `RibAdd`, `RibDelete`, `RibClean` and `RibWalker`

Each operation finds the node of a prefix in the tree of its family, changes its slice and
its reference count, and runs `RibProcess` on it; `RibAdd` and `RibDelete` then walk the
whole tree of the family, re-resolving every slice.  An operation is `none` when the code
panics: a prefix of no family (a nil tree), a length past the tree's width (a nil node), or a
watcher array indexed past `RIB_MAX`.
-/

namespace Zebra

open Zebra.Netutil

/-- The item an operation stores for a slice is that slice, or nothing when it is empty. -/
lemma eq_of_ite_isEmpty_eq_some {R a : RibSlice}
    (h : (if R.isEmpty then none else some R) = some a) : a = R := by
  split at h
  · cases h
  · cases h
    rfl

namespace Vrf

/-- The table of `afi` replaced. -/
def setTable (v : Vrf) (afi : Afi) (t : Ptree RibSlice) : Vrf :=
  { v with ribTable := Function.update v.ribTable afi t }

@[simp] lemma setTable_ribTable_self (v : Vrf) (afi : Afi) (t : Ptree RibSlice) :
    (v.setTable afi t).ribTable afi = t := by
  simp [setTable]
@[simp] lemma setTable_ribTable_of_ne (v : Vrf) {afi afi' : Afi} (t : Ptree RibSlice)
    (h : afi' ≠ afi) : (v.setTable afi t).ribTable afi' = v.ribTable afi' := by
  simp [setTable, h]
@[simp] lemma setTable_setTable (v : Vrf) (afi : Afi) (t t' : Ptree RibSlice) :
    (v.setTable afi t).setTable afi t' = v.setTable afi t' := by
  simp [setTable]
@[simp] lemma setTable_nextPtr (v : Vrf) (afi : Afi) (t : Ptree RibSlice) :
    (v.setTable afi t).nextPtr = v.nextPtr := rfl
@[simp] lemma setTable_removed (v : Vrf) (afi : Afi) (t : Ptree RibSlice) :
    (v.setTable afi t).removed = v.removed := rfl
@[simp] lemma setTable_same (v : Vrf) (afi : Afi) : v.setTable afi (v.ribTable afi) = v := by
  simp [setTable]

/-- Run `RibProcess` on the slice of node `(key, len)` and keep what it did: the ribs the
node's slice points to, the removed ribs, and the calls. -/
def process (g : Globals) (v : Vrf) (afi : Afi) (key : List UInt8) (len : Nat) (p : Prefix)
    (ribs dels : List Rib) (resolve? : Bool) : Option Vrf :=
  (ribProcess g v p ribs dels resolve?).map fun s =>
    let item := if s.ribs.isEmpty then none else some s.ribs
    { v.setTable afi ((v.ribTable afi).setItem key len item) with
      removed := v.removed ++ s.dels
      calls := v.calls ++ s.calls }

/-- One node of `RibWalker`: `RibProcess` with resolving, on the prefix rebuilt from the
node's key. -/
def walkNode (g : Globals) (afi : Afi) (v : Vrf) (n : PtreeNode RibSlice) : Option Vrf :=
  match n.item with
  | some ribs =>
    v.process g afi n.key n.keyLength (Prefix.fromKey afi.ipLen n.key n.keyLength) ribs [] true
  | none => some v

/-- All that `process` can do: run `RibProcess`, then store the slice it returns at the node
(nothing when it is empty) and append its removed ribs and its calls. -/
lemma process_eq_some {g : Globals} {v v' : Vrf} {afi : Afi} {key : List UInt8} {len : Nat}
    {p : Prefix} {ribs dels : List Rib} {res : Bool}
    (h : v.process g afi key len p ribs dels res = some v') :
    ∃ s, ribProcess g v p ribs dels res = some s ∧
      v' = { v.setTable afi ((v.ribTable afi).setItem key len
          (if s.ribs.isEmpty then none else some s.ribs)) with
        removed := v.removed ++ s.dels, calls := v.calls ++ s.calls } := by
  obtain ⟨s, hs, rfl⟩ := Option.map_eq_some_iff.1 h
  exact ⟨s, hs, rfl⟩

lemma process_of_ribProcess {g : Globals} {v : Vrf} {afi : Afi} {key : List UInt8} {len : Nat}
    {p : Prefix} {ribs dels : List Rib} {res : Bool} {s : ProcessState}
    (h : ribProcess g v p ribs dels res = some s) :
    v.process g afi key len p ribs dels res =
      some { v.setTable afi ((v.ribTable afi).setItem key len
          (if s.ribs.isEmpty then none else some s.ribs)) with
        removed := v.removed ++ s.dels, calls := v.calls ++ s.calls } := by
  simp [process, h]

lemma walkNode_of_item_none {g : Globals} {afi : Afi} {v : Vrf} {n : PtreeNode RibSlice}
    (h : n.item = none) : walkNode g afi v n = some v := by
  simp [walkNode, h]

lemma walkNode_of_item_some {g : Globals} {afi : Afi} {v : Vrf} {n : PtreeNode RibSlice}
    {ribs : RibSlice} (h : n.item = some ribs) :
    walkNode g afi v n = v.process g afi n.key n.keyLength
      (Prefix.fromKey afi.ipLen n.key n.keyLength) ribs [] true := by
  simp [walkNode, h]

/-- `Vrf.RibWalker(af)`: every node with a slice, in tree order. -/
def ribWalker (g : Globals) (v : Vrf) (afi : Afi) : Option Vrf :=
  (v.ribTable afi).items.foldlM (walkNode g afi) v

/-- The test of `RibAdd`'s first loop: the same type and source, one next hop each, and
`Nexthop.Equal` between the stored next hop and the new one. -/
def sameSourceNexthop (ri rib : Rib) : Bool :=
  ri.type == rib.type && ri.src == rib.src &&
    match rib.nexthops, ri.nexthops with
    | [nhops], [nhopi] => nhops.equal nhopi
    | _, _ => false

/-- `Vrf.RibAdd`.  After masking the prefix and acquiring its node, the new route is
resolved; a route of the same source with the same single next hop makes the call a no-op;
otherwise the routes `Rib.Equal` to it are replaced by a copy of it (one reference is given
back for them), `RibProcess` runs on the slice and the walker on the family. -/
def ribAdd (g : Globals) (v : Vrf) (p₀ : Prefix) (ri : Rib) : Option Vrf := do
  -- `ApplyMask` panics on a negative length
  let p ← p₀.applyMask
  let afi ← p.afi
  let t ← (v.ribTable afi).acquire p.ip p.length.toNat
  let v := v.setTable afi t
  let ri := resolve v ri
  let old := ((t.lookup p.ip p.length.toNat).bind (·.item)).getD []
  if old.any (sameSourceNexthop ri) then
    return v.setTable afi (t.release p.ip p.length.toNat)
  let dels := old.filter (·.equal ri)
  let ribs := old.filter fun rib => !rib.equal ri
  let t := if dels.isEmpty then t else t.release p.ip p.length.toNat
  let ribs := ribs ++ [newRib v.nextPtr ri]
  let v := { v.setTable afi (t.setItem p.ip p.length.toNat (some ribs)) with nextPtr := v.nextPtr + 1 }
  let v ← v.process g afi p.ip p.length.toNat p ribs dels false
  ribWalker g v afi

/-- All that `RibAdd` can do.  The prefix has a family and a length that is not negative, and
the node of the masked prefix is acquired; then either a route of the same source through the
same next hop is there and the reference is given back, or the slice is replaced, `RibProcess`
runs on the node and the walker on the family. -/
lemma ribAdd_eq_some {g : Globals} {v v' : Vrf} {p₀ : Prefix} {ri : Rib}
    (h : v.ribAdd g p₀ ri = some v') :
    ∃ afi t, 0 ≤ p₀.length ∧ p₀.afi = some afi ∧
      (v.ribTable afi).acquire p₀.mask.ip p₀.mask.length.toNat = some t ∧
      let key := p₀.mask.ip
      let len := p₀.mask.length.toNat
      let ri' := resolve (v.setTable afi t) ri
      let old := ((t.lookup key len).bind (·.item)).getD []
      let ribs := old.filter (fun rib => !rib.equal ri') ++ [newRib v.nextPtr ri']
      let t₂ := if (old.filter (·.equal ri')).isEmpty then t else t.release key len
      (old.any (sameSourceNexthop ri') = true ∧ v' = v.setTable afi (t.release key len)) ∨
      (old.any (sameSourceNexthop ri') = false ∧
        ∃ v₃, { v.setTable afi (t₂.setItem key len (some ribs)) with
            nextPtr := v.nextPtr + 1 }.process g afi key len p₀.mask ribs
              (old.filter (·.equal ri')) false = some v₃ ∧
          ribWalker g v₃ afi = some v') := by
  unfold ribAdd at h
  simp only [Option.bind_eq_bind, Option.bind_eq_some_iff] at h
  obtain ⟨p, hp, afi, hafi, t, ht, h⟩ := h
  obtain ⟨h0, rfl⟩ := Prefix.applyMask_eq_some_of_afi hp hafi
  refine ⟨afi, t, h0, by rwa [Prefix.afi_mask] at hafi, ht, ?_⟩
  split at h
  · next hdup =>
    cases h
    exact .inl ⟨hdup, by simp⟩
  · next hdup =>
    rw [Option.bind_eq_some_iff] at h
    simp only [setTable_setTable, setTable_nextPtr] at h
    exact .inr ⟨by simpa using hdup, h⟩

/-- `Vrf.RibDelete`.  The routes `Rib.Equal` to `ri` leave the slice and the node gives up one
reference; only the last of them, `found`, is handed to `RibProcess` as removed, the others
leave as they were.  Then the walker runs on the family. -/
def ribDelete (g : Globals) (v : Vrf) (p₀ : Prefix) (ri : Rib) : Option Vrf := do
  -- `ApplyMask` panics on a negative length
  let p ← p₀.applyMask
  let afi ← p.afi
  let t := v.ribTable afi
  let some n := t.lookup p.ip p.length.toNat | return v
  let some old := n.item | return v
  let matched := old.filter (·.equal ri)
  let ribs := old.filter fun rib => !rib.equal ri
  let some found := matched.getLast? | return v
  let t := (t.setItem p.ip p.length.toNat (if ribs.isEmpty then none else some ribs)).release p.ip
    p.length.toNat
  let v := { v.setTable afi t with removed := v.removed ++ matched.dropLast }
  let v ← v.process g afi p.ip p.length.toNat p ribs [found] false
  ribWalker g v afi

/-- All that `RibDelete` can do.  The prefix has a family and a length that is not negative;
either no route of the slice found at the masked prefix is related to `ri` and nothing changes,
or the related ones leave the slice, the node gives up a reference, and `RibProcess` and the
walker run. -/
lemma ribDelete_eq_some {g : Globals} {v v' : Vrf} {p₀ : Prefix} {ri : Rib}
    (h : v.ribDelete g p₀ ri = some v') :
    ∃ afi, 0 ≤ p₀.length ∧ p₀.afi = some afi ∧
      let key := p₀.mask.ip
      let len := p₀.mask.length.toNat
      (((((v.ribTable afi).lookup key len).bind (·.item)).getD []).filter (·.equal ri) = [] ∧
        v' = v) ∨
      ∃ (n : PtreeNode RibSlice) (old : RibSlice) (found : Rib) (v₃ : Vrf),
        (v.ribTable afi).lookup key len = some n ∧ n.item = some old ∧
        (old.filter (·.equal ri)).getLast? = some found ∧
        let ribs := old.filter fun rib => !rib.equal ri
        { v.setTable afi (((v.ribTable afi).setItem key len
            (if ribs.isEmpty then none else some ribs)).release key len) with
          removed := v.removed ++ (old.filter fun r : Rib => r.equal ri).dropLast }.process
            g afi key len p₀.mask ribs [found] false = some v₃ ∧
        ribWalker g v₃ afi = some v' := by
  unfold ribDelete at h
  simp only [Option.bind_eq_bind, Option.bind_eq_some_iff] at h
  obtain ⟨p, hp, afi, hafi, h⟩ := h
  obtain ⟨h0, rfl⟩ := Prefix.applyMask_eq_some_of_afi hp hafi
  refine ⟨afi, h0, by rwa [Prefix.afi_mask] at hafi, ?_⟩
  split at h
  · next n hn =>
    split at h
    · next old hold =>
      split at h
      · next found hfound =>
        rw [Option.bind_eq_some_iff] at h
        obtain ⟨v₃, hproc, hwalk⟩ := h
        exact .inr ⟨n, old, found, v₃, hn, hold, hfound, hproc, hwalk⟩
      · next hnone =>
        -- no route of the slice is related to `ri`
        cases h
        refine .inl ⟨?_, rfl⟩
        rw [hn, Option.bind_some, hold, Option.getD_some]
        exact List.getLast?_eq_none_iff.1 (Option.eq_none_iff_forall_ne_some.2 hnone)
    · next hnone =>
      -- the node holds no slice
      cases h
      refine .inl ⟨?_, rfl⟩
      rw [hn, Option.bind_some, Option.eq_none_iff_forall_ne_some.2 hnone]
      rfl
  · next hnone =>
    -- no node at the prefix
    cases h
    refine .inl ⟨?_, rfl⟩
    rw [Option.eq_none_iff_forall_ne_some.2 hnone]
    rfl

/-- One node of `RibClean(src)`: the routes of the source leave the slice, the node gives up
one reference for each, and `RibProcess` runs on what is left. -/
def cleanNode (g : Globals) (src : RibSrc) (afi : Afi) (v : Vrf) (n : PtreeNode RibSlice) :
    Option Vrf :=
  let ribs₀ := n.item.getD []
  let dels := ribs₀.filter (·.src = src)
  let ribs := ribs₀.filter (·.src ≠ src)
  if dels.isEmpty then some v
  else
    let t := (v.ribTable afi).setItem n.key n.keyLength (if ribs.isEmpty then none else some ribs)
    let t := (fun t : Ptree RibSlice => t.release n.key n.keyLength)^[dels.length] t
    (v.setTable afi t).process g afi n.key n.keyLength
      (Prefix.fromKey afi.ipLen n.key n.keyLength) ribs dels false

/-- All that one node of `RibClean` can do: nothing when no route of the source is there, or
`RibProcess` on what is left, one reference given back per route taken out. -/
lemma cleanNode_eq_some {g : Globals} {src : RibSrc} {afi : Afi} {v v' : Vrf}
    {n : PtreeNode RibSlice} (h : cleanNode g src afi v n = some v') :
    let ribs₀ := n.item.getD []
    let dels := ribs₀.filter (·.src = src)
    let ribs := ribs₀.filter (·.src ≠ src)
    (dels.isEmpty = true ∧ v' = v) ∨
    (dels.isEmpty = false ∧
      (v.setTable afi ((fun t : Ptree RibSlice => t.release n.key n.keyLength)^[dels.length]
          ((v.ribTable afi).setItem n.key n.keyLength
            (if ribs.isEmpty then none else some ribs)))).process g afi n.key n.keyLength
        (Prefix.fromKey afi.ipLen n.key n.keyLength) ribs dels false = some v') := by
  unfold cleanNode at h
  dsimp only at h ⊢
  split at h
  · next hempty =>
    cases h
    exact .inl ⟨hempty, rfl⟩
  · next hempty =>
    exact .inr ⟨by simpa using hempty, h⟩

/-- `Vrf.RibClean(src)`: both families, every node with a slice, no walker. -/
def ribClean (g : Globals) (v : Vrf) (src : RibSrc) : Option Vrf := do
  let v ← (v.ribTable .ip).items.foldlM (cleanNode g src .ip) v
  (v.ribTable .ip6).items.foldlM (cleanNode g src .ip6) v

lemma ribClean_eq_some {g : Globals} {v v' : Vrf} {src : RibSrc}
    (h : v.ribClean g src = some v') :
    ∃ v₁, (v.ribTable .ip).items.foldlM (cleanNode g src .ip) v = some v₁ ∧
      (v₁.ribTable .ip6).items.foldlM (cleanNode g src .ip6) v₁ = some v' :=
  Option.bind_eq_some_iff.1 h

end Vrf

end Zebra
