import Zebra.Netutil.Ptree
import Mathlib.Data.List.Find

/-!
# A prefix tree of masked keys is a finite map

`RibAdd` and `RibDelete` mask a prefix before they give it to the tree, so every node of a
route table stands at a masked prefix.  Two masked prefixes of one length match in the tree's
sense only when they are equal (`keyMatch_iff_eq_of_masked`), so `Acquire`, `Release`,
`n.Item = v` and `Lookup` at a masked prefix all reach the one node standing there: the tree is
a finite map from prefixes to nodes.  `nodeAt` reads that map, each operation has a lemma
saying what it does to it, and `Keyed` is the shape the operations keep.
-/

namespace Zebra.Netutil

variable {α : Type}

namespace PtreeNode

/-- The prefix a node stands at. -/
def place (n : PtreeNode α) : Prefix := ⟨n.key, n.keyLength⟩

@[simp] lemma place_addReference (n : PtreeNode α) : n.addReference.place = n.place := rfl
@[simp] lemma place_delReference (n : PtreeNode α) : n.delReference.place = n.place := rfl
@[simp] lemma place_setItem (n : PtreeNode α) (v : Option α) :
    ({ n with item := v } : PtreeNode α).place = n.place := rfl

/-- Two nodes stand at the same place when they have the same key and key length. -/
lemma place_eq_place_iff {m n : PtreeNode α} :
    m.place = n.place ↔ m.key = n.key ∧ m.keyLength = n.keyLength := by
  simp only [place, Prefix.mk.injEq, Int.natCast_inj]

lemma place_updateAt {f : PtreeNode α → PtreeNode α} (hf : ∀ n, (f n).place = n.place)
    (key : List UInt8) (len : Nat) (n : PtreeNode α) : (updateAt key len f n).place = n.place := by
  unfold updateAt
  split
  · exact hf n
  · rfl

lemma updateAt_of_isAt {n : PtreeNode α} {key : List UInt8} {len : Nat}
    {f : PtreeNode α → PtreeNode α} (h : n.isAt key len = true) : updateAt key len f n = f n :=
  if_pos h

lemma updateAt_of_not_isAt {n : PtreeNode α} {key : List UInt8} {len : Nat}
    {f : PtreeNode α → PtreeNode α} (h : ¬ n.isAt key len = true) : updateAt key len f n = n :=
  if_neg h

end PtreeNode

namespace Ptree

open PtreeNode

/-- The node standing at `q`. -/
def nodeAt (t : Ptree α) (q : Prefix) : Option (PtreeNode α) :=
  t.nodes.find? (·.place == q)

/-- The node `Acquire` makes at a prefix no node stands at. -/
def newNode (q : Prefix) : PtreeNode α :=
  { key := q.ip, keyLength := q.length.toNat, refcnt := 1, item := none }

lemma place_newNode {q : Prefix} (hq : 0 ≤ q.length) : (newNode q : PtreeNode α).place = q := by
  simp [newNode, place, Int.toNat_of_nonneg hq]

/-- The shape `Acquire` and `Release` keep in a tree of `w`-byte keys when they are only given
masked prefixes: every node stands at a masked prefix within the width and holds a reference,
and no two nodes stand at one place. -/
structure Keyed (t : Ptree α) (w : Nat) : Prop where
  masked : ∀ n ∈ t.nodes, n.place.Masked ∧ n.key.length = w ∧ n.keyLength ≤ t.maxKeyBits
  refcnt_pos : ∀ n ∈ t.nodes, 0 < n.refcnt
  nodup : (t.nodes.map place).Nodup

@[simp] lemma maxKeyBits_setItem (t : Ptree α) (key : List UInt8) (len : Nat) (v : Option α) :
    (t.setItem key len v).maxKeyBits = t.maxKeyBits := rfl
@[simp] lemma maxKeyBits_release (t : Ptree α) (key : List UInt8) (len : Nat) :
    (t.release key len).maxKeyBits = t.maxKeyBits := rfl

lemma maxKeyBits_acquire {t t' : Ptree α} {key : List UInt8} {len : Nat}
    (h : t.acquire key len = some t') : t'.maxKeyBits = t.maxKeyBits := by
  unfold acquire at h
  split_ifs at h <;> cases h <;> rfl

lemma length_le_of_acquire {t t' : Ptree α} {key : List UInt8} {len : Nat}
    (h : t.acquire key len = some t') : len ≤ t.maxKeyBits := by
  unfold acquire at h
  by_cases hlen : t.maxKeyBits < len
  · rw [if_pos hlen] at h
    cases h
  · omega

/-- At the width of the tree `Acquire` always returns a node. -/
lemma acquireByMaxBits_isSome (t : Ptree α) (key : List UInt8) :
    (t.acquireByMaxBits key).isSome := by
  unfold acquireByMaxBits acquire
  rw [if_neg (Nat.lt_irrefl _)]
  split <;> rfl

/-- The item of the node standing at `q`. -/
def itemAt (t : Ptree α) (q : Prefix) : Option α :=
  (t.nodeAt q).bind (·.item)

variable {t t' : Ptree α} {w : Nat} {q r : Prefix} {n : PtreeNode α}

lemma place_of_nodeAt (h : t.nodeAt r = some n) : n.place = r := by
  simpa using List.find?_some h

lemma mem_of_nodeAt (h : t.nodeAt r = some n) : n ∈ t.nodes :=
  List.mem_of_find?_eq_some h

lemma nodeAt_eq_some_iff (hnd : (t.nodes.map place).Nodup) :
    t.nodeAt r = some n ↔ n ∈ t.nodes ∧ n.place = r := by
  constructor
  · intro h
    exact ⟨mem_of_nodeAt h, place_of_nodeAt h⟩
  · rintro ⟨hn, rfl⟩
    have hsome : (t.nodeAt n.place).isSome := by
      rw [nodeAt, List.find?_isSome]
      exact ⟨n, hn, by simp⟩
    obtain ⟨m, hm⟩ := Option.isSome_iff_exists.1 hsome
    rw [hm, List.inj_on_of_nodup_map hnd (mem_of_nodeAt hm) hn (place_of_nodeAt hm)]

lemma nodeAt_eq_none_iff : t.nodeAt r = none ↔ ∀ n ∈ t.nodes, n.place ≠ r := by
  simp [nodeAt, List.find?_eq_none]

/-- The map is read off membership: a value `o` that holds exactly the nodes standing at `r`. -/
lemma nodeAt_eq_of_mem_iff (hnd : (t.nodes.map place).Nodup) {o : Option (PtreeNode α)}
    (h : ∀ n, n ∈ t.nodes ∧ n.place = r ↔ o = some n) : t.nodeAt r = o := by
  cases o with
  | none =>
    rw [nodeAt_eq_none_iff]
    intro n hn hp
    simpa using (h n).1 ⟨hn, hp⟩
  | some m => exact (nodeAt_eq_some_iff hnd).2 ((h m).2 rfl)

/-- In a `Keyed` tree the tree's own test `isAt` at a masked prefix of its key length is
equality of places. -/
lemma Keyed.isAt_iff (ht : t.Keyed w) (hn : n ∈ t.nodes) (hq : q.Masked)
    (hqw : q.ip.length = w) : n.isAt q.ip q.length.toNat = true ↔ n.place = q := by
  obtain ⟨hm, hw, -⟩ := ht.masked n hn
  have hbridge := keyMatch_iff_eq_of_masked (b := q) hm hq (by simp [place, hw, hqw])
  unfold isAt
  rw [Bool.and_eq_true, beq_iff_eq]
  constructor
  · rintro ⟨hl, hk⟩
    have hl' : n.place.length = q.length := by
      simp only [place]
      rw [hl, Int.toNat_of_nonneg hq.1]
    refine (hbridge hl').1 ?_
    simp only [place, Int.toNat_natCast]
    rw [hl]
    exact hk
  · rintro rfl
    exact ⟨by simp [place], (hbridge rfl).2 rfl⟩

/-- `Lookup` at a masked prefix of the key length finds the node standing there. -/
lemma Keyed.lookup_eq (ht : t.Keyed w) (hq : q.Masked) (hqw : q.ip.length = w) :
    t.lookup q.ip q.length.toNat = t.nodeAt q := by
  unfold lookup
  split_ifs with hlen
  · -- past the width no node stands at `q`
    symm
    rw [nodeAt_eq_none_iff]
    rintro n hn rfl
    have := (ht.masked n hn).2.2
    simp only [place] at hlen
    omega
  · apply List.find?_congr
    intro n hn
    rw [Bool.eq_iff_iff, Bool.and_eq_true, ht.isAt_iff hn hq hqw, beq_iff_eq,
      decide_eq_true_iff]
    exact ⟨fun h => h.1, fun h => ⟨h, ht.refcnt_pos n hn⟩⟩

/-- Changing the nodes at a masked prefix in place changes the map at that prefix only. -/
lemma Keyed.find?_map_updateAt (ht : t.Keyed w) (hq : q.Masked) (hqw : q.ip.length = w)
    (f : PtreeNode α → PtreeNode α) (hf : ∀ n, (f n).place = n.place) (r : Prefix) :
    (t.nodes.map (updateAt q.ip q.length.toNat f)).find? (·.place == r) =
      (t.nodeAt r).map (if r = q then f else id) := by
  rw [List.find?_map]
  have hcongr : ((·.place == r) ∘ updateAt q.ip q.length.toNat f) = (·.place == r) := by
    funext n
    simp [place_updateAt hf]
  rw [hcongr]
  change (t.nodeAt r).map _ = _
  cases h : t.nodeAt r with
  | none => rfl
  | some n =>
    have hn := mem_of_nodeAt h
    have hpl := place_of_nodeAt h
    simp only [Option.map_some, Option.some.injEq]
    by_cases hrq : r = q
    · rw [updateAt_of_isAt ((ht.isAt_iff hn hq hqw).2 (hpl.trans hrq)), if_pos hrq]
    · rw [updateAt_of_not_isAt (by rw [ht.isAt_iff hn hq hqw, hpl]; exact hrq), if_neg hrq]
      rfl

/-- Changing nodes in place keeps every node at a masked prefix within the width. -/
lemma Keyed.masked_map_updateAt (ht : t.Keyed w) {f : PtreeNode α → PtreeNode α}
    (hf : ∀ n, (f n).place = n.place) (key : List UInt8) (len : Nat) :
    ∀ m ∈ t.nodes.map (updateAt key len f),
      m.place.Masked ∧ m.key.length = w ∧ m.keyLength ≤ t.maxKeyBits := by
  intro m hm
  obtain ⟨m₀, hm₀, rfl⟩ := List.mem_map.1 hm
  have hplace := place_updateAt hf key len m₀
  have hk : (updateAt key len f m₀).key = m₀.key := congrArg Prefix.ip hplace
  have hl : (updateAt key len f m₀).keyLength = m₀.keyLength :=
    Int.ofNat.inj (congrArg Prefix.length hplace)
  rw [hplace, hk, hl]
  exact ht.masked m₀ hm₀

lemma Keyed.nodup_map_updateAt (ht : t.Keyed w) {f : PtreeNode α → PtreeNode α}
    (hf : ∀ n, (f n).place = n.place) (key : List UInt8) (len : Nat) :
    ((t.nodes.map (updateAt key len f)).map place).Nodup := by
  rw [List.map_map, show place ∘ updateAt key len f = place from funext (place_updateAt hf key len)]
  exact ht.nodup

/-- Changing nodes in place, keeping a reference on each, keeps the shape. -/
lemma Keyed.map_updateAt (ht : t.Keyed w) {f : PtreeNode α → PtreeNode α}
    (hf : ∀ n, (f n).place = n.place) (hpos : ∀ n, 0 < n.refcnt → 0 < (f n).refcnt)
    (key : List UInt8) (len : Nat) :
    ({ t with nodes := t.nodes.map (updateAt key len f) } : Ptree α).Keyed w := by
  refine ⟨ht.masked_map_updateAt hf key len, ?_, ht.nodup_map_updateAt hf key len⟩
  intro m hm
  obtain ⟨m₀, hm₀, rfl⟩ := List.mem_map.1 hm
  by_cases hat : m₀.isAt key len = true
  · rw [updateAt_of_isAt hat]
    exact hpos m₀ (ht.refcnt_pos m₀ hm₀)
  · rw [updateAt_of_not_isAt hat]
    exact ht.refcnt_pos m₀ hm₀

lemma Keyed.setItem (ht : t.Keyed w) (key : List UInt8) (len : Nat) (v : Option α) :
    (t.setItem key len v).Keyed w :=
  ht.map_updateAt (fun n => place_setItem n v) (fun _ h => h) key len

/-- `n.Item = v` at a masked prefix sets the item of the node standing there. -/
lemma Keyed.nodeAt_setItem (ht : t.Keyed w) (hq : q.Masked) (hqw : q.ip.length = w)
    (v : Option α) (r : Prefix) :
    (t.setItem q.ip q.length.toNat v).nodeAt r =
      (t.nodeAt r).map (if r = q then fun n => { n with item := v } else id) :=
  ht.find?_map_updateAt hq hqw _ (fun n => place_setItem n v) r

/-- The item a node holds, set again at its place, leaves a keyed tree as it is. -/
lemma setItem_of_mem (ht : t.Keyed w) (hn : n ∈ t.nodes) :
    t.setItem n.key n.keyLength n.item = t := by
  obtain ⟨hm, hw, -⟩ := ht.masked n hn
  have hnodes : t.nodes.map (updateAt n.key n.keyLength fun m => { m with item := n.item }) =
      t.nodes := by
    conv_rhs => rw [← List.map_id t.nodes]
    refine List.map_congr_left fun m hm' => ?_
    by_cases hat : m.isAt n.key n.keyLength = true
    · -- the only node at that place is `n`
      have hmn : m = n :=
        List.inj_on_of_nodup_map ht.nodup hm' hn ((ht.isAt_iff hm' hm hw).1 hat)
      rw [updateAt_of_isAt hat, hmn]
      rfl
    · rw [updateAt_of_not_isAt hat]
      rfl
  cases t
  simp only [Ptree.setItem] at hnodes ⊢
  rw [hnodes]

/-- Setting an item moves no node and changes no reference count, so `Match` finds a node
after it exactly when it did before. -/
lemma match_isSome_setItem (t : Ptree α) (key : List UInt8) (len : Nat) (v : Option α)
    (k : List UInt8) (l : Nat) :
    ((t.setItem key len v).match k l).isSome = (t.match k l).isSome := by
  have hq : (fun n : PtreeNode α => 0 < n.refcnt && keyMatch n.key n.keyLength k l) ∘
      updateAt key len (fun n => { n with item := v }) =
        fun n => 0 < n.refcnt && keyMatch n.key n.keyLength k l := by
    funext n
    simp only [Function.comp_apply, updateAt]
    split <;> rfl
  unfold Ptree.match
  simp only [Ptree.setItem, List.filter_map, hq]
  split_ifs
  · rfl
  · rw [Bool.eq_iff_iff, Option.isSome_iff_ne_none, Option.isSome_iff_ne_none, ne_eq, ne_eq,
      List.argmax_eq_none, List.argmax_eq_none, List.map_eq_nil_iff]

/-- The nodes after `Release`: the nodes from before, one reference down at the key, those left
with none unlinked. -/
lemma mem_release_iff {key : List UInt8} {len : Nat} {m : PtreeNode α} :
    m ∈ (t.release key len).nodes ↔ ∃ m₀ ∈ t.nodes,
      m = updateAt key len delReference m₀ ∧ (m.isAt key len = true → m.refcnt ≠ 0) := by
  rw [show (t.release key len).nodes = (t.nodes.map (updateAt key len delReference)).filter
      (fun n => !(n.isAt key len && n.refcnt == 0)) from rfl, List.mem_filter, List.mem_map]
  constructor
  · rintro ⟨⟨m₀, hm₀, rfl⟩, hkeep⟩
    refine ⟨m₀, hm₀, rfl, fun hat h0 => ?_⟩
    simp [hat, h0] at hkeep
  · rintro ⟨m₀, hm₀, rfl, hkeep⟩
    refine ⟨⟨m₀, hm₀, rfl⟩, ?_⟩
    cases hat : (updateAt key len delReference m₀).isAt key len
    · simp
    · simp [hkeep hat]

lemma Keyed.release (ht : t.Keyed w) (key : List UInt8) (len : Nat) :
    (t.release key len).Keyed w := by
  refine ⟨?_, ?_, ?_⟩
  · intro m hm
    obtain ⟨m₀, hm₀, rfl, -⟩ := mem_release_iff.1 hm
    exact ht.masked_map_updateAt place_delReference key len _ (List.mem_map_of_mem hm₀)
  · intro m hm
    obtain ⟨m₀, hm₀, rfl, hkeep⟩ := mem_release_iff.1 hm
    by_cases hat : m₀.isAt key len = true
    · -- a node taken down to no reference is unlinked
      rw [updateAt_of_isAt hat] at hkeep ⊢
      have hat' : m₀.delReference.isAt key len = true := hat
      have hne : m₀.delReference.refcnt ≠ 0 := hkeep hat'
      omega
    · rw [updateAt_of_not_isAt hat]
      exact ht.refcnt_pos m₀ hm₀
  · exact (ht.nodup_map_updateAt place_delReference key len).sublist
      (List.filter_sublist.map place)

/-- `Release` at a masked prefix takes a reference from the node standing there, and unlinks
it when none is left. -/
lemma Keyed.nodeAt_release (ht : t.Keyed w) (hq : q.Masked) (hqw : q.ip.length = w)
    (r : Prefix) :
    (t.release q.ip q.length.toNat).nodeAt r =
      if r = q then (t.nodeAt q).bind fun n =>
        if n.delReference.refcnt = 0 then none else some n.delReference
      else t.nodeAt r := by
  apply nodeAt_eq_of_mem_iff (ht.release q.ip q.length.toNat).nodup
  intro m
  rw [mem_release_iff]
  by_cases hrq : r = q
  · subst hrq
    rw [if_pos rfl]
    constructor
    · rintro ⟨⟨m₀, hm₀, rfl, hkeep⟩, hpl⟩
      rw [place_updateAt place_delReference] at hpl
      have hat := (ht.isAt_iff hm₀ hq hqw).2 hpl
      rw [updateAt_of_isAt hat] at hkeep ⊢
      rw [(nodeAt_eq_some_iff ht.nodup).2 ⟨hm₀, hpl⟩, Option.bind_some,
        if_neg (hkeep hat)]
    · intro h
      obtain ⟨m₀, hm₀, h⟩ := Option.bind_eq_some_iff.1 h
      have hpl := place_of_nodeAt hm₀
      have hat := (ht.isAt_iff (mem_of_nodeAt hm₀) hq hqw).2 hpl
      split_ifs at h with h0
      cases h
      exact ⟨⟨m₀, mem_of_nodeAt hm₀, (updateAt_of_isAt hat).symm, fun _ => h0⟩, hpl⟩
  · rw [if_neg hrq]
    constructor
    · rintro ⟨⟨m₀, hm₀, rfl, -⟩, hpl⟩
      rw [place_updateAt place_delReference] at hpl
      have hnat : ¬ m₀.isAt q.ip q.length.toNat = true := by
        rw [ht.isAt_iff hm₀ hq hqw, hpl]
        exact hrq
      rw [updateAt_of_not_isAt hnat]
      exact (nodeAt_eq_some_iff ht.nodup).2 ⟨hm₀, hpl⟩
    · intro h
      obtain ⟨hm, hpl⟩ := (nodeAt_eq_some_iff ht.nodup).1 h
      have hnat : ¬ m.isAt q.ip q.length.toNat = true := by
        rw [ht.isAt_iff hm hq hqw, hpl]
        exact hrq
      exact ⟨⟨m, hm, (updateAt_of_not_isAt hnat).symm, fun h => absurd h hnat⟩, hpl⟩

lemma Keyed.acquire (ht : t.Keyed w) (hq : q.Masked) (hqw : q.ip.length = w)
    (h : t.acquire q.ip q.length.toNat = some t') : t'.Keyed w := by
  unfold Ptree.acquire at h
  split_ifs at h with hlen hany
  · cases h
    exact ht.map_updateAt place_addReference (fun _ _ => Nat.succ_pos _) q.ip q.length.toNat
  · cases h
    -- no node stands at `q`, which the new node then takes
    have hfree : ∀ m ∈ t.nodes, m.place ≠ q := fun m hm hpl =>
      hany (List.any_eq_true.2 ⟨m, hm, (ht.isAt_iff hm hq hqw).2 hpl⟩)
    have hnew : (newNode q : PtreeNode α).place = q := place_newNode hq.1
    refine ⟨?_, ?_, ?_⟩
    · intro m hm
      rcases (List.mem_orderedInsert _).1 hm with rfl | hm
      · change (newNode q : PtreeNode α).place.Masked ∧ _ ∧ _
        rw [hnew]
        exact ⟨hq, hqw, by simp; omega⟩
      · exact ht.masked m hm
    · intro m hm
      rcases (List.mem_orderedInsert _).1 hm with rfl | hm
      · exact Nat.one_pos
      · exact ht.refcnt_pos m hm
    · refine ((List.perm_orderedInsert _ _ _).map place).nodup_iff.2 ?_
      rw [List.map_cons, List.nodup_cons]
      refine ⟨fun hin => ?_, ht.nodup⟩
      obtain ⟨m, hm, hpl⟩ := List.mem_map.1 hin
      exact hfree m hm (hpl.trans hnew)

/-- `Acquire` at a masked prefix adds a reference to the node standing there, or makes one. -/
lemma Keyed.nodeAt_acquire (ht : t.Keyed w) (hq : q.Masked) (hqw : q.ip.length = w)
    (h : t.acquire q.ip q.length.toNat = some t') (r : Prefix) :
    t'.nodeAt r =
      if r = q then some (((t.nodeAt q).map addReference).getD (newNode q)) else t.nodeAt r := by
  have ht' := ht.acquire hq hqw h
  unfold Ptree.acquire at h
  split_ifs at h with hlen hany
  · cases h
    obtain ⟨m, hm, hat⟩ := List.any_eq_true.1 hany
    have hmq : t.nodeAt q = some m :=
      (nodeAt_eq_some_iff ht.nodup).2 ⟨hm, (ht.isAt_iff hm hq hqw).1 hat⟩
    change (t.nodes.map _).find? _ = _
    rw [ht.find?_map_updateAt hq hqw _ place_addReference]
    split_ifs with hrq
    · subst hrq
      rw [hmq]
      rfl
    · exact Option.map_id_apply
  · cases h
    have hfree : ∀ m ∈ t.nodes, m.place ≠ q := fun m hm hpl =>
      hany (List.any_eq_true.2 ⟨m, hm, (ht.isAt_iff hm hq hqw).2 hpl⟩)
    apply nodeAt_eq_of_mem_iff ht'.nodup
    intro m
    rw [List.mem_orderedInsert]
    split_ifs with hrq
    · subst hrq
      rw [(nodeAt_eq_none_iff).2 hfree]
      constructor
      · rintro ⟨rfl | hm, hpl⟩
        · rfl
        · exact absurd hpl (hfree m hm)
      · rintro ⟨⟩
        exact ⟨.inl rfl, place_newNode hq.1⟩
    · constructor
      · rintro ⟨rfl | hm, hpl⟩
        · exact absurd (hpl.symm.trans (place_newNode hq.1)) hrq
        · exact (nodeAt_eq_some_iff ht.nodup).2 ⟨hm, hpl⟩
      · intro hm
        exact ⟨.inr (mem_of_nodeAt hm), place_of_nodeAt hm⟩

end Ptree

end Zebra.Netutil
