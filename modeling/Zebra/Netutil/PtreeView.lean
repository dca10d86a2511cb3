import Zebra.Netutil.PtreeWalk

/-!
# What the callers of the tree see

To its callers a `Ptree` is a finite map from bit strings to entries, an entry being a reference
count and an item, visited in the lexicographic order of the bit strings.  A node shows its
place as bits with its entry (`PtreeNode.view`), and a list of views strictly ordered by their
bits (`Entries.Sorted`) is such a map.  Each call that changes the tree changes the entry at the
key's bits only, to what `Entries.afterAcquire`, `Entries.afterRelease` and
`Entries.afterSetItem` make of it (`Entries.Replaces`); two sorted lists that make one change to
one list are equal (`Entries.Replaces.eq`).

This module states that abstract map and shows that the list model of `Ptree` makes those changes
and answers `Lookup`, `Match` and `Top` from its views.
-/

namespace Zebra.Netutil
open Zebra.Lib

variable {α : Type}

/-- What the callers see of a node: where it stands, as bits, its references and its item. -/
def PtreeNode.view (reverse : Bool) (n : PtreeNode α) : List Bool × Nat × Option α :=
  (n.bits reverse, n.refcnt, n.item)

@[simp] theorem PtreeNode.view_fst (n : PtreeNode α) (reverse : Bool) :
    (n.view reverse).1 = n.bits reverse := rfl

@[simp] theorem PtreeNode.view_snd (n : PtreeNode α) (reverse : Bool) :
    (n.view reverse).2 = (n.refcnt, n.item) := rfl

namespace Entries

/-- Views strictly ordered by their bits: a finite map from bit strings to entries. -/
def Sorted (L : List (List Bool × Nat × Option α)) : Prop :=
  L.Pairwise fun v w => List.Lex (· < ·) v.1 w.1

/-- The entry at the bits `b`. -/
def entryAt (L : List (List Bool × Nat × Option α)) (b : List Bool) : Option (Nat × Option α) :=
  (L.find? (·.1 = b)).map (·.2)

/-- `L'` is `L` with the entry at `b` made `e`, or taken out where `e` is `none`. -/
def Replaces (b : List Bool) (e : Option (Nat × Option α))
    (L L' : List (List Bool × Nat × Option α)) : Prop :=
  ∀ v, v ∈ L' ↔ (v.1 ≠ b ∧ v ∈ L) ∨ (v.1 = b ∧ e = some v.2)

/-- The entry `Acquire` leaves: one reference more, or a first one with no item. -/
def afterAcquire : Option (Nat × Option α) → Nat × Option α
  | some (c, i) => (c + 1, i)
  | none => (1, none)

/-- The entry `Release` leaves: one reference fewer, and none at all after the last. -/
def afterRelease : Option (Nat × Option α) → Option (Nat × Option α)
  | some (c, i) => if c - 1 = 0 then none else some (c - 1, i)
  | none => none

/-- The entry `n.Item = v` leaves on a node that is there. -/
def afterSetItem (v : Option α) : Option (Nat × Option α) → Option (Nat × Option α)
  | some (c, _) => some (c, v)
  | none => none

variable {L L₁ L₂ : List (List Bool × Nat × Option α)} {b : List Bool}

theorem entryAt_eq_some_iff (hs : Sorted L) {e : Nat × Option α} :
    entryAt L b = some e ↔ (b, e) ∈ L := by
  constructor
  · intro h
    obtain ⟨v, hv, rfl⟩ := Option.map_eq_some_iff.1 h
    have hvb : v.1 = b := by simpa using List.find?_some hv
    rw [← hvb]
    exact List.mem_of_find?_eq_some hv
  · intro h
    cases hf : L.find? (·.1 = b) with
    | none => exact absurd (List.find?_eq_none.1 hf (b, e) h) (by simp)
    | some v =>
      -- the entry found is the one at `b`, there being only one
      have hvb : v.1 = b := by simpa using List.find?_some hf
      have := eq_of_pairwise_lex_of_key_eq Prod.fst hs (List.mem_of_find?_eq_some hf) h hvb
      rw [entryAt, hf, this]
      rfl

theorem entryAt_eq_none_iff : entryAt L b = none ↔ ∀ v ∈ L, v.1 ≠ b := by
  simp [entryAt, List.find?_eq_none]

/-- Two sorted lists that make one change to one list are equal. -/
theorem Replaces.eq {e : Option (Nat × Option α)} (h₁ : Replaces b e L L₁)
    (h₂ : Replaces b e L L₂) (hs₁ : Sorted L₁) (hs₂ : Sorted L₂) : L₁ = L₂ :=
  eq_of_pairwise_lex_of_mem_iff Prod.fst hs₁ hs₂ fun v => (h₁ v).trans (h₂ v).symm

end Entries

/-- Nodes strictly ordered by bits whose bits are prefixes of one string grow in length. -/
theorem pairwise_keyLength_of_prefix_filter {reverse : Bool} {l : List (PtreeNode α)}
    (hs : l.Pairwise fun x y => List.Lex (· < ·) (x.bits reverse) (y.bits reverse))
    (b : List Bool) :
    (l.filter (·.bits reverse <+: b)).Pairwise fun x y => x.keyLength < y.keyLength := by
  refine (hs.filter _).imp_of_mem fun {x y} hx hy hxy => ?_
  have hxb := of_decide_eq_true (List.mem_filter.1 hx).2
  have hyb := of_decide_eq_true (List.mem_filter.1 hy).2
  simpa using length_lt_of_lex_of_prefixes hxb hyb hxy

/-! ### A change at one node -/

/-- The views of the nodes of `l` that hold a reference. -/
def heldViews (reverse : Bool) (l : List (PtreeNode α)) : List (List Bool × Nat × Option α) :=
  (l.filter (0 < ·.refcnt)).map (·.view reverse)

/-- The entry a node shows: its references and item while it holds a reference, none without. -/
def heldEntry (n : PtreeNode α) : Option (Nat × Option α) :=
  if 0 < n.refcnt then some (n.refcnt, n.item) else none

section Held

variable {reverse : Bool} {b : List Bool} {l : List (PtreeNode α)}

theorem heldViews_sorted
    (hs : l.Pairwise fun x y => List.Lex (· < ·) (x.bits reverse) (y.bits reverse)) :
    Entries.Sorted (heldViews reverse l) :=
  List.pairwise_map.2 (hs.filter _)

theorem mem_heldViews {v : List Bool × Nat × Option α} :
    v ∈ heldViews reverse l ↔ ∃ x ∈ l, 0 < x.refcnt ∧ x.view reverse = v := by
  simp [heldViews, and_assoc]

/-- The entry at the bits of a node of a list strictly ordered by bits is the node's. -/
theorem entryAt_heldViews
    (hs : l.Pairwise fun x y => List.Lex (· < ·) (x.bits reverse) (y.bits reverse))
    {x : PtreeNode α} (hx : x ∈ l) :
    Entries.entryAt (heldViews reverse l) (x.bits reverse) = heldEntry x := by
  unfold heldEntry
  split
  · next hpos =>
    exact (Entries.entryAt_eq_some_iff (heldViews_sorted hs)).2 (mem_heldViews.2 ⟨x, hx, hpos, rfl⟩)
  · next hpos =>
    -- the node is the only one at its bits, and it shows none
    refine Entries.entryAt_eq_none_iff.2 fun v hv hvb => ?_
    obtain ⟨y, hy, hypos, rfl⟩ := mem_heldViews.1 hv
    rw [eq_of_pairwise_lex_of_key_eq (·.bits reverse) hs hy hx hvb] at hypos
    exact hpos hypos

theorem entryAt_heldViews_of_forall_ne (h : ∀ x ∈ l, x.bits reverse ≠ b) :
    Entries.entryAt (heldViews reverse l) b = none :=
  Entries.entryAt_eq_none_iff.2 fun v hv => by
    obtain ⟨y, hy, -, rfl⟩ := mem_heldViews.1 hv
    exact h y hy

/-- A call that changes the node at the bits `b` by `g`, keeping its place, in a list strictly
ordered by bits: among the nodes holding a reference, it replaces the entry at `b` by what `e`
makes of it. -/
theorem replaces_heldViews_map
    (hs : l.Pairwise fun x y => List.Lex (· < ·) (x.bits reverse) (y.bits reverse))
    (g : PtreeNode α → PtreeNode α) (hbits : ∀ x, (g x).bits reverse = x.bits reverse)
    (e : Option (Nat × Option α) → Option (Nat × Option α))
    (hg : ∀ x ∈ l, x.bits reverse = b → e (heldEntry x) = heldEntry (g x))
    (hnone : (∀ x ∈ l, x.bits reverse ≠ b) → e none = none) :
    Entries.Replaces b (e (Entries.entryAt (heldViews reverse l) b)) (heldViews reverse l)
      (heldViews reverse (l.map (Linked.updateAtBits reverse b g))) := by
  intro v
  rw [heldViews, List.filter_map, List.map_map, List.mem_map]
  constructor
  · rintro ⟨x, hx, rfl⟩
    obtain ⟨hx, hpos⟩ := List.mem_filter.1 hx
    rw [Function.comp_apply, decide_eq_true_eq] at hpos
    rw [Function.comp_apply]
    by_cases hxb : x.bits reverse = b
    · -- the node at `b`: its new entry is what `e` makes of its old one
      rw [Linked.updateAtBits_of_eq g hxb] at hpos ⊢
      refine .inr ⟨by simp [hbits, hxb], ?_⟩
      rw [← hxb, entryAt_heldViews hs hx, hg x hx hxb, heldEntry, if_pos hpos]
      rfl
    · rw [Linked.updateAtBits_of_ne g hxb] at hpos ⊢
      exact .inl ⟨hxb, mem_heldViews.2 ⟨x, hx, hpos, rfl⟩⟩
  · rintro (⟨hb, hv⟩ | ⟨hb, he⟩)
    · obtain ⟨x, hx, hpos, rfl⟩ := mem_heldViews.1 hv
      have hxb : x.bits reverse ≠ b := by simpa using hb
      refine ⟨x, List.mem_filter.2 ⟨hx, ?_⟩, ?_⟩
      · rw [Function.comp_apply, Linked.updateAtBits_of_ne g hxb, decide_eq_true_eq]
        exact hpos
      · rw [Function.comp_apply, Linked.updateAtBits_of_ne g hxb]
    · by_cases hex : ∃ x ∈ l, x.bits reverse = b
      · obtain ⟨x, hx, hxb⟩ := hex
        rw [← hxb, entryAt_heldViews hs hx, hg x hx hxb, heldEntry] at he
        split at he
        · next hpos =>
          refine ⟨x, List.mem_filter.2 ⟨hx, ?_⟩, ?_⟩
          · rw [Function.comp_apply, Linked.updateAtBits_of_eq g hxb, decide_eq_true_eq]
            exact hpos
          · obtain ⟨b', c, i⟩ := v
            simp only at hb he
            rw [Function.comp_apply, Linked.updateAtBits_of_eq g hxb, PtreeNode.view, hbits, hxb,
              hb, Option.some.inj he]
        · cases he
      · push Not at hex
        rw [entryAt_heldViews_of_forall_ne hex, hnone hex] at he
        cases he

/-- Where no node is at `b`, the nodes `Acquire` adds show the callers one entry more, a first
reference with no item at `b`, and nothing else. -/
theorem Linked.Adds.replaces_heldViews {t t' : BinTree (PtreeNode α)}
    (hA : Linked.Adds reverse b t t') (hex : ∀ x ∈ t.preorder, x.bits reverse ≠ b) :
    Entries.Replaces b (some (Entries.afterAcquire none)) (heldViews reverse t.preorder)
      (heldViews reverse t'.preorder) := by
  obtain ⟨add, hadd, hab, h1, hnone, hrest⟩ := hA.new
  intro v
  rw [mem_heldViews, mem_heldViews]
  constructor
  · rintro ⟨x, hx, hpos, rfl⟩
    -- the forks the walk adds hold no reference, so the callers do not see them
    rcases hrest x hx with hx | rfl | ⟨h0, -⟩
    · exact .inl ⟨hex x hx, x, hx, hpos, rfl⟩
    · exact .inr ⟨hab, by simp [PtreeNode.view, h1, hnone, Entries.afterAcquire]⟩
    · omega
  · rintro (⟨-, x, hx, hpos, rfl⟩ | ⟨hb, he⟩)
    · exact ⟨x, hA.old x hx, hpos, rfl⟩
    · refine ⟨add, hadd, by omega, ?_⟩
      obtain ⟨b', c, i⟩ := v
      simp only at hb he
      simp only [PtreeNode.view, hab, h1, hnone, hb, ← Option.some.inj he, Entries.afterAcquire]

end Held

/-! ### The list model -/

/-- A node's key has the bytes its length needs. -/
def PtreeNode.Fits (n : PtreeNode α) : Prop := n.keyLength ≤ 8 * n.key.length

/-- `keyMatch` holds only of a first key no longer than the second. -/
theorem keyMatch_le {k1 k2 : List UInt8} {l1 l2 : Nat} (h : keyMatch k1 l1 k2 l2 = true) :
    l1 ≤ l2 := by
  by_contra hlt
  rw [keyMatch, if_pos (by omega)] at h
  cases h

section Key

variable {key : List UInt8} {len : Nat} {n : PtreeNode α}

/-- The test of `Match` on a node: its bits are a prefix of the key's. -/
theorem keyMatch_iff_prefix_bits (reverse : Bool) (hn : n.Fits) (hkey : len ≤ 8 * key.length) :
    keyMatch n.key n.keyLength key len = true ↔ n.bits reverse <+: keyBits key len reverse := by
  rw [← walk_iff reverse n hn hkey]
  exact ⟨fun h => ⟨keyMatch_le h, h⟩, And.right⟩

/-- The test of `Acquire` and `Lookup` in the list model: the node's bits are the key's. -/
theorem PtreeNode.isAt_iff (reverse : Bool) (hn : n.Fits) (hkey : len ≤ 8 * key.length) :
    n.isAt key len = true ↔ n.bits reverse = keyBits key len reverse := by
  rw [PtreeNode.isAt, Bool.and_eq_true, beq_iff_eq]
  constructor
  · rintro ⟨rfl, hm⟩
    have hagree := ((keyMatch_iff hn hkey).1 hm).2
    exact ((keyBits_prefix_iff reverse le_rfl).2 hagree).eq_of_length (by simp)
  · intro h
    have hl : n.keyLength = len := by simpa using congrArg List.length h
    subst hl
    refine ⟨rfl, (keyMatch_iff hn hkey).2 ⟨le_rfl, ?_⟩⟩
    rw [← keyBits_prefix_iff reverse le_rfl, ← PtreeNode.bits_eq]
    exact h ▸ List.prefix_refl _

end Key

namespace Ptree

/-- The views of the list model's nodes, in its order. -/
def views (s : Ptree α) : List (List Bool × Nat × Option α) :=
  s.nodes.map (·.view s.reverse)

/-- The list model's invariant: its views are sorted, every node holds a reference, and every
key has the bytes its length needs. -/
structure Wf (s : Ptree α) : Prop where
  sorted : Entries.Sorted s.views
  refcnt_pos : ∀ n ∈ s.nodes, 0 < n.refcnt
  fits : ∀ n ∈ s.nodes, n.Fits

theorem wf_empty (maxKeyBits : Nat) (reverse : Bool) : (Ptree.empty maxKeyBits reverse : Ptree α).Wf :=
  ⟨List.Pairwise.nil, (fun _ h => by cases h), (fun _ h => by cases h)⟩

section Ops

variable {s : Ptree α} {key : List UInt8} {len : Nat}

theorem Wf.pairwise (hs : s.Wf) :
    s.nodes.Pairwise fun x y => List.Lex (· < ·) (x.bits s.reverse) (y.bits s.reverse) := by
  simpa [Entries.Sorted, views, List.pairwise_map] using hs.sorted

/-- Every node of the list model holds a reference: its views are those of the nodes holding
one. -/
theorem Wf.views_eq (hs : s.Wf) : s.views = heldViews s.reverse s.nodes := by
  rw [heldViews, List.filter_eq_self.2 fun n hn => decide_eq_true (hs.refcnt_pos n hn)]
  rfl

/-- The list model's test at the key is the test of the bits. -/
theorem Wf.map_updateAt (hs : s.Wf) (hkey : len ≤ 8 * key.length) (f : PtreeNode α → PtreeNode α) :
    s.nodes.map (PtreeNode.updateAt key len f) =
      s.nodes.map (Linked.updateAtBits s.reverse (keyBits key len s.reverse) f) := by
  refine List.map_congr_left fun n hn => ?_
  rw [PtreeNode.updateAt, Linked.updateAtBits]
  by_cases h : n.bits s.reverse = keyBits key len s.reverse
  · rw [if_pos ((PtreeNode.isAt_iff s.reverse (hs.fits n hn) hkey).2 h), if_pos h]
  · rw [if_neg (mt (PtreeNode.isAt_iff s.reverse (hs.fits n hn) hkey).1 h), if_neg h]

/-- A change of the list model's nodes at the key by `g`, keeping their places and their
references, keeps the model's invariant; its views are the changed nodes' views. -/
theorem Wf.map (hs : s.Wf) (hkey : len ≤ 8 * key.length) (g : PtreeNode α → PtreeNode α)
    (hkeyg : ∀ n, (g n).key = n.key) (hlen : ∀ n, (g n).keyLength = n.keyLength)
    (hpos : ∀ n, 0 < n.refcnt → 0 < (g n).refcnt) :
    ({ s with nodes := s.nodes.map (PtreeNode.updateAt key len g) } : Ptree α).Wf ∧
      ({ s with nodes := s.nodes.map (PtreeNode.updateAt key len g) } : Ptree α).views =
        heldViews s.reverse (s.nodes.map (Linked.updateAtBits s.reverse (keyBits key len s.reverse) g)) := by
  have hbits : ∀ n, (g n).bits s.reverse = n.bits s.reverse := fun n => by
    simp only [PtreeNode.bits_eq, hkeyg, hlen]
  -- a changed node is the node itself or `g` of it
  have hmem : ∀ n ∈ s.nodes.map (Linked.updateAtBits s.reverse (keyBits key len s.reverse) g),
      ∃ m ∈ s.nodes, n = m ∨ n = g m := fun n hn => by
    obtain ⟨m, hm, rfl⟩ := List.mem_map.1 hn
    by_cases hb : m.bits s.reverse = keyBits key len s.reverse
    · exact ⟨m, hm, .inr (Linked.updateAtBits_of_eq g hb)⟩
    · exact ⟨m, hm, .inl (Linked.updateAtBits_of_ne g hb)⟩
  have hpos' : ∀ n ∈ s.nodes.map (Linked.updateAtBits s.reverse (keyBits key len s.reverse) g),
      0 < n.refcnt := fun n hn => by
    obtain ⟨m, hm, h | h⟩ := hmem n hn <;> rw [h]
    · exact hs.refcnt_pos m hm
    · exact hpos m (hs.refcnt_pos m hm)
  have hviews : ({ s with nodes := s.nodes.map (PtreeNode.updateAt key len g) } : Ptree α).views =
      heldViews s.reverse (s.nodes.map (Linked.updateAtBits s.reverse (keyBits key len s.reverse) g)) := by
    rw [heldViews, List.filter_eq_self.2 fun n hn => decide_eq_true (hpos' n hn), views,
      hs.map_updateAt hkey]
  refine ⟨⟨?_, ?_, fun n hn => ?_⟩, hviews⟩
  · rw [hviews]
    refine heldViews_sorted (List.pairwise_map.2 (hs.pairwise.imp fun {x y} hxy => ?_))
    unfold Linked.updateAtBits
    split <;> split <;> simpa [hbits] using hxy
  · rw [hs.map_updateAt hkey]
    exact hpos'
  · rw [hs.map_updateAt hkey] at hn
    obtain ⟨m, hm, h | h⟩ := hmem n hn <;> rw [h]
    · exact hs.fits m hm
    · unfold PtreeNode.Fits
      rw [hkeyg, hlen]
      exact hs.fits m hm

theorem entryAt_of_forall_ne {b : List Bool} (h : ∀ n ∈ s.nodes, n.bits s.reverse ≠ b) :
    Entries.entryAt s.views b = none :=
  Entries.entryAt_eq_none_iff.2 fun v hv => by
    obtain ⟨n, hn, rfl⟩ := List.mem_map.1 hv
    exact h n hn

/-- `Acquire` in the list model, within the width: the invariant holds after it, and the entry at
the key gets one reference more, or a first one with no item. -/
theorem Wf.acquire (hs : s.Wf) (hkey : len ≤ 8 * key.length) {s' : Ptree α}
    (h : s.acquire key len = some s') :
    s'.Wf ∧ s'.maxKeyBits = s.maxKeyBits ∧ s'.reverse = s.reverse ∧
      Entries.Replaces (keyBits key len s.reverse)
        (some (Entries.afterAcquire (Entries.entryAt s.views (keyBits key len s.reverse))))
        s.views s'.views := by
  unfold Ptree.acquire at h
  split_ifs at h with hmax hany
  · cases h
    -- a node at the key takes one more reference in place
    obtain ⟨y, hy, hyb⟩ := List.any_eq_true.1 hany
    have hyb' := (PtreeNode.isAt_iff s.reverse (hs.fits y hy) hkey).1 hyb
    obtain ⟨hwf, hviews⟩ := hs.map hkey PtreeNode.addReference (fun _ => rfl) (fun _ => rfl)
      fun _ _ => Nat.succ_pos _
    refine ⟨hwf, rfl, rfl, ?_⟩
    rw [hviews, hs.views_eq]
    refine replaces_heldViews_map hs.pairwise PtreeNode.addReference (fun _ => rfl)
      (fun o => some (Entries.afterAcquire o))
      (fun x hx _ => ?_) fun hno => absurd hyb' (hno y hy)
    simp [heldEntry, hs.refcnt_pos x hx, PtreeNode.addReference, Entries.afterAcquire]
  · cases h
    -- a new node at the key, in its place in the order
    have hno : ∀ n ∈ s.nodes, n.bits s.reverse ≠ keyBits key len s.reverse := fun n hn hnb =>
      hany (List.any_eq_true.2 ⟨n, hn, (PtreeNode.isAt_iff s.reverse (hs.fits n hn) hkey).2 hnb⟩)
    have hsorted := pairwise_orderedInsert (·.bits s.reverse)
      (fun a b : PtreeNode α => bitsLe (a.bits s.reverse) (b.bits s.reverse) = true)
      (fun x y => bitsLe_iff _ _) ({ key, keyLength := len, refcnt := 1, item := none })
      hs.pairwise hno
    refine ⟨⟨List.pairwise_map.2 hsorted, fun n hn => ?_, fun n hn => ?_⟩, rfl, rfl, fun v => ?_⟩
    · rcases (List.mem_orderedInsert _).1 hn with rfl | hn
      · exact Nat.one_pos
      · exact hs.refcnt_pos n hn
    · rcases (List.mem_orderedInsert _).1 hn with rfl | hn
      · exact hkey
      · exact hs.fits n hn
    · rw [entryAt_of_forall_ne hno]
      simp only [views, List.mem_map, List.mem_orderedInsert]
      constructor
      · rintro ⟨n, rfl | hn, rfl⟩
        · exact .inr ⟨rfl, rfl⟩
        · exact .inl ⟨hno n hn, n, hn, rfl⟩
      · rintro (⟨-, n, hn, rfl⟩ | ⟨hb, he⟩)
        · exact ⟨n, .inr hn, rfl⟩
        · refine ⟨_, .inl rfl, ?_⟩
          obtain ⟨b', c, i⟩ := v
          simp only at hb he
          rw [hb, ← Option.some.inj he]
          rfl

/-- `Release` in the list model: the invariant holds after it, and the entry at the key loses a
reference, and goes with its last. -/
theorem Wf.release (hs : s.Wf) (hkey : len ≤ 8 * key.length) :
    (s.release key len).Wf ∧
      Entries.Replaces (keyBits key len s.reverse)
        (Entries.afterRelease (Entries.entryAt s.views (keyBits key len s.reverse)))
        s.views (s.release key len).views := by
  -- the node unlinked at zero is the one at the key: the nodes kept are those holding a reference
  have hnodes : (s.release key len).nodes = (s.nodes.map (Linked.updateAtBits s.reverse
      (keyBits key len s.reverse) PtreeNode.delReference)).filter (0 < ·.refcnt) := by
    rw [Ptree.release, hs.map_updateAt hkey]
    refine List.filter_congr fun y hy => ?_
    obtain ⟨x, hx, rfl⟩ := List.mem_map.1 hy
    by_cases hb : x.bits s.reverse = keyBits key len s.reverse
    · have hat : (PtreeNode.delReference x).isAt key len = true :=
        (PtreeNode.isAt_iff s.reverse (hs.fits x hx) hkey).2 hb
      rw [Linked.updateAtBits_of_eq _ hb, hat]
      by_cases h0 : (PtreeNode.delReference x).refcnt = 0 <;> simp [h0, Nat.pos_iff_ne_zero]
    · have hat : x.isAt key len = false := by
        simpa using mt (PtreeNode.isAt_iff s.reverse (hs.fits x hx) hkey).1 hb
      rw [Linked.updateAtBits_of_ne _ hb, hat]
      simp [hs.refcnt_pos x hx]
  have hviews : (s.release key len).views = heldViews s.reverse (s.nodes.map
      (Linked.updateAtBits s.reverse (keyBits key len s.reverse) PtreeNode.delReference)) := by
    rw [views, hnodes]
    rfl
  have hpair : (s.nodes.map (Linked.updateAtBits s.reverse (keyBits key len s.reverse)
      PtreeNode.delReference)).Pairwise fun x y =>
        List.Lex (· < ·) (x.bits s.reverse) (y.bits s.reverse) := by
    refine List.pairwise_map.2 (hs.pairwise.imp fun {x y} hxy => ?_)
    unfold Linked.updateAtBits
    split <;> split <;> simpa using hxy
  refine ⟨⟨?_, fun n hn => ?_, fun n hn => ?_⟩, ?_⟩
  · rw [hviews]
    exact heldViews_sorted hpair
  · rw [hnodes] at hn
    exact of_decide_eq_true (List.mem_filter.1 hn).2
  · rw [hnodes] at hn
    obtain ⟨x, hx, rfl⟩ := List.mem_map.1 (List.mem_filter.1 hn).1
    unfold Linked.updateAtBits
    split
    · exact hs.fits x hx
    · exact hs.fits x hx
  · rw [hviews, hs.views_eq]
    refine replaces_heldViews_map hs.pairwise PtreeNode.delReference (fun _ => rfl)
      Entries.afterRelease
      (fun x hx _ => ?_) fun _ => rfl
    have hpos := hs.refcnt_pos x hx
    by_cases h1 : x.refcnt - 1 = 0
    · simp [heldEntry, hpos, h1, PtreeNode.delReference, Entries.afterRelease]
    · have h2 : 0 < x.refcnt - 1 := Nat.pos_of_ne_zero h1
      simp [heldEntry, hpos, h1, h2, PtreeNode.delReference, Entries.afterRelease]

/-- `n.Item = v` in the list model: the invariant holds after it, and the entry at the key, if
there is one, takes the item. -/
theorem Wf.setItem (hs : s.Wf) (hkey : len ≤ 8 * key.length) (v : Option α) :
    (s.setItem key len v).Wf ∧
      Entries.Replaces (keyBits key len s.reverse)
        (Entries.afterSetItem v (Entries.entryAt s.views (keyBits key len s.reverse)))
        s.views (s.setItem key len v).views := by
  obtain ⟨hwf, hviews⟩ := hs.map hkey (fun n => { n with item := v }) (fun _ => rfl) (fun _ => rfl)
    fun _ h => h
  refine ⟨hwf, ?_⟩
  rw [Ptree.setItem, hviews, hs.views_eq]
  refine replaces_heldViews_map hs.pairwise (fun n => { n with item := v }) (fun _ => rfl)
    (Entries.afterSetItem v)
    (fun x hx _ => ?_) fun _ => rfl
  simp [heldEntry, hs.refcnt_pos x hx, Entries.afterSetItem]

/-! ### What the list model answers -/

/-- `Lookup` in the list model: the view at the key's bits, within the width. -/
theorem Wf.lookup_view (hs : s.Wf) (hkey : len ≤ 8 * key.length) :
    (s.lookup key len).map (·.view s.reverse) =
      if s.maxKeyBits < len then none else s.views.find? (·.1 = keyBits key len s.reverse) := by
  unfold Ptree.lookup
  split
  · rfl
  · rw [views, List.find?_map, ← List.head?_filter, ← List.head?_filter]
    congr 2
    refine List.filter_congr fun n hn => ?_
    rw [Bool.eq_iff_iff]
    simp only [Bool.and_eq_true, PtreeNode.isAt_iff s.reverse (hs.fits n hn) hkey,
      decide_eq_true (hs.refcnt_pos n hn), and_true, Function.comp_apply, PtreeNode.view_fst]
    exact ⟨decide_eq_true, of_decide_eq_true⟩

/-- `Match` in the list model: the last view, in the model's order, whose bits are a prefix of the
key's, within the width.  Those bits grow along the list, so the longest node is the last. -/
theorem Wf.match_view (hs : s.Wf) (hkey : len ≤ 8 * key.length) :
    (s.match key len).map (·.view s.reverse) =
      if s.maxKeyBits < len then none
      else (s.views.filter (·.1 <+: keyBits key len s.reverse)).getLast? := by
  unfold Ptree.match
  split
  · rfl
  · have hfilter : s.nodes.filter (fun n => 0 < n.refcnt && keyMatch n.key n.keyLength key len) =
        s.nodes.filter (·.bits s.reverse <+: keyBits key len s.reverse) :=
      List.filter_congr fun n hn => by
        rw [Bool.eq_iff_iff]
        simp [hs.refcnt_pos n hn, keyMatch_iff_prefix_bits s.reverse (hs.fits n hn) hkey]
    rw [hfilter, argmax_eq_getLast? (pairwise_keyLength_of_prefix_filter hs.pairwise _), views,
      List.filter_map, List.getLast?_map]
    rfl

/-- `Top` and `Next` in the list model visit the views that hold an item, in the model's
order. -/
theorem items_view (s : Ptree α) :
    s.items.map (·.view s.reverse) = s.views.filter (·.2.2.isSome) := by
  rw [items, views, List.filter_map]
  rfl

end Ops

end Ptree

end Zebra.Netutil
