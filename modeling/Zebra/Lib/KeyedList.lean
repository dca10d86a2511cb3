import Mathlib.Data.List.Perm.Basic
import Mathlib.Data.List.Nodup
import Mathlib.Data.List.Flatten
import Mathlib.Data.List.Sort

/-!
# Tables kept as lists of records with distinct keys

A table of records known by a key, kept as a list: a record is changed in place by replacing
every record of its key (`replaceKey`), and dropped by keeping the records of the other keys
(`eraseKey`).  With distinct keys, what a `flatMap` over the table collects changes, up to
order, by the changed record's own part only.  In a table strictly sorted by key, `insertKey`
puts a record into its place.

Nothing here is specific to the program: `key` is any function into a type with decidable
equality.
-/

namespace Zebra.Lib

variable {α β γ κ : Type*} [DecidableEq κ] (key : α → κ)

/-- Every record with `y`'s key replaced by `y`. -/
def replaceKey (y : α) (L : List α) : List α := L.map fun z => if key z = key y then y else z

/-- The records whose key is not `k`. -/
def eraseKey (k : κ) (L : List α) : List α := L.filter fun z => key z ≠ k

variable {key} {L : List α} {x y : α}

@[simp] lemma map_key_replaceKey (y : α) (L : List α) :
    (replaceKey key y L).map key = L.map key := by
  simp only [replaceKey, List.map_map]
  apply List.map_congr_left
  intro z _
  by_cases h : key z = key y <;> simp [h]

lemma replaceKey_of_forall_ne (h : ∀ z ∈ L, key z ≠ key y) : replaceKey key y L = L := by
  conv_rhs => rw [← List.map_id L]
  apply List.map_congr_left
  intro z hz
  simp [h z hz]

lemma eraseKey_of_forall_ne {k : κ} (h : ∀ z ∈ L, key z ≠ k) : eraseKey key k L = L :=
  List.filter_eq_self.2 fun z hz => by simp [h z hz]

/-- In a table with distinct keys, dropping the first record of a key drops every record of it. -/
lemma eraseP_eq_eraseKey (hnd : (L.map key).Nodup) (c : κ) :
    L.eraseP (fun z => key z = c) = eraseKey key c L := by
  induction L with
  | nil => rfl
  | cons a t ih =>
    rw [List.map_cons, List.nodup_cons] at hnd
    by_cases ha : key a = c
    · have ht : ∀ z ∈ t, key z ≠ c := fun z hz hzc =>
        hnd.1 (ha ▸ hzc ▸ List.mem_map_of_mem hz)
      rw [List.eraseP_cons_of_pos (by simpa using ha), eraseKey,
        List.filter_cons_of_neg (by simp [ha])]
      exact (eraseKey_of_forall_ne ht).symm
    · rw [List.eraseP_cons_of_neg (by simpa using ha), eraseKey,
        List.filter_cons_of_pos (by simp [ha])]
      exact congrArg _ (ih hnd.2)

lemma mem_replaceKey {z : α} (hz : z ∈ replaceKey key y L) : z = y ∨ z ∈ L := by
  obtain ⟨w, hw, rfl⟩ := List.mem_map.1 hz
  by_cases h : key w = key y
  · exact .inl (if_pos h)
  · exact .inr (by rw [if_neg h]; exact hw)

lemma mem_replaceKey_self (hx : x ∈ L) (hk : key x = key y) : y ∈ replaceKey key y L :=
  List.mem_map.2 ⟨x, hx, if_pos hk⟩

lemma mem_replaceKey_of_ne {z : α} (hz : z ∈ L) (hk : key z ≠ key y) :
    z ∈ replaceKey key y L :=
  List.mem_map.2 ⟨z, hz, if_neg hk⟩

lemma flatMap_eraseKey (k : κ) (L : List α) (F : α → List β) :
    (eraseKey key k L).flatMap F = L.flatMap fun z => if key z = k then [] else F z := by
  induction L with
  | nil => rfl
  | cons z L ih =>
    by_cases hz : key z = k
    · rw [eraseKey, List.filter_cons_of_neg (by simp [hz]), List.flatMap_cons, if_pos hz,
        List.nil_append]
      exact ih
    · rw [eraseKey, List.filter_cons_of_pos (by simp [hz]), List.flatMap_cons, List.flatMap_cons,
        if_neg hz]
      exact congrArg _ ih

/-- Replacing a record swaps its part of a `flatMap` for the new record's, up to order. -/
theorem flatMap_replaceKey_perm (hnd : (L.map key).Nodup) (hx : x ∈ L) (hk : key x = key y)
    (F : α → List β) :
    ((replaceKey key y L).flatMap F).Perm ((eraseKey key (key y) L).flatMap F ++ F y) := by
  induction L with
  | nil => cases hx
  | cons z L ih =>
    obtain ⟨hz, hnd'⟩ := List.nodup_cons.1 hnd
    by_cases hzy : key z = key y
    · -- the record of the key: no other record shares it
      have hne : ∀ w ∈ L, key w ≠ key y := fun w hw he =>
        hz (hzy ▸ he ▸ List.mem_map_of_mem hw)
      have hrep : replaceKey key y (z :: L) = y :: L := by
        rw [replaceKey, List.map_cons, if_pos hzy]
        exact congrArg _ (replaceKey_of_forall_ne hne)
      have hera : eraseKey key (key y) (z :: L) = L := by
        rw [eraseKey, List.filter_cons_of_neg (by simp [hzy])]
        exact eraseKey_of_forall_ne hne
      rw [hrep, hera, List.flatMap_cons]
      exact List.perm_append_comm
    · have hx' : x ∈ L := by
        rcases List.mem_cons.1 hx with rfl | hx'
        · exact absurd hk hzy
        · exact hx'
      have hrep : replaceKey key y (z :: L) = z :: replaceKey key y L := by
        rw [replaceKey, List.map_cons, if_neg hzy]
        rfl
      have hera : eraseKey key (key y) (z :: L) = z :: eraseKey key (key y) L := by
        rw [eraseKey, List.filter_cons_of_pos (by simp [hzy])]
        rfl
      rw [hrep, hera, List.flatMap_cons, List.flatMap_cons, List.append_assoc]
      exact (ih hnd' hx').append_left (F z)

/-- A record's part of a `flatMap` and the rest, up to order. -/
theorem flatMap_perm_eraseKey (hnd : (L.map key).Nodup) (hx : x ∈ L) (F : α → List β) :
    (L.flatMap F).Perm ((eraseKey key (key x) L).flatMap F ++ F x) := by
  have hself : replaceKey key x L = L := by
    conv_rhs => rw [← List.map_id L]
    apply List.map_congr_left
    intro z hz
    by_cases h : key z = key x
    · rw [if_pos h, List.inj_on_of_nodup_map hnd hz hx h]
      rfl
    · rw [if_neg h]
      rfl
  simpa [hself] using flatMap_replaceKey_perm hnd hx rfl F

/-- A record and the records of the other keys, up to order. -/
theorem perm_eraseKey_append (hnd : (L.map key).Nodup) (hx : x ∈ L) :
    L.Perm (eraseKey key (key x) L ++ [x]) := by
  simpa using flatMap_perm_eraseKey hnd hx fun z => [z]

/-- Two members of two records of a table, with one image under a map that is injective on
everything the table holds, are one member of one record. -/
theorem eq_of_mem_flatMap_map {G : α → List β} {f : β → γ}
    (hnd : (L.flatMap fun z => (G z).map f).Nodup) {z : α} {a b : β} (hx : x ∈ L) (hz : z ∈ L)
    (ha : a ∈ G x) (hb : b ∈ G z) (h : f a = f b) : x = z ∧ a = b := by
  induction L with
  | nil => cases hx
  | cons w L ih =>
    rw [List.flatMap_cons] at hnd
    obtain ⟨hone, hrest, hdisj⟩ := List.nodup_append.1 hnd
    -- a member of `w`'s record and one of a later record have different images
    have hsep : ∀ {u c d}, u ∈ L → c ∈ G w → d ∈ G u → f c ≠ f d := fun hu hc hd =>
      hdisj _ (List.mem_map_of_mem hc) _ (List.mem_flatMap.2 ⟨_, hu, List.mem_map_of_mem hd⟩)
    rcases List.mem_cons.1 hx with rfl | hx' <;> rcases List.mem_cons.1 hz with rfl | hz'
    · exact ⟨rfl, List.inj_on_of_nodup_map hone ha hb h⟩
    · exact absurd h (hsep hz' ha hb)
    · exact absurd h.symm (hsep hx' hb ha)
    · exact ih hrest hx' hz'

/-- With distinct keys, changing the first record of key `c` (what `replaceF` does) changes
every record of key `c`. -/
theorem replaceF_eq_map (hnd : (L.map key).Nodup) (c : κ) (g : α → α) :
    L.replaceF (fun z => if key z = c then some (g z) else none) =
      L.map fun z => if key z = c then g z else z := by
  induction L with
  | nil => rfl
  | cons a L ih =>
    rw [List.map_cons, List.nodup_cons] at hnd
    by_cases ha : key a = c
    · -- no later record has the key `c`
      have hrest : ∀ z ∈ L, key z ≠ c := fun z hz hz' =>
        hnd.1 (ha ▸ hz' ▸ List.mem_map_of_mem hz)
      simp only [List.replaceF_cons, List.map_cons, if_pos ha]
      rw [List.map_congr_left fun z hz => if_neg (hrest z hz), List.map_id']
    · simp only [List.replaceF_cons, List.map_cons, if_neg ha, ih hnd.2]

/-! ### Traversals that may fail -/

/-- A traversal that succeeds puts at each place the image of the element there. -/
theorem getElem?_of_mapM_eq_some {f : α → Option β} :
    ∀ {l : List α} {l' : List β}, l.mapM f = some l' → ∀ i : Nat, l'[i]? = l[i]?.bind f
  | [], l', h, i => by
    simp only [List.mapM_nil, pure, Option.some.injEq] at h
    subst h
    rfl
  | a :: l, l', h, i => by
    simp only [List.mapM_cons, Option.bind_eq_bind, Option.bind_eq_some_iff, pure,
      Option.some.injEq] at h
    obtain ⟨b, hb, bs, hbs, rfl⟩ := h
    cases i with
    | zero => simpa using hb.symm
    | succ i => simpa using getElem?_of_mapM_eq_some hbs i

theorem length_of_mapM_eq_some {f : α → Option β} :
    ∀ {l : List α} {l' : List β}, l.mapM f = some l' → l'.length = l.length
  | [], l', h => by
    simp only [List.mapM_nil, pure, Option.some.injEq] at h
    subst h
    rfl
  | a :: l, l', h => by
    simp only [List.mapM_cons, Option.bind_eq_bind, Option.bind_eq_some_iff, pure,
      Option.some.injEq] at h
    obtain ⟨b, -, bs, hbs, rfl⟩ := h
    simp [length_of_mapM_eq_some hbs]

/-- A key found in an association list stands in it with the value found. -/
lemma mem_of_lookup_eq_some [BEq γ] [LawfulBEq γ] {l : List (γ × β)} {k : γ} {b : β}
    (h : l.lookup k = some b) : (k, b) ∈ l := by
  obtain ⟨l₁, l₂, rfl, -⟩ := List.lookup_eq_some_iff.1 h
  simp

/-! ### Tables sorted by key -/

section Sorted

variable {ι : Type*} [LinearOrder ι] {k : α → ι}

/-- Appending a record of a new key to a table strictly sorted by key, then sorting by a relation
that orders by key, gives a table strictly sorted by key. -/
theorem pairwise_insertionSort_append {r : α → α → Prop} [DecidableRel r]
    (hr : ∀ a b, r a b ↔ k a ≤ k b) (hL : L.Pairwise fun a b => k a < k b)
    (hx : ∀ z ∈ L, k z ≠ k x) :
    ((L ++ [x]).insertionSort r).Pairwise fun a b => k a < k b := by
  have : Std.Total r := ⟨fun a b => by simpa only [hr] using le_total (k a) (k b)⟩
  have : IsTrans α r :=
    ⟨fun a b c hab hbc => (hr a c).2 (le_trans ((hr a b).1 hab) ((hr b c).1 hbc))⟩
  have hle := List.pairwise_insertionSort r (L ++ [x])
  -- the keys stay distinct, so the sorted order is strict
  have hnd : (L ++ [x]).Pairwise fun a b => k a ≠ k b := by
    rw [List.pairwise_append]
    refine ⟨hL.imp ne_of_lt, List.pairwise_singleton _ _, fun a ha b hb => ?_⟩
    rw [List.mem_singleton.1 hb]
    exact hx a ha
  have hnd' := ((List.perm_insertionSort r _).pairwise_iff Ne.symm).2 hnd
  exact (hle.and hnd').imp fun h => lt_of_le_of_ne ((hr _ _).1 h.1) h.2

variable (k) in
/-- `x` put into its place by key: the records of smaller keys, `x`, the records of larger keys;
a record of `x`'s key is dropped. -/
def insertKey (x : α) (L : List α) : List α :=
  L.filter (fun z => k z < k x) ++ x :: L.filter (fun z => k x < k z)

lemma insertKey_cons_of_lt {a : α} {t : List α} (h : k a < k x) :
    insertKey k x (a :: t) = a :: insertKey k x t := by
  simp [insertKey, h, not_lt.2 h.le]

lemma insertKey_of_forall_lt (h : ∀ z ∈ L, k x < k z) : insertKey k x L = x :: L := by
  have hlt : L.filter (fun z => k z < k x) = [] :=
    List.filter_eq_nil_iff.2 fun z hz => by simpa using (h z hz).le
  have hgt : L.filter (fun z => k x < k z) = L :=
    List.filter_eq_self.2 fun z hz => by simpa using h z hz
  rw [insertKey, hlt, hgt, List.nil_append]

lemma insertKey_cons_of_eq {a : α} {t : List α} (ha : k a = k x) (h : ∀ z ∈ t, k x < k z) :
    insertKey k x (a :: t) = x :: t := by
  have hlt : (a :: t).filter (fun z => k z < k x) = [] :=
    List.filter_eq_nil_iff.2 fun z hz => by
      rcases List.mem_cons.1 hz with rfl | hz
      · simp [ha]
      · simpa using (h z hz).le
  have hgt : (a :: t).filter (fun z => k x < k z) = t := by
    rw [List.filter_cons_of_neg (by simp [ha]),
      List.filter_eq_self.2 fun z hz => by simpa using h z hz]
  rw [insertKey, hlt, hgt, List.nil_append]

/-- Before a record of a larger key that heads a sorted tail, `x` goes first. -/
lemma insertKey_cons_of_gt {a : α} {t : List α} (hgt : k x < k a) (h : ∀ z ∈ t, k a < k z) :
    insertKey k x (a :: t) = x :: a :: t := by
  refine insertKey_of_forall_lt fun z hz => ?_
  rcases List.mem_cons.1 hz with rfl | hz
  · exact hgt
  · exact hgt.trans (h z hz)

/-- Put into its place, a record keeps a table strictly sorted by key. -/
theorem pairwise_insertKey (hL : L.Pairwise fun a b => k a < k b) (x : α) :
    (insertKey k x L).Pairwise fun a b => k a < k b := by
  rw [insertKey, List.pairwise_append, List.pairwise_cons]
  refine ⟨hL.filter _, ⟨fun z hz => by simpa using (List.mem_filter.1 hz).2, hL.filter _⟩,
    ?_⟩
  intro a ha b hb
  have ha' : k a < k x := by simpa using (List.mem_filter.1 ha).2
  rcases List.mem_cons.1 hb with rfl | hb
  · exact ha'
  · exact ha'.trans (by simpa using (List.mem_filter.1 hb).2)

lemma mem_insertKey {x z : α} {L : List α} (hz : z ∈ insertKey k x L) : z = x ∨ z ∈ L := by
  rcases List.mem_append.1 hz with hz | hz
  · exact .inr (List.mem_filter.1 hz).1
  · rcases List.mem_cons.1 hz with rfl | hz
    · exact .inl rfl
    · exact .inr (List.mem_filter.1 hz).1

lemma map_insertKey (x : α) (L : List α) :
    (insertKey k x L).map k = insertKey id (k x) (L.map k) := by
  simp [insertKey, List.filter_map, Function.comp_def]

end Sorted

end Zebra.Lib
