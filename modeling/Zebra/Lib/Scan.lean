import Mathlib.Data.List.MinMax
import Mathlib.Data.Prod.Lex

/-!
# A best-route scan: the first least element and the least class

A single pass over a list that keeps two things: the first element whose key `(d a, m a)`
is least in the lexicographic order, and, in list order, the elements whose primary key
`d a` is least.  The pass replaces its incumbent only on a strictly smaller key, so its
tie behaviour is that of `List.argmin`; its class is reset on a strictly smaller primary key
and grows on an equal one.

Nothing here is specific to routing: `d` and `m` are any two keys into linear orders.
-/

namespace Zebra.Lib

variable {α β γ : Type*} [LinearOrder β] [LinearOrder γ]

/-- The lexicographic key `(d a, m a)` of an element. -/
def lexKey (d : α → β) (m : α → γ) (a : α) : β ×ₗ γ := toLex (d a, m a)

lemma lexKey_lt_iff {d : α → β} {m : α → γ} {a b : α} :
    lexKey d m a < lexKey d m b ↔ d a < d b ∨ d a = d b ∧ m a < m b :=
  Prod.Lex.toLex_lt_toLex

lemma lexKey_le_iff {d : α → β} {m : α → γ} {a b : α} :
    lexKey d m a ≤ lexKey d m b ↔ d a < d b ∨ d a = d b ∧ m a ≤ m b :=
  Prod.Lex.toLex_le_toLex

/-- The elements of `l` whose primary key is least, in list order. -/
def minClass (d : α → β) (l : List α) : List α :=
  l.filter fun a => decide (∀ b ∈ l, d a ≤ d b)

lemma mem_minClass {d : α → β} {l : List α} {a : α} :
    a ∈ minClass d l ↔ a ∈ l ∧ ∀ b ∈ l, d a ≤ d b := by
  simp [minClass]

/-- One step of the scan: the incumbent and the class so far, and the next element. -/
def scanStep (d : α → β) (m : α → γ) : Option α × List α → α → Option α × List α
  | (none, _), a => (some a, [a])
  | (some s, fs), a =>
    if d a < d s then (some a, [a])
    else if d a = d s then (if m a < m s then some a else some s, fs ++ [a])
    else (some s, fs)

/-- The scan over a whole list, from no incumbent. -/
def scan (d : α → β) (m : α → γ) (l : List α) : Option α × List α :=
  l.foldl (scanStep d m) (none, [])

/-- The first lexicographic minimum has the least primary key. -/
lemma le_of_mem_argmin_lexKey {d : α → β} {m : α → γ} {l : List α} {s b : α}
    (hs : s ∈ l.argmin (lexKey d m)) (hb : b ∈ l) : d s ≤ d b := by
  have hle := List.le_of_mem_argmin hb hs
  rcases lexKey_le_iff.1 hle with h | ⟨h, -⟩
  · exact h.le
  · exact h.le

/-- The class of a list with one more element, split at the new element. -/
lemma minClass_concat (d : α → β) (l : List α) (a : α) :
    minClass d (l ++ [a]) =
      l.filter (fun b => decide ((∀ c ∈ l, d b ≤ d c) ∧ d b ≤ d a)) ++
        (if ∀ c ∈ l, d a ≤ d c then [a] else []) := by
  simp only [minClass, List.filter_append, List.filter_cons, List.filter_nil, List.mem_append,
    List.mem_singleton]
  congr 1
  · apply List.filter_congr
    intro b _
    simp [or_imp, forall_and]
  · by_cases h : ∀ c ∈ l, d a ≤ d c <;> simp [h, or_imp, forall_and]

/-- Appending an element whose primary key is strictly below the class resets it. -/
lemma minClass_concat_of_lt {d : α → β} {l : List α} {a s : α} (hs : ∀ b ∈ l, d s ≤ d b)
    (ha : d a < d s) : minClass d (l ++ [a]) = [a] := by
  have hall : ∀ c ∈ l, d a ≤ d c := fun c hc => le_trans ha.le (hs c hc)
  rw [minClass_concat, if_pos hall, List.filter_eq_nil_iff.2]
  · rfl
  · intro b hb
    have hab : ¬ d b ≤ d a := not_le.2 (lt_of_lt_of_le ha (hs b hb))
    simp [hab]

/-- Appending an element on the class's primary key extends the class. -/
lemma minClass_concat_of_eq {d : α → β} {l : List α} {a s : α} (hsl : s ∈ l)
    (hs : ∀ b ∈ l, d s ≤ d b) (ha : d a = d s) : minClass d (l ++ [a]) = minClass d l ++ [a] := by
  have hall : ∀ c ∈ l, d a ≤ d c := fun c hc => ha ▸ hs c hc
  rw [minClass_concat, if_pos hall, minClass]
  congr 1
  apply List.filter_congr
  intro b _
  -- a member of the class sits at the least key, which is that of `a`
  have hiff : (∀ c ∈ l, d b ≤ d c) → d b ≤ d a := fun h => ha ▸ h s hsl
  simp only [decide_eq_decide]
  exact ⟨fun h => h.1, fun h => ⟨h, hiff h⟩⟩

/-- Appending an element above the class's primary key leaves the class alone. -/
lemma minClass_concat_of_gt {d : α → β} {l : List α} {a s : α} (hsl : s ∈ l)
    (ha : d s < d a) : minClass d (l ++ [a]) = minClass d l := by
  have hnot : ¬ ∀ c ∈ l, d a ≤ d c := fun h => absurd (h s hsl) (not_le.2 ha)
  rw [minClass_concat, if_neg hnot, List.append_nil, minClass]
  apply List.filter_congr
  intro b _
  have hiff : (∀ c ∈ l, d b ≤ d c) → d b ≤ d a := fun h => le_trans (h s hsl) ha.le
  simp only [decide_eq_decide]
  exact ⟨fun h => h.1, fun h => ⟨h, hiff h⟩⟩

/-- The scan computes the first lexicographic minimum and the least class. -/
theorem scan_eq (d : α → β) (m : α → γ) (l : List α) :
    scan d m l = (l.argmin (lexKey d m), minClass d l) := by
  induction l using List.reverseRecOn with
  | nil => rfl
  | append_singleton l a ih =>
    rw [scan, List.foldl_append, ← scan, ih, List.argmin_concat]
    cases hsel : l.argmin (lexKey d m) with
    | none =>
      -- an empty prefix: the new element is both the minimum and the class
      rw [List.argmin_eq_none] at hsel
      subst hsel
      simp [scanStep, minClass]
    | some s =>
      have hsl : s ∈ l := List.argmin_mem hsel
      have hs : ∀ b ∈ l, d s ≤ d b := fun b hb => le_of_mem_argmin_lexKey hsel hb
      simp only [List.foldl_cons, List.foldl_nil, scanStep, lexKey_lt_iff]
      rcases lt_trichotomy (d a) (d s) with hlt | heq | hgt
      · simp [hlt, minClass_concat_of_lt hs hlt]
      · simp [heq, minClass_concat_of_eq hsl hs heq]
      · simp [hgt.ne', not_lt.2 hgt.le, minClass_concat_of_gt hsl hgt]

/-- The first minimum of an image is the image of the first minimum for the pulled-back key. -/
lemma argmin_map {δ : Type*} (f : α → β) (G : δ → α) (l : List δ) :
    (l.map G).argmin f = (l.argmin (f ∘ G)).map G := by
  induction l using List.reverseRecOn with
  | nil => rfl
  | append_singleton l a ih =>
    rw [List.map_append, List.map_singleton, List.argmin_concat, List.argmin_concat, ih]
    cases l.argmin (f ∘ G) with
    | none => rfl
    | some c =>
      simp only [Option.map_some, Function.comp_apply]
      split_ifs <;> rfl

/-- The least class of an image is the image of the least class for the pulled-back key. -/
lemma minClass_map {δ : Type*} (d : α → β) (G : δ → α) (l : List δ) :
    minClass d (l.map G) = (minClass (d ∘ G) l).map G := by
  simp only [minClass, List.filter_map]
  congr 1
  apply List.filter_congr
  intro a _
  simp

end Zebra.Lib
