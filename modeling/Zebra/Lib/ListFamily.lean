import Mathlib.Data.List.Nodup

/-!
# Families of lists changed one key at a time

A family of lists, one for each key, read by `get` and written by `set`, where writing a key
changes that key's list only.  Two facts about runs of changes to such a family.  Erasing an
element from the list of each key of a list of keys, one key after the other, erases it from
those lists and leaves the others (`foldlM_erase`).  And where each change of a run adds an
element, takes it out or leaves it, whether the element is there at the end is decided by the
last change that adds it or takes it out (`foldl_getD_eq_true_iff`).

A view that a run of steps changes at one key a step (`foldlM_get_eq_foldl_filter`) is, at
each key, a fold over the steps at that key.  Two kinds of register make such folds: one that
every write replaces (`overwrite`) and one that keeps the value it holds until it is cleared
(`keepFirst`).  The second changes only where a write would change whether it holds a value
(`keepFirst_eq_ite`), and the two hold the same value when only one value is ever written
(`foldl_keepFirst_eq_foldl_overwrite`).

Nothing here is specific to the program.
-/

namespace Zebra.Lib

section EraseKeys

variable {σ ι κ α : Type*} [DecidableEq κ] [DecidableEq α] {a : α}

/-- Erasing twice erases once, when the element stands in the list once at most. -/
lemma erase_erase_of_nodup {l : List α} (h : l.Nodup) : (l.erase a).erase a = l.erase a :=
  List.erase_of_not_mem h.not_mem_erase

variable (get : σ → κ → List α) (set : σ → κ → List α → σ) (key : ι → κ)
  {remove : List α → Option (List α)}

/-- Erasing at each key of `is` in turn, where `remove` erases from a list without duplicates:
the lists of those keys lose the element, the others stay. -/
theorem foldlM_erase (get_set : ∀ s k k' l, get (set s k l) k' = if k' = k then l else get s k')
    (hremove : ∀ l : List α, l.Nodup → remove l = some (l.erase a)) :
    ∀ (is : List ι) (s s' : σ), (∀ k, (get s k).Nodup) →
      is.foldlM (fun s i => (remove (get s (key i))).map (set s (key i))) s = some s' →
      ∀ k, get s' k = if k ∈ is.map key then (get s k).erase a else get s k
  | [], s, s', _, h, k => by
    cases h
    simp
  | i :: is, s, s', hnd, h, k => by
    simp only [List.foldlM_cons, hremove _ (hnd (key i)), Option.map_some, Option.bind_eq_bind,
      Option.bind_some] at h
    have hget : ∀ k', get (set s (key i) ((get s (key i)).erase a)) k' =
        if k' = key i then (get s k').erase a else get s k' := by
      intro k'
      rw [get_set]
      split_ifs with hk
      · rw [hk]
      · rfl
    have hnd₁ : ∀ k', (get (set s (key i) ((get s (key i)).erase a)) k').Nodup := by
      intro k'
      rw [hget]
      split_ifs
      · exact (hnd k').erase a
      · exact hnd k'
    rw [foldlM_erase get_set hremove is _ s' hnd₁ h k, hget]
    -- the key of `i` is erased once here and perhaps again later, which changes nothing
    by_cases hk : k = key i
    · simp [hk, erase_erase_of_nodup (hnd (key i))]
    · simp [hk]

end EraseKeys

section LastWrite

variable {α : Type*} (f : α → Option Bool)

/-- `x :: l` split around one of its elements: at its head, or within `l`. -/
lemma exists_cons_eq_append_cons_iff {x : α} {l : List α} {P : α → List α → Prop} :
    (∃ pre a post, x :: l = pre ++ a :: post ∧ P a post) ↔
      P x l ∨ ∃ pre a post, l = pre ++ a :: post ∧ P a post := by
  constructor
  · rintro ⟨pre, a, post, hl, hP⟩
    cases pre with
    | nil =>
      obtain ⟨rfl, rfl⟩ := List.cons_eq_cons.1 hl
      exact .inl hP
    | cons y pre =>
      obtain ⟨-, rfl⟩ := List.cons_eq_cons.1 hl
      exact .inr ⟨pre, a, post, rfl, hP⟩
  · rintro (hP | ⟨pre, a, post, rfl, hP⟩)
    · exact ⟨[], x, l, rfl, hP⟩
    · exact ⟨x :: pre, a, post, rfl, hP⟩

/-- A run of writes, each `some` value replacing the flag and `none` keeping it, ends at `true`
exactly when some write of `true` is followed by no write of `false`, or when the flag started
at `true` and no write of `false` came. -/
theorem foldl_getD_eq_true_iff (l : List α) (b : Bool) :
    l.foldl (fun b a => (f a).getD b) b = true ↔
      (∃ pre a post, l = pre ++ a :: post ∧ f a = some true ∧ ∀ a' ∈ post, f a' ≠ some false) ∨
        (b = true ∧ ∀ a ∈ l, f a ≠ some false) := by
  induction l generalizing b with
  | nil => simp
  | cons x l ih =>
    rw [List.foldl_cons, ih, exists_cons_eq_append_cons_iff]
    -- the head either writes, and restarts the flag, or leaves it
    rcases hx : f x with _ | _ | _
    · simp [hx]
    · simp [hx]
    · simp only [Option.getD_some, true_and, List.forall_mem_cons, hx, ne_eq, Option.some.injEq,
        Bool.true_eq_false, not_false_eq_true]
      constructor
      · rintro (hD | hA)
        exacts [.inl (.inr hD), .inl (.inl hA)]
      · rintro ((hA | hD) | ⟨-, hA⟩)
        exacts [.inr hA, .inl hD, .inr hA]

end LastWrite

section KeyAtATime

variable {σ ι κ β γ : Type*} [DecidableEq κ]

/-- A fold whose accumulator is a pair changed one component by one function, the other by
another, is the pair of the two folds. -/
lemma foldl_prod_mk (g : β → ι → β) (h : γ → ι → γ) (l : List ι) (b : β) (c : γ) :
    l.foldl (fun p i => (g p.1 i, h p.2 i)) (b, c) = (l.foldl g b, l.foldl h c) := by
  induction l generalizing b c with
  | nil => rfl
  | cons i l ih => exact ih _ _

variable (get : σ → κ → β) (key : ι → Option κ) (f : β → ι → β) {Inv : σ → Prop}
  {step : σ → ι → Option σ}

/-- A run of steps, each of which succeeds from a state satisfying `Inv` and keeps it,
succeeds and ends in a state satisfying `Inv`. -/
theorem foldlM_eq_some_of_step (hstep : ∀ s i, Inv s → ∃ s', step s i = some s' ∧ Inv s') :
    ∀ (l : List ι) (s : σ), Inv s → ∃ s', l.foldlM step s = some s' ∧ Inv s'
  | [], s, hs => ⟨s, rfl, hs⟩
  | i :: l, s, hs => by
    obtain ⟨s₁, h₁, hs₁⟩ := hstep s i hs
    rw [List.foldlM_cons, h₁]
    exact foldlM_eq_some_of_step hstep l s₁ hs₁

/-- A run of steps, each of which succeeds from a state satisfying `Inv`, keeps `Inv` and
changes the view `get` at its own key only, by `f` (a step without a key changing nothing):
the run succeeds, and at every key the view is `f` folded over the steps at that key. -/
theorem foldlM_get_eq_foldl_filter
    (hstep : ∀ s i, Inv s → ∃ s', step s i = some s' ∧ Inv s' ∧
      ∀ k, get s' k = if key i = some k then f (get s k) i else get s k) :
    ∀ (l : List ι) (s : σ), Inv s → ∃ s', l.foldlM step s = some s' ∧ Inv s' ∧
      ∀ k, get s' k = (l.filter (key · = some k)).foldl f (get s k)
  | [], s, hs => ⟨s, rfl, hs, fun _ => rfl⟩
  | i :: l, s, hs => by
    obtain ⟨s₁, h₁, hs₁, hget₁⟩ := hstep s i hs
    obtain ⟨s', h', hs', hget'⟩ := foldlM_get_eq_foldl_filter hstep l s₁ hs₁
    refine ⟨s', by rw [List.foldlM_cons, h₁]; exact h', hs', fun k => ?_⟩
    rw [hget', hget₁ k, List.filter_cons]
    -- the head is a step at `k`, and starts the fold there, or leaves the view at `k`
    by_cases hk : key i = some k
    · simp [hk]
    · simp [hk]

end KeyAtATime

section Registers

variable {β : Type*}

/-- A write to a register that every write replaces: `some v` stores `v`, `none` clears it. -/
def overwrite (_ : Option β) (w : Option β) : Option β := w

/-- A write to a register that keeps a value it holds: `some v` stores `v` into the empty
register only, `none` clears it. -/
def keepFirst (o w : Option β) : Option β := w.map fun v => o.getD v

@[simp] lemma isSome_keepFirst (o w : Option β) : (keepFirst o w).isSome = w.isSome := by
  cases w <;> rfl

/-- A register that keeps its value changes exactly when a write would change whether it holds
one. -/
lemma keepFirst_eq_ite (o w : Option β) : keepFirst o w = if o.isSome = w.isSome then o else w := by
  cases o <;> cases w <;> rfl

/-- Where every value written, and the value held at the start, is `a`, keeping the value held
is replacing it. -/
theorem foldl_keepFirst_eq_foldl_overwrite {a : β} (l : List (Option β)) {o : Option β}
    (hl : ∀ w ∈ l, ∀ x ∈ w, x = a) (ho : ∀ x ∈ o, x = a) :
    l.foldl keepFirst o = l.foldl overwrite o := by
  induction l generalizing o with
  | nil => rfl
  | cons w l ih =>
    -- one write leaves both registers holding `w`
    have hw : keepFirst o w = w := by
      cases w with
      | none => rfl
      | some x =>
        have hx : x = a := hl _ List.mem_cons_self x rfl
        cases o with
        | none => rfl
        | some y => simp [keepFirst, ho y rfl, hx]
    rw [List.foldl_cons, List.foldl_cons, hw, overwrite]
    exact ih (fun w' hw' => hl w' (List.mem_cons_of_mem _ hw')) (hl w List.mem_cons_self)

end Registers

end Zebra.Lib
