import Mathlib.Data.List.Induction

/-!
# Runs of a step function

A run of a step function `step : σ → α → σ` over a list of inputs is `l.foldl step s`.  Two
facts about where a run has been.  A run that ends inside a set it started outside of entered
it at one input and stayed inside from there on (`foldl_last_entry`).  A quantity that no step
inside the set changes is, at the end of a run that stays in the set, what it was at the start
(`foldl_eq_of_forall_prefix`).

Nothing here is specific to the program.
-/

namespace Zebra.Lib

section LastEntry

variable {σ α β : Type*} (step : σ → α → σ) {P : σ → Prop}

/-- A run that ends in `P` from a state outside `P` entered `P` at some input `a` and stayed in
it: every state of the run from the one after `a` on is in `P`. -/
theorem foldl_last_entry {s : σ} (hs : ¬P s) (l : List α) (hl : P (l.foldl step s)) :
    ∃ pre a post, l = pre ++ a :: post ∧ ¬P (pre.foldl step s) ∧
      ∀ mid, mid <+: post → P ((pre ++ a :: mid).foldl step s) := by
  induction l using List.reverseRecOn with
  | nil => exact absurd hl hs
  | append_singleton l a ih =>
    rw [List.foldl_append, List.foldl_cons, List.foldl_nil] at hl
    by_cases hin : P (l.foldl step s)
    · -- the run was inside before its last input: the entry is the one before
      obtain ⟨pre, b, post, rfl, hpre, hpost⟩ := ih hin
      refine ⟨pre, b, post ++ [a], by simp, hpre, fun mid hmid => ?_⟩
      rcases List.prefix_concat_iff.1 hmid with rfl | hmid
      · simpa using hl
      · exact hpost mid hmid
    · refine ⟨l, a, [], by simp, hin, fun mid hmid => ?_⟩
      rw [List.prefix_nil.1 hmid]
      simpa using hl

/-- A quantity `g` that no step between two states of `P` changes keeps its value along a run
all of whose states are in `P`. -/
theorem foldl_eq_of_forall_prefix (g : σ → β)
    (hg : ∀ s a, P s → P (step s a) → g (step s a) = g s) {s : σ} (l : List α)
    (hl : ∀ mid, mid <+: l → P (mid.foldl step s)) : g (l.foldl step s) = g s := by
  induction l using List.reverseRecOn with
  | nil => rfl
  | append_singleton l a ih =>
    have hin : P (l.foldl step s) := hl l (List.prefix_append l [a])
    have hout : P (step (l.foldl step s) a) := by
      simpa using hl (l ++ [a]) (List.prefix_refl _)
    rw [List.foldl_append, List.foldl_cons, List.foldl_nil, hg _ a hin hout]
    exact ih fun mid hmid => hl mid (hmid.trans (List.prefix_append l [a]))

end LastEntry

end Zebra.Lib
