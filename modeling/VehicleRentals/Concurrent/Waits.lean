import Mathlib.Logic.Relation
import Mathlib.Order.WellFounded

/-!
# Wait-for relations

If waiting always goes down a rank then no thread waits for itself through
others, and from any thread one can follow who waits for whom down to a thread
that does not wait.
-/

namespace Concurrent

universe u v

variable {ι : Type u} {ρ : Type v} [Preorder ρ] {W : ι → ι → Prop} {rank : ι → ρ}

/-- A chain of waiting goes down the rank. -/
theorem rank_lt_of_chain (falls : ∀ i j, W i j → rank j < rank i) {i j : ι} (h : Relation.TransGen W i j) :
    rank j < rank i := by
  induction h with
  | single w => exact falls _ _ w
  | tail _ w ih => exact (falls _ _ w).trans ih

/-- Nobody waits for themselves through others. -/
theorem no_cycle (falls : ∀ i j, W i j → rank j < rank i) (i : ι) : ¬ Relation.TransGen W i i := by
  intro cycle
  exact lt_irrefl _ (rank_lt_of_chain falls cycle)

/-- At the end of a chain there is one who does not wait. -/
theorem exists_not_waiting [WellFoundedLT ρ] (falls : ∀ i j, W i j → rank j < rank i) {P : ι → Prop}
    (closed : ∀ i j, P i → W i j → P j) {i : ι} (h : P i) : ∃ j, P j ∧ ∀ k, ¬ W j k := by
  generalize e : rank i = r
  induction r using WellFoundedLT.induction generalizing i with
  | ind r ih =>
    by_cases waits : ∃ j, W i j
    · obtain ⟨j, w⟩ := waits
      have lower : rank j < r := e ▸ falls i j w
      exact ih _ lower (closed i j h w) rfl
    · exact ⟨i, h, not_exists.1 waits⟩

end Concurrent
