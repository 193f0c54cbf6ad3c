import Mathlib.Algebra.Order.BigOperators.Group.Finset
import VehicleRentals.Concurrent.Runs

/-!
# Runs that end

If every step lowers a measure then a run is no longer than the measure where it
starts; and if from every state that is not a goal some step goes on, lowering
it, then a goal is reached. The measure of many threads is the sum of theirs.
-/

namespace Concurrent

universe u v

variable {γ : Type u} {Λ : Type v} {step : γ → Λ → γ → Prop} {I G : γ → Prop} {m : γ → Nat}

/-- What is left of the measure, and the steps taken. -/
theorem Run.length_le (keep : ∀ c l c', I c → step c l c' → I c' ∧ m c' < m c) {c c' : γ} {ls : List Λ}
    (h : Run step c ls c') (start : I c) : m c' + ls.length ≤ m c := by
  induction h with
  | nil => exact le_refl _
  | cons hs _ ih =>
    obtain ⟨kept, falls⟩ := keep _ _ _ start hs
    have rest := ih kept
    rw [List.length_cons]
    omega

/-- Going on for as long as one can. -/
theorem exists_run_to (goes : ∀ c, I c → ¬ G c → ∃ l c', step c l c' ∧ I c' ∧ m c' < m c) (c : γ)
    (start : I c) : ∃ ls c', Run step c ls c' ∧ I c' ∧ G c' := by
  generalize size : m c = n
  induction n using Nat.strong_induction_on generalizing c with
  | h n ih =>
    by_cases there : G c
    · exact ⟨[], c, .nil c, start, there⟩
    · obtain ⟨l, c₁, hs, kept, falls⟩ := goes c start there
      obtain ⟨ls, c', run, last⟩ := ih _ (size ▸ falls) c₁ kept rfl
      exact ⟨l :: ls, c', .cons hs run, last⟩

/-- One thread's part falls and the others' stay. -/
theorem sum_lt_of_one {ι : Type} [Fintype ι] {f g : ι → Nat} (i : ι) (falls : g i < f i)
    (same : ∀ j, j ≠ i → g j = f j) : ∑ j, g j < ∑ j, f j := by
  refine Finset.sum_lt_sum (fun j _ => ?_) ⟨i, Finset.mem_univ i, falls⟩
  by_cases e : j = i
  · exact e ▸ falls.le
  · exact (same j e).le

end Concurrent
