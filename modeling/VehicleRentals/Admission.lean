import Mathlib.Algebra.BigOperators.Group.List.Basic
import Mathlib.Algebra.GroupWithZero.Nat
import Mathlib.Algebra.Order.BigOperators.Group.List

/-!
# Admission against capacities

Jobs come one after another, and each asks for some of each resource. A job is
admitted if at every resource it asks for there is enough left. That only
compares the job with what came before it; but if all jobs of a list are
admitted then at every resource that any of them asks for the capacity covers
all of them together (`allFit_iff`), and that does not depend on the order
(`allFit_perm`).
-/

namespace Admission

universe u v

variable {κ : Type u} {X : Type v} (demand : κ → X → ℕ) (cap : X → ℕ)

/-- Enough is left, at every resource the job asks for. -/
def Fits (used : X → ℕ) (k : κ) : Prop := ∀ x, 0 < demand k x → used x + demand k x ≤ cap x

/-- The jobs are admitted one after another. -/
def AllFit (used : X → ℕ) : List κ → Prop
  | [] => True
  | k :: order => Fits demand cap used k ∧ AllFit (fun x => used x + demand k x) order

variable {demand cap}

theorem allFit_iff {used : X → ℕ} {order : List κ} : AllFit demand cap used order ↔
    ∀ x, (∃ k ∈ order, 0 < demand k x) → used x + (order.map fun k => demand k x).sum ≤ cap x := by
  induction order generalizing used with
  | nil =>
    refine iff_of_true trivial ?_
    rintro x ⟨k, hk, -⟩
    cases hk
  | cons k order ih =>
    rw [AllFit, ih]
    constructor
    · rintro ⟨first, rest⟩ x ⟨j, hj, asks⟩
      rw [List.map_cons, List.sum_cons]
      by_cases later : ∃ j ∈ order, 0 < demand j x
      · have := rest x later
        omega
      · -- nobody later asks for `x`, so it is the first job that does
        have none : ∀ n ∈ order.map fun k => demand k x, n = 0 := by
          intro n hn
          obtain ⟨j, hj, rfl⟩ := List.mem_map.1 hn
          have : ¬ 0 < demand j x := fun asks => later ⟨j, hj, asks⟩
          omega
        have zero : (order.map fun k => demand k x).sum = 0 := List.sum_eq_zero none
        have asks : 0 < demand k x := by
          rcases List.mem_cons.1 hj with rfl | hj
          · exact asks
          · exact absurd ⟨j, hj, asks⟩ later
        have := first x asks
        omega
    · intro all
      constructor
      · intro x asks
        have := all x ⟨k, List.mem_cons_self, asks⟩
        rw [List.map_cons, List.sum_cons] at this
        omega
      · rintro x ⟨j, hj, asks⟩
        have := all x ⟨j, List.mem_cons_of_mem k hj, asks⟩
        rw [List.map_cons, List.sum_cons] at this
        omega

/-- Whether all are admitted does not depend on the order in which they come. -/
theorem allFit_perm {used : X → ℕ} {order order' : List κ} (h : order.Perm order') :
    AllFit demand cap used order ↔ AllFit demand cap used order' := by
  rw [allFit_iff, allFit_iff]
  apply forall_congr'
  intro x
  have sums : (order.map fun k => demand k x).sum = (order'.map fun k => demand k x).sum := (h.map _).sum_eq
  have asked : (∃ k ∈ order, 0 < demand k x) ↔ ∃ k ∈ order', 0 < demand k x := by
    simp only [h.mem_iff]
  rw [sums, asked]

end Admission
