import VehicleRentals.Concurrent.Measures
import VehicleRentals.Concurrent.Programs

/-!
# Programs of bounded length

If every program of a pool takes at most so many steps, whatever the responses, then
no run of the pool takes more than these come to (`length_le_of_within`); and if in
addition somebody can always go on, every run can be continued to the end
(`exists_run_complete`).
-/

namespace Concurrent

namespace Prog

variable {E : Type → Type} {α β : Type} {p : Prog E α} {m n : ℕ}

/-- At most so many steps, whatever the responses. -/
inductive Within : Prog E α → ℕ → Prop where
  | ret (a : α) {n : ℕ} : Within (.ret a) n
  | step {β : Type} {e : E β} {k : β → Prog E α} {n : ℕ} : (∀ r, Within (k r) n) → Within (.step e k) (n + 1)

theorem Within.mono (h : p.Within m) (le : m ≤ n) : p.Within n := by
  induction h generalizing n with
  | ret a => exact .ret a
  | step _ ih =>
    obtain ⟨n, rfl⟩ := Nat.exists_eq_add_one_of_ne_zero (Nat.ne_zero_of_lt le)
    exact .step fun r => ih r (Nat.le_of_succ_le_succ le)

theorem Within.bind {f : α → Prog E β} (h : p.Within m) (rest : ∀ a, (f a).Within n) : (p.bind f).Within (m + n) := by
  induction h with
  | @ret a m => exact (rest a).mono (Nat.le_add_left n m)
  | step _ ih =>
    rw [Nat.succ_add]
    exact .step ih

end Prog

section

variable {E : Type → Type} {ι σ α : Type} {M : Machine E ι σ} {code : ι → Prog E α} {n k : ι → ℕ} {c c' : Pool E ι σ α}

/-- The thread has at most `k` steps ahead, of a program of at most `n`. -/
def Thread.Within (n : ℕ) : Thread E α → ℕ → Prop
  | .idle, k => k = n + 1
  | .running p, k => p.Within k

variable [DecidableEq ι]

/-- A step is one less to take for the thread that takes it. -/
theorem Step.within (bounded : ∀ i, (code i).Within (n i)) {l : Label E ι} (h : Step M code c l c')
    (ahead : ∀ i, (c.thread i).Within (n i) (k i)) :
    ∃ k' : ι → ℕ, (∀ i, (c'.thread i).Within (n i) (k' i)) ∧ k' l.thread < k l.thread ∧
      ∀ j, j ≠ l.thread → k' j = k j := by
  obtain ⟨less, now, lt⟩ : ∃ less, (c'.thread l.thread).Within (n l.thread) less ∧ less < k l.thread := by
    have mine := ahead l.thread
    cases h with
    | @invoke i idle =>
      rw [idle] at mine
      refine ⟨n i, ?_, ?_⟩
      · simp only [Function.update_self]
        exact bounded i
      · rw [mine]
        exact Nat.lt_succ_self _
    | @act i β e f r s' running _ =>
      rw [running] at mine
      dsimp only at mine ⊢
      generalize k i = m at mine
      have mine : (Prog.step e f).Within m := mine
      cases mine with
      | @step _ _ _ m ahead =>
        refine ⟨m, ?_, Nat.lt_succ_self _⟩
        simp only [Function.update_self]
        exact ahead r
  refine ⟨Function.update k l.thread less, fun i => ?_, by rwa [Function.update_self], fun j ne => Function.update_of_ne ne ..⟩
  by_cases e : i = l.thread
  · subst e
    rwa [Function.update_self]
  · rw [Function.update_of_ne e, h.frame e]
    exact ahead i

variable [Fintype ι]

/-- What is left to take, and what was taken. -/
theorem Run.within (bounded : ∀ i, (code i).Within (n i)) {ls : List (Label E ι)} (h : Run (Step M code) c ls c')
    (ahead : ∀ i, (c.thread i).Within (n i) (k i)) :
    ∃ k' : ι → ℕ, (∀ i, (c'.thread i).Within (n i) (k' i)) ∧ ls.length + ∑ i, k' i ≤ ∑ i, k i := by
  induction h generalizing k with
  | nil => exact ⟨k, ahead, by simp⟩
  | @cons c c₁ c' l ls hs _ ih =>
    obtain ⟨k₁, ahead₁, lt, same⟩ := hs.within bounded ahead
    obtain ⟨k', ahead', rest⟩ := ih ahead₁
    have falls := sum_lt_of_one l.thread lt same
    exact ⟨k', ahead', by rw [List.length_cons]; omega⟩

/-- A run of programs of bounded length is bounded. -/
theorem Run.length_le_of_within (bounded : ∀ i, (code i).Within (n i)) {s : σ} {ls : List (Label E ι)}
    (h : Run (Step M code) (Pool.start s) ls c) : ls.length ≤ ∑ i, (n i + 1) := by
  obtain ⟨k', -, rest⟩ := h.within bounded (k := fun i => n i + 1) fun _ => rfl
  omega

/-- Where somebody can always go on by a good step, programs of bounded length end by good steps. -/
theorem Run.exists_run_complete (bounded : ∀ i, (code i).Within (n i)) {P : Label E ι → Prop} {s : σ}
    {ls : List (Label E ι)} (h : Run (Step M code) (Pool.start s) ls c)
    (goes : ∀ {ls c}, Run (Step M code) (Pool.start s) ls c → ¬ c.Complete → ∃ l c', Step M code c l c' ∧ P l) :
    ∃ ls' c', Run (fun a l b => Step M code a l b ∧ P l) c ls' c' ∧ c'.Complete := by
  obtain ⟨k, ahead, -⟩ := h.within bounded (k := fun i => n i + 1) fun _ => rfl
  -- the pool is kept with what its threads have left
  have falls : ∀ a : Pool E ι σ α × (ι → ℕ),
      ((∃ ls, Run (Step M code) (Pool.start s) ls a.1) ∧ ∀ i, (a.1.thread i).Within (n i) (a.2 i)) → ¬ a.1.Complete →
      ∃ l, ∃ b : Pool E ι σ α × (ι → ℕ), (Step M code a.1 l b.1 ∧ P l) ∧
        ((∃ ls, Run (Step M code) (Pool.start s) ls b.1) ∧ ∀ i, (b.1.thread i).Within (n i) (b.2 i)) ∧
        ∑ i, b.2 i < ∑ i, a.2 i := by
    rintro ⟨a, k⟩ ⟨⟨ls, run⟩, ahead⟩ unfinished
    obtain ⟨l, b, hs, good⟩ := goes run unfinished
    obtain ⟨k₁, ahead₁, lt, same⟩ := hs.within bounded ahead
    exact ⟨l, (b, k₁), ⟨hs, good⟩, ⟨⟨_, run.append (.single hs)⟩, ahead₁⟩, sum_lt_of_one l.thread lt same⟩
  obtain ⟨ls', ⟨c', k'⟩, run, -, complete⟩ := exists_run_to falls (c, k) ⟨⟨ls, h⟩, ahead⟩
  exact ⟨ls', c', run.fst fun _ _ _ hs => hs, complete⟩

end

end Concurrent
