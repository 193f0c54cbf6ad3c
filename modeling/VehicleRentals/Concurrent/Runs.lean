import Mathlib.Data.List.Basic

/-!
# Runs of a labelled transition relation

A run is a finite sequence of labelled steps. Everything a client proves about
runs goes through four rules: a run splits where its labels split
(`Run.split`), a property kept by every step holds at the end of a run
(`Run.invariant`), a step-by-step simulation lifts to runs (`Run.simulate`),
and a change between the two ends of a run happened at one of its steps
(`Run.exists_change`). `Run.Takes` says what one of the steps of a run did.
-/

namespace Concurrent

universe u v w

variable {γ : Type u} {δ : Type w} {Λ : Type v}

/-- The steps of `step` taken one after another, with their labels in order. -/
inductive Run (step : γ → Λ → γ → Prop) : γ → List Λ → γ → Prop where
  | nil (c : γ) : Run step c [] c
  | cons {c c' c'' : γ} {l : Λ} {ls : List Λ} :
      step c l c' → Run step c' ls c'' → Run step c (l :: ls) c''

namespace Run

variable {step : γ → Λ → γ → Prop}

theorem single {c c' : γ} {l : Λ} (h : step c l c') : Run step c [l] c' :=
  .cons h (.nil c')

theorem append {c c' c'' : γ} {ls ls' : List Λ} (h : Run step c ls c') (h' : Run step c' ls' c'') :
    Run step c (ls ++ ls') c'' := by
  induction h with
  | nil => exact h'
  | cons hs _ ih => exact .cons hs (ih h')

/-- A run whose labels are `ls ++ ls'` passes through a state between the two parts. -/
theorem split {c c'' : γ} {ls ls' : List Λ} (h : Run step c (ls ++ ls') c'') :
    ∃ c', Run step c ls c' ∧ Run step c' ls' c'' := by
  induction ls generalizing c with
  | nil => exact ⟨c, .nil c, h⟩
  | cons l ls ih =>
    cases h with
    | cons hs rest =>
      obtain ⟨c', first, second⟩ := ih rest
      exact ⟨c', .cons hs first, second⟩

/-- A run of steps that are all steps of another relation. -/
theorem mono {step' : γ → Λ → γ → Prop} (sub : ∀ c l c', step c l c' → step' c l c') {c c' : γ} {ls : List Λ}
    (h : Run step c ls c') : Run step' c ls c' := by
  induction h with
  | nil => exact .nil _
  | cons hs _ ih => exact .cons (sub _ _ _ hs) ih

/-- If a label leads from a state to one state only, so do a run's labels. -/
theorem deterministic (det : ∀ c l c' c'', step c l c' → step c l c'' → c' = c'') {c c' c'' : γ} {ls : List Λ}
    (h : Run step c ls c') (h' : Run step c ls c'') : c' = c'' := by
  induction h with
  | nil => cases h'; rfl
  | cons hs _ ih =>
    cases h' with
    | cons hs' rest =>
      obtain rfl := det _ _ _ _ hs hs'
      exact ih rest

/-- Two steps of one run: the same step, or one is taken after the other. -/
theorem steps_cases (det : ∀ c l c' c'', step c l c' → step c l c'' → c' = c'') {c a b a' b' : γ}
    {l l' : Λ} {ls₁ ls₂ ls₁' ls₂' : List Λ} (e : ls₁ ++ l :: ls₂ = ls₁' ++ l' :: ls₂') (h : Run step c ls₁ a)
    (hs : step a l b) (h' : Run step c ls₁' a') (hs' : step a' l' b') :
    l = l' ∨ (∃ m, Run step b m a') ∨ ∃ m, Run step b' m a := by
  -- the later step's prefix runs through the earlier step
  have after : ∀ {a b a' : γ} {l : Λ} {ls m : List Λ}, Run step c ls a → step a l b →
      Run step c (ls ++ l :: m) a' → ∃ m, Run step b m a' := by
    intro a b a' l ls m h hs h'
    obtain ⟨a'', first, second⟩ := h'.split
    obtain rfl := h.deterministic det first
    cases second with
    | cons hs' rest =>
      obtain rfl := det _ _ _ _ hs hs'
      exact ⟨m, rest⟩
  rcases List.append_eq_append_iff.1 e with ⟨m, rfl, tail⟩ | ⟨m, rfl, tail⟩
  · cases m with
    | nil => exact .inl (List.cons.inj tail).1
    | cons x m =>
      obtain rfl := (List.cons.inj tail).1
      exact .inr (.inl (after h hs h'))
  · cases m with
    | nil => exact .inl (List.cons.inj tail).1.symm
    | cons x m =>
      obtain rfl := (List.cons.inj tail).1
      exact .inr (.inr (after h' hs' h))

/-- What every step keeps, a run keeps. -/
theorem invariant {I : γ → Prop} (keep : ∀ c l c', I c → step c l c' → I c')
    {c c' : γ} {ls : List Λ} (h : Run step c ls c') (hc : I c) : I c' := by
  induction h with
  | nil => exact hc
  | cons hs _ ih => exact ih (keep _ _ _ hc hs)

/-- A reflexive and transitive relation that holds across every step from a
state with `I` holds across a run from such a state. -/
theorem relates {I : γ → Prop} {R : γ → γ → Prop} (keep : ∀ c l c', I c → step c l c' → I c')
    (refl : ∀ c, R c c) (trans : ∀ a b c, R a b → R b c → R a c)
    (across : ∀ c l c', I c → step c l c' → R c c')
    {c c' : γ} {ls : List Λ} (h : Run step c ls c') (hc : I c) : R c c' := by
  induction h with
  | nil => exact refl _
  | cons hs _ ih => exact trans _ _ _ (across _ _ _ hc hs) (ih (keep _ _ _ hc hs))

/-- Forward simulation: matching single steps match whole runs, label by label. -/
theorem simulate {step' : δ → Λ → δ → Prop} (R : γ → δ → Prop)
    (sim : ∀ c l c' d, R c d → step c l c' → ∃ d', step' d l d' ∧ R c' d')
    {c c' : γ} {ls : List Λ} (h : Run step c ls c') {d : δ} (hd : R c d) :
    ∃ d', Run step' d ls d' ∧ R c' d' := by
  induction h generalizing d with
  | nil => exact ⟨d, .nil d, hd⟩
  | cons hs _ ih =>
    obtain ⟨d', hs', hd'⟩ := sim _ _ _ _ hd hs
    obtain ⟨d'', rest, hd''⟩ := ih hd'
    exact ⟨d'', .cons hs' rest, hd''⟩

/-- A run beside the run that simulates it. -/
theorem beside (step' : δ → Λ → δ → Prop) (R : γ → δ → Prop)
    (sim : ∀ c l c' d, R c d → step c l c' → ∃ d', step' d l d' ∧ R c' d')
    {c c' : γ} {ls : List Λ} (h : Run step c ls c') {d : δ} (hd : R c d) :
    ∃ d', Run (fun (a : γ × δ) l (b : γ × δ) => step a.1 l b.1 ∧ step' a.2 l b.2 ∧ R a.1 a.2) (c, d) ls (c', d') ∧
      R c' d' := by
  induction h generalizing d with
  | nil => exact ⟨d, .nil _, hd⟩
  | cons hs _ ih =>
    obtain ⟨d', hs', hd'⟩ := sim _ _ _ _ hd hs
    obtain ⟨d'', rest, hd''⟩ := ih hd'
    exact ⟨d'', .cons ⟨hs, hs', hd⟩ rest, hd''⟩

/-- A run seen through a map of its states. -/
theorem map {step' : δ → Λ → δ → Prop} (f : δ → γ) (sub : ∀ a l b, step' a l b → step (f a) l (f b)) {d d' : δ}
    {ls : List Λ} (h : Run step' d ls d') : Run step (f d) ls (f d') := by
  induction h with
  | nil => exact .nil _
  | cons hs _ ih => exact .cons (sub _ _ _ hs) ih

/-- The first of two runs side by side. -/
theorem fst {step' : γ × δ → Λ → γ × δ → Prop} (sub : ∀ a l b, step' a l b → step a.1 l b.1) {c c' : γ} {d d' : δ}
    {ls : List Λ} (h : Run step' (c, d) ls (c', d')) : Run step c ls c' :=
  h.map Prod.fst sub

/-- If a property does not hold at the start of a run and holds at its end,
some step of the run made it true. -/
theorem exists_change {P : γ → Prop} {c c' : γ} {ls : List Λ} (h : Run step c ls c')
    (before : ¬ P c) (after : P c') :
    ∃ a b ls₁ l ls₂, ls = ls₁ ++ l :: ls₂ ∧ Run step c ls₁ a ∧ step a l b ∧ Run step b ls₂ c' ∧
      ¬ P a ∧ P b := by
  induction h with
  | nil => exact absurd after before
  | @cons c b c' l ls hs rest ih =>
    by_cases hb : P b
    · exact ⟨c, b, [], l, ls, rfl, .nil c, hs, rest, before, hb⟩
    · obtain ⟨a, b', ls₁, l', ls₂, rfl, first, hs', last, ha, hb'⟩ := ih hb after
      exact ⟨a, b', l :: ls₁, l', ls₂, rfl, .cons hs first, hs', last, ha, hb'⟩

/-- Some step of a run from `c` to `c'` has `Q`. -/
def Takes (step : γ → Λ → γ → Prop) (c : γ) (ls : List Λ) (c' : γ) (Q : γ → Λ → γ → Prop) : Prop :=
  ∃ ls₁ l ls₂ a b, ls = ls₁ ++ l :: ls₂ ∧ Run step c ls₁ a ∧ step a l b ∧ Run step b ls₂ c' ∧ Q a l b

theorem Takes.mono {Q Q' : γ → Λ → γ → Prop} {c c' : γ} {ls : List Λ} (h : Takes step c ls c' Q)
    (sub : ∀ a l b, step a l b → Q a l b → Q' a l b) : Takes step c ls c' Q' := by
  obtain ⟨ls₁, l, ls₂, a, b, rfl, first, hs, rest, q⟩ := h
  exact ⟨ls₁, l, ls₂, a, b, rfl, first, hs, rest, sub a l b hs q⟩

/-- A step of a run is one of every longer run. -/
theorem Takes.append {Q : γ → Λ → γ → Prop} {c c' c'' : γ} {ls ls' : List Λ} (h : Takes step c ls c' Q)
    (more : Run step c' ls' c'') : Takes step c (ls ++ ls') c'' Q := by
  obtain ⟨ls₁, l, ls₂, a, b, rfl, first, hs, rest, q⟩ := h
  exact ⟨ls₁, l, ls₂ ++ ls', a, b, by rw [List.append_assoc, List.cons_append], first, hs, rest.append more, q⟩

theorem takes_last {Q : γ → Λ → γ → Prop} {c a b : γ} {ls : List Λ} {l : Λ} (h : Run step c ls a) (hs : step a l b)
    (q : Q a l b) : Takes step c (ls ++ [l]) b Q :=
  ⟨ls, l, [], a, b, rfl, h, hs, .nil b, q⟩

end Run

end Concurrent
