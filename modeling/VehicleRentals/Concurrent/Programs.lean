import Mathlib.Logic.Function.Basic
import VehicleRentals.Concurrent.Runs

/-!
# Concurrent programs over atomic primitives

A program is a tree of primitive operations with the rest of the program
waiting for each operation's response. A `Machine` says what an operation does
to the shared state when a given thread executes it: the list of its possible
outcomes, empty when the thread has to wait. A `Pool` runs one program a thread,
interleaved one primitive at a time; `solo` runs a single program undisturbed.
-/

namespace Concurrent

/-- A program over the primitives `E`, where `E β` are those that respond with
a `β`: done, or one primitive and what to do with its response. -/
inductive Prog (E : Type → Type) (α : Type) : Type 1 where
  | ret (a : α) : Prog E α
  | step {β : Type} (e : E β) (k : β → Prog E α) : Prog E α

namespace Prog

variable {E : Type → Type} {α β γ : Type}

def bind : Prog E α → (α → Prog E β) → Prog E β
  | ret a, f => f a
  | step e k, f => step e fun r => (k r).bind f

instance : Monad (Prog E) where
  pure := ret
  bind := bind

/-- The program that executes one primitive and returns its response. -/
def call (e : E β) : Prog E β := step e ret

@[simp] theorem ret_bind (a : α) (f : α → Prog E β) : (ret a).bind f = f a := rfl

@[simp] theorem step_bind (e : E γ) (k : γ → Prog E α) (f : α → Prog E β) :
    (step e k).bind f = step e fun r => (k r).bind f := rfl

theorem step_congr {e : E β} {k k' : β → Prog E α} (h : ∀ r, k r = k' r) : step e k = step e k' :=
  congrArg (step e) (funext h)

theorem bind_congr {p : Prog E α} {f f' : α → Prog E β} (h : ∀ a, f a = f' a) : p.bind f = p.bind f' :=
  congrArg p.bind (funext h)

theorem bind_assoc (p : Prog E α) (f : α → Prog E β) (g : β → Prog E γ) :
    (p.bind f).bind g = p.bind fun a => (f a).bind g := by
  induction p with
  | ret a => rfl
  | step e k ih => simp only [bind, ih]

end Prog

/-- What each primitive does to the shared state when thread `i` executes it:
its possible responses and next states, none when it has to wait. -/
structure Machine (E : Type → Type) (ι σ : Type) where
  exec {β : Type} : ι → E β → σ → List (β × σ)

/-- A thread has not been invoked yet, or has a program left to run. -/
inductive Thread (E : Type → Type) (α : Type) where
  | idle : Thread E α
  | running (p : Prog E α) : Thread E α

/-- What a thread returned, once it has. -/
def Thread.result {E : Type → Type} {α : Type} : Thread E α → Option α
  | .running (.ret a) => some a
  | _ => none

@[simp] theorem Thread.result_idle {E : Type → Type} {α : Type} : (Thread.idle : Thread E α).result = none := rfl
@[simp] theorem Thread.result_ret {E : Type → Type} {α : Type} (a : α) :
    (Thread.running (.ret a) : Thread E α).result = some a := rfl
@[simp] theorem Thread.result_step {E : Type → Type} {α : Type} {β : Type} (e : E β) (k : β → Prog E α) :
    (Thread.running (.step e k)).result = none := rfl

theorem Thread.result_eq_some {E : Type → Type} {α : Type} {t : Thread E α} {a : α} (h : t.result = some a) :
    t = .running (.ret a) := by
  cases t with
  | idle => cases h
  | running p =>
    cases p with
    | ret b => cases h; rfl
    | step e k => cases h

/-- The shared state and every thread. -/
@[ext] structure Pool (E : Type → Type) (ι σ α : Type) where
  shared : σ
  thread : ι → Thread E α

/-- Who moved, and the primitive it executed with the response it got; none for
the invocation of the thread's program. -/
structure Label (E : Type → Type) (ι : Type) where
  thread : ι
  event : Option ((β : Type) × E β × β)

section Pool

variable {E : Type → Type} {ι σ α : Type}

/-- The pool in which no thread has been invoked. -/
def Pool.start (s : σ) : Pool E ι σ α := ⟨s, fun _ => .idle⟩

/-- Thread `i` has been invoked and has not returned. -/
def Pool.InProgress (c : Pool E ι σ α) (i : ι) : Prop :=
  c.thread i ≠ .idle ∧ (c.thread i).result = none

/-- No call in progress: every thread is yet to be invoked, or has returned. -/
def Pool.Quiet (c : Pool E ι σ α) : Prop := ∀ i, ¬ c.InProgress i

/-- Every thread has returned. -/
def Pool.Complete (c : Pool E ι σ α) : Prop := ∀ i, ((c.thread i).result).isSome

theorem Pool.Complete.quiet {c : Pool E ι σ α} (h : c.Complete) : c.Quiet := by
  intro i hi
  have := h i
  rw [hi.2] at this
  cases this

variable [DecidableEq ι]

/-- One step of the pool: a thread is invoked, or executes its next primitive. -/
inductive Step (M : Machine E ι σ) (code : ι → Prog E α) :
    Pool E ι σ α → Label E ι → Pool E ι σ α → Prop where
  | invoke {c : Pool E ι σ α} {i : ι} : c.thread i = .idle →
      Step M code c ⟨i, none⟩ ⟨c.shared, Function.update c.thread i (.running (code i))⟩
  | act {c : Pool E ι σ α} {i : ι} {β : Type} {e : E β} {k : β → Prog E α} {r : β} {s' : σ} :
      c.thread i = .running (.step e k) → (r, s') ∈ M.exec i e c.shared →
      Step M code c ⟨i, some ⟨β, e, r⟩⟩ ⟨s', Function.update c.thread i (.running (k r))⟩

/-- A thread other than the one that moved is as it was. -/
theorem Step.frame {M : Machine E ι σ} {code : ι → Prog E α} {c c' : Pool E ι σ α} {l : Label E ι}
    (h : Step M code c l c') {j : ι} (hj : j ≠ l.thread) : c'.thread j = c.thread j := by
  cases h <;> exact Function.update_of_ne hj _ _

/-- A thread that has returned never moves again. -/
theorem Step.result_stays {M : Machine E ι σ} {code : ι → Prog E α} {c c' : Pool E ι σ α}
    {l : Label E ι} (h : Step M code c l c') {j : ι} {a : α} (hj : (c.thread j).result = some a) :
    (c'.thread j).result = some a := by
  by_cases e : j = l.thread
  · have ret := Thread.result_eq_some hj
    cases h with
    | invoke hi => subst e; rw [ret] at hi; cases hi
    | act hi _ => subst e; rw [ret] at hi; cases hi
  · rw [h.frame e, hj]

/-- A thread that has returned takes no step of a run. -/
theorem Run.returned {M : Machine E ι σ} {code : ι → Prog E α} {c c' : Pool E ι σ α} {ls : List (Label E ι)}
    (h : Run (Step M code) c ls c') {i : ι} {a : α} (hi : (c.thread i).result = some a) :
    ∀ l ∈ ls, l.thread ≠ i := by
  induction h with
  | nil => simp
  | cons hs _ ih =>
    refine List.forall_mem_cons.2 ⟨?_, ih (hs.result_stays hi)⟩
    rintro rfl
    have ret := Thread.result_eq_some hi
    cases hs with
    | invoke idle => rw [ret] at idle; cases idle
    | act running _ => rw [ret] at running; cases running

/-- A thread whose code is a value returns that. -/
theorem Run.result_of_ret {M : Machine E ι σ} {code : ι → Prog E α} {c : Pool E ι σ α} {s : σ} {ls : List (Label E ι)}
    (h : Run (Step M code) (Pool.start s) ls c) {i : ι} {a b : α} (value : code i = .ret a)
    (hi : (c.thread i).result = some b) : b = a := by
  have kept : c.thread i = .idle ∨ c.thread i = .running (.ret a) := by
    refine h.invariant (I := fun c => c.thread i = .idle ∨ c.thread i = .running (.ret a)) ?_ (.inl rfl)
    intro c l c' held hs
    by_cases same : i = l.thread
    · cases hs with
      | invoke idle =>
        obtain rfl := same
        exact .inr (by rw [← value]; exact Function.update_self ..)
      | act running _ =>
        obtain rfl := same
        rcases held with idle | returned
        · cases idle.symm.trans running
        · cases returned.symm.trans running
    · rwa [hs.frame same]
  rw [Thread.result_eq_some hi] at kept
  rcases kept with idle | returned
  · cases idle
  · cases returned
    rfl

/-- Every primitive has at most one outcome. -/
def Machine.Single (M : Machine E ι σ) : Prop :=
  ∀ {β : Type} (i : ι) (e : E β) (s : σ) (x y : β × σ), x ∈ M.exec i e s → y ∈ M.exec i e s → x = y

/-- A step's label then leads to one state only. -/
theorem Step.deterministic {M : Machine E ι σ} {code : ι → Prog E α} (single : M.Single)
    {c c' c'' : Pool E ι σ α} {l : Label E ι} (h : Step M code c l c') (h' : Step M code c l c'') : c' = c'' := by
  cases h with
  | invoke hi =>
    cases h' with
    | invoke hi' => rfl
  | act hi hx =>
    cases h' with
    | act hi' hx' =>
      cases Thread.running.inj (hi.symm.trans hi')
      cases single _ _ _ _ _ hx hx'
      rfl

end Pool

section Solo

variable {E : Type → Type} {ι σ α : Type}

/-- Run a program to its end as thread `i` with nobody else moving; none if it
would have to wait for ever. -/
def Machine.solo (M : Machine E ι σ) (i : ι) : Prog E α → σ → Option (α × σ)
  | .ret a, s => some (a, s)
  | .step e k, s =>
    match M.exec i e s with
    | [] => none
    | (r, s') :: _ => M.solo i (k r) s'

@[simp] theorem Machine.solo_ret (M : Machine E ι σ) (i : ι) (a : α) (s : σ) :
    M.solo i (.ret a) s = some (a, s) := rfl

theorem Machine.solo_step {M : Machine E ι σ} {i : ι} {β : Type} {e : E β} {k : β → Prog E α} {s s' : σ}
    {r : β} {rest : List (β × σ)} (h : M.exec i e s = (r, s') :: rest) :
    M.solo i (.step e k) s = M.solo i (k r) s' := by
  rw [Machine.solo, h]

theorem Machine.solo_bind (M : Machine E ι σ) (i : ι) {β : Type} (p : Prog E β) (f : β → Prog E α) (s : σ) :
    M.solo i (p.bind f) s = (M.solo i p s).bind fun (b, s') => M.solo i (f b) s' := by
  induction p generalizing s with
  | ret b => rfl
  | step e k ih =>
    simp only [Prog.step_bind, Machine.solo]
    cases M.exec i e s with
    | nil => rfl
    | cons x rest => exact ih x.1 x.2

/-- Running a sequence of programs, each to its end before the next begins. -/
def Machine.solos (M : Machine E ι σ) (i : ι) : List (Prog E α) → σ → Option (List α × σ)
  | [], s => some ([], s)
  | p :: ps, s => do
    let (a, s') ← M.solo i p s
    let (as, s'') ← M.solos i ps s'
    return (a :: as, s'')

theorem Machine.solos_cons {M : Machine E ι σ} {i : ι} {p : Prog E α} {ps : List (Prog E α)} {s s' s'' : σ} {a : α}
    {as : List α} (first : M.solo i p s = some (a, s')) (rest : M.solos i ps s' = some (as, s'')) :
    M.solos i (p :: ps) s = some (a :: as, s'') := by
  simp only [Machine.solos, first, Option.bind_eq_bind, Option.bind_some, rest]
  rfl

end Solo

section Drive

variable {E : Type → Type} {ι σ α : Type} [DecidableEq ι]

/-- Thread `i` moves, taking the `n`-th outcome of its primitive; none if it cannot. -/
def Machine.turn (M : Machine E ι σ) (code : ι → Prog E α) (c : Pool E ι σ α) (i : ι) (n : Nat) :
    Option (Label E ι × Pool E ι σ α) :=
  match c.thread i with
  | .idle => some (⟨i, none⟩, ⟨c.shared, Function.update c.thread i (.running (code i))⟩)
  | .running (.ret _) => none
  | .running (@Prog.step _ _ β e k) =>
    match (M.exec i e c.shared)[n]? with
    | none => none
    | some (r, s') => some (⟨i, some ⟨β, e, r⟩⟩, ⟨s', Function.update c.thread i (.running (k r))⟩)

/-- The threads of a schedule move in turn, as long as `P` holds across every step. -/
def Machine.driveWhile (M : Machine E ι σ) (code : ι → Prog E α) (P : Pool E ι σ α → Pool E ι σ α → Bool) :
    List (ι × Nat) → Pool E ι σ α → Option (List (Label E ι) × Pool E ι σ α)
  | [], c => some ([], c)
  | (i, n) :: rest, c =>
    match M.turn code c i n with
    | none => none
    | some (l, c') =>
      if P c c' then (M.driveWhile code P rest c').map fun (ls, c'') => (l :: ls, c'') else none

/-- The threads of a schedule move in turn. -/
abbrev Machine.drive (M : Machine E ι σ) (code : ι → Prog E α) :
    List (ι × Nat) → Pool E ι σ α → Option (List (Label E ι) × Pool E ι σ α) :=
  M.driveWhile code fun _ _ => true

theorem Machine.step_of_turn {M : Machine E ι σ} {code : ι → Prog E α} {c c' : Pool E ι σ α} {i : ι} {n : Nat}
    {l : Label E ι} (h : M.turn code c i n = some (l, c')) : Step M code c l c' := by
  unfold Machine.turn at h
  split at h
  · cases h
    exact .invoke ‹_›
  · cases h
  · split at h
    · cases h
    · cases h
      exact .act ‹_› (List.mem_of_getElem? ‹_›)

/-- A schedule that can be followed is a run. -/
theorem Machine.run_of_drive {M : Machine E ι σ} {code : ι → Prog E α} {P : Pool E ι σ α → Pool E ι σ α → Bool}
    {schedule : List (ι × Nat)} {c c' : Pool E ι σ α} {ls : List (Label E ι)}
    (h : M.driveWhile code P schedule c = some (ls, c')) :
    Run (fun a l b => Step M code a l b ∧ P a b = true) c ls c' := by
  induction schedule generalizing c ls with
  | nil => cases h; exact .nil _
  | cons turn rest ih =>
    obtain ⟨i, n⟩ := turn
    unfold Machine.driveWhile at h
    split at h
    · cases h
    · split at h
      · obtain ⟨⟨ls', c''⟩, tail, e⟩ := Option.map_eq_some_iff.1 h
        cases e
        exact .cons ⟨Machine.step_of_turn ‹_›, ‹_›⟩ (ih tail)
      · cases h

/-- The run of a schedule whose steps all satisfy `P`, with a check of where it ends. -/
theorem Machine.exists_run_of_check {M : Machine E ι σ} {code : ι → Prog E α} {c : Pool E ι σ α}
    {P : Pool E ι σ α → Pool E ι σ α → Bool} (schedule : List (ι × Nat)) {Q : List (Label E ι) → Pool E ι σ α → Prop}
    [∀ ls c, Decidable (Q ls c)] (h : (M.driveWhile code P schedule c).any (fun r => decide (Q r.1 r.2)) = true) :
    ∃ ls c', Run (fun a l b => Step M code a l b ∧ P a b = true) c ls c' ∧ Q ls c' := by
  obtain ⟨⟨ls, c'⟩, e, hQ⟩ := (Option.any_eq_true _ _).1 h
  exact ⟨ls, c', Machine.run_of_drive e, of_decide_eq_true hQ⟩

/-- The run of a schedule, with what can be computed of it. -/
theorem Machine.exists_run_of_drive {M : Machine E ι σ} {code : ι → Prog E α} {c : Pool E ι σ α}
    (schedule : List (ι × Nat)) {Q : List (Label E ι) → Pool E ι σ α → Prop}
    (h : ∃ ls c', M.drive code schedule c = some (ls, c') ∧ Q ls c') :
    ∃ ls c', Run (Step M code) c ls c' ∧ Q ls c' := by
  obtain ⟨ls, c', e, hQ⟩ := h
  exact ⟨ls, c', (Machine.run_of_drive e).mono fun _ _ _ hs => hs.1, hQ⟩

/-- The run of a schedule, with a check of where it ends. -/
theorem Machine.exists_run_of_schedule {M : Machine E ι σ} {code : ι → Prog E α} {c : Pool E ι σ α}
    (schedule : List (ι × Nat)) {Q : List (Label E ι) → Pool E ι σ α → Prop} [∀ ls c, Decidable (Q ls c)]
    (h : (M.drive code schedule c).any (fun r => decide (Q r.1 r.2)) = true) :
    ∃ ls c', Run (Step M code) c ls c' ∧ Q ls c' := by
  obtain ⟨ls, c', run, hQ⟩ := Machine.exists_run_of_check schedule h
  exact ⟨ls, c', run.mono fun _ _ _ hs => hs.1, hQ⟩

end Drive

end Concurrent
