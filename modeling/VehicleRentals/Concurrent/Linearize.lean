import Mathlib.Data.List.Nodup
import VehicleRentals.Concurrent.Runs

/-!
# Linearization by commit points

A run is linearizable when each call takes effect in one of its own steps: there
the atomic answer to the call takes the view of the state before the step to the
view after it, and no other step changes the view. `exists_order` then puts the
calls in the order of those steps. Which step it is may depend on how the call
ends, so the final outcomes are given, and what they say about earlier states is
carried backwards along the run (`Run.decorate`).
-/

namespace Concurrent

universe u v

/-- A property carried forwards from the start of a run and one carried
backwards from its end hold at every step. -/
theorem Run.decorate {γ : Type u} {Λ : Type v} {step : γ → Λ → γ → Prop} {I P : γ → Prop}
    (forward : ∀ a l b, I a → step a l b → I b) (backward : ∀ a l b, I a → step a l b → P b → P a)
    {c c' : γ} {ls : List Λ} (h : Run step c ls c') (start : I c) (stop : P c') :
    Run (fun a l b => step a l b ∧ I a ∧ P b) c ls c' ∧ P c := by
  induction h with
  | nil c => exact ⟨.nil c, stop⟩
  | cons hs _ ih =>
    obtain ⟨rest, here⟩ := ih (forward _ _ _ start hs) stop
    exact ⟨.cons ⟨hs, start, here⟩ rest, backward _ _ _ start hs here⟩

section

variable {ι : Type} {σ ω : Type}

/-- The answers to a list of calls made one at a time, and the state after them. -/
def serial (answer : ι → σ → ω × σ) : List ι → σ → List ω × σ
  | [], s => ([], s)
  | i :: order, s =>
    let (o, s') := answer i s
    let (os, s'') := serial answer order s'
    (o :: os, s'')

/-- Answers seen through a map. -/
theorem serial_map {ω' : Type} (f : ω → ω') (answer : ι → σ → ω × σ) (order : List ι) (s : σ) :
    serial (fun i s => (f (answer i s).1, (answer i s).2)) order s =
      ((serial answer order s).1.map f, (serial answer order s).2) := by
  induction order generalizing s with
  | nil => rfl
  | cons i order ih => simp only [serial, ih, List.map_cons]

/-- Calls known by other names. -/
theorem serial_of_map {κ : Type} (f : κ → ι) (answer : ι → σ → ω × σ) (order : List κ) (s : σ) :
    serial answer (order.map f) s = serial (fun k => answer (f k)) order s := by
  induction order generalizing s with
  | nil => rfl
  | cons k order ih => simp only [List.map_cons, serial, ih]

/-- In a list of who moved, `a` moved for the last time before `b` first moved. -/
def Precedes (moves : List ι) (a b : ι) : Prop :=
  ∃ before after, moves = before ++ after ∧ b ∉ before ∧ a ∉ after

/-- An order taken from the moves themselves respects precedence. -/
theorem pairwise_of_sublist {moves order : List ι} (h : order.Sublist moves) :
    order.Pairwise fun a b => ¬ Precedes moves b a := by
  refine List.pairwise_iff_forall_sublist.2 fun {a b} hab => ?_
  rintro ⟨before, after, rfl, notYet, noMore⟩
  obtain ⟨first, second, e, inBefore, inAfter⟩ := List.sublist_append_iff.1 (hab.trans h)
  match first, e with
  | [], e =>
    simp only [List.nil_append] at e
    exact noMore (inAfter.subset (e ▸ by simp))
  | x :: first, e =>
    obtain ⟨rfl, -⟩ := List.cons.inj e
    exact notYet (inBefore.subset (by simp))

variable {γ : Type u}

/-- A step of thread `i` at which it takes effect, or at which nothing does. -/
structure Commits (answer : ι → σ → ω × σ) (outcome : ι → ω) (view : γ → σ) (applied : γ → ι → Prop)
    (a : γ) (i : ι) (b : γ) : Prop where
  others : ∀ j, j ≠ i → (applied b j ↔ applied a j)
  own : ((applied b i ↔ applied a i) ∧ view b = view a) ∨
    (¬ applied a i ∧ applied b i ∧ answer i (view a) = (outcome i, view b))

/-- The calls that take effect in a run, in the order in which they do, answered
one at a time, have their outcomes and lead to the state at its end. -/
theorem exists_order {Λ : Type v} {step : γ → Λ → γ → Prop} (mover : Λ → ι) {answer : ι → σ → ω × σ}
    {outcome : ι → ω} {view : γ → σ} {applied : γ → ι → Prop}
    (commits : ∀ a l b, step a l b → Commits answer outcome view applied a (mover l) b)
    {c c' : γ} {ls : List Λ} (h : Run step c ls c') :
    ∃ order : List ι, order.Sublist (ls.map mover) ∧ order.Nodup ∧
      (∀ i, i ∈ order ↔ applied c' i ∧ ¬ applied c i) ∧ (∀ i, applied c i → applied c' i) ∧
      serial answer order (view c) = (order.map outcome, view c') := by
  induction h with
  | nil c => exact ⟨[], List.Sublist.refl _, List.nodup_nil, by simp, fun _ h => h, rfl⟩
  | @cons a b c' l ls hs _ ih =>
    obtain ⟨order, sub, nodup, mem, stays, run⟩ := ih
    have hc := commits a l b hs
    rcases hc.own with ⟨same, view⟩ | ⟨before, after, answered⟩
    · have all : ∀ j, applied b j ↔ applied a j := by
        intro j
        by_cases e : j = mover l
        · rw [e, same]
        · exact hc.others j e
      refine ⟨order, sub.cons _, nodup, fun i => by rw [mem, all], fun i hi => stays i ((all i).2 hi), ?_⟩
      rw [← view, run]
    · refine ⟨mover l :: order, sub.cons_cons _, List.nodup_cons.2 ⟨fun h => ((mem _).1 h).2 after, nodup⟩, ?_, ?_, ?_⟩
      · intro i
        by_cases e : i = mover l
        · subst e
          simp [before, stays _ after]
        · simp [e, mem, hc.others i e]
      · intro i hi
        by_cases e : i = mover l
        · exact e ▸ stays _ after
        · exact stays i ((hc.others i e).2 hi)
      · simp only [serial, answered, run, List.map_cons]

end

end Concurrent
