import Mathlib.Algebra.BigOperators.Group.List.Basic
import Mathlib.Algebra.Order.BigOperators.Group.List
import Mathlib.Algebra.Order.Group.Int
import Mathlib.Data.List.Induction
import Mathlib.Data.List.Sort
import Mathlib.Tactic.Linarith

/-!
# Sweep lines over half-open intervals

`walk` runs over a list of timed changes and keeps the running total and the
largest total so far. On a list sorted by time, changes at one time in
increasing order, that largest total is the peak of the step function `level`
(`level_le_peak`, `peak_le`). For the changes of a family of half-open
intervals clipped to a window (`events`), the level at an instant of the window
is the number of intervals that contain it (`level_events`), so the walk
computes the largest `load` in the window (`peak_le_iff`).
-/

namespace Sweep

universe u v

section Walk

variable {τ : Type u}

/-- One change: the new running total, and the largest so far. -/
def advance (s : ℤ × ℤ) (e : τ × ℤ) : ℤ × ℤ := (s.1 + e.2, max s.2 (s.1 + e.2))

/-- The running total and the largest running total of the changes in list order. -/
def walk (es : List (τ × ℤ)) : ℤ × ℤ := es.foldl advance (0, 0)

theorem walk_snoc (es : List (τ × ℤ)) (e : τ × ℤ) : walk (es ++ [e]) = advance (walk es) e := by
  simp [walk]

theorem walk_fst (es : List (τ × ℤ)) : (walk es).1 = (es.map (·.2)).sum := by
  induction es using List.reverseRecOn with
  | nil => rfl
  | append_singleton es e ih => simp [walk_snoc, advance, ih]

theorem walk_nonneg (es : List (τ × ℤ)) : 0 ≤ (walk es).2 := by
  induction es using List.reverseRecOn with
  | nil => exact le_refl _
  | append_singleton es e ih => rw [walk_snoc]; exact le_max_of_le_left ih

/-- The peak is at least every running total on the way. -/
theorem prefix_le_walk (es es' : List (τ × ℤ)) : (es.map (·.2)).sum ≤ (walk (es ++ es')).2 := by
  induction es' using List.reverseRecOn with
  | nil =>
    induction es using List.reverseRecOn with
    | nil => exact le_refl _
    | append_singleton es e _ =>
      rw [List.append_nil, walk_snoc, ← walk_fst, walk_snoc]
      exact le_max_right _ _
  | append_singleton es' e ih =>
    rw [← List.append_assoc, walk_snoc]
    exact le_max_of_le_left ih

end Walk

section Level

variable {τ : Type u} [LinearOrder τ]

/-- Earlier time first; at one time the smaller change first. -/
def Before (a b : τ × ℤ) : Prop := a.1 < b.1 ∨ a.1 = b.1 ∧ a.2 ≤ b.2

instance : DecidableRel (@Before τ _) := fun a b =>
  inferInstanceAs (Decidable (a.1 < b.1 ∨ a.1 = b.1 ∧ a.2 ≤ b.2))

instance : Std.Total (@Before τ _) where
  total a b := by
    rcases lt_trichotomy a.1 b.1 with lt | eq | gt
    · exact .inl (.inl lt)
    · rcases le_total a.2 b.2 with le | le
      · exact .inl (.inr ⟨eq, le⟩)
      · exact .inr (.inr ⟨eq.symm, le⟩)
    · exact .inr (.inl gt)

instance : IsTrans (τ × ℤ) Before where
  trans a b c := by
    rintro (ab | ⟨ab, ab'⟩) (bc | ⟨bc, bc'⟩)
    · exact .inl (ab.trans bc)
    · exact .inl (bc ▸ ab)
    · exact .inl (ab ▸ bc)
    · exact .inr ⟨ab.trans bc, ab'.trans bc'⟩

theorem Before.time_le {a b : τ × ℤ} (h : Before a b) : a.1 ≤ b.1 := by
  rcases h with lt | ⟨eq, -⟩
  · exact lt.le
  · exact eq.le

/-- The total of the changes up to and including time `t`. -/
def level (es : List (τ × ℤ)) (t : τ) : ℤ := ((es.filter (·.1 ≤ t)).map (·.2)).sum

@[simp] theorem level_nil (t : τ) : level ([] : List (τ × ℤ)) t = 0 := rfl

theorem level_cons (e : τ × ℤ) (es : List (τ × ℤ)) (t : τ) :
    level (e :: es) t = (if e.1 ≤ t then e.2 else 0) + level es t := by
  by_cases h : e.1 ≤ t <;> simp [level, h]

theorem level_append (es es' : List (τ × ℤ)) (t : τ) : level (es ++ es') t = level es t + level es' t := by
  simp [level]

theorem level_perm {es es' : List (τ × ℤ)} (h : es.Perm es') (t : τ) : level es t = level es' t :=
  ((h.filter _).map _).sum_eq

/-- A sorted list is the part up to time `t` followed by the part after it. -/
theorem filter_append_of_sorted {es : List (τ × ℤ)} (sorted : es.Pairwise Before) (t : τ) :
    es.filter (·.1 ≤ t) ++ es.filter (¬ ·.1 ≤ t) = es := by
  induction es with
  | nil => rfl
  | cons e es ih =>
    have later := List.pairwise_cons.1 sorted
    by_cases h : e.1 ≤ t
    · simpa [List.filter_cons, h] using ih later.2
    · have none : es.filter (fun x => decide (x.1 ≤ t)) = [] := by
        refine List.filter_eq_nil_iff.2 fun x hx => ?_
        have := (later.1 x hx).time_le
        simpa using lt_of_lt_of_le (not_le.1 h) this
      have all : es.filter (fun x => decide (¬ x.1 ≤ t)) = es := by
        simpa [none] using ih later.2
      simp only [List.filter_cons, h, none, all, decide_false, decide_true, not_false_eq_true,
        Bool.false_eq_true, if_false, if_true, List.nil_append]

/-- No level exceeds the peak. -/
theorem level_le_peak {es : List (τ × ℤ)} (sorted : es.Pairwise Before) (t : τ) :
    level es t ≤ (walk es).2 := by
  have := prefix_le_walk (es.filter (·.1 ≤ t)) (es.filter (¬ ·.1 ≤ t))
  rwa [filter_append_of_sorted sorted] at this

/-- A bound on the levels right after each increase bounds the peak: the total
in front of a decrease was larger, and what follows an increase at the same
time are increases. -/
theorem peak_le {es : List (τ × ℤ)} (sorted : es.Pairwise Before) {B : ℤ} (nonneg : 0 ≤ B)
    (bound : ∀ e ∈ es, 0 < e.2 → level es e.1 ≤ B) : (walk es).2 ≤ B := by
  suffices ∀ ls rs, ls ++ rs = es → (walk ls).2 ≤ B ∧ (ls.map (·.2)).sum ≤ B from
    (this es [] (List.append_nil _)).1
  intro ls
  induction ls using List.reverseRecOn with
  | nil => intro _ _; exact ⟨nonneg, nonneg⟩
  | append_singleton ls e ih =>
    intro rs split
    obtain ⟨peak, total⟩ := ih (e :: rs) (by simpa using split)
    have here : ((ls ++ [e]).map (·.2)).sum ≤ B := by
      by_cases up : 0 < e.2
      · have sorted' := split ▸ sorted
        rw [List.pairwise_append] at sorted'
        obtain ⟨-, -, cross⟩ := sorted'
        have all : (ls ++ [e]).filter (fun x => decide (x.1 ≤ e.1)) = ls ++ [e] := by
          refine List.filter_eq_self.2 fun x hx => decide_eq_true ?_
          rcases List.mem_append.1 hx with hx | hx
          · have := sorted
            rw [← split, List.append_assoc, List.pairwise_append] at this
            exact (this.2.2 x hx e (by simp)).time_le
          · rw [List.mem_singleton.1 hx]
        have rest : 0 ≤ level rs e.1 := by
          refine List.sum_nonneg fun d hd => ?_
          obtain ⟨x, hx, rfl⟩ := List.mem_map.1 hd
          obtain ⟨mem, le⟩ := List.mem_filter.1 hx
          have le : x.1 ≤ e.1 := of_decide_eq_true le
          rcases cross e (by simp) x mem with lt | ⟨-, le'⟩
          · exact absurd lt (not_lt.2 le)
          · exact up.le.trans le'
        have := bound e (by rw [← split]; simp) up
        rw [← split, level_append, level, all] at this
        linarith
      · simp only [List.map_append, List.map_cons, List.map_nil, List.sum_append, List.sum_cons,
          List.sum_nil]
        linarith
    refine ⟨?_, here⟩
    rw [walk_snoc]
    refine max_le peak ?_
    rw [walk_fst]
    simpa using here

end Level

section Intervals

variable {τ : Type u} [LinearOrder τ] {α : Type v} (lo hi : α → τ)

/-- How many intervals `[lo p, hi p)` of the list contain `t`. -/
def load (ps : List α) (t : τ) : ℕ := ps.countP fun p => lo p ≤ t ∧ t < hi p

/-- The changes of the intervals that overlap the window `[a, b)`, clipped to it. -/
def events (a b : τ) (ps : List α) : List (τ × ℤ) :=
  ps.flatMap fun p => if lo p < b ∧ a < hi p then [(max (lo p) a, 1), (min (hi p) b, -1)] else []

variable {lo hi}

theorem load_nil (t : τ) : load lo hi [] t = 0 := rfl

theorem load_cons (p : α) (ps : List α) (t : τ) :
    load lo hi (p :: ps) t = load lo hi ps t + if lo p ≤ t ∧ t < hi p then 1 else 0 := by
  simp [load, List.countP_cons]

theorem load_append (ps ps' : List α) (t : τ) : load lo hi (ps ++ ps') t = load lo hi ps t + load lo hi ps' t := by
  simp [load]

/-- Inside the window, the level of the clipped changes is the load. -/
theorem level_events {a b t : τ} (ha : a ≤ t) (hb : t < b) {ps : List α} (proper : ∀ p ∈ ps, lo p < hi p) :
    level (events lo hi a b ps) t = load lo hi ps t := by
  induction ps with
  | nil => rfl
  | cons p ps ih =>
    have here := proper p (by simp)
    have rest := ih fun q hq => proper q (by simp [hq])
    rw [events, List.flatMap_cons, level_append, load_cons]
    rw [events] at rest
    rw [rest, add_comm]
    push_cast
    congr 1
    by_cases meets : lo p < b ∧ a < hi p
    · simp only [meets, and_self, if_true, level_cons, level_nil, max_le_iff, min_le_iff, ha, and_true,
        not_le.2 hb, or_false]
      by_cases start : lo p ≤ t
      · by_cases stop : hi p ≤ t <;> simp [start, stop, not_lt.2, not_le.1]
      · simp [start, not_le.2 ((not_le.1 start).trans here)]
    · rw [if_neg meets, level_nil, if_neg]
      intro inside
      exact meets ⟨inside.1.trans_lt hb, ha.trans_lt inside.2⟩

/-- Every increase among the clipped changes is at an instant of the window. -/
theorem events_up_mem {a b : τ} (window : a < b) {ps : List α} {e : τ × ℤ} (he : e ∈ events lo hi a b ps)
    (up : 0 < e.2) : a ≤ e.1 ∧ e.1 < b := by
  obtain ⟨p, -, he⟩ := List.mem_flatMap.1 he
  split at he
  · rename_i meets
    simp only [List.mem_cons, List.not_mem_nil, or_false] at he
    rcases he with rfl | rfl
    · exact ⟨le_max_right _ _, max_lt meets.1 window⟩
    · simp at up
  · simp at he

/-- **The sweep line computes the peak load.** The peak of the sorted clipped
changes is at most `B` exactly when no instant of the window has a larger load. -/
theorem peak_le_iff {a b : τ} (window : a < b) {ps : List α} (proper : ∀ p ∈ ps, lo p < hi p) (B : ℕ) :
    (walk ((events lo hi a b ps).insertionSort Before)).2 ≤ B ↔
      ∀ t, a ≤ t → t < b → load lo hi ps t ≤ B := by
  have sorted := List.pairwise_insertionSort Before (events lo hi a b ps)
  have perm := List.perm_insertionSort Before (events lo hi a b ps)
  constructor
  · intro peak t ha hb
    have := level_le_peak sorted t
    rw [level_perm perm, level_events ha hb proper] at this
    exact_mod_cast this.trans peak
  · intro bound
    refine peak_le sorted (Int.natCast_nonneg B) fun e he up => ?_
    obtain ⟨ha, hb⟩ := events_up_mem window (perm.mem_iff.1 he) up
    rw [level_perm perm, level_events ha hb proper]
    exact_mod_cast bound e.1 ha hb

end Intervals

end Sweep
