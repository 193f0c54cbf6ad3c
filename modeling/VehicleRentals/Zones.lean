import Mathlib.Data.Int.LeastGreatest
import Mathlib.Order.Bounds.Basic

/-!
# Clocks whose offset changes

A clock shows each instant with the offset in force added. Where the offset
changes the clock skips readings or shows them again, so a reading alone may
stand for no instant or for several. `Pep495` is how a lookup by reading tells
the cases apart: it answers with the offset of the first or of the last instant
that shows the reading, and around a skipped reading with the offset before or
after the jump. The table search of `lookup` does so for every list of changes
that are far enough apart (`Transitions.pep495`).
-/

namespace Zones

section Clock

variable (offset : Int → Int)

/-- The clock shows `w` at instant `u`. -/
def Shows (u w : Int) : Prop := u + offset u = w

/-- The instants at which the clock shows `w`. -/
def showing (w : Int) : Set Int := {u | Shows offset u w}

/-- A lookup of the offset by a reading, and by which of two readings is meant. -/
structure Pep495 (lookup : Bool → Int → Int) : Prop where
  first : ∀ u w, IsLeast (showing offset w) u → lookup false w = offset u
  last : ∀ u w, IsGreatest (showing offset w) u → lookup true w = offset u
  skipped : ∀ u w, u + offset (u - 1) ≤ w → w < u + offset u → (∀ v, ¬ Shows offset v w) →
    lookup false w = offset (u - 1) ∧ lookup true w = offset u

/-- With bounded offsets, a reading that is shown is shown for a first time. -/
theorem exists_first {offset : Int → Int} {B : Int} (bounded : ∀ u, offset u ≤ B) {w : Int} (shown : ∃ u, Shows offset u w) :
    ∃ u, IsLeast (showing offset w) u := by
  have below : ∀ u, Shows offset u w → w - B ≤ u := by
    intro u hu
    have := bounded u
    unfold Shows at hu
    omega
  obtain ⟨u, shows, least⟩ := Int.exists_least_of_bdd (P := fun u => Shows offset u w) ⟨w - B, below⟩ shown
  exact ⟨u, shows, least⟩

end Clock

/-! ## Tables of changes -/

/-- The offset in force at `u`: `before` up to the first change, then what each
change sets it to. -/
def offsetAt (before : Int) : List (Int × Int) → Int → Int
  | [], _ => before
  | (t, after) :: rest, u => if u < t then before else offsetAt after rest u

/-- The search by reading: a change is passed once the clock, on the slower of
its two offsets for the second reading and on the faster for the first, has
passed it. -/
def search (fold : Bool) (before : Int) : List (Int × Int) → Int → Int
  | [], _ => before
  | (t, after) :: rest, w =>
    if w < t + (if fold then min before after else max before after) then before else search fold after rest w

/-- The readings around one change are behind before those around the next;
the clock runs undisturbed up to the reading `since`. -/
def Spaced (since before : Int) : List (Int × Int) → Prop
  | [] => True
  | (t, after) :: rest => since < t + min before after ∧ Spaced (t + max before after) after rest

instance decidableSpaced : (since before : Int) → (changes : List (Int × Int)) → Decidable (Spaced since before changes)
  | _, _, [] => isTrue trivial
  | _, before, (t, after) :: rest =>
    have := decidableSpaced (t + max before after) after rest
    inferInstanceAs (Decidable (_ ∧ _))

section Search

variable {since before : Int} {changes rest : List (Int × Int)} {t after u w : Int}

/-- Before its first change the clock has its first offset. -/
theorem offsetAt_early (early : u < t) : offsetAt before ((t, after) :: rest) u = before := if_pos early

/-- From its first change on, the clock is the one of the later changes. -/
theorem offsetAt_late (late : t ≤ u) : offsetAt before ((t, after) :: rest) u = offsetAt after rest u :=
  if_neg (not_lt.2 late)

theorem shows_early (early : u < t) : Shows (offsetAt before ((t, after) :: rest)) u w ↔ u + before = w := by
  rw [Shows, offsetAt_early early]

theorem shows_late (late : t ≤ u) :
    Shows (offsetAt before ((t, after) :: rest)) u w ↔ Shows (offsetAt after rest) u w := by
  rw [Shows, offsetAt_late late, Shows]

theorem offsetAt_mem (before : Int) (changes : List (Int × Int)) (u : Int) :
    offsetAt before changes u ∈ before :: changes.map (·.2) := by
  induction changes generalizing before with
  | nil => exact List.mem_singleton.2 rfl
  | cons change rest ih =>
    by_cases early : u < change.1
    · rw [offsetAt, if_pos early]
      exact List.mem_cons_self
    · rw [offsetAt, if_neg early]
      exact List.mem_cons_of_mem _ (ih change.2)

theorem search_mem (fold : Bool) (before : Int) (changes : List (Int × Int)) (w : Int) :
    search fold before changes w ∈ before :: changes.map (·.2) := by
  induction changes generalizing before with
  | nil => exact List.mem_singleton.2 rfl
  | cons change rest ih =>
    by_cases early : w < change.1 + (if fold then min before change.2 else max before change.2)
    · rw [search, if_pos early]
      exact List.mem_cons_self
    · rw [search, if_neg early]
      exact List.mem_cons_of_mem _ (ih change.2)

/-- Up to `since` nothing has changed. -/
theorem offsetAt_of_le (spaced : Spaced since before changes) (early : u + before ≤ since) :
    offsetAt before changes u = before := by
  cases changes with
  | nil => rfl
  | cons change rest =>
    have gap := spaced.1
    have low : min before change.2 ≤ before := min_le_left _ _
    exact if_pos (by omega)

theorem search_of_le (spaced : Spaced since before changes) (fold : Bool) (early : w ≤ since) :
    search fold before changes w = before := by
  cases changes with
  | nil => rfl
  | cons change rest =>
    have gap := spaced.1
    have le : min before change.2 ≤ max before change.2 := min_le_max
    refine if_pos ?_
    cases fold <;> simp only [Bool.false_eq_true, if_false, if_true] <;> omega

/-- Once past a reading no later than `since`, the clock never shows an earlier one. -/
theorem le_shown (spaced : Spaced since before changes) {low : Int} (le : low ≤ since) (past : low ≤ u + before) :
    low ≤ u + offsetAt before changes u := by
  induction changes generalizing since before with
  | nil => exact past
  | cons change rest ih =>
    obtain ⟨t, after⟩ := change
    obtain ⟨gap, spaced⟩ := spaced
    have h₁ : min before after ≤ after := min_le_right _ _
    have h₂ : min before after ≤ max before after := min_le_max
    by_cases early : u < t
    · rw [offsetAt_early early]
      exact past
    · rw [offsetAt_late (not_lt.1 early)]
      exact ih spaced (by omega) (by omega)

/-- The first of the instants that show a reading is the one the search finds
without `fold`. -/
theorem search_first (spaced : Spaced since before changes) (first : IsLeast (showing (offsetAt before changes) w) u) :
    search false before changes w = offsetAt before changes u := by
  induction changes generalizing since before with
  | nil => rfl
  | cons change rest ih =>
    obtain ⟨t, after⟩ := change
    obtain ⟨gap, spaced⟩ := spaced
    obtain ⟨shown, least⟩ := first
    have h₁ : before ≤ max before after := le_max_left _ _
    have h₂ : after ≤ max before after := le_max_right _ _
    simp only [search, Bool.false_eq_true, if_false]
    by_cases early : w < t + max before after
    · rw [if_pos early]
      by_cases known : w - before < t
      · -- the reading is shown before the change, so its first instant is there too
        have here : w - before ∈ showing (offsetAt before ((t, after) :: rest)) w :=
          (shows_early known).2 (by omega)
        have := least here
        rw [offsetAt_early (by omega)]
      · -- the reading lies in a gap; the clock never comes back to it
        have forward : before < after := by
          by_contra ge
          rw [max_eq_left (not_lt.1 ge)] at early
          omega
        rw [max_eq_right forward.le] at early
        by_cases late : t ≤ u
        · have passed : t + after ≤ u + offsetAt after rest u := le_shown spaced (by omega) (by omega)
          have shows : u + offsetAt after rest u = w := (shows_late late).1 shown
          omega
        · rw [offsetAt_early (not_le.1 late)]
    · rw [if_neg early]
      have late : t ≤ u := by
        by_contra before_t
        have := (shows_early (not_le.1 before_t)).1 shown
        omega
      rw [offsetAt_late late]
      refine ih spaced ⟨(shows_late late).1 shown, ?_⟩
      intro v shows
      by_cases there : t ≤ v
      · exact least ((shows_late there).2 shows)
      · have calm : offsetAt after rest v = after := offsetAt_of_le spaced (by omega)
        have : v + offsetAt after rest v = w := shows
        omega

/-- The last one is found with `fold`. -/
theorem search_last (spaced : Spaced since before changes) (last : IsGreatest (showing (offsetAt before changes) w) u) :
    search true before changes w = offsetAt before changes u := by
  induction changes generalizing since before with
  | nil => rfl
  | cons change rest ih =>
    obtain ⟨t, after⟩ := change
    obtain ⟨gap, spaced⟩ := spaced
    obtain ⟨shown, greatest⟩ := last
    have h₁ : min before after ≤ after := min_le_right _ _
    have h₂ : after ≤ max before after := le_max_right _ _
    have h₃ : before ≤ max before after := le_max_left _ _
    simp only [search, if_true]
    by_cases early : w < t + min before after
    · rw [if_pos early]
      by_cases late : t ≤ u
      · have passed : t + after ≤ u + offsetAt after rest u := le_shown spaced (by omega) (by omega)
        have shows : u + offsetAt after rest u = w := (shows_late late).1 shown
        omega
      · rw [offsetAt_early (not_le.1 late)]
    · rw [if_neg early]
      have late : t ≤ u := by
        by_contra before_t
        have shows := (shows_early (not_le.1 before_t)).1 shown
        -- the reading is shown before the change and again after it
        have back : t ≤ w - after := by
          rcases min_choice before after with e | e <;> omega
        have calm : offsetAt after rest (w - after) = after := offsetAt_of_le spaced (by omega)
        have again : w - after ∈ showing (offsetAt before ((t, after) :: rest)) w := by
          refine (shows_late back).2 ?_
          rw [Shows, calm]
          omega
        have := greatest again
        omega
      rw [offsetAt_late late]
      refine ih spaced ⟨(shows_late late).1 shown, ?_⟩
      intro v shows
      by_cases there : t ≤ v
      · exact greatest ((shows_late there).2 shows)
      · omega

/-- Around a reading that is skipped the search finds the offset before the jump
without `fold`, and the one after it with `fold`. -/
theorem search_skipped (spaced : Spaced since before changes) (above : u + offsetAt before changes (u - 1) ≤ w)
    (below : w < u + offsetAt before changes u) (skipped : ∀ v, ¬ Shows (offsetAt before changes) v w) :
    search false before changes w = offsetAt before changes (u - 1) ∧
      search true before changes w = offsetAt before changes u := by
  induction changes generalizing since before with
  | nil =>
    simp only [offsetAt] at above below
    omega
  | cons change rest ih =>
    obtain ⟨t, after⟩ := change
    obtain ⟨gap, spaced⟩ := spaced
    have h₁ : before ≤ max before after := le_max_left _ _
    have h₂ : after ≤ max before after := le_max_right _ _
    rcases lt_trichotomy u t with early | rfl | late
    · rw [offsetAt_early early] at below
      rw [offsetAt_early (by omega)] at above
      omega
    · -- the jump is this change
      have calm : offsetAt after rest u = after := by
        refine offsetAt_of_le spaced ?_
        omega
      rw [offsetAt_late le_rfl, calm] at below ⊢
      rw [offsetAt_early (by omega)] at above ⊢
      have forward : before ≤ after := by omega
      simp only [search, Bool.false_eq_true, if_false, if_true, max_eq_right forward, min_eq_left forward]
      rw [if_pos below, if_neg (not_lt.2 above)]
      exact ⟨rfl, search_of_le spaced true (by omega)⟩
    · rw [offsetAt_late late.le] at below ⊢
      rw [offsetAt_late (by omega)] at above ⊢
      have passed : t + after ≤ u - 1 + offsetAt after rest (u - 1) := le_shown spaced (by omega) (by omega)
      -- the clock has left every reading around the first change behind
      have beyond : t + max before after ≤ w := by
        by_contra near
        have backward : after < before := by
          by_contra ge
          rw [max_eq_right (not_lt.1 ge)] at near
          omega
        rw [max_eq_left backward.le] at near
        exact skipped (w - before) ((shows_early (by omega)).2 (by omega))
      have low : min before after ≤ max before after := min_le_max
      have none : ∀ v, ¬ Shows (offsetAt after rest) v w := by
        intro v shows
        by_cases there : t ≤ v
        · exact skipped v ((shows_late there).2 shows)
        · have calm : offsetAt after rest v = after := offsetAt_of_le spaced (by omega)
          have : v + offsetAt after rest v = w := shows
          omega
      simp only [search, Bool.false_eq_true, if_false, if_true]
      rw [if_neg (by omega), if_neg (by omega)]
      exact ih spaced above below none

end Search

/-- A clock by its table: the offset it starts with, and its changes, each with
its instant and the offset from then on. -/
structure Transitions where
  initial : Int
  changes : List (Int × Int)
  /-- A reading up to which nothing has changed. -/
  since : Int
  spaced : Spaced since initial changes

namespace Transitions

variable (z : Transitions)

def offset : Int → Int := offsetAt z.initial z.changes

def lookup (fold : Bool) : Int → Int := search fold z.initial z.changes

/-- The offsets of the clock. -/
def offsets : List Int := z.initial :: z.changes.map (·.2)

/-- The table search tells skipped and repeated readings apart as it should. -/
theorem pep495 : Pep495 z.offset z.lookup where
  first _ _ := search_first z.spaced
  last _ _ := search_last z.spaced
  skipped _ _ := search_skipped z.spaced

end Transitions

end Zones
