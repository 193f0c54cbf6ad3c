import VehicleRentals.Domain.Clock
import VehicleRentals.Sweep

/-!
# `RentalPeriod` (`rentals/domain/period.py`)

A half-open span `[start, end)` of UTC instants. The constructor's check is a
field, so an invalid period cannot be built. `stop` is the source's `end`.
-/

namespace VehicleRentals

@[ext] structure RentalPeriod where
  start : Instant
  stop : Instant
  /-- "a rental must end after it starts". -/
  startsBeforeStop : start < stop
  deriving DecidableEq, Repr

namespace RentalPeriod

/-- `RentalPeriod(start=..., end=...)` on two instants already normalised to UTC. -/
def new (start stop : Instant) : Except Exn RentalPeriod :=
  if h : stop ≤ start then .error (.domain (.invalidRentalPeriod "a rental must end after it starts"))
  else .ok ⟨start, stop, not_le.1 h⟩

/-- A period rebuilt from its own ends is itself. -/
@[simp] theorem new_self (p : RentalPeriod) : new p.start p.stop = .ok p := by
  rw [new, dif_neg (not_le.2 p.startsBeforeStop)]

def duration (p : RentalPeriod) : Timedelta := p.stop - p.start

def overlaps (p other : RentalPeriod) : Bool := p.start < other.stop && other.start < p.stop

/-- The car is out at instant `t`. -/
def Covers (p : RentalPeriod) (t : Instant) : Prop := p.start ≤ t ∧ t < p.stop

instance (p : RentalPeriod) (t : Instant) : Decidable (p.Covers t) :=
  inferInstanceAs (Decidable (_ ∧ _))

theorem covers_start (p : RentalPeriod) : p.Covers p.start := ⟨le_refl _, p.startsBeforeStop⟩

/-- Two periods overlap exactly when they share an instant. -/
theorem overlaps_iff {p other : RentalPeriod} :
    p.overlaps other = true ↔ ∃ t, p.Covers t ∧ other.Covers t := by
  simp only [overlaps, Bool.and_eq_true, decide_eq_true_eq, Covers]
  constructor
  · rintro ⟨h, h'⟩
    refine ⟨max p.start other.start, ⟨le_max_left _ _, max_lt p.startsBeforeStop h'⟩,
      le_max_right _ _, max_lt h other.startsBeforeStop⟩
  · rintro ⟨t, ⟨h₁, h₂⟩, h₃, h₄⟩
    exact ⟨lt_of_le_of_lt h₁ h₄, lt_of_le_of_lt h₃ h₂⟩

/-- How many of the periods cover `t`: the cars that are out at that instant. -/
abbrev load (ps : List RentalPeriod) (t : Instant) : Nat := Sweep.load start stop ps t

end RentalPeriod

end VehicleRentals
