import VehicleRentals.Domain.Schedule
import VehicleRentals.Intervals

/-!
# Bookings and physical cars

Customers book a type, and a car is handed over at pick-up. The one number that
`can_accommodate` compares with the fleet's size decides whether that can work.
-/

namespace VehicleRentals

/-- The periods can be given cars of a fleet of `n`, no two that overlap the same one. -/
def Assignable (n : Nat) (periods : List RentalPeriod) : Prop :=
  ∃ car : Fin periods.length → Fin n, ∀ i j, i ≠ j → (periods.get i).overlaps (periods.get j) = true → car i ≠ car j

/-- Cars can be assigned exactly when no instant has more of them out than there are. -/
theorem assignable_iff (n : Nat) (periods : List RentalPeriod) :
    Assignable n periods ↔ ∀ t, RentalPeriod.load periods t ≤ n := by
  have proper : ∀ i ∈ (Finset.univ : Finset (Fin periods.length)),
      (periods.get i).start < (periods.get i).stop := fun i _ => (periods.get i).startsBeforeStop
  have rooms := Intervals.exists_rooms_iff proper n
  simp only [Intervals.card_containing RentalPeriod.start RentalPeriod.stop periods] at rooms
  rw [← rooms]
  constructor
  · rintro ⟨car, apart⟩
    refine ⟨fun i => car i, fun i _ => (car i).isLt, ?_⟩
    intro i _ j _ ne before after same
    refine apart i j ne ?_ (Fin.ext same)
    simp only [RentalPeriod.overlaps, Bool.and_eq_true, decide_eq_true_eq]
    exact ⟨before, after⟩
  · rintro ⟨room, below, apart⟩
    refine ⟨fun i => ⟨room i, below i (Finset.mem_univ i)⟩, ?_⟩
    intro i j ne overlaps same
    simp only [RentalPeriod.overlaps, Bool.and_eq_true, decide_eq_true_eq] at overlaps
    exact apart i (Finset.mem_univ i) j (Finset.mem_univ j) ne overlaps.1 overlaps.2 (Fin.mk.inj same)

namespace FleetSchedule

/-- Of bookings that have cars, one more is admitted exactly when all of them together
still can have cars, whoever has to be given another one. -/
theorem canAccommodate_exact {n : Nat} {booked : List RentalPeriod} (cars : Assignable n booked)
    (window : RentalPeriod) :
    canAccommodate { fleetSize := n, booked } window = true ↔ Assignable n (booked ++ [window]) := by
  have before := (assignable_iff n booked).1 cars
  have one : ∀ t, RentalPeriod.load (booked ++ [window]) t =
      RentalPeriod.load booked t + if window.Covers t then 1 else 0 := by
    intro t
    rw [RentalPeriod.load, Sweep.load_append, Sweep.load_cons, Sweep.load_nil, Nat.zero_add]
    rfl
  rw [canAccommodate_iff, assignable_iff]
  constructor
  · intro free t
    rw [one]
    by_cases covers : window.Covers t
    · rw [if_pos covers]
      exact free t covers
    · rw [if_neg covers]
      exact before t
  · intro all t covers
    have := all t
    rw [one, if_pos covers] at this
    exact this

/-- Days 1 to 3, 5 to 7, and 2 to 6, which overlaps both. -/
def early : RentalPeriod := ⟨Timedelta.days 1, Timedelta.days 3, by decide⟩
def late : RentalPeriod := ⟨Timedelta.days 5, Timedelta.days 7, by decide⟩
def middle : RentalPeriod := ⟨Timedelta.days 2, Timedelta.days 6, by decide⟩

theorem canAccommodate_exact_two :
    canAccommodate { fleetSize := 2, booked := [early, late] } middle = true ∧
      Assignable 2 [early, late, middle] := by
  have cars : Assignable 2 [early, late] := ⟨fun i => i, by decide⟩
  have fits : canAccommodate { fleetSize := 2, booked := [early, late] } middle = true := by decide
  exact ⟨fits, (canAccommodate_exact cars middle).1 fits⟩

end FleetSchedule

end VehicleRentals
