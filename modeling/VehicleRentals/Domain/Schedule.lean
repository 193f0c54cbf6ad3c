import VehicleRentals.Domain.Period

/-!
# `FleetSchedule` (`rentals/domain/schedule.py`)

The sweep line over the bookings of one fleet, and what it computes: the peak
within a window is the largest number of cars out at one instant of it.
-/

namespace VehicleRentals

/-- `_RETURN` and `_PICKUP`. -/
def RETURN : Int := -1
def PICKUP : Int := 1

/-- The bookings held against a fleet of interchangeable cars of one type. -/
structure FleetSchedule where
  fleetSize : Nat
  booked : List RentalPeriod
  deriving DecidableEq, Repr

namespace FleetSchedule

/-- The events of the bookings that overlap the window, clipped to it. -/
def events (window : RentalPeriod) : List RentalPeriod → List (Instant × Int)
  | [] => []
  | period :: rest =>
    if period.overlaps window then
      (max period.start window.start, PICKUP) :: (min period.stop window.stop, RETURN) :: events window rest
    else events window rest

/-- `peak_usage`: the largest running total of the events in time order,
returns before pick-ups at one instant. -/
def peakUsage (s : FleetSchedule) (window : RentalPeriod) : Int :=
  let sorted := (events window s.booked).insertionSort Sweep.Before
  let (_, peak) := sorted.foldl
    (fun (inUse, peak) (_, delta) =>
      let inUse := inUse + delta
      (inUse, max peak inUse))
    ((0, 0) : Int × Int)
  peak

/-- `remaining`: cars free for the entire window, never negative. -/
def remaining (s : FleetSchedule) (window : RentalPeriod) : Int :=
  max 0 (s.fleetSize - s.peakUsage window)

def canAccommodate (s : FleetSchedule) (window : RentalPeriod) : Bool :=
  s.peakUsage window < s.fleetSize

theorem events_eq (window : RentalPeriod) (booked : List RentalPeriod) :
    events window booked = Sweep.events RentalPeriod.start RentalPeriod.stop window.start window.stop booked := by
  induction booked with
  | nil => rfl
  | cons p ps ih =>
    simp only [events, Sweep.events, List.flatMap_cons]
    rw [Sweep.events] at ih
    by_cases h : p.start < window.stop ∧ window.start < p.stop
    · simp [RentalPeriod.overlaps, h, ih, PICKUP, RETURN]
    · have : p.overlaps window = false := by
        rw [RentalPeriod.overlaps, ← Bool.not_eq_true]
        simpa using h
      simp only [this, if_neg h, ih, Bool.false_eq_true, if_false, List.nil_append]

/-- A pick-up and a return for each booking that overlaps the window. -/
theorem length_events {window : RentalPeriod} {booked : List RentalPeriod}
    (overlap : ∀ p ∈ booked, p.overlaps window = true) : (events window booked).length = 2 * booked.length := by
  induction booked with
  | nil => rfl
  | cons p ps ih =>
    have rest := ih fun q hq => overlap q (List.mem_cons_of_mem p hq)
    rw [events, if_pos (overlap p List.mem_cons_self)]
    simp only [List.length_cons, rest]
    omega

theorem peakUsage_eq (s : FleetSchedule) (window : RentalPeriod) :
    s.peakUsage window = (Sweep.walk ((Sweep.events RentalPeriod.start RentalPeriod.stop window.start
      window.stop s.booked).insertionSort Sweep.Before)).2 := by
  rw [← events_eq]
  rfl

theorem peakUsage_nonneg (s : FleetSchedule) (window : RentalPeriod) : 0 ≤ s.peakUsage window := by
  rw [peakUsage_eq]
  exact Sweep.walk_nonneg _

/-- The peak is at most `B` exactly when at most `B` cars are out at every
instant of the window. -/
theorem peakUsage_le_iff (s : FleetSchedule) (window : RentalPeriod) (B : Nat) :
    s.peakUsage window ≤ B ↔ ∀ t, window.Covers t → RentalPeriod.load s.booked t ≤ B := by
  rw [peakUsage_eq, Sweep.peak_le_iff window.startsBeforeStop fun p _ => p.startsBeforeStop]
  exact ⟨fun h t ht => h t ht.1 ht.2, fun h t ha hb => h t ⟨ha, hb⟩⟩

/-- `peak_usage` is the largest number of cars out at one instant of the window. -/
theorem peakUsage_isGreatest (s : FleetSchedule) (window : RentalPeriod) :
    IsGreatest {k : Int | ∃ t, window.Covers t ∧ (s.booked.countP fun p => p.Covers t : Nat) = k}
      (s.peakUsage window) := by
  obtain ⟨peak, hpeak⟩ := Int.eq_ofNat_of_zero_le (s.peakUsage_nonneg window)
  have le_iff := s.peakUsage_le_iff window
  simp only [hpeak, Nat.cast_le] at le_iff ⊢
  have all := (le_iff peak).1 le_rfl
  constructor
  · by_contra none
    -- then every load in the window is smaller than the peak
    have below : ∀ t, window.Covers t → RentalPeriod.load s.booked t < peak := by
      intro t ht
      apply lt_of_le_of_ne (all t ht)
      intro reaches
      exact none ⟨t, ht, congrArg Nat.cast reaches⟩
    have positive := below window.start window.covers_start
    have := (le_iff (peak - 1)).2 fun t ht => by
      have := below t ht
      omega
    omega
  · rintro _ ⟨t, ht, rfl⟩
    exact Nat.cast_le.2 (all t ht)

/-- A new booking fits exactly when at every instant of its period some car is free. -/
theorem canAccommodate_iff (s : FleetSchedule) (window : RentalPeriod) :
    s.canAccommodate window = true ↔ ∀ t, window.Covers t → RentalPeriod.load s.booked t < s.fleetSize := by
  rw [canAccommodate, decide_eq_true_eq]
  cases size : s.fleetSize with
  | zero =>
    have := s.peakUsage_nonneg window
    constructor
    · intro h; simp only [Nat.cast_zero] at h; omega
    · intro h; exact absurd (h window.start window.covers_start) (Nat.not_lt_zero _)
  | succ n =>
    have := s.peakUsage_le_iff window n
    simp only [Nat.lt_succ_iff, ← this, Nat.cast_succ]
    omega

/-- `remaining` advertises a car exactly when a new booking fits. -/
theorem canAccommodate_iff_remaining (s : FleetSchedule) (window : RentalPeriod) :
    s.canAccommodate window = true ↔ 0 < s.remaining window := by
  rw [canAccommodate, decide_eq_true_eq, remaining]
  omega

theorem le_remaining_iff (s : FleetSchedule) (window : RentalPeriod) (k : Int) :
    k ≤ s.remaining window ↔ ∀ t, window.Covers t → k ≤ max 0 ((s.fleetSize : Int) - RentalPeriod.load s.booked t) := by
  have nonneg := s.peakUsage_nonneg window
  rw [remaining]
  rcases le_or_gt k 0 with none | positive
  · exact iff_of_true (none.trans (le_max_left _ _)) fun t _ => none.trans (le_max_left _ _)
  · by_cases within : k ≤ s.fleetSize
    · -- the peak leaves `k` cars exactly when every load does
      have bound := s.peakUsage_le_iff window (s.fleetSize - k).toNat
      constructor
      · intro h t ht
        have := bound.1 (by omega) t ht
        omega
      · intro h
        have := bound.2 fun t ht => by
          have := h t ht
          omega
        omega
    · refine iff_of_false (by omega) fun h => ?_
      have := h window.start window.covers_start
      omega

/-- `remaining` is what the instant of the window leaves that leaves least. -/
theorem remaining_isLeast (s : FleetSchedule) (window : RentalPeriod) :
    IsLeast {k : Int | ∃ t, window.Covers t ∧ k = max 0 ((s.fleetSize : Int) - RentalPeriod.load s.booked t)}
      (s.remaining window) := by
  constructor
  · by_contra none
    have more := (s.le_remaining_iff window (s.remaining window + 1)).2 fun t ht => by
      have le := (s.le_remaining_iff window _).1 le_rfl t ht
      have ne : s.remaining window ≠ max 0 ((s.fleetSize : Int) - RentalPeriod.load s.booked t) := fun e => none ⟨t, ht, e⟩
      omega
    omega
  · rintro _ ⟨t, ht, rfl⟩
    exact (s.le_remaining_iff window _).1 le_rfl t ht

/-- One more booking of the whole window raises the peak by exactly one, whatever
other bookings cross the window. -/
theorem peakUsage_append_window (size : Nat) (booked : List RentalPeriod) (window : RentalPeriod) :
    peakUsage { fleetSize := size, booked := booked ++ [window] } window =
      peakUsage { fleetSize := size, booked } window + 1 := by
  have added : ∀ t, window.Covers t →
      RentalPeriod.load (booked ++ [window]) t = RentalPeriod.load booked t + 1 := by
    intro t ht
    have one : RentalPeriod.load [window] t = 1 := by
      rw [RentalPeriod.load, Sweep.load_cons, Sweep.load_nil, Nat.zero_add]
      exact if_pos ht
    rw [← one]
    exact Sweep.load_append ..
  have before := peakUsage_nonneg { fleetSize := size, booked } window
  have le_iff := peakUsage_le_iff { fleetSize := size, booked } window
  have le_iff' := peakUsage_le_iff { fleetSize := size, booked := booked ++ [window] } window
  obtain ⟨peak, hpeak⟩ := Int.eq_ofNat_of_zero_le before
  rw [hpeak] at le_iff ⊢
  apply le_antisymm
  · refine (le_iff' (peak + 1)).2 fun t ht => ?_
    have : RentalPeriod.load booked t ≤ peak := (le_iff peak).1 le_rfl t ht
    rw [added t ht]
    omega
  · by_contra lower
    have small : peakUsage { fleetSize := size, booked := booked ++ [window] } window ≤ peak := by omega
    have loads := (le_iff' peak).1 small
    cases peak with
    | zero =>
      have := loads window.start window.covers_start
      rw [added _ window.covers_start] at this
      omega
    | succ peak =>
      have : ((peak + 1 : Nat) : Int) ≤ peak := (le_iff peak).2 fun t ht => by
        have := loads t ht
        rw [added t ht] at this
        exact Nat.le_of_succ_le_succ this
      omega

end FleetSchedule

end VehicleRentals
