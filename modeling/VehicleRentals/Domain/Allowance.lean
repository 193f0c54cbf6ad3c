import VehicleRentals.Domain.ForDays
import VehicleRentals.Domain.Policy

/-!
# The allowance for the end of daylight saving

`for_days` counts days on the clock, `validate` caps elapsed time, and an hour is
allowed for the difference between the two. A clock that goes back further, and
some do by two hours or by most of a day, takes an allowed number of days over
the cap.
-/

namespace VehicleRentals

namespace BookingPolicy

/-- The start-time rules are met: not in the past, and not too far ahead. -/
structure StartRules (policy : BookingPolicy) (start now : Instant) : Prop where
  inYears : Instant.InYears (now - policy.startGrace)
  notPast : now - policy.startGrace ≤ start
  notFar : start - now ≤ policy.maxAdvance

/-- `validate` refuses the period as too long. -/
def RefusesLength (policy : BookingPolicy) (period : RentalPeriod) (now : Instant) : Prop :=
  policy.validate period now =
    .error (.domain (.invalidRentalPeriod ("a rental cannot exceed " ++ describe policy.maxDuration)))

theorem short_ne_long (a b : String) : "a rental must last at least " ++ a ≠ "a rental cannot exceed " ++ b := by
  intro same
  have chars := congrArg String.toList same
  simp only [String.toList_append] at chars
  exact absurd chars (by simp)

/-- With the start-time rules met, a period is refused as too long exactly when it
is not refused as too short and exceeds the cap and the allowance. -/
theorem refusesLength_iff {policy : BookingPolicy} {period : RentalPeriod} {now : Instant}
    (onTime : policy.StartRules period.start now) :
    policy.RefusesLength period now ↔ policy.minDuration ≤ period.duration ∧
      policy.maxDuration + daylightSavingAllowance < period.duration ∧
        Timedelta.min ≤ policy.maxDuration + daylightSavingAllowance ∧
          policy.maxDuration + daylightSavingAllowance ≤ Timedelta.max := by
  have earliest : Instant.sub now policy.startGrace = .ok (now - policy.startGrace) := Instant.sub_inYears onTime.inYears
  have notPast : ¬ period.start < now - policy.startGrace := not_lt.2 onTime.notPast
  have notFar : ¬ period.start - now > policy.maxAdvance := not_lt.2 onTime.notFar
  unfold RefusesLength validate
  rw [earliest]
  simp only [bind, Except.bind, throw, throwThe, MonadExceptOf.throw, pure, Except.pure, if_neg notPast, if_neg notFar]
  by_cases short : period.duration < policy.minDuration
  · rw [if_pos short]
    refine iff_of_false (fun refused => ?_) fun h => absurd short (not_lt.2 h.1)
    simp only [Except.error.injEq, Exn.domain.injEq, DomainError.invalidRentalPeriod.injEq] at refused
    exact short_ne_long _ _ refused
  · rw [if_neg short]
    unfold Timedelta.add
    by_cases range : Timedelta.min ≤ policy.maxDuration + daylightSavingAllowance ∧
        policy.maxDuration + daylightSavingAllowance ≤ Timedelta.max
    · rw [if_pos range]
      dsimp only
      by_cases long : period.duration > policy.maxDuration + daylightSavingAllowance
      · rw [if_pos long]
        exact iff_of_true rfl ⟨not_lt.1 short, long, range⟩
      · rw [if_neg long]
        refine iff_of_false nofun fun h => long h.2.1
    · rw [if_neg range]
      exact iff_of_false nofun fun h => range h.2.2

/-- The cap and the allowance are a `timedelta`, unless the cap leaves days to spare. -/
theorem cap_inRange {d : Datetime} {before : Timedelta} {n most : Int} (atLeastOne : 1 ≤ n) (allowed : n ≤ most)
    (inYears : RentalPeriod.InYears d before n) (tight : Timedelta.days most ≤ Timedelta.days n + Timedelta.days 2) :
    Timedelta.min ≤ Timedelta.days most + Timedelta.hours 1 ∧
      Timedelta.days most + Timedelta.hours 1 ≤ Timedelta.max := by
  have from_year_1 := d.inYears.1
  have to_year_9999 := inYears.reading.2
  unfold Instant.min at from_year_1
  unfold Instant.max at to_year_9999
  unfold Timedelta.days microsecondsPerDay at *
  unfold Timedelta.min Timedelta.max Timedelta.hours microsecondsPerHour
  constructor <;> linarith

/-- A number of days the policy allows is not refused as too long exactly when,
between pick-up and return, the clock goes back by no more than the allowance and
the days to spare; or when the time that passes is less than the policy's least. -/
theorem allowed_days (policy : BookingPolicy) {most : Int} (cap : policy.maxDuration = Timedelta.days most)
    {d : Datetime} {before after : Timedelta} (aware : d.utcoffset = some before) {n : Int} (allowed : n ≤ most)
    (returns : d.returnOffset n = some after) {p : RentalPeriod}
    (made : RentalPeriod.forDays (.datetime d) (.int n) = .ok p) {now : Instant}
    (onTime : policy.StartRules p.start now) :
    ¬ policy.RefusesLength p now ↔ before - after ≤ Timedelta.days (most - n) + Timedelta.hours 1 ∨
      Timedelta.days n + (before - after) < policy.minDuration := by
  obtain ⟨atLeastOne, inYears, after', offset, start, stop⟩ := RentalPeriod.forDays_eq_ok aware made
  obtain rfl : after = after' := Option.some.inj (returns.symm.trans offset)
  have lasts : p.duration = Timedelta.days n + (before - after) := by
    rw [RentalPeriod.duration, start, stop]
    linarith
  have spare : Timedelta.days (most - n) = Timedelta.days most - Timedelta.days n := sub_mul ..
  rw [refusesLength_iff onTime, lasts, cap, daylightSavingAllowance, spare]
  constructor
  · intro accepted
    by_contra neither
    obtain ⟨back, long⟩ := not_or.1 neither
    have out := Datetime.short_of_utcoffset aware
    have home := Datetime.short_of_returnOffset returns
    have twoDays : Timedelta.days 2 = Timedelta.days 1 + Timedelta.days 1 := by decide
    have hour : 0 < Timedelta.hours 1 := by decide
    have tight : Timedelta.days most ≤ Timedelta.days n + Timedelta.days 2 := by
      linarith [out.2, home.1, not_le.1 back]
    exact accepted ⟨not_lt.1 long, by linarith [not_le.1 back], cap_inRange atLeastOne allowed inYears tight⟩
  · rintro (back | short) ⟨notShort, long, -⟩
    · linarith
    · linarith

/-- Two days over the end of daylight saving, where two days are the most. -/
theorem allowed_days_newYork : ∃ p, RentalPeriod.forDays (.datetime RentalPeriod.halloween) (.int 2) = .ok p ∧
    ¬ ({ maxDuration := Timedelta.days 2 } : BookingPolicy).RefusesLength p p.start := by
  have made : RentalPeriod.forDays (.datetime RentalPeriod.halloween) (.int 2) =
      .ok ⟨Timedelta.days 20757 + Timedelta.hours 14, Timedelta.days 20759 + Timedelta.hours 15, by decide⟩ := by
    decide +kernel
  have summer : RentalPeriod.halloween.utcoffset = some (Timedelta.hours (-4)) := by decide
  have winter : RentalPeriod.halloween.returnOffset 2 = some (Timedelta.hours (-5)) := by decide
  refine ⟨_, made, ?_⟩
  refine (allowed_days { maxDuration := Timedelta.days 2 } rfl summer le_rfl winter made ⟨?_, ?_, ?_⟩).2 (.inl ?_)
  all_goals decide

/-! ## A clock that goes back by two hours -/

/-- Antarctica/Troll in 2026: two hours forward on 29 March, two hours back on
25 October. -/
def trollTable : Zones.Transitions where
  initial := 0
  changes :=
    [(Timedelta.days 20541 + Timedelta.hours 1, Timedelta.hours 2),
     (Timedelta.days 20751 + Timedelta.hours 1, 0)]
  since := 0
  spaced := by decide

/-- 1 August 2026, 10:00 at Troll. -/
def august : Datetime where
  reading := Timedelta.days 20666 + Timedelta.hours 10
  tzinfo := some (.ofTransitions trollTable (by decide))
  inYears := by decide

/-- Ninety days from 1 August, until 30 October, 10:00: two hours more than ninety
times twenty-four. -/
def ninetyDays : RentalPeriod where
  start := Timedelta.days 20666 + Timedelta.hours 8
  stop := Timedelta.days 20756 + Timedelta.hours 10
  startsBeforeStop := by decide

/-- Under the default policy the ninety days it allows are refused. -/
theorem allowed_days_fails : RentalPeriod.forDays (.datetime august) (.int 90) = .ok ninetyDays ∧
    ({} : BookingPolicy).maxDuration = Timedelta.days 90 ∧
    ({} : BookingPolicy).StartRules ninetyDays.start ninetyDays.start ∧
    ({} : BookingPolicy).validate ninetyDays ninetyDays.start =
      .error (.domain (.invalidRentalPeriod "a rental cannot exceed 90 days")) := by
  refine ⟨?_, rfl, ⟨by decide, by decide, by decide⟩, ?_⟩
  · decide +kernel
  · decide +kernel

end BookingPolicy

end VehicleRentals
