import VehicleRentals.Domain.Period
import VehicleRentals.Doubles

/-!
# `BookingPolicy` (`rentals/domain/policy.py`)
-/

namespace VehicleRentals

/-- `_DAYLIGHT_SAVING_ALLOWANCE`. -/
def daylightSavingAllowance : Timedelta := Timedelta.hours 1

/-- `_describe`: whole days from 48 hours on, whole hours, else minutes. -/
def describe (span : Timedelta) : String :=
  let hours := Doubles.trueDiv span microsecondsPerHour
  if 48 ≤ hours ∧ (hours / 24).isInt then toString (hours / 24).num ++ " days"
  else if hours.isInt then toString hours.num ++ " hour" ++ (if hours = 1 then "" else "s")
  else
    let minutes := Doubles.trueDiv span microsecondsPerMinute
    toString (minutes.num.tdiv minutes.den) ++ " minutes"

/-- Two days and more are told as days, as long as the hours are exact. -/
theorem describe_days {n : Int} (two : 2 ≤ n) (small : n * 24 < 2 ^ 53) :
    describe (Timedelta.days n) = toString n ++ " days" := by
  have hours : Doubles.trueDiv (Timedelta.days n) microsecondsPerHour = (n * 24 : Int) := by
    have e : Timedelta.days n = n * 24 * microsecondsPerHour := by
      rw [Timedelta.days, mul_assoc]
      rfl
    rw [e]
    exact Doubles.trueDiv_mul (by omega) (by decide) small
  have days : ((n * 24 : Int) : Rat) / 24 = n := by
    push_cast
    exact mul_div_cancel_right₀ _ (by norm_num)
  have long : (48 : Rat) ≤ (n * 24 : Int) := by exact_mod_cast (by omega : 48 ≤ n * 24)
  unfold describe
  simp only [hours, days]
  rw [if_pos ⟨long, rfl⟩]
  rfl

-- the hours are rounded to 7200000
example : describe (Timedelta.days 300000 + 1) = "300000 days" := by decide +kernel

/-- Limits the business places on a new booking. -/
structure BookingPolicy where
  minDuration : Timedelta := Timedelta.hours 1
  maxDuration : Timedelta := Timedelta.days 90
  maxAdvance : Timedelta := Timedelta.days 365
  startGrace : Timedelta := Timedelta.minutes 5
  deriving DecidableEq, Repr

namespace BookingPolicy

def validate (policy : BookingPolicy) (period : RentalPeriod) (now : Instant) : Except Exn Unit := do
  let earliest ← Instant.sub now policy.startGrace
  if period.start < earliest then
    throw (.domain (.invalidRentalPeriod "a rental cannot start in the past"))
  if period.duration < policy.minDuration then
    throw (.domain (.invalidRentalPeriod
      ("a rental must last at least " ++ describe policy.minDuration)))
  let longest ← Timedelta.add policy.maxDuration daylightSavingAllowance
  if period.duration > longest then
    throw (.domain (.invalidRentalPeriod ("a rental cannot exceed " ++ describe policy.maxDuration)))
  if period.start - now > policy.maxAdvance then
    throw (.domain (.invalidRentalPeriod
      ("a rental cannot start more than " ++ describe policy.maxAdvance ++ " ahead")))

/-- The date arithmetic of `validate` stays in Python's ranges at this clock reading. -/
def InRange (policy : BookingPolicy) (now : Instant) : Prop :=
  (Instant.min ≤ now - policy.startGrace ∧ now - policy.startGrace ≤ Instant.max) ∧
    Timedelta.min ≤ policy.maxDuration + daylightSavingAllowance ∧
      policy.maxDuration + daylightSavingAllowance ≤ Timedelta.max

instance (policy : BookingPolicy) (now : Instant) : Decidable (policy.InRange now) :=
  inferInstanceAs (Decidable ((_ ∧ _) ∧ _ ∧ _))

/-- `validate` raises nothing but `InvalidRentalPeriod`, or `OverflowError`
where the arithmetic leaves the ranges. -/
theorem validate_error {policy : BookingPolicy} {period : RentalPeriod} {now : Instant} {e : Exn}
    (h : policy.validate period now = .error e) :
    (∃ m, e = .domain (.invalidRentalPeriod m)) ∨ (e = .overflowError ∧ ¬ policy.InRange now) := by
  unfold validate Instant.sub Timedelta.add at h
  by_cases earliest : Instant.min ≤ now - policy.startGrace ∧ now - policy.startGrace ≤ Instant.max
  · by_cases longest : Timedelta.min ≤ policy.maxDuration + daylightSavingAllowance ∧
        policy.maxDuration + daylightSavingAllowance ≤ Timedelta.max
    · rw [if_pos earliest, if_pos longest] at h
      left
      simp only [bind, Except.bind, throw, throwThe, MonadExceptOf.throw, pure, Except.pure] at h
      split at h
      · cases h; exact ⟨_, rfl⟩
      · split at h
        · cases h; exact ⟨_, rfl⟩
        · split at h
          · cases h; exact ⟨_, rfl⟩
          · split at h
            · cases h; exact ⟨_, rfl⟩
            · cases h
    · rw [if_pos earliest, if_neg longest] at h
      simp only [bind, Except.bind, throw, throwThe, MonadExceptOf.throw] at h
      split at h
      · cases h; exact .inl ⟨_, rfl⟩
      · split at h
        · cases h; exact .inl ⟨_, rfl⟩
        · cases h; exact .inr ⟨rfl, fun r => longest r.2⟩
  · rw [if_neg earliest] at h
    cases h
    exact .inr ⟨rfl, fun r => earliest r.1⟩

/-- An admitted period lasts as long as the policy allows, an hour included for the
end of daylight saving. -/
theorem lasts_of_validate {policy : BookingPolicy} {period : RentalPeriod} {now : Instant}
    (h : policy.validate period now = .ok ()) :
    policy.minDuration ≤ period.duration ∧ period.duration ≤ policy.maxDuration + daylightSavingAllowance := by
  unfold validate Instant.sub Timedelta.add at h
  simp only [bind, Except.bind, throw, throwThe, MonadExceptOf.throw, pure, Except.pure] at h
  split at h
  · cases h
  split at h
  · cases h
  split at h
  · cases h
  rename_i notShort
  split at h
  · cases h
  rename_i longest sum
  split at sum
  · cases sum
    split at h
    · cases h
    rename_i notLong
    exact ⟨not_lt.1 notShort, not_lt.1 notLong⟩
  · cases sum

end BookingPolicy

end VehicleRentals
