import VehicleRentals.Domain.Period
import VehicleRentals.Zones

/-!
# `RentalPeriod.for_days` (`rentals/domain/period.py`)

Python's aware datetimes, as far as `for_days` and the constructor use them: a
reading of the clock of a `tzinfo`, with its `fold`; addition on the clock, which
drops `fold`; and the conversion to UTC. A `tzinfo` is a parameter: what Python
asks of one is in `TzInfo`, what PEP 495 asks in `TzInfo.Pep495`.
-/

namespace VehicleRentals

/-- The years 1 to 9999. -/
def Instant.InYears (t : Int) : Prop := Instant.min ≤ t ∧ t ≤ Instant.max

instance (t : Int) : Decidable (Instant.InYears t) := inferInstanceAs (Decidable (_ ∧ _))

theorem Instant.sub_inYears {t : Instant} {d : Timedelta} (h : InYears (t - d)) : Instant.sub t d = .ok (t - d) :=
  if_pos h

theorem Instant.sub_overflow {t : Instant} {d : Timedelta} (h : ¬ InYears (t - d)) :
    Instant.sub t d = .error .overflowError :=
  if_neg h

/-- Less than a day either way. -/
def Timedelta.ShortOfADay (d : Timedelta) : Prop := -Timedelta.days 1 < d ∧ d < Timedelta.days 1

instance (d : Timedelta) : Decidable d.ShortOfADay := inferInstanceAs (Decidable (_ ∧ _))

/-- A `tzinfo`: the offset it gives a reading of its clock, by `fold`, and what
its clock reads at an instant, with `fold`. Python refuses an offset of a day. -/
structure TzInfo where
  utcoffset : Bool → Int → Option Timedelta
  fromutc : Instant → Int × Bool
  shortOfADay : ∀ fold w offset, utcoffset fold w = some offset → offset.ShortOfADay

namespace TzInfo

/-- The offset in force at an instant. -/
def offset (z : TzInfo) (u : Instant) : Timedelta := (z.fromutc u).1 - u

/-- PEP 495, with `lookup` the offsets `utcoffset` gives: `fold` tells the second
of two equal readings, both ways. -/
structure Pep495 (z : TzInfo) (lookup : Bool → Int → Timedelta) : Prop where
  known : ∀ fold w, z.utcoffset fold w = some (lookup fold w)
  bounded : ∀ u, (z.offset u).ShortOfADay
  readings : Zones.Pep495 z.offset lookup
  folds : ∀ u, (z.fromutc u).2 = true ↔ ∃ v < u, Zones.Shows z.offset v (z.fromutc u).1

/-- The `tzinfo` of a table of changes. -/
def ofTransitions (z : Zones.Transitions) (short : ∀ o ∈ z.offsets, Timedelta.ShortOfADay o) : TzInfo where
  utcoffset fold w := some (z.lookup fold w)
  fromutc u := (u + z.offset u, decide (z.lookup false (u + z.offset u) ≠ z.offset u))
  shortOfADay fold w o h := by
    cases h
    exact short _ (Zones.search_mem fold z.initial z.changes w)

theorem offset_ofTransitions (z : Zones.Transitions) (short : ∀ o ∈ z.offsets, Timedelta.ShortOfADay o) :
    (ofTransitions z short).offset = z.offset := by
  funext u
  exact add_sub_cancel_left u (z.offset u)

/-- A table of changes that are far enough apart obeys PEP 495. -/
theorem pep495_ofTransitions (z : Zones.Transitions) (short : ∀ o ∈ z.offsets, Timedelta.ShortOfADay o) :
    (ofTransitions z short).Pep495 z.lookup where
  known _ _ := rfl
  bounded u := by
    rw [offset_ofTransitions]
    exact short _ (Zones.offsetAt_mem z.initial z.changes u)
  readings := by
    rw [offset_ofTransitions]
    exact z.pep495
  folds u := by
    rw [offset_ofTransitions]
    show decide _ = true ↔ ∃ v < u, Zones.Shows z.offset v (u + z.offset u)
    rw [decide_eq_true_eq]
    constructor
    · intro second
      by_contra none
      refine second (z.pep495.first u _ ⟨rfl, ?_⟩)
      intro v shows
      by_contra earlier
      exact none ⟨v, not_le.1 earlier, shows⟩
    · rintro ⟨v, earlier, shows⟩ same
      have upper : ∀ t, z.offset t ≤ Timedelta.days 1 := by
        intro t
        exact (short _ (Zones.offsetAt_mem z.initial z.changes t)).2.le
      obtain ⟨first, least⟩ := Zones.exists_first upper ⟨v, shows⟩
      have found := z.pep495.first first _ least
      have shown : first + z.offset first = u + z.offset u := least.1
      have before : first ≤ v := least.2 shows
      linarith

theorem fromutc_of_shows {z : TzInfo} {u : Instant} {w : Int} (shows : Zones.Shows z.offset u w) :
    (z.fromutc u).1 = w :=
  (add_sub_cancel u _).symm.trans shows

/-- The first instant that shows a reading shows it with `fold=0`. -/
theorem Pep495.fold_of_first {z : TzInfo} {lookup : Bool → Int → Timedelta} (pep : z.Pep495 lookup) {u : Instant} {w : Int}
    (first : IsLeast (Zones.showing z.offset w) u) : (z.fromutc u).2 = false := by
  rw [← Bool.not_eq_true, pep.folds u, fromutc_of_shows first.1]
  rintro ⟨v, earlier, shows⟩
  exact absurd (first.2 shows) (not_le.2 earlier)

end TzInfo

/-- A `datetime`: what its clock reads, in microseconds from 1970-01-01T00:00 on
that clock, its `fold` and its `tzinfo`. -/
structure Datetime where
  reading : Int
  fold : Bool := false
  tzinfo : Option TzInfo
  inYears : Instant.InYears reading

namespace Datetime

/-- `d.utcoffset()`; `d` is aware when it has one. -/
def utcoffset (d : Datetime) : Option Timedelta := d.tzinfo.bind fun z => z.utcoffset d.fold d.reading

/-- The clock a span later, `fold=0`. -/
def later (d : Datetime) (span : Timedelta) (inYears : Instant.InYears (d.reading + span)) : Datetime where
  reading := d.reading + span
  tzinfo := d.tzinfo
  inYears := inYears

/-- `datetime + timedelta`, on the clock; the sum has `fold=0`. -/
def add (d : Datetime) (span : Timedelta) : Except Exn Datetime :=
  if h : Instant.InYears (d.reading + span) then .ok (d.later span h) else .error .overflowError

/-- The offset at the reading `n` days on, `fold=0`. -/
def returnOffset (d : Datetime) (n : Int) : Option Timedelta :=
  d.tzinfo.bind fun z => z.utcoffset false (d.reading + Timedelta.days n)

theorem short_of_utcoffset {d : Datetime} {offset : Timedelta} (h : d.utcoffset = some offset) : offset.ShortOfADay := by
  obtain ⟨z, -, h⟩ := Option.bind_eq_some_iff.1 h
  exact z.shortOfADay _ _ _ h

theorem short_of_returnOffset {d : Datetime} {n : Int} {offset : Timedelta} (h : d.returnOffset n = some offset) :
    offset.ShortOfADay := by
  obtain ⟨z, -, h⟩ := Option.bind_eq_some_iff.1 h
  exact z.shortOfADay _ _ _ h

theorem utcoffset_of_pep495 {z : TzInfo} {lookup : Bool → Int → Timedelta} (pep : z.Pep495 lookup) {d : Datetime}
    (zone : d.tzinfo = some z) : d.utcoffset = some (lookup d.fold d.reading) := by
  rw [utcoffset, zone]
  exact pep.known ..

/-- The offset found for the return is that of the first instant that shows its reading. -/
theorem returnOffset_of_first {z : TzInfo} {lookup : Bool → Int → Timedelta} (pep : z.Pep495 lookup) {d : Datetime}
    (zone : d.tzinfo = some z) {n : Int} {ret : Instant}
    (first : IsLeast (Zones.showing z.offset (d.reading + Timedelta.days n)) ret) :
    d.returnOffset n = some (z.offset ret) := by
  rw [returnOffset, zone, ← pep.readings.first ret _ first]
  exact pep.known ..

theorem utcoffset_later (d : Datetime) {n : Int} (inYears : Instant.InYears (d.reading + Timedelta.days n)) :
    (d.later (Timedelta.days n) inYears).utcoffset = d.returnOffset n := rfl

end Datetime

/-- `timedelta(days=n)`. -/
def Timedelta.ofDays (n : Int) : Except Exn Timedelta :=
  if Timedelta.min ≤ Timedelta.days n ∧ Timedelta.days n ≤ Timedelta.max then .ok (Timedelta.days n)
  else .error .overflowError

/-- A Python object given as an argument. A `bool` is `other`. -/
inductive Value where
  | datetime (d : Datetime)
  | int (n : Int)
  | other (typeName : String)

/-- `type(value).__name__`. -/
def Value.typeName : Value → String
  | datetime _ => "datetime"
  | int _ => "int"
  | other name => name

namespace RentalPeriod

/-- `InvalidRentalPeriod(message)`. -/
abbrev invalid (message : String) : Exn := .domain (.invalidRentalPeriod message)

/-- One round of the loop in `__post_init__`: the checks, and `astimezone(UTC)`. -/
def normalised (name : String) : Value → Except Exn Instant
  | .datetime d =>
    match d.utcoffset with
    | none => .error (invalid (name ++ " must include a time zone"))
    | some offset => Instant.sub d.reading offset
  | value => .error (invalid (name ++ " must be a date and time, got " ++ value.typeName))

/-- `RentalPeriod(start=..., end=...)`. -/
def postInit (start stop : Value) : Except Exn RentalPeriod := do
  let start ← normalised "start" start
  let stop ← normalised "end" stop
  new start stop

def forDays (start days : Value) : Except Exn RentalPeriod :=
  match days with
  | .int n =>
    if n < 1 then .error (invalid "a rental must last at least 1 day")
    else
      match start with
      | .datetime d =>
        match d.utcoffset with
        | none => .error (invalid "start must include a time zone")
        | some _ => do
          let span ← Timedelta.ofDays n
          let stop ← d.add span
          postInit (.datetime d) (.datetime stop)
      | value => .error (invalid ("start must be a date and time, got " ++ value.typeName))
  | value => .error (invalid ("days must be a whole number, got " ++ value.typeName))

/-! ## Everything `for_days` can do -/

theorem new_cases (start stop : Instant) :
    (∃ h, new start stop = .ok ⟨start, stop, h⟩) ∨ new start stop = .error (invalid "a rental must end after it starts") := by
  by_cases wrong : stop ≤ start
  · exact .inr (dif_pos wrong)
  · exact .inl ⟨not_le.1 wrong, dif_neg wrong⟩

theorem normalised_aware {d : Datetime} {offset : Timedelta} (aware : d.utcoffset = some offset) (name : String) :
    normalised name (.datetime d) = Instant.sub d.reading offset := by
  simp only [normalised, aware]

theorem normalised_naive {d : Datetime} (naive : d.utcoffset = none) (name : String) :
    normalised name (.datetime d) = .error (invalid (name ++ " must include a time zone")) := by
  simp only [normalised, naive]

theorem ofDays_eq {d : Datetime} {n : Int} (atLeastOne : 1 ≤ n) (inYears : Instant.InYears (d.reading + Timedelta.days n)) :
    Timedelta.ofDays n = .ok (Timedelta.days n) := by
  have from_year_1 := d.inYears.1
  have to_year_9999 := inYears.2
  refine if_pos ?_
  unfold Timedelta.min Timedelta.max
  unfold Instant.min at from_year_1
  unfold Instant.max Timedelta.days microsecondsPerDay at to_year_9999
  unfold Timedelta.days microsecondsPerDay
  constructor <;> linarith

theorem forDays_few {n : Int} (few : n < 1) (start : Value) :
    forDays start (.int n) = .error (invalid "a rental must last at least 1 day") := by
  simp only [forDays, if_pos few]

/-- A return whose reading is in range is left to the constructor. -/
theorem forDays_later {d : Datetime} {before : Timedelta} (aware : d.utcoffset = some before) {n : Int}
    (atLeastOne : 1 ≤ n) (inYears : Instant.InYears (d.reading + Timedelta.days n)) :
    forDays (.datetime d) (.int n) = postInit (.datetime d) (.datetime (d.later (Timedelta.days n) inYears)) := by
  have sum : d.add (Timedelta.days n) = .ok (d.later (Timedelta.days n) inYears) := dif_pos inYears
  simp only [forDays, if_neg (not_lt.2 atLeastOne), aware, ofDays_eq atLeastOne inYears, sum, bind, Except.bind]

theorem forDays_tooFar {d : Datetime} {before : Timedelta} (aware : d.utcoffset = some before) {n : Int}
    (atLeastOne : 1 ≤ n) (tooFar : ¬ Instant.InYears (d.reading + Timedelta.days n)) :
    forDays (.datetime d) (.int n) = .error .overflowError := by
  have sum : d.add (Timedelta.days n) = .error .overflowError := dif_neg tooFar
  have span : Timedelta.ofDays n = .ok (Timedelta.days n) ∨ Timedelta.ofDays n = .error .overflowError := by
    unfold Timedelta.ofDays
    split
    · exact .inl rfl
    · exact .inr rfl
  rcases span with span | span <;>
    simp only [forDays, if_neg (not_lt.2 atLeastOne), aware, span, sum, bind, Except.bind]

/-- Every date on the way is in the years 1 to 9999: the return's reading, and
both ends in UTC. -/
structure InYears (d : Datetime) (before : Timedelta) (n : Int) : Prop where
  reading : Instant.InYears (d.reading + Timedelta.days n)
  start : Instant.InYears (d.reading - before)
  stop : ∀ after, d.returnOffset n = some after → Instant.InYears (d.reading + Timedelta.days n - after)

/-- What `for_days` does with an aware `start`: it refuses too few days, a zone
that has no offset at the return, and two instants in the wrong order; it builds
the period; and it overflows exactly when a date is out of range. -/
theorem forDays_cases {d : Datetime} {before : Timedelta} (aware : d.utcoffset = some before) (n : Int) :
    (n < 1 ∧ forDays (.datetime d) (.int n) = .error (invalid "a rental must last at least 1 day")) ∨
    (1 ≤ n ∧ ¬ InYears d before n ∧ forDays (.datetime d) (.int n) = .error .overflowError) ∨
    (1 ≤ n ∧ InYears d before n ∧ d.returnOffset n = none ∧
      forDays (.datetime d) (.int n) = .error (invalid "end must include a time zone")) ∨
    (1 ≤ n ∧ InYears d before n ∧ ∃ after, d.returnOffset n = some after ∧
      forDays (.datetime d) (.int n) = new (d.reading - before) (d.reading + Timedelta.days n - after)) := by
  by_cases few : n < 1
  · exact .inl ⟨few, forDays_few few _⟩
  have atLeastOne : 1 ≤ n := not_lt.1 few
  refine .inr ?_
  by_cases reading : Instant.InYears (d.reading + Timedelta.days n)
  · rw [forDays_later aware atLeastOne reading, postInit, normalised_aware aware]
    by_cases starts : Instant.InYears (d.reading - before)
    · rw [Instant.sub_inYears starts]
      cases offset : d.returnOffset n with
      | none =>
        refine .inr (.inl ⟨atLeastOne, ⟨reading, starts, fun after h => ?_⟩, rfl, ?_⟩)
        · rw [offset] at h
          cases h
        · rw [normalised_naive (d.utcoffset_later reading |>.trans offset)]
          rfl
      | some after =>
        rw [normalised_aware (d.utcoffset_later reading |>.trans offset)]
        by_cases stops : Instant.InYears (d.reading + Timedelta.days n - after)
        · refine .inr (.inr ⟨atLeastOne, ⟨reading, starts, fun after' h => ?_⟩, after, rfl, ?_⟩)
          · rw [offset] at h
            cases h
            exact stops
          · rw [Instant.sub_inYears (t := (d.later _ reading).reading) stops]
            rfl
        · refine .inl ⟨atLeastOne, fun inYears => stops (inYears.stop after offset), ?_⟩
          rw [Instant.sub_overflow (t := (d.later _ reading).reading) stops]
          rfl
    · refine .inl ⟨atLeastOne, fun inYears => starts inYears.start, ?_⟩
      rw [Instant.sub_overflow starts]
      rfl
  · exact .inl ⟨atLeastOne, fun inYears => reading inYears.reading, forDays_tooFar aware atLeastOne reading⟩

/-- When `for_days` returns a period, and which. -/
theorem forDays_eq_ok {d : Datetime} {before : Timedelta} (aware : d.utcoffset = some before) {n : Int}
    {p : RentalPeriod} (made : forDays (.datetime d) (.int n) = .ok p) :
    1 ≤ n ∧ InYears d before n ∧ ∃ after, d.returnOffset n = some after ∧ p.start = d.reading - before ∧
      p.stop = d.reading + Timedelta.days n - after := by
  rcases forDays_cases aware n with
    ⟨-, e⟩ | ⟨-, -, e⟩ | ⟨-, -, -, e⟩ | ⟨atLeastOne, inYears, after, offset, e⟩ <;> rw [e] at made
  · cases made
  · cases made
  · cases made
  · refine ⟨atLeastOne, inYears, after, offset, ?_⟩
    rcases new_cases (d.reading - before) (d.reading + Timedelta.days n - after) with ⟨h, e'⟩ | e' <;> rw [e'] at made
    · cases made
      exact ⟨rfl, rfl⟩
    · cases made

theorem forDays_error {d : Datetime} {before : Timedelta} (aware : d.utcoffset = some before) {n : Int} {e : Exn}
    (raised : forDays (.datetime d) (.int n) = .error e) :
    (∃ m, e = .domain (.invalidRentalPeriod m)) ∨ e = .overflowError := by
  rcases forDays_cases aware n with ⟨-, e'⟩ | ⟨-, -, e'⟩ | ⟨-, -, -, e'⟩ | ⟨-, -, after, -, e'⟩ <;> rw [e'] at raised
  · cases raised
    exact .inl ⟨_, rfl⟩
  · cases raised
    exact .inr rfl
  · cases raised
    exact .inl ⟨_, rfl⟩
  · rcases new_cases (d.reading - before) (d.reading + Timedelta.days n - after) with ⟨_, made⟩ | refused
    · rw [made] at raised
      cases raised
    · rw [refused] at raised
      cases raised
      exact .inl ⟨_, rfl⟩

theorem forDays_eq_overflow {d : Datetime} {before : Timedelta} (aware : d.utcoffset = some before) (n : Int) :
    forDays (.datetime d) (.int n) = .error .overflowError ↔ ¬ (n < 1 ∨ InYears d before n) := by
  rcases forDays_cases aware n with
    ⟨few, e⟩ | ⟨enough, out, e⟩ | ⟨-, inYears, -, e⟩ | ⟨-, inYears, after, -, e⟩ <;> rw [e]
  · exact iff_of_false (fun h => by cases h) (not_not.2 (.inl few))
  · exact iff_of_true rfl (not_or.2 ⟨not_lt.2 enough, out⟩)
  · exact iff_of_false (fun h => by cases h) (not_not.2 (.inr inYears))
  · refine iff_of_false (fun h => ?_) (not_not.2 (.inr inYears))
    rcases new_cases (d.reading - before) (d.reading + Timedelta.days n - after) with ⟨_, made⟩ | refused
    · cases made.symm.trans h
    · cases refused.symm.trans h

/-! ## On the customer's clock -/

/-- The date of a reading, in days from 1970-01-01. -/
def dateOf (reading : Int) : Int := reading / microsecondsPerDay

def timeOfDay (reading : Int) : Int := reading % microsecondsPerDay

/-- `n` days later on the clock: the date moves, the time of day stays. -/
theorem days_later (reading n : Int) : dateOf (reading + Timedelta.days n) = dateOf reading + n ∧
    timeOfDay (reading + Timedelta.days n) = timeOfDay reading := by
  unfold dateOf timeOfDay Timedelta.days microsecondsPerDay
  constructor <;> omega

/-- In a zone that obeys PEP 495, a rental of `n` days whose return exists on the
clock comes back at the time of day it went out: at the first instant that shows
it. It is made exactly when that instant is later than the start, and then lasts
the days less what the clock was put forward. -/
theorem forDays_onTheClock {z : TzInfo} {lookup : Bool → Int → Timedelta} (pep : z.Pep495 lookup) {d : Datetime}
    (zone : d.tzinfo = some z) {n : Int} (atLeastOne : 1 ≤ n) (inYears : InYears d (lookup d.fold d.reading) n)
    (shown : ∃ u, Zones.Shows z.offset u (d.reading + Timedelta.days n)) :
    ∃ ret, IsLeast (Zones.showing z.offset (d.reading + Timedelta.days n)) ret ∧
      ((∃ p, forDays (.datetime d) (.int n) = .ok p) ↔
        z.offset ret - lookup d.fold d.reading < Timedelta.days n) ∧
      ∀ p, forDays (.datetime d) (.int n) = .ok p →
        p.stop = ret ∧
        dateOf (z.fromutc p.stop).1 = dateOf d.reading + n ∧
        timeOfDay (z.fromutc p.stop).1 = timeOfDay d.reading ∧
        (z.fromutc p.stop).2 = false ∧
        p.duration = Timedelta.days n - (z.offset ret - lookup d.fold d.reading) := by
  obtain ⟨ret, first⟩ := Zones.exists_first (fun u => (pep.bounded u).2.le) shown
  have aware := Datetime.utcoffset_of_pep495 pep zone
  have returns : d.returnOffset n = some (z.offset ret) := Datetime.returnOffset_of_first pep zone first
  have shows : ret + z.offset ret = d.reading + Timedelta.days n := first.1
  refine ⟨ret, first, ?_, ?_⟩
  · rcases forDays_cases aware n with
      ⟨few, -⟩ | ⟨-, out, -⟩ | ⟨-, -, none, -⟩ | ⟨-, -, after, offset, e⟩
    · omega
    · exact absurd inYears out
    · rw [returns] at none
      cases none
    · rw [returns] at offset
      cases offset
      rw [e, new]
      split
      · rename_i wrong
        refine iff_of_false (fun made => ?_) ?_
        · obtain ⟨p, made⟩ := made
          cases made
        · linarith
      · rename_i right
        refine iff_of_true ⟨_, rfl⟩ ?_
        linarith
  · intro p made
    obtain ⟨-, -, after, offset, start, stop⟩ := forDays_eq_ok aware made
    rw [returns] at offset
    cases offset
    have stops : p.stop = ret := by rw [stop]; linarith
    have reads := TzInfo.fromutc_of_shows first.1
    obtain ⟨date, time⟩ := days_later d.reading n
    refine ⟨stops, ?_, ?_, ?_, ?_⟩
    · rw [stops, reads, date]
    · rw [stops, reads, time]
    · rw [stops, pep.fold_of_first first]
    · rw [duration, start, stop]
      linarith

/-- America/New_York in 2026: forward on 8 March, back on 1 November. -/
def newYorkTable : Zones.Transitions where
  initial := Timedelta.hours (-5)
  changes :=
    [(Timedelta.days 20520 + Timedelta.hours 7, Timedelta.hours (-4)),
     (Timedelta.days 20758 + Timedelta.hours 6, Timedelta.hours (-5))]
  since := 0
  spaced := by decide

def newYork : TzInfo := .ofTransitions newYorkTable (by decide)

/-- 31 October 2026, 10:00 in New York. -/
def halloween : Datetime where
  reading := Timedelta.days 20757 + Timedelta.hours 10
  tzinfo := some newYork
  inYears := by decide

theorem pep495_newYork : newYork.Pep495 newYorkTable.lookup := TzInfo.pep495_ofTransitions _ _

theorem inYears_halloween : InYears halloween (newYorkTable.lookup halloween.fold halloween.reading) 2 := by
  refine ⟨by decide, by decide, fun after offset => ?_⟩
  cases offset
  decide

theorem forDays_onTheClock_newYork : ∃ p, forDays (.datetime halloween) (.int 2) = .ok p ∧
    timeOfDay (newYork.fromutc p.stop).1 = Timedelta.hours 10 ∧ p.duration = Timedelta.hours 49 := by
  have shown : Zones.Shows newYork.offset (Timedelta.days 20759 + Timedelta.hours 15)
      (halloween.reading + Timedelta.days 2) := by
    unfold Zones.Shows
    decide
  obtain ⟨ret, first, made, back⟩ := forDays_onTheClock pep495_newYork rfl (by decide) inYears_halloween ⟨_, shown⟩
  have winter : newYork.offset ret = Timedelta.hours (-5) := by
    rw [← pep495_newYork.readings.first ret _ first]
    decide
  rw [winter] at made
  obtain ⟨p, hp⟩ := made.2 (by decide)
  obtain ⟨-, -, time, -, lasts⟩ := back p hp
  rw [winter] at lasts
  exact ⟨p, hp, time.trans (by decide), lasts.trans (by decide)⟩

end RentalPeriod

end VehicleRentals
