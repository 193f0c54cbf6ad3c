import VehicleRentals.Domain.ForDays
import VehicleRentals.Memory.Answers

/-!
# The dashboard (`rentals/views.py`, `rentals/forms.py`)

A booking form that has passed its own validation, what submitting it asks of the
desk, and what the two calls come to alone on the in-memory ledger. The views around
it are in `Web.Views`.
-/

namespace VehicleRentals

open Concurrent

/-- The cleaned data of a valid `BookingForm`, and which button was pressed. The
start is aware; `IntegerField(min_value=1)` has no upper bound. -/
structure BookingForm where
  carType : CarType
  start : Datetime
  days : Int
  idempotencyKey : String
  check : Bool := false
  aware : start.utcoffset.isSome = true
  positive : 1 ≤ days

/-- The request a form makes for a period. -/
abbrev BookingForm.request (form : BookingForm) (policy : BookingPolicy) (customer : Customer) (now : Instant)
    (period : RentalPeriod) : Reserve where
  policy := policy
  customer := customer
  carType := form.carType
  period := period
  idempotencyKey := form.idempotencyKey
  now := now

/-- A message flashed on the next page. -/
inductive Flash where
  | warning (message : String)
  | info (message : String)
  | success (message : String)
  | error (message : String)
  deriving DecidableEq, Repr

/-- The message about a booking that was made, or made before. -/
def flash (carType : CarType) (result : BookingResult) : Flash :=
  if result.replayed && result.booking.isCancelled then
    .warning "That booking was cancelled, so nothing is booked. Submit the form again to make a new booking."
  else if result.replayed then .info "That booking was already made. Nothing was added."
  else .success ("Booked: " ++ carType.label ++ ".")

/-- The error the form shows for a domain error. -/
def formError : DomainError → String
  | .idempotencyConflict _ => "This form was already used. Please submit it again."
  | .invalidIdempotencyKey _ => "This form was already used. Please submit it again."
  | e => e.message

namespace ReservationDesk

universe u v

variable {M : Type → Type u} {B : Type → Type v} [Monad M] [Monad B]

/-- The body of the view's `try`: the count that is free, or the message. -/
def submit (desk : ReservationDesk M B) (customer : Customer) (form : BookingForm) (now : Instant) :
    ExceptT Exn M (Int ⊕ Flash) := do
  let period ← liftExcept (RentalPeriod.forDays (.datetime form.start) (.int form.days))
  if form.check then
    let available ← desk.availability form.carType period now
    return .inl available
  else
    let result ← desk.reserve customer form.carType period form.idempotencyKey now
    return .inr (flash form.carType result)

end ReservationDesk

namespace Memory

variable {ι : Type} {sizes : FleetSizes}

/-- A desk over the in-memory ledger. -/
abbrev memoryDesk (sizes : FleetSizes) (policy : BookingPolicy) : ReservationDesk (Prog MemOp) (StateM Table) :=
  { ledger := InMemoryBookingLedger.new sizes, policy }

/-- What a computation returned, if what follows it only wraps its result. -/
theorem solo_of_map {α β σ : Type} {E : Type → Type} {M : Machine E ι σ} {i : ι} {p : Prog E (Except Exn α)} {f : α → β}
    {s s' : σ} {o : Except Exn β}
    (h : M.solo i (p.bind fun x => .ret (x.map f)) s = some (o, s')) : ∃ x, M.solo i p s = some (x, s') ∧ x.map f = o := by
  rw [Machine.solo_bind] at h
  obtain ⟨⟨x, s''⟩, first, rest⟩ := Option.bind_eq_some_iff.1 h
  have wrapped : some (x.map f, s'') = some (o, s') := rest
  cases wrapped
  exact ⟨x, first, rfl⟩

theorem solo_map {α β σ : Type} {E : Type → Type} {M : Machine E ι σ} {i : ι} {p : Prog E (Except Exn α)} {f : α → β}
    {s s' : σ} {x : Except Exn α} (h : M.solo i p s = some (x, s')) :
    M.solo i (p.bind fun x => .ret (x.map f)) s = some (x.map f, s') := by
  rw [Machine.solo_bind, h]
  rfl

/-- `availability` alone on the ledger. -/
theorem solo_availability {t : Table} (sound : t.Sound sizes) (i : ι) (policy : BookingPolicy) (carType : CarType)
    (period : RentalPeriod) (now : Instant) :
    ∃ x, (memory ι).solo i ((memoryDesk sizes policy).availability carType period now).run (.at ι t) =
        some (x, .at ι t) ∧
      x.map Reply.free = answerAvailability sizes policy carType period now t := by
  have called := solo_answer sound i (.availability policy carType period now)
  have program : Call.program (InMemoryBookingLedger.new sizes) (.availability policy carType period now) =
      ((memoryDesk sizes policy).availability carType period now).run.bind fun x => .ret (x.map .free) := by
    simp only [Call.program]
    exact run_map ..
  rw [program] at called
  exact solo_of_map called

/-- `reserve` alone on the ledger. -/
theorem solo_reserve {t : Table} (sound : t.Sound sizes) (i : ι) (r : Reserve) :
    ∃ x, (memory ι).solo i
        ((memoryDesk sizes r.policy).reserve r.customer r.carType r.period r.idempotencyKey r.now).run (.at ι t) =
        some (x, .at ι (answerReserve sizes r t).2) ∧
      x.map Reply.booked = (answerReserve sizes r t).1 := by
  have called := solo_answer sound i (.reserve r)
  have program : Call.program (InMemoryBookingLedger.new sizes) (.reserve r) =
      ((memoryDesk sizes r.policy).reserve r.customer r.carType r.period r.idempotencyKey r.now).run.bind fun x =>
        .ret (x.map .booked) := by
    simp only [Call.program]
    exact run_map ..
  rw [program] at called
  exact solo_of_map called

end Memory

/-- A sedan for two days from 31 October, over the end of daylight saving. -/
def halloweenForm : BookingForm where
  carType := .sedan
  start := RentalPeriod.halloween
  days := 2
  idempotencyKey := "halloween-2026"
  aware := rfl
  positive := by decide

/-- 1 June 2026, 10:00 UTC. -/
def june : Datetime where
  reading := Timedelta.days 20605 + Timedelta.hours 10
  tzinfo := some (.ofTransitions { initial := 0, changes := [], since := 0, spaced := trivial } (by decide))
  inYears := by decide

/-- A thousand million days from 1 June. -/
def juneForm : BookingForm where
  carType := .sedan
  start := june
  days := 1000000000
  idempotencyKey := "june-2026"
  aware := rfl
  positive := by decide

end VehicleRentals
