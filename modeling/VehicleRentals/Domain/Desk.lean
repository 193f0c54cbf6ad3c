import VehicleRentals.Domain.Booking
import VehicleRentals.Domain.Policy
import VehicleRentals.Domain.Schedule

/-!
# The desk and the ledger it depends on (`rentals/domain/ledger.py`, `desk.py`)

`BookingLedger` is the abstract interface, over the monad `M` its operations run
in and the monad `B` of the code inside an `exclusive_booking` block, the only
place where `save` may be used. `ReservationDesk` is written once against it;
each ledger gives it a meaning. Logging is left out.
-/

namespace VehicleRentals

universe u v

/-- `LockedFleet`: exclusive access to the bookings of one car type. -/
structure LockedFleet (M : Type → Type u) where
  size : Nat
  bookedDuring : RentalPeriod → ExceptT Exn M (List RentalPeriod)
  add : Int → RentalPeriod → IdempotencyKey → ExceptT Exn M Booking

/-- `LockedFleet.schedule`. -/
def LockedFleet.schedule {M : Type → Type u} [Monad M] (fleet : LockedFleet M) (period : RentalPeriod) :
    ExceptT Exn M FleetSchedule := do
  let booked ← fleet.bookedDuring period
  return { fleetSize := fleet.size, booked }

/-- `BookingLedger`: what the desk needs from wherever bookings are kept. The
two context managers take the code of their `with` block. -/
structure BookingLedger (M : Type → Type u) (B : Type → Type v) where
  exclusive : {α : Type} → CarType → (LockedFleet M → ExceptT Exn M α) → ExceptT Exn M α
  schedule : CarType → RentalPeriod → ExceptT Exn M FleetSchedule
  findByKey : Int → IdempotencyKey → ExceptT Exn M (Option Booking)
  exclusiveBooking : Int → (Option Booking → ExceptT Exn B Booking) → ExceptT Exn M Booking
  save : Booking → ExceptT Exn B Unit
  bookingsOf : Int → ExceptT Exn M (List Booking)

/-- "there is no fleet of ... cars". -/
def carTypeNotFound (carType : CarType) : Exn :=
  .domain (.carTypeNotFound ("there is no fleet of " ++ carType.label ++ " cars"))

/-- "reservation ... does not exist", for a missing id and for somebody else's. -/
def reservationNotFound (bookingId : Int) : Exn :=
  .domain (.reservationNotFound ("reservation " ++ toString bookingId ++ " does not exist"))

def noAvailability (carType : CarType) (period : RentalPeriod) : Exn :=
  .domain (.noAvailability ("no " ++ carType.label ++ " available for the whole of " ++
    period.start.strftime ++ " to " ++ period.stop.strftime ++ " UTC"))

def idempotencyConflict : Exn :=
  .domain (.idempotencyConflict "this idempotency key was already used for a different booking")

/-- `_replay`. -/
def replay (existing : Booking) (carType : CarType) (period : RentalPeriod) : Except Exn BookingResult :=
  if existing.isFor carType period then .ok { booking := existing, replayed := true }
  else .error idempotencyConflict

structure ReservationDesk (M : Type → Type u) (B : Type → Type v) where
  ledger : BookingLedger M B
  policy : BookingPolicy := {}

namespace ReservationDesk

variable {M : Type → Type u} {B : Type → Type v} [Monad M] [Monad B]

def availability (desk : ReservationDesk M B) (carType : CarType) (period : RentalPeriod) (now : Instant) :
    ExceptT Exn M Int := do
  liftExcept (desk.policy.validate period now)
  let schedule ← desk.ledger.schedule carType period
  return schedule.remaining period

def reservationsFor (desk : ReservationDesk M B) (customer : Customer) : ExceptT Exn M (List Booking) :=
  desk.ledger.bookingsOf customer.id

/-- The `with self._ledger.exclusive(...)` block of `reserve`. -/
def reserveBlock (desk : ReservationDesk M B) (customer : Customer) (carType : CarType) (period : RentalPeriod)
    (key : IdempotencyKey) (now : Instant) (fleet : LockedFleet M) : ExceptT Exn M BookingResult := do
  -- before the policy check, so that a retry still finds its booking later on
  match ← desk.ledger.findByKey customer.id key with
  | some existing => liftExcept (replay existing carType period)
  | none =>
    liftExcept (desk.policy.validate period now)
    let schedule ← fleet.schedule period
    if schedule.canAccommodate period then
      let booking ← fleet.add customer.id period key
      return { booking, replayed := false }
    else throw (noAvailability carType period)

/-- The `except DuplicateIdempotencyKey` clause of `reserve`: another car type's
lock let the same key in first. -/
def reserveLost (desk : ReservationDesk M B) (customer : Customer) (carType : CarType) (period : RentalPeriod)
    (key : IdempotencyKey) : Exn → ExceptT Exn M BookingResult
  | .duplicateIdempotencyKey => do
    match ← desk.ledger.findByKey customer.id key with
    | none => throw .duplicateIdempotencyKey
    | some winner => liftExcept (replay winner carType period)
  | e => throw e

/-- `reserve`; `now` is the clock reading it takes if it reaches the policy. -/
def reserve (desk : ReservationDesk M B) (customer : Customer) (carType : CarType) (period : RentalPeriod)
    (idempotencyKey : String) (now : Instant) : ExceptT Exn M BookingResult := do
  let key ← liftExcept (IdempotencyKey.new idempotencyKey)
  tryCatch (desk.ledger.exclusive carType (desk.reserveBlock customer carType period key now))
    (desk.reserveLost customer carType period key)

/-- The `with self._ledger.exclusive_booking(...)` block of `cancel`. -/
def cancelBlock (desk : ReservationDesk M B) (bookingId : Int) (actor : Customer) (now : Instant) :
    Option Booking → ExceptT Exn B Booking
  | none => throw (reservationNotFound bookingId)
  | some booking =>
    if booking.mayBeManagedBy actor then do
      let (changed, booking) ← liftExcept (booking.cancel now)
      if changed then
        desk.ledger.save booking
      return booking
    else throw (reservationNotFound bookingId)

/-- `cancel`; `now` is the clock reading it takes if it reaches the booking. -/
def cancel (desk : ReservationDesk M B) (bookingId : Int) (actor : Customer) (now : Instant) :
    ExceptT Exn M Booking :=
  desk.ledger.exclusiveBooking bookingId (desk.cancelBlock bookingId actor now)

end ReservationDesk

/-- The arguments of one `reserve` call, with the policy of the desk it is made
on and the clock reading that desk takes. -/
structure Reserve where
  policy : BookingPolicy := {}
  customer : Customer
  carType : CarType
  period : RentalPeriod
  idempotencyKey : String
  now : Instant
  deriving DecidableEq, Repr

/-- A call on a desk, with the clock reading it takes. -/
inductive Call where
  | reserve (r : Reserve)
  | cancel (bookingId : Int) (actor : Customer) (now : Instant)
  | availability (policy : BookingPolicy) (carType : CarType) (period : RentalPeriod) (now : Instant)
  | reservationsFor (customer : Customer)
  deriving DecidableEq, Repr

/-- What a call returns when it does not raise. -/
inductive Reply where
  | booked (result : BookingResult)
  | cancelled (booking : Booking)
  | free (count : Int)
  | listed (bookings : List Booking)
  deriving DecidableEq, Repr

abbrev Outcome := Except Exn Reply

/-- The call made on a desk over this ledger. -/
def Call.program {M : Type → Type u} {B : Type → Type v} [Monad M] [Monad B] (ledger : BookingLedger M B) :
    Call → M Outcome
  | .reserve r => ExceptT.run do
    let desk : ReservationDesk M B := { ledger, policy := r.policy }
    return .booked (← desk.reserve r.customer r.carType r.period r.idempotencyKey r.now)
  | .cancel bookingId actor now => ExceptT.run do
    let desk : ReservationDesk M B := { ledger }
    return .cancelled (← desk.cancel bookingId actor now)
  | .availability policy carType period now => ExceptT.run do
    let desk : ReservationDesk M B := { ledger, policy }
    return .free (← desk.availability carType period now)
  | .reservationsFor customer => ExceptT.run do
    let desk : ReservationDesk M B := { ledger }
    return .listed (← desk.reservationsFor customer)

/-- The booking a call created, when it returned `replayed=False`. -/
def Outcome.created : Outcome → Option Booking
  | .ok (.booked { booking, replayed := false }) => some booking
  | _ => none

/-- The booking a `reserve` returned, new or replayed. -/
def Outcome.returned : Outcome → Option Booking
  | .ok (.booked { booking, .. }) => some booking
  | _ => none

/-- The key under which the examples book. -/
def springKey : IdempotencyKey := ⟨"spring-2026", by decide⟩

/-- The customer 7 asks for one car, for the second day of 1970. -/
def springReserve (carType : CarType) : Reserve where
  customer := { id := 7 }
  carType := carType
  period := ⟨Timedelta.days 1, Timedelta.days 2, by decide⟩
  idempotencyKey := "spring-2026"
  now := 0

end VehicleRentals
