import VehicleRentals.Domain.Programs
import VehicleRentals.Postgres.Statements

/-!
# `PostgresBookingLedger` (`rentals/ledger.py`)

Each operation of the ledger as the statements it issues. `atomic` commits on
normal exit and rolls back on an exception; the lookups outside a block run on
their own.
-/

namespace VehicleRentals

open Concurrent

namespace PostgresBookingLedger

/-- A statement that cannot fail. -/
def run {β : Type} (e : Sql β) : ExceptT Exn (Prog Sql) β := ExceptT.lift (Prog.call e)

/-- A statement whose failure is an exception. -/
def attempt {β : Type} (e : Sql (Except Exn β)) : ExceptT Exn (Prog Sql) β := ExceptT.mk (Prog.call e)

/-- `with transaction.atomic():` around `body`. -/
def atomic {α : Type} (body : ExceptT Exn (Prog Sql) α) : ExceptT Exn (Prog Sql) α := ExceptT.mk do
  match ← body.run with
  | .ok a => return (← Prog.call .commit).map fun _ => a
  | .error e =>
    Prog.call .rollback
    return .error e

/-- `_lock`: the fleet row, locked; a wait that timed out is `FleetBusy`. -/
def lock (carType : CarType) : ExceptT Exn (Prog Sql) CarTypeRow := do
  let fleet ← tryCatch (attempt (.lockFleet carType.value)) fun
    | .operationalError true =>
      throw (.domain (.fleetBusy "bookings for this car type are busy right now; please try again"))
    | e => throw e
  match fleet with
  | none => throw (carTypeNotFound carType)
  | some fleet => return fleet

/-- `_LockedFleetRow.booked_during`. -/
def bookedDuring (fleet : CarTypeRow) (period : RentalPeriod) : ExceptT Exn (Prog Sql) (List RentalPeriod) := do
  liftExcept (periods (← run (.selectOverlapping fleet.id period)))

/-- `_LockedFleetRow.add`: only a violation of the idempotency constraint is a lost race. -/
def add (fleet : CarTypeRow) (carType : CarType) (customerId : Int) (period : RentalPeriod) (key : IdempotencyKey) :
    ExceptT Exn (Prog Sql) Booking := do
  let row ← tryCatch (attempt (.insert customerId fleet.id period.start period.stop key.value)) fun
    | .integrityError c =>
      if c = IDEMPOTENCY_CONSTRAINT then throw .duplicateIdempotencyKey else throw (.integrityError c)
    | e => throw e
  liftExcept (row.toBooking carType)

/-- `_LockedFleetRow`. -/
def lockedFleet (fleet : CarTypeRow) (carType : CarType) : LockedFleet (Prog Sql) where
  size := fleet.fleetSize
  bookedDuring := bookedDuring fleet
  add := add fleet carType

end PostgresBookingLedger

open PostgresBookingLedger in
/-- `PostgresBookingLedger`. -/
def PostgresBookingLedger : BookingLedger (Prog Sql) (Prog Sql) where
  exclusive carType block := atomic do
    let fleet ← lock carType
    block (lockedFleet fleet carType)
  schedule carType period := do
    match ← run (.selectFleet carType.value) with
    | none => throw (carTypeNotFound carType)
    | some fleet =>
      let booked ← bookedDuring fleet period
      return { fleetSize := fleet.fleetSize, booked }
  findByKey customerId key := do
    match ← run (.selectByKey customerId key.value) with
    | none => return none
    | some row => return some (← liftExcept (toBooking row))
  exclusiveBooking bookingId block := atomic do
    match ← attempt (.lockReservation bookingId) with
    | none => block none
    | some row =>
      let booking ← liftExcept (toBooking row)
      block (some booking)
  save booking := attempt (.update booking.id booking.status.value booking.cancelledAt)
  bookingsOf customerId := do
    liftExcept ((← run (.selectByUser customerId)).mapM toBooking)

/-- What runs on the database: a call of the desk, or the admin's edit of a fleet
size, in a transaction of its own. -/
inductive Job where
  | call (c : Call)
  | edit (carType : CarType) (fleetSize : Nat)
  deriving DecidableEq, Repr

/-- The program of a job; an edit has no reply. -/
def Job.program : Job → Prog Sql (Except Exn (Option Reply))
  | .call c => return (← c.program PostgresBookingLedger).map some
  | .edit carType fleetSize => ExceptT.run do
    PostgresBookingLedger.atomic (PostgresBookingLedger.attempt (.resize carType.value fleetSize))
    return none

end VehicleRentals
