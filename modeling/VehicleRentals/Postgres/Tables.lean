import VehicleRentals.Domain.Desk

/-!
# The tables behind the desk (`rentals/models.py`)

Rows hold what the database stores: enumerations and keys as strings, a car type
by its row id. `created_at` and `updated_at` are left out: no modelled query
depends on them. `_to_booking` turns a row back into a booking and may fail.
-/

namespace VehicleRentals

/-- A row of the car type table. A negative `fleet_size` is refused by the
`PositiveIntegerField`. -/
structure CarTypeRow where
  id : Int
  name : String
  fleetSize : Nat
  deriving DecidableEq, Repr

/-- `CarType.kind`: `domain.CarType(self.name)`. -/
def CarTypeRow.kind (row : CarTypeRow) : Except Exn CarType :=
  match CarType.ofValue row.name with
  | none => .error .valueError
  | some kind => .ok kind

/-- A row of the reservation table. -/
structure ReservationRow where
  id : Int
  carTypeId : Int
  userId : Int
  startAt : Instant
  endAt : Instant
  status : String := BookingStatus.active.value
  idempotencyKey : String
  cancelledAt : Option Instant := none
  deriving DecidableEq, Repr

/-- `IDEMPOTENCY_CONSTRAINT`, the unique constraint on (user, idempotency key). -/
def IDEMPOTENCY_CONSTRAINT : String := "reservation_idempotency_key_unique_per_user"

namespace ReservationRow

/-- The check `reservation_end_after_start`. -/
def endAfterStart (row : ReservationRow) : Bool := row.startAt < row.endAt

/-- The check `reservation_cancelled_at_matches_status`. -/
def cancelledAtMatchesStatus (row : ReservationRow) : Bool :=
  (row.status == "cancelled" && row.cancelledAt.isSome) || (row.status == "active" && row.cancelledAt.isNone)

/-- `_to_booking(row, car_type)`. -/
def toBooking (row : ReservationRow) (carType : CarType) : Except Exn Booking := do
  let period ← RentalPeriod.new row.startAt row.endAt
  let idempotencyKey ← IdempotencyKey.new row.idempotencyKey
  let status ← match BookingStatus.ofValue row.status with
    | none => throw .valueError
    | some status => pure status
  return { id := row.id, customerId := row.userId, carType, period, idempotencyKey, status,
           cancelledAt := row.cancelledAt }

end ReservationRow

/-- A reservation with its car type, as `select_related("car_type")` reads it:
`_to_booking(row, row.car_type.kind)`. -/
def toBooking (row : ReservationRow × CarTypeRow) : Except Exn Booking := do
  let kind ← row.2.kind
  row.1.toBooking kind

/-- `_periods`. -/
def periods (rows : List ReservationRow) : Except Exn (List RentalPeriod) :=
  rows.mapM fun row => RentalPeriod.new row.startAt row.endAt

namespace ReservationQuerySet

def active (rows : List ReservationRow) : List ReservationRow :=
  rows.filter fun row => row.status == BookingStatus.active.value

def forCarType (carTypeId : Int) (rows : List ReservationRow) : List ReservationRow :=
  rows.filter fun row => row.carTypeId == carTypeId

def overlapping (period : RentalPeriod) (rows : List ReservationRow) : List ReservationRow :=
  rows.filter fun row => row.startAt < period.stop && row.endAt > period.start

end ReservationQuerySet

/-- The accounts, by id, and the two tables of the application. -/
structure Tables where
  users : List Int
  carTypes : List CarTypeRow
  reservations : List ReservationRow
  deriving DecidableEq, Repr

namespace Tables

/-- `CarType.objects.filter(name=...).first()`; names are unique. -/
def fleetNamed (t : Tables) (name : String) : Option CarTypeRow := t.carTypes.find? fun row => row.name == name

/-- The car type a reservation refers to. -/
def carTypeOf (t : Tables) (row : ReservationRow) : Option CarTypeRow :=
  t.carTypes.find? fun fleet => fleet.id == row.carTypeId

/-- The reservations with their car types. -/
def joined (t : Tables) : List (ReservationRow × CarTypeRow) :=
  t.reservations.filterMap fun row => (t.carTypeOf row).map (row, ·)

end Tables

/-- A change a transaction makes. -/
inductive Write where
  | insert (row : ReservationRow)
  | update (id : Int) (status : String) (cancelledAt : Option Instant)
  | resize (carTypeId : Int) (fleetSize : Nat)
  deriving DecidableEq, Repr

namespace Write

/-- The tables with the change made. -/
def apply (t : Tables) : Write → Tables
  | insert row => { t with reservations := t.reservations ++ [row] }
  | update id status cancelledAt =>
    { t with reservations := t.reservations.map fun row =>
        if row.id = id then { row with status, cancelledAt } else row }
  | resize carTypeId fleetSize =>
    { t with carTypes := t.carTypes.map fun row => if row.id = carTypeId then { row with fleetSize } else row }

/-- The deferred foreign keys of an inserted row. -/
def foreignKeysHold (t : Tables) : Write → Bool
  | insert row => t.users.contains row.userId && (t.carTypeOf row).isSome
  | _ => true

end Write

end VehicleRentals
