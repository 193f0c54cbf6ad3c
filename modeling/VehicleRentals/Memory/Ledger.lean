import VehicleRentals.Concurrent.Programs
import VehicleRentals.Domain.Desk
import VehicleRentals.Domain.Table

/-!
# `InMemoryBookingLedger` (`rentals/domain/in_memory.py`)

`_bookings`, in insertion order and keyed by id, and the next id of `_ids` are a
`Table`; a newly made ledger's is `Table.empty`. The loops of `find_by_key` and
`booked_during` and `_bookings.get` are `Table.findByKey`, `bookedDuring` and
`get`. `_sizes` is `FleetSizes`: the constructor refuses a negative size. Whatever
runs under the `_table` lock is one primitive: each lookup, `booked_during`, `add`,
`bookings_of`, and the whole `exclusive_booking` block, whose code runs on the table
in that one step. The other two primitives acquire and release a car type's fleet
lock.
-/

namespace VehicleRentals

open Concurrent

namespace Table

/-- `_bookings[booking.id] = booking`: in place if the id is there, else at the end. -/
def set (t : Table) (booking : Booking) : Table :=
  if t.bookings.any (·.id == booking.id) then
    { t with bookings := t.bookings.map fun b => if b.id = booking.id then booking else b }
  else { t with bookings := t.bookings ++ [booking] }

/-- The body of `add` under the lock. -/
def add (t : Table) (carType : CarType) (customerId : Int) (period : RentalPeriod) (key : IdempotencyKey) :
    Except Exn Booking × Table :=
  match t.findByKey customerId key with
  | some _ => (.error .duplicateIdempotencyKey, t)
  | none =>
    let booking : Booking := { id := t.ids, customerId, carType, period, idempotencyKey := key }
    (.ok booking, { t with ids := t.ids + 1 }.set booking)

/-- `bookings_of`: the customer's bookings, latest pick-up first, in insertion
order where pick-ups coincide. -/
def bookingsOf (t : Table) (customerId : Int) : List Booking :=
  (t.bookings.filter fun b => b.customerId == customerId).insertionSort
    fun a b => b.period.start ≤ a.period.start

end Table

/-- The lock-protected steps of the ledger, with the type of what each returns. -/
inductive MemOp : Type → Type where
  | acquire (carType : CarType) : MemOp Unit
  | release (carType : CarType) : MemOp Unit
  | findByKey (customerId : Int) (key : IdempotencyKey) : MemOp (Option Booking)
  | bookedDuring (carType : CarType) (period : RentalPeriod) : MemOp (List RentalPeriod)
  | add (carType : CarType) (customerId : Int) (period : RentalPeriod) (key : IdempotencyKey) :
      MemOp (Except Exn Booking)
  | exclusiveBooking (bookingId : Int) (block : Option Booking → ExceptT Exn (StateM Table) Booking) :
      MemOp (Except Exn Booking)
  | bookingsOf (customerId : Int) : MemOp (List Booking)

/-- The table, and which thread holds each fleet lock. `threading.Lock` does not
know its holder; it is recorded for the proofs and decides nothing. -/
@[ext] structure Memory (ι : Type) where
  table : Table
  holder : CarType → Option ι

/-- A ledger nobody is using. -/
def Memory.at (ι : Type) (t : Table) : Memory ι := { table := t, holder := fun _ => none }

/-- What each step does. Only acquiring a lock that is held has to wait. -/
def memory (ι : Type) : Machine MemOp ι (Memory ι) where
  exec i e s := match e with
    | .acquire carType =>
      match s.holder carType with
      | none => [((), { s with holder := Function.update s.holder carType (some i) })]
      | some _ => []
    | .release carType => [((), { s with holder := Function.update s.holder carType none })]
    | .findByKey customerId key => [(s.table.findByKey customerId key, s)]
    | .bookedDuring carType period => [(s.table.bookedDuring carType period, s)]
    | .add carType customerId period key =>
      let (r, table) := s.table.add carType customerId period key
      [(r, { s with table })]
    | .exclusiveBooking bookingId block =>
      let (r, table) := (block (s.table.get bookingId)).run.run s.table
      [(r, { s with table })]
    | .bookingsOf customerId => [(s.table.bookingsOf customerId, s)]

namespace InMemoryBookingLedger

/-- `_known`, with the size it leads to. -/
def known (sizes : FleetSizes) (carType : CarType) : Except Exn Nat :=
  match sizes carType with
  | none => .error (carTypeNotFound carType)
  | some size => .ok size

/-- A step's response, in the monad of the ledger's operations. -/
def locked {β : Type} (e : MemOp β) : ExceptT Exn (Prog MemOp) β := ExceptT.lift (Prog.call e)

/-- `_LockedMemoryFleet`. -/
def lockedFleet (carType : CarType) (size : Nat) : LockedFleet (Prog MemOp) where
  size := size
  bookedDuring period := locked (.bookedDuring carType period)
  add customerId period key := ExceptT.mk (Prog.call (.add carType customerId period key))

def new (sizes : FleetSizes) : BookingLedger (Prog MemOp) (StateM Table) where
  exclusive carType block := ExceptT.mk do
    match known sizes carType with
    | .error e => return .error e
    | .ok size =>
      Prog.call (.acquire carType)
      let outcome ← (block (lockedFleet carType size)).run
      Prog.call (.release carType)
      return outcome
  schedule carType period := do
    let size ← liftExcept (known sizes carType)
    let booked ← locked (.bookedDuring carType period)
    return { fleetSize := size, booked }
  findByKey customerId key := locked (.findByKey customerId key)
  exclusiveBooking bookingId block := ExceptT.mk (Prog.call (.exclusiveBooking bookingId block))
  save booking := modify fun t => t.set booking
  bookingsOf customerId := locked (.bookingsOf customerId)

end InMemoryBookingLedger

end VehicleRentals
