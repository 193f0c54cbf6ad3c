import VehicleRentals.Concurrent.Programs
import VehicleRentals.Postgres.Tables

/-!
# Statements at READ COMMITTED

`Db` is the committed tables and, for each connection, the changes of its open
transaction and the locks it holds. A statement reads the committed tables with
its own transaction's changes. Row locks, and the unique-index entry of an
uncommitted insert, are held to the end of the transaction; a statement that
needs one held by another connection waits, and a wait may time out
(`lock_not_available`). `BEGIN` has no statement of its own: at READ COMMITTED it
takes no snapshot. An `INSERT` runs in a savepoint, so one that fails leaves the
transaction as it was. Left out is its wait for an uncommitted `UPDATE` of the committed
row that has its key: here it fails at once, as it does when that transaction has ended.
-/

namespace VehicleRentals

open Concurrent

/-- What the database leaves open: the ids its sequence yields, and the order of
rows that an `ORDER BY start_at DESC` does not settle. -/
structure Engine where
  serial : Int ≃ Int
  latestFirst : List (ReservationRow × CarTypeRow) → List (ReservationRow × CarTypeRow)
  perm : ∀ rows, (latestFirst rows).Perm rows
  sorted : ∀ rows, (latestFirst rows).Pairwise fun a b => b.1.startAt ≤ a.1.startAt

/-- The statements the ledger and the admin issue, with the type of each response. -/
inductive Sql : Type → Type where
  /-- `CarType.objects.select_for_update().filter(name=...).first()` -/
  | lockFleet (name : String) : Sql (Except Exn (Option CarTypeRow))
  | selectFleet (name : String) : Sql (Option CarTypeRow)
  | selectByKey (userId : Int) (idempotencyKey : String) : Sql (Option (ReservationRow × CarTypeRow))
  /-- `Reservation.objects.active().for_car_type(...).overlapping(...)` -/
  | selectOverlapping (carTypeId : Int) (period : RentalPeriod) : Sql (List ReservationRow)
  | insert (userId carTypeId : Int) (startAt endAt : Instant) (idempotencyKey : String) :
      Sql (Except Exn ReservationRow)
  /-- `Reservation.objects.select_for_update(of=("self",)).filter(pk=...).first()` -/
  | lockReservation (id : Int) : Sql (Except Exn (Option (ReservationRow × CarTypeRow)))
  | update (id : Int) (status : String) (cancelledAt : Option Instant) : Sql (Except Exn Unit)
  | selectByUser (userId : Int) : Sql (List (ReservationRow × CarTypeRow))
  | resize (name : String) (fleetSize : Nat) : Sql (Except Exn Unit)
  | commit : Sql (Except Exn Unit)
  | rollback : Sql Unit

/-- The database, as connections `ι` use it. -/
@[ext] structure Db (ι : Type) where
  tables : Tables
  /-- How many ids the sequence has yielded, counted from the engine's origin. -/
  drawn : Int
  writes : ι → List Write
  fleetLock : Int → Option ι
  rowLock : Int → Option ι
  keyLock : Int × String → Option ι

namespace Db

variable {ι : Type} [DecidableEq ι]

/-- A database with no open transaction. -/
def quiet (tables : Tables) (drawn : Int) : Db ι where
  tables := tables
  drawn := drawn
  writes _ := []
  fleetLock _ := none
  rowLock _ := none
  keyLock _ := none

/-- What connection `i` reads: the committed tables, with its own changes. -/
def view (db : Db ι) (i : ι) : Tables := (db.writes i).foldl Write.apply db.tables

/-- Connection `i` makes a change. -/
def write (db : Db ι) (i : ι) (w : Write) : Db ι :=
  { db with writes := Function.update db.writes i (db.writes i ++ [w]) }

/-- The locks left when connection `i` gives up its own. -/
def released {κ : Type} (locks : κ → Option ι) (i : ι) : κ → Option ι :=
  fun k => if locks k = some i then none else locks k

/-- The end of connection `i`'s transaction, with the tables it leaves. -/
def finish (db : Db ι) (i : ι) (tables : Tables) : Db ι where
  tables := tables
  drawn := db.drawn
  writes := Function.update db.writes i []
  fleetLock := released db.fleetLock i
  rowLock := released db.rowLock i
  keyLock := released db.keyLock i

/-- A lock that connection `i` may take, or has. -/
def grantable {κ : Type} (locks : κ → Option ι) (k : κ) (i : ι) : Bool :=
  locks k == none || locks k == some i

end Db

/-- The wait for a lock ran out: `OperationalError` with the cause `LockNotAvailable`. -/
def timedOut : Exn := .operationalError true

/-- The row an `INSERT` would store. -/
def insertedRow (engine : Engine) (drawn : Int) (userId carTypeId : Int) (startAt endAt : Instant)
    (idempotencyKey : String) : ReservationRow :=
  { id := engine.serial drawn, carTypeId, userId, startAt, endAt, idempotencyKey }

/-- What a statement of connection `i` can respond, and the database after it. -/
def postgres (engine : Engine) (ι : Type) [DecidableEq ι] : Machine Sql ι (Db ι) where
  exec i e db := match e with
    | .lockFleet name =>
      match (db.view i).fleetNamed name with
      | none => [(.ok none, db)]
      | some fleet =>
        if Db.grantable db.fleetLock fleet.id i then
          [(.ok (some fleet), { db with fleetLock := Function.update db.fleetLock fleet.id (some i) })]
        else [(.error timedOut, db)]
    | .selectFleet name => [((db.view i).fleetNamed name, db)]
    | .selectByKey userId key =>
      [((db.view i).joined.find? fun row => row.1.userId == userId && row.1.idempotencyKey == key, db)]
    | .selectOverlapping carTypeId period =>
      [(ReservationQuerySet.overlapping period
        (ReservationQuerySet.forCarType carTypeId (ReservationQuerySet.active (db.view i).reservations)), db)]
    | .insert userId carTypeId startAt endAt key =>
      let row := insertedRow engine db.drawn userId carTypeId startAt endAt key
      let db' : Db ι := { db with drawn := db.drawn + 1 }
      if !row.endAfterStart then [(.error (.integrityError "reservation_end_after_start"), db')]
      else if !row.cancelledAtMatchesStatus then
        [(.error (.integrityError "reservation_cancelled_at_matches_status"), db')]
      else if !Db.grantable db.keyLock (userId, key) i then [(.error timedOut, db')]
      else if (db.view i).reservations.any fun other => other.userId == userId && other.idempotencyKey == key then
        [(.error (.integrityError IDEMPOTENCY_CONSTRAINT), db')]
      else
        [(.ok row, { db'.write i (.insert row) with
          keyLock := Function.update db.keyLock (userId, key) (some i) })]
    | .lockReservation id =>
      match (db.view i).joined.find? fun row => row.1.id == id with
      | none => [(.ok none, db)]
      | some row =>
        if Db.grantable db.rowLock id i then
          [(.ok (some row), { db with rowLock := Function.update db.rowLock id (some i) })]
        else [(.error timedOut, db)]
    | .update id status cancelledAt =>
      match (db.view i).reservations.find? fun row => row.id == id with
      | none => [(.ok (), db)]
      | some row =>
        if !Db.grantable db.rowLock id i then [(.error timedOut, db)]
        else if !{ row with status, cancelledAt : ReservationRow }.cancelledAtMatchesStatus then
          [(.error (.integrityError "reservation_cancelled_at_matches_status"), db)]
        else
          [(.ok (), { db.write i (.update id status cancelledAt) with
            rowLock := Function.update db.rowLock id (some i) })]
    | .selectByUser userId => [(engine.latestFirst ((db.view i).joined.filter fun row => row.1.userId == userId), db)]
    | .resize name fleetSize =>
      match (db.view i).fleetNamed name with
      | none => [(.ok (), db)]
      | some fleet =>
        if Db.grantable db.fleetLock fleet.id i then
          [(.ok (), { db.write i (.resize fleet.id fleetSize) with
            fleetLock := Function.update db.fleetLock fleet.id (some i) })]
        else [(.error timedOut, db)]
    | .commit =>
      if (db.writes i).all (Write.foreignKeysHold (db.view i)) then [(.ok (), db.finish i (db.view i))]
      else [(.error (.integrityError "rentals_reservation_user_id_fk"), db.finish i db.tables)]
    | .rollback => [((), db.finish i db.tables)]

end VehicleRentals
