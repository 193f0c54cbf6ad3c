/-!
# Domain errors (`rentals/domain/errors.py`)

Every business-rule failure is a `DomainError` with its message. `Exn` adds what
else can travel through the desk: the ledger's private `DuplicateIdempotencyKey`,
Python's `OverflowError` from date arithmetic, `ValueError` from an enum lookup,
and the two database exceptions Django raises.
-/

namespace VehicleRentals

/-- The subclasses of `DomainError`, each with its message. -/
inductive DomainError where
  | invalidRentalPeriod (message : String)
  | carTypeNotFound (message : String)
  | noAvailability (message : String)
  | fleetBusy (message : String)
  | idempotencyConflict (message : String)
  | reservationNotFound (message : String)
  | invalidIdempotencyKey (message : String)
  | reservationNotCancellable (message : String)
  deriving DecidableEq, Repr

/-- What a call can raise. -/
inductive Exn where
  | domain (e : DomainError)
  /-- `DuplicateIdempotencyKey`: from the ledger to the desk, never to a caller. -/
  | duplicateIdempotencyKey
  /-- Python date arithmetic out of range. -/
  | overflowError
  /-- An enum looked up by a value it does not have. -/
  | valueError
  /-- `django.db.IntegrityError`, with the constraint psycopg reports. -/
  | integrityError (constraint : String)
  /-- `django.db.OperationalError`; whether its cause is `LockNotAvailable`. -/
  | operationalError (lockNotAvailable : Bool)
  deriving DecidableEq, Repr

/-- A database exception, as opposed to a domain or a programming error. -/
def Exn.isDatabase : Exn → Bool
  | .integrityError _ => true
  | .operationalError _ => true
  | _ => false

def DomainError.className : DomainError → String
  | .invalidRentalPeriod _ => "InvalidRentalPeriod"
  | .carTypeNotFound _ => "CarTypeNotFound"
  | .noAvailability _ => "NoAvailability"
  | .fleetBusy _ => "FleetBusy"
  | .idempotencyConflict _ => "IdempotencyConflict"
  | .reservationNotFound _ => "ReservationNotFound"
  | .invalidIdempotencyKey _ => "InvalidIdempotencyKey"
  | .reservationNotCancellable _ => "ReservationNotCancellable"

/-- `str(error)`. -/
def DomainError.message : DomainError → String
  | .invalidRentalPeriod m => m
  | .carTypeNotFound m => m
  | .noAvailability m => m
  | .fleetBusy m => m
  | .idempotencyConflict m => m
  | .reservationNotFound m => m
  | .invalidIdempotencyKey m => m
  | .reservationNotCancellable m => m

/-- `type(error).__name__`. -/
def Exn.className : Exn → String
  | .domain e => e.className
  | .duplicateIdempotencyKey => "DuplicateIdempotencyKey"
  | .overflowError => "OverflowError"
  | .valueError => "ValueError"
  | .integrityError _ => "IntegrityError"
  | .operationalError _ => "OperationalError"

/-- The class tells a database exception. -/
theorem Exn.isDatabase_eq (e : Exn) :
    e.isDatabase = (e.className == "IntegrityError" || e.className == "OperationalError") := by
  cases e with
  | domain d => cases d <;> simp [isDatabase, className, DomainError.className]
  | _ => simp [isDatabase, className]

theorem Exn.isDatabase_congr {e e' : Exn} (h : e.className = e'.className) : e.isDatabase = e'.isDatabase := by
  rw [isDatabase_eq, isDatabase_eq, h]

def Exn.isDomain : Exn → Bool
  | .domain _ => true
  | _ => false

def Exn.isNoAvailability : Exn → Bool
  | .domain (.noAvailability _) => true
  | _ => false

end VehicleRentals
