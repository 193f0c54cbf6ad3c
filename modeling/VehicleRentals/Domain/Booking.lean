import VehicleRentals.Domain.CarType
import VehicleRentals.Domain.Period

/-!
# `Booking` and the value objects that travel with it (`rentals/domain/booking.py`)
-/

namespace VehicleRentals

/-- A character of `[A-Za-z0-9_-]`. -/
def isKeyChar (c : Char) : Bool :=
  ('A' ≤ c && c ≤ 'Z') || ('a' ≤ c && c ≤ 'z') || ('0' ≤ c && c ≤ '9') || c == '_' || c == '-'

/-- `_KEY_PATTERN.fullmatch(value)`. -/
def keyPattern (value : String) : Bool :=
  8 ≤ value.length && value.length ≤ 64 && value.toList.all isKeyChar

/-- A client-chosen name for one booking attempt; a malformed one cannot exist. -/
structure IdempotencyKey where
  value : String
  wellFormed : keyPattern value = true
  deriving DecidableEq, Repr

/-- `IdempotencyKey(value)`. -/
def IdempotencyKey.new (value : String) : Except Exn IdempotencyKey :=
  if h : keyPattern value = true then .ok ⟨value, h⟩
  else .error (.domain (.invalidIdempotencyKey
    "idempotency key must be 8-64 characters of letters, digits, '-' or '_'"))

@[simp] theorem IdempotencyKey.new_value (k : IdempotencyKey) : IdempotencyKey.new k.value = .ok k := by
  simp only [IdempotencyKey.new, k.wellFormed, dite_true]

theorem IdempotencyKey.value_of_new {v : String} {k : IdempotencyKey} (h : IdempotencyKey.new v = .ok k) :
    k.value = v := by
  unfold IdempotencyKey.new at h
  split at h
  · cases h; rfl
  · cases h

/-- Whoever is asking. -/
structure Customer where
  id : Int
  isStaff : Bool := false
  deriving DecidableEq, Repr

inductive BookingStatus where
  | active
  | cancelled
  deriving DecidableEq, Repr

namespace BookingStatus

/-- The member's value, and what the database stores. -/
def value : BookingStatus → String
  | active => "active"
  | cancelled => "cancelled"

/-- `BookingStatus(value)`; none where Python raises `ValueError`. -/
def ofValue (v : String) : Option BookingStatus :=
  if v = active.value then some active
  else if v = cancelled.value then some cancelled
  else none

@[simp] theorem ofValue_value (s : BookingStatus) : ofValue s.value = some s := by
  cases s <;> simp [ofValue, value]

end BookingStatus

/-- One reservation of one car of a type, for a period. -/
@[ext] structure Booking where
  id : Int
  customerId : Int
  carType : CarType
  period : RentalPeriod
  idempotencyKey : IdempotencyKey
  status : BookingStatus := .active
  cancelledAt : Option Instant := none
  deriving DecidableEq, Repr

namespace Booking

def isCancelled (b : Booking) : Bool := b.status == .cancelled

/-- Made with exactly these parameters. -/
def isFor (b : Booking) (carType : CarType) (period : RentalPeriod) : Bool :=
  b.carType == carType && b.period == period

def mayBeManagedBy (b : Booking) (actor : Customer) : Bool :=
  actor.isStaff || actor.id == b.customerId

/-- `cancel(now=...)`: whether it changed the booking, and the booking after it. -/
def cancel (b : Booking) (now : Instant) : Except Exn (Bool × Booking) :=
  if b.isCancelled then .ok (false, b)
  else if b.period.stop ≤ now then
    .error (.domain (.reservationNotCancellable "the rental period has already ended"))
  else .ok (true, { b with status := .cancelled, cancelledAt := some now })

/-- The booking was made under this customer's key. -/
def HasKey (b : Booking) (customerId : Int) (key : IdempotencyKey) : Prop :=
  b.customerId = customerId ∧ b.idempotencyKey = key

instance (b : Booking) (customerId : Int) (key : IdempotencyKey) : Decidable (b.HasKey customerId key) :=
  inferInstanceAs (Decidable (_ ∧ _))

/-- What never changes in the life of a booking. -/
structure SameOrigin (a b : Booking) : Prop where
  id : a.id = b.id
  customerId : a.customerId = b.customerId
  carType : a.carType = b.carType
  period : a.period = b.period
  idempotencyKey : a.idempotencyKey = b.idempotencyKey

theorem SameOrigin.refl (a : Booking) : a.SameOrigin a := ⟨rfl, rfl, rfl, rfl, rfl⟩

theorem SameOrigin.trans {a b c : Booking} (h : a.SameOrigin b) (h' : b.SameOrigin c) : a.SameOrigin c :=
  ⟨h.id.trans h'.id, h.customerId.trans h'.customerId, h.carType.trans h'.carType,
    h.period.trans h'.period, h.idempotencyKey.trans h'.idempotencyKey⟩

@[simp] theorem isCancelled_eq_true {b : Booking} : b.isCancelled = true ↔ b.status = .cancelled := by
  simp [isCancelled]

@[simp] theorem isCancelled_eq_false {b : Booking} : b.isCancelled = false ↔ b.status = .active := by
  cases h : b.status <;> simp [isCancelled, h]

theorem isFor_iff {b : Booking} {carType : CarType} {period : RentalPeriod} :
    b.isFor carType period = true ↔ b.carType = carType ∧ b.period = period := by
  simp [isFor]

/-- Everything `cancel` can do: nothing to a cancelled booking, a refusal once
the period has ended, or the one change of status. -/
theorem cancel_cases (b : Booking) (now : Instant) :
    (b.status = .cancelled ∧ b.cancel now = .ok (false, b)) ∨
    (b.status = .active ∧ b.period.stop ≤ now ∧
      b.cancel now = .error (.domain (.reservationNotCancellable "the rental period has already ended"))) ∨
    (b.status = .active ∧ now < b.period.stop ∧
      b.cancel now = .ok (true, { b with status := .cancelled, cancelledAt := some now })) := by
  unfold cancel
  cases h : b.status with
  | cancelled => exact .inl ⟨rfl, by simp [isCancelled, h]⟩
  | active =>
    refine .inr ?_
    by_cases ended : b.period.stop ≤ now
    · exact .inl ⟨rfl, ended, by simp [isCancelled, h, ended]⟩
    · exact .inr ⟨rfl, not_le.1 ended, by simp [isCancelled, h, ended]⟩

end Booking

/-- What `reserve` returns; `replayed` when an earlier call made the booking. -/
structure BookingResult where
  booking : Booking
  replayed : Bool
  deriving DecidableEq, Repr

end VehicleRentals
