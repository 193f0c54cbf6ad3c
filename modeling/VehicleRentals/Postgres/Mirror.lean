import VehicleRentals.Domain.Table
import VehicleRentals.Postgres.Statements

/-!
# What the rows stand for

A `Store` is the database in the domain's terms: the committed bookings and fleet
sizes, the one change each open transaction of a desk has made, and the locks by
car type, booking and key. `Mirrors` says that a database stands for a store; a
row is the `encode` of its booking and decodes to it. The lemmas at the end give
the response of every statement in these terms.
-/

namespace VehicleRentals

open Concurrent

/-- A change a transaction of the desk or the admin makes. -/
inductive Change where
  | book (b : Booking)
  | cancel (id : Int) (now : Instant)
  | resize (carType : CarType) (size : Nat)
  deriving DecidableEq, Repr

/-- The database in the domain's terms. `table.ids` counts the ids drawn. -/
@[ext] structure Store (ι : Type) where
  table : Table
  sizes : FleetSizes
  pending : ι → Option Change
  fleetLock : CarType → Option ι
  bookingLock : Int → Option ι
  keyLock : Int × IdempotencyKey → Option ι

namespace Store

section

variable {ι : Type} [DecidableEq ι]

/-- Thread `i` takes a fleet's lock. -/
def lockFleet (st : Store ι) (carType : CarType) (i : ι) : Store ι :=
  { st with fleetLock := Function.update st.fleetLock carType (some i) }

/-- Thread `i` takes a booking's lock. -/
def lockBooking (st : Store ι) (id : Int) (i : ι) : Store ι :=
  { st with bookingLock := Function.update st.bookingLock id (some i) }

/-- The sequence yields an id. -/
def draw (st : Store ι) : Store ι := { st with table := { st.table with ids := st.table.ids + 1 } }

/-- Thread `i` makes a change. -/
def change (st : Store ι) (i : ι) (c : Change) : Store ι :=
  { st with pending := Function.update st.pending i (some c) }

/-- Thread `i` inserts `b` under the id drawn for it. -/
def book (st : Store ι) (i : ι) (b : Booking) : Store ι :=
  { st.draw.change i (.book b) with
    keyLock := Function.update st.keyLock (b.customerId, b.idempotencyKey) (some i) }

end

/-- The type a change is about has a fleet. -/
def Allows {ι : Type} (st : Store ι) : Change → Prop
  | .book b => (st.sizes b.carType).isSome = true
  | .cancel _ _ => True
  | .resize carType _ => (st.sizes carType).isSome = true

/-- A committed change. -/
def commit {ι : Type} (st : Store ι) : Change → Store ι
  | .book b => { st with table := st.table.append b }
  | .cancel id now => { st with table := st.table.cancelled id now }
  | .resize carType size => { st with sizes := Function.update st.sizes carType (some size) }

variable {ι : Type} [DecidableEq ι]

/-- The end of thread `i`'s transaction. -/
def finish (st : Store ι) (i : ι) : Store ι :=
  { st with
    pending := Function.update st.pending i none
    fleetLock := Db.released st.fleetLock i
    bookingLock := Db.released st.bookingLock i
    keyLock := Db.released st.keyLock i }

/-- Thread `i`'s transaction commits what it has changed. -/
def committed (st : Store ι) (i : ι) : Store ι :=
  match st.pending i with
  | none => st.finish i
  | some change => (st.commit change).finish i

end Store

/-! ## Rows and bookings -/

section Encode

variable (fleetId : CarType → Int)

/-- The row of a fleet. -/
def fleetRow (carType : CarType) (size : Nat) : CarTypeRow :=
  { id := fleetId carType, name := carType.value, fleetSize := size }

/-- The row of a booking. -/
def encode (b : Booking) : ReservationRow :=
  { id := b.id, carTypeId := fleetId b.carType, userId := b.customerId, startAt := b.period.start,
    endAt := b.period.stop, status := b.status.value, idempotencyKey := b.idempotencyKey.value,
    cancelledAt := b.cancelledAt }

def encodeChange : Change → Write
  | .book b => .insert (encode fleetId b)
  | .cancel id now => .update id BookingStatus.cancelled.value (some now)
  | .resize carType size => .resize (fleetId carType) size

theorem toBooking_encode (b : Booking) : (encode fleetId b).toBooking b.carType = .ok b := by
  simp only [ReservationRow.toBooking, encode, RentalPeriod.new_self, IdempotencyKey.new_value,
    BookingStatus.ofValue_value]
  rfl

@[simp] theorem kind_fleetRow (carType : CarType) (size : Nat) : (fleetRow fleetId carType size).kind = .ok carType := by
  simp only [CarTypeRow.kind, fleetRow, CarType.ofValue_value]

/-- What `select_related` reads decodes to the booking that was stored. -/
theorem toBooking_joined (b : Booking) (size : Nat) :
    toBooking (encode fleetId b, fleetRow fleetId b.carType size) = .ok b := by
  simp only [toBooking, kind_fleetRow]
  exact toBooking_encode fleetId b

theorem periods_encode (bs : List Booking) : periods (bs.map (encode fleetId)) = .ok (bs.map (·.period)) := by
  unfold periods
  induction bs with
  | nil => rfl
  | cons b bs ih =>
    rw [List.map_cons, List.mapM_cons, ih]
    simp only [encode, RentalPeriod.new_self]
    rfl

@[simp] theorem value_inj_status {s s' : BookingStatus} : s.value = s'.value ↔ s = s' := by
  cases s <;> cases s' <;> simp [BookingStatus.value]

theorem key_inj {k k' : IdempotencyKey} : k.value = k'.value ↔ k = k' :=
  ⟨fun h => by cases k; cases k'; cases h; rfl, fun h => h ▸ rfl⟩

/-- A row carries a user's key exactly when its booking does. -/
theorem hasKey_encode (b : Booking) (u : Int) (k : IdempotencyKey) :
    ((encode fleetId b).userId == u && (encode fleetId b).idempotencyKey == k.value) = decide (b.HasKey u k) := by
  rw [Bool.eq_iff_iff, Bool.and_eq_true, beq_iff_eq, beq_iff_eq, decide_eq_true_eq]
  exact and_congr Iff.rfl key_inj

end Encode

/-! ## A database that stands for a store -/

/-- The database `db` stands for the store `st`. -/
structure Mirrors {ι : Type} (users : List Int) (fleetId : CarType → Int) (st : Store ι) (db : Db ι) : Prop where
  users : db.tables.users = users
  fleetIds : (db.tables.carTypes.map (·.id)).Nodup
  named : ∀ T, db.tables.fleetNamed T.value = (st.sizes T).map (fleetRow fleetId T)
  withId : ∀ T n, st.sizes T = some n →
    db.tables.carTypes.find? (fun fleet => fleet.id == fleetId T) = some (fleetRow fleetId T n)
  rows : db.tables.reservations = st.table.bookings.map (encode fleetId)
  known : ∀ b ∈ st.table.bookings, (st.sizes b.carType).isSome = true
  drawn : db.drawn = st.table.ids
  writes : ∀ i, db.writes i = ((st.pending i).map (encodeChange fleetId)).toList
  fleetLock : ∀ T, (st.sizes T).isSome = true → db.fleetLock (fleetId T) = st.fleetLock T
  rowLock : db.rowLock = st.bookingLock
  keyLock : ∀ u (k : IdempotencyKey), db.keyLock (u, k.value) = st.keyLock (u, k)

/-- The row of a booking with the row of its fleet. -/
def joinedRow (fleetId : CarType → Int) (sizes : FleetSizes) (b : Booking) : ReservationRow × CarTypeRow :=
  (encode fleetId b, fleetRow fleetId b.carType ((sizes b.carType).getD 0))

@[simp] theorem toBooking_joinedRow (fleetId : CarType → Int) (sizes : FleetSizes) (b : Booking) :
    toBooking (joinedRow fleetId sizes b) = .ok b :=
  toBooking_joined fleetId b _

namespace Mirrors

variable {ι : Type} {users : List Int} {fleetId : CarType → Int} {st : Store ι} {db : Db ι}

theorem fleetId_inj (h : Mirrors users fleetId st db) {T T' : CarType} (hT : (st.sizes T).isSome = true)
    (hT' : (st.sizes T').isSome = true) (e : fleetId T = fleetId T') : T = T' := by
  obtain ⟨n, hn⟩ := Option.isSome_iff_exists.1 hT
  obtain ⟨n', hn'⟩ := Option.isSome_iff_exists.1 hT'
  have row := h.withId T n hn
  rw [e, h.withId T' n' hn'] at row
  exact CarType.value_inj.1 (congrArg CarTypeRow.name (Option.some.inj row)).symm

theorem joined (h : Mirrors users fleetId st db) :
    db.tables.joined = st.table.bookings.map (joinedRow fleetId st.sizes) := by
  unfold Tables.joined
  rw [h.rows, List.filterMap_map, ← List.filterMap_eq_map]
  refine List.filterMap_congr fun b hb => ?_
  obtain ⟨n, hn⟩ := Option.isSome_iff_exists.1 (h.known b hb)
  have fleet : db.tables.carTypeOf (encode fleetId b) = some (fleetRow fleetId b.carType n) := h.withId _ n hn
  simp only [Function.comp_apply, fleet, joinedRow, hn, Option.map_some, Option.getD_some]

/-- A transaction that has changed nothing reads the committed tables. -/
theorem view (h : Mirrors users fleetId st db) {i : ι} (idle : st.pending i = none) : db.view i = db.tables := by
  rw [Db.view, h.writes i, idle]
  rfl

theorem find_byKey (h : Mirrors users fleetId st db) (u : Int) (k : IdempotencyKey) :
    (db.tables.joined.find? fun row => row.1.userId == u && row.1.idempotencyKey == k.value) =
      (st.table.findByKey u k).map (joinedRow fleetId st.sizes) := by
  rw [h.joined, List.find?_map, Table.findByKey]
  congr 2
  funext b
  exact hasKey_encode fleetId b u k

theorem find_byId (h : Mirrors users fleetId st db) (id : Int) :
    (db.tables.joined.find? fun row => row.1.id == id) = (st.table.get id).map (joinedRow fleetId st.sizes) := by
  rw [h.joined, List.find?_map, Table.get]
  rfl

/-- The availability query reads the periods of the bookings that count. -/
theorem periods_overlapping (h : Mirrors users fleetId st db) {T : CarType} (hT : (st.sizes T).isSome = true)
    (P : RentalPeriod) :
    periods (ReservationQuerySet.overlapping P (ReservationQuerySet.forCarType (fleetId T)
      (ReservationQuerySet.active db.tables.reservations))) = .ok (st.table.bookedDuring T P) := by
  unfold ReservationQuerySet.overlapping ReservationQuerySet.forCarType ReservationQuerySet.active
  rw [h.rows, List.filter_map, List.filter_map, List.filter_map, periods_encode, Table.bookedDuring,
    List.filter_filter, List.filter_filter]
  refine congrArg (fun bs : List Booking => Except.ok (bs.map (·.period))) (List.filter_congr fun b hb => ?_)
  have type : (fleetId b.carType == fleetId T) = (b.carType == T) := by
    rw [Bool.eq_iff_iff, beq_iff_eq, beq_iff_eq]
    exact ⟨h.fleetId_inj (h.known b hb) hT, congrArg fleetId⟩
  have status : (b.status.value == BookingStatus.active.value) = !b.isCancelled := by
    rw [Bool.eq_iff_iff, beq_iff_eq, value_inj_status, Bool.not_eq_true', Booking.isCancelled_eq_false]
  rw [Bool.eq_iff_iff]
  simp only [Function.comp_apply, encode, type, status, RentalPeriod.overlaps, gt_iff_lt, Bool.and_eq_true,
    decide_eq_true_eq]
  constructor
  · rintro ⟨⟨⟨before, after⟩, type⟩, active⟩
    exact ⟨⟨type, active⟩, of_decide_eq_true before, of_decide_eq_true after⟩
  · rintro ⟨⟨type, active⟩, before, after⟩
    exact ⟨⟨⟨decide_eq_true before, decide_eq_true after⟩, type⟩, active⟩

theorem any_key (h : Mirrors users fleetId st db) (u : Int) (k : IdempotencyKey) :
    (db.tables.reservations.any fun row => row.userId == u && row.idempotencyKey == k.value) =
      (st.table.findByKey u k).isSome := by
  rw [h.rows, List.any_map, Bool.eq_iff_iff, Table.findByKey, List.find?_isSome, List.any_eq_true]
  simp only [Function.comp_apply, hasKey_encode]

/-! ## The statements in these terms -/

theorem lockFleet (h : Mirrors users fleetId st db) {T : CarType} (hT : (st.sizes T).isSome = true) (i : ι) :
    Mirrors users fleetId (st.lockFleet T i)
      { db with fleetLock := Function.update db.fleetLock (fleetId T) (some i) } where
  __ := h
  fleetLock T' hT' := by
    by_cases e : T' = T
    · simp [e, Store.lockFleet]
    · have ne : fleetId T' ≠ fleetId T := fun e' => e (h.fleetId_inj hT' hT e')
      simp [Store.lockFleet, Function.update_of_ne e, Function.update_of_ne ne, h.fleetLock T' hT']

theorem lockBooking (h : Mirrors users fleetId st db) (id : Int) (i : ι) :
    Mirrors users fleetId (st.lockBooking id i)
      { db with rowLock := Function.update db.rowLock id (some i) } where
  __ := h
  rowLock := by rw [h.rowLock]; rfl

theorem draw (h : Mirrors users fleetId st db) : Mirrors users fleetId st.draw { db with drawn := db.drawn + 1 } where
  __ := h
  drawn := by rw [h.drawn]; rfl

theorem encode_cancelAt (fleetId : CarType → Int) (id : Int) (now : Instant) (b : Booking) :
    (if (encode fleetId b).id = id then
      { encode fleetId b with status := BookingStatus.cancelled.value, cancelledAt := some now }
      else encode fleetId b) = encode fleetId (Table.cancelAt id now b) := by
  unfold Table.cancelAt
  by_cases e : b.id = id
  · rw [if_pos e, if_pos (show (encode fleetId b).id = id from e)]
    rfl
  · rw [if_neg e, if_neg (show ¬ (encode fleetId b).id = id from e)]

theorem append (h : Mirrors users fleetId st db) {b : Booking} (known : (st.sizes b.carType).isSome = true) :
    Mirrors users fleetId (st.commit (.book b))
      { db with tables := Write.apply db.tables (.insert (encode fleetId b)) } := by
  refine { h with rows := ?_, known := ?_ }
  · simp [Write.apply, Store.commit, Table.append, h.rows]
  · intro a ha
    rcases List.mem_append.1 ha with ha | ha
    · exact h.known a ha
    · rw [List.mem_singleton.1 ha]
      exact known

theorem cancelled (h : Mirrors users fleetId st db) (id : Int) (now : Instant) :
    Mirrors users fleetId (st.commit (.cancel id now))
      { db with tables := Write.apply db.tables (.update id BookingStatus.cancelled.value (some now)) } := by
  refine { h with rows := ?_, known := ?_ }
  · simp only [Write.apply, Store.commit, Table.cancelled, h.rows, List.map_map]
    exact List.map_congr_left fun b _ => encode_cancelAt fleetId id now b
  · intro a ha
    obtain ⟨b, hb, rfl⟩ := List.mem_map.1 ha
    rw [← (Table.cancelAt_sameOrigin id now b).carType]
    exact h.known b hb

/-- A lookup that does not ask for the size finds the same row, with its new size. -/
theorem find_resized {p : CarTypeRow → Bool} (hp : ∀ row n, p { row with fleetSize := n } = p row) (id : Int) (n : Nat)
    (rows : List CarTypeRow) :
    (rows.map fun row => if row.id = id then { row with fleetSize := n } else row).find? p =
      (rows.find? p).map fun row => if row.id = id then { row with fleetSize := n } else row := by
  have same : (p ∘ fun row : CarTypeRow => if row.id = id then { row with fleetSize := n } else row) = p := by
    funext row
    simp only [Function.comp_apply]
    split
    · exact hp row n
    · rfl
  rw [List.find?_map, same]

theorem resized (h : Mirrors users fleetId st db) {T : CarType} (known : (st.sizes T).isSome = true) (n : Nat) :
    Mirrors users fleetId (st.commit (.resize T n))
      { db with tables := Write.apply db.tables (.resize (fleetId T) n) } := by
  -- the row of `T` changes size, any other row stays
  have row : ∀ T' m, st.sizes T' = some m →
      (if (fleetRow fleetId T' m).id = fleetId T then { fleetRow fleetId T' m with fleetSize := n }
        else fleetRow fleetId T' m) = fleetRow fleetId T' (if T' = T then n else m) := by
    intro T' m hm
    by_cases e : T' = T
    · subst e
      simp [fleetRow]
    · have ne : ¬ (fleetRow fleetId T' m).id = fleetId T := by
        intro e'
        exact e (h.fleetId_inj (Option.isSome_iff_exists.2 ⟨m, hm⟩) known e')
      rw [if_neg e, if_neg ne]
  have size : ∀ T' m, st.sizes T' = some m →
      Function.update st.sizes T (some n) T' = some (if T' = T then n else m) := by
    intro T' m hm
    by_cases e : T' = T
    · simp [e]
    · rw [Function.update_of_ne e, if_neg e, hm]
  have isSome : ∀ T', (Function.update st.sizes T (some n) T').isSome = (st.sizes T').isSome := by
    intro T'
    by_cases e : T' = T
    · subst e
      rw [Function.update_self]
      exact known.symm
    · rw [Function.update_of_ne e]
  refine { h with fleetIds := ?_, named := ?_, withId := ?_, known := ?_, fleetLock := ?_ }
  · have same : (fun row : CarTypeRow => row.id) ∘
        (fun row => if row.id = fleetId T then { row with fleetSize := n } else row) = fun row => row.id := by
      funext row
      simp only [Function.comp_apply]
      split <;> rfl
    simpa only [Write.apply, List.map_map, same] using h.fleetIds
  · intro T'
    have named := h.named T'
    simp only [Tables.fleetNamed] at named
    simp only [Write.apply, Store.commit, Tables.fleetNamed]
    rw [find_resized (fun _ _ => rfl), named]
    cases hm : st.sizes T' with
    | none =>
      have ne : T' ≠ T := by
        intro e
        rw [← e, hm] at known
        cases known
      rw [Function.update_of_ne ne, hm]
      rfl
    | some m =>
      rw [size T' m hm, Option.map_some, Option.map_some, row T' m hm]
      rfl
  · intro T' m' hm'
    obtain ⟨m, hm⟩ : ∃ m, st.sizes T' = some m := by
      rw [← Option.isSome_iff_exists, ← isSome, show Function.update st.sizes T (some n) T' = some m' from hm']
      rfl
    have same := (size T' m hm).symm.trans hm'
    simp only [Write.apply]
    rw [find_resized (fun _ _ => rfl), h.withId T' m hm, Option.map_some, row T' m hm, Option.some.inj same]
  · intro b hb
    simp only [Store.commit, isSome]
    exact h.known b hb
  · intro T' hT'
    simp only [Store.commit, isSome] at hT'
    exact h.fleetLock T' hT'

/-- Making a change to the committed tables makes it to the store. -/
theorem commit (h : Mirrors users fleetId st db) {c : Change} (allowed : st.Allows c) :
    Mirrors users fleetId (st.commit c) { db with tables := Write.apply db.tables (encodeChange fleetId c) } := by
  cases c with
  | book b => exact h.append allowed
  | cancel id now => exact h.cancelled id now
  | resize T n => exact h.resized allowed n

variable [DecidableEq ι]

theorem change (h : Mirrors users fleetId st db) {i : ι} (idle : st.pending i = none) (c : Change) :
    Mirrors users fleetId (st.change i c) (db.write i (encodeChange fleetId c)) where
  __ := h
  writes j := by
    by_cases e : j = i
    · subst e
      simp [Db.write, Store.change, h.writes, idle]
    · simp [Db.write, Store.change, Function.update_of_ne e, h.writes]

theorem finish (h : Mirrors users fleetId st db) (i : ι) :
    Mirrors users fleetId (st.finish i) (db.finish i db.tables) where
  users := h.users
  fleetIds := h.fleetIds
  named := h.named
  withId := h.withId
  rows := h.rows
  known := h.known
  drawn := h.drawn
  writes j := by
    by_cases e : j = i
    · subst e
      simp [Db.finish, Store.finish]
    · simp [Db.finish, Store.finish, Function.update_of_ne e, h.writes]
  fleetLock T hT := by
    simp only [Db.finish, Store.finish, Db.released, h.fleetLock T hT]
  rowLock := by
    simp only [Db.finish, Store.finish, h.rowLock]
  keyLock u k := by
    simp only [Db.finish, Store.finish, Db.released, h.keyLock]

/-- An insert, with its unique-index entry. -/
theorem book (h : Mirrors users fleetId st db) {i : ι} (idle : st.pending i = none) (b : Booking) :
    Mirrors users fleetId (st.book i b)
      { { db with drawn := db.drawn + 1 }.write i (.insert (encode fleetId b)) with
        keyLock := Function.update db.keyLock (b.customerId, b.idempotencyKey.value) (some i) } where
  __ := h.draw.change (i := i) idle (.book b)
  keyLock u k := by
    by_cases e : (u, k) = (b.customerId, b.idempotencyKey)
    · cases e
      simp [Store.book]
    · have ne : (u, k.value) ≠ (b.customerId, b.idempotencyKey.value) := fun e' =>
        e (Prod.ext (Prod.mk.inj e').1 (key_inj.1 (Prod.mk.inj e').2))
      simp [Store.book, Function.update_of_ne e, Function.update_of_ne ne, h.keyLock]

/-- The transaction of a thread that may make its change ends with it made. -/
theorem committed (h : Mirrors users fleetId st db) {i : ι} (allowed : ∀ c, st.pending i = some c → st.Allows c) :
    Mirrors users fleetId (st.committed i) (db.finish i (db.view i)) := by
  unfold Store.committed
  cases pending : st.pending i with
  | none =>
    rw [h.view pending]
    exact h.finish i
  | some c =>
    have view : db.view i = Write.apply db.tables (encodeChange fleetId c) := by
      rw [Db.view, h.writes i, pending]
      rfl
    rw [view]
    exact (h.commit (allowed c pending)).finish i

end Mirrors

end VehicleRentals
