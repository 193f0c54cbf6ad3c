import Mathlib.Data.Set.List
import VehicleRentals.Postgres.Mirror

/-!
# What every statement responds

`Responds` is one statement against a database that stands for a store: its
response, and the store that the database stands for afterwards. One lemma for
each statement, whose cases are all there are.
-/

namespace VehicleRentals

open Concurrent

variable {ι : Type} [DecidableEq ι]

/-- Statement `e` of connection `i` responds `x`, and leaves a database that
stands for `st`. -/
def Responds {β : Type} (engine : Engine) (users : List Int) (fleetId : CarType → Int) (i : ι) (e : Sql β) (db : Db ι)
    (x : β) (st : Store ι) : Prop :=
  ∃ db', (postgres engine ι).exec i e db = [(x, db')] ∧ Mirrors users fleetId st db'

namespace Responds

variable {engine : Engine} {users : List Int} {fleetId : CarType → Int} {i : ι} {β : Type} {e : Sql β} {db : Db ι}
  {x : β} {st : Store ι}

/-- There is no other outcome. -/
theorem only (h : Responds engine users fleetId i e db x st) {y : β} {db' : Db ι}
    (hy : (y, db') ∈ (postgres engine ι).exec i e db) : y = x ∧ Mirrors users fleetId st db' := by
  obtain ⟨db'', exec, mirrors⟩ := h
  rw [exec] at hy
  cases List.mem_singleton.1 hy
  exact ⟨rfl, mirrors⟩

/-- A connection alone goes on with the response. -/
theorem solo {α : Type} (h : Responds engine users fleetId i e db x st) (k : β → Prog Sql α) :
    ∃ db', Mirrors users fleetId st db' ∧
      (postgres engine ι).solo i (.step e k) db = (postgres engine ι).solo i (k x) db' := by
  obtain ⟨db', exec, mirrors⟩ := h
  exact ⟨db', mirrors, Machine.solo_step exec⟩

end Responds

/-- The user of a new booking exists; nothing else is checked at commit. -/
def Change.Accepted (users : List Int) : Change → Prop
  | .book b => b.customerId ∈ users
  | _ => True

/-- The booking an insert stores. -/
def Store.fresh (engine : Engine) (st : Store ι) (carType : CarType) (customerId : Int) (period : RentalPeriod)
    (key : IdempotencyKey) : Booking :=
  { id := engine.serial st.table.ids, customerId, carType, period, idempotencyKey := key }

namespace Mirrors

variable {engine : Engine} {users : List Int} {fleetId : CarType → Int} {st : Store ι} {db : Db ι}

theorem exec_lockFleet (h : Mirrors users fleetId st db) {i : ι} (idle : st.pending i = none) (T : CarType) :
    (st.sizes T = none ∧ Responds engine users fleetId i (.lockFleet T.value) db (.ok none) st) ∨
    ∃ n, st.sizes T = some n ∧
      ((Db.grantable st.fleetLock T i = true ∧ Responds engine users fleetId i (.lockFleet T.value) db
          (.ok (some (fleetRow fleetId T n))) (st.lockFleet T i)) ∨
        (Db.grantable st.fleetLock T i = false ∧
          Responds engine users fleetId i (.lockFleet T.value) db (.error timedOut) st)) := by
  have named := h.named T
  cases size : st.sizes T with
  | none =>
    rw [size, Option.map_none] at named
    refine .inl ⟨rfl, db, ?_, h⟩
    simp only [postgres, h.view idle, named]
  | some n =>
    rw [size, Option.map_some] at named
    have known : (st.sizes T).isSome = true := by rw [size]; rfl
    refine .inr ⟨n, rfl, ?_⟩
    have lock : Db.grantable db.fleetLock (fleetRow fleetId T n).id i = Db.grantable st.fleetLock T i := by
      simp only [Db.grantable, fleetRow, h.fleetLock T known]
    cases free : Db.grantable st.fleetLock T i with
    | true =>
      refine .inl ⟨rfl, _, ?_, h.lockFleet known i⟩
      simp only [postgres, h.view idle, named, lock, free, if_true]
      rfl
    | false =>
      refine .inr ⟨rfl, db, ?_, h⟩
      simp [postgres, h.view idle, named, lock, free]

theorem exec_selectFleet (h : Mirrors users fleetId st db) {i : ι} (idle : st.pending i = none) (T : CarType) :
    Responds engine users fleetId i (.selectFleet T.value) db ((st.sizes T).map (fleetRow fleetId T)) st :=
  ⟨db, by simp only [postgres, h.view idle, h.named], h⟩

theorem exec_selectByKey (h : Mirrors users fleetId st db) {i : ι} (idle : st.pending i = none) (u : Int)
    (k : IdempotencyKey) :
    Responds engine users fleetId i (.selectByKey u k.value) db
      ((st.table.findByKey u k).map (joinedRow fleetId st.sizes)) st :=
  ⟨db, by simp only [postgres, h.view idle, h.find_byKey], h⟩

/-- The rows the availability query reads decode to the periods that count. -/
theorem exec_selectOverlapping (h : Mirrors users fleetId st db) {i : ι} (idle : st.pending i = none) {T : CarType}
    (known : (st.sizes T).isSome = true) (P : RentalPeriod) :
    ∃ rows, periods rows = .ok (st.table.bookedDuring T P) ∧
      Responds engine users fleetId i (.selectOverlapping (fleetId T) P) db rows st :=
  ⟨_, h.periods_overlapping known P, db, by simp only [postgres, h.view idle], h⟩

/-- An insert draws an id, and then waits for the key's lock, finds the key
taken, or stores the booking. -/
theorem exec_insert (h : Mirrors users fleetId st db) {i : ι} (idle : st.pending i = none) (T : CarType) (u : Int)
    (P : RentalPeriod) (k : IdempotencyKey) :
    (Db.grantable st.keyLock (u, k) i = false ∧
      Responds engine users fleetId i (.insert u (fleetId T) P.start P.stop k.value) db (.error timedOut) st.draw) ∨
    ((∃ b ∈ st.table.bookings, b.HasKey u k) ∧
      Responds engine users fleetId i (.insert u (fleetId T) P.start P.stop k.value) db
        (.error (.integrityError IDEMPOTENCY_CONSTRAINT)) st.draw) ∨
    (Db.grantable st.keyLock (u, k) i = true ∧ (∀ b ∈ st.table.bookings, ¬ b.HasKey u k) ∧
      Responds engine users fleetId i (.insert u (fleetId T) P.start P.stop k.value) db
        (.ok (encode fleetId (st.fresh engine T u P k))) (st.book i (st.fresh engine T u P k))) := by
  have row : insertedRow engine db.drawn u (fleetId T) P.start P.stop k.value =
      encode fleetId (st.fresh engine T u P k) := by
    rw [insertedRow, h.drawn]
    rfl
  have order : (encode fleetId (st.fresh engine T u P k)).endAfterStart = true := decide_eq_true P.startsBeforeStop
  have stamp : (encode fleetId (st.fresh engine T u P k)).cancelledAtMatchesStatus = true := rfl
  have lock : Db.grantable db.keyLock (u, k.value) i = Db.grantable st.keyLock (u, k) i := by
    simp only [Db.grantable, h.keyLock]
  cases free : Db.grantable st.keyLock (u, k) i with
  | false =>
    refine .inl ⟨rfl, _, ?_, h.draw⟩
    simp [postgres, row, order, stamp, lock, free]
  | true =>
    have taken := h.any_key u k
    cases found : st.table.findByKey u k with
    | some b =>
      refine .inr (.inl ⟨⟨b, Table.findByKey_some found⟩, _, ?_, h.draw⟩)
      rw [found, Option.isSome_some] at taken
      have seen : (Db.view { db with drawn := db.drawn + 1 } i).reservations = db.tables.reservations :=
        congrArg Tables.reservations (h.view idle)
      simp only [postgres, row, order, stamp, lock, free, h.view idle, taken]
      rfl
    | none =>
      refine .inr (.inr ⟨rfl, Table.findByKey_none.1 found, _, ?_, h.book idle _⟩)
      rw [found, Option.isSome_none] at taken
      simp only [postgres, row, order, stamp, lock, free, h.view idle, taken]
      rfl

theorem exec_lockReservation (h : Mirrors users fleetId st db) {i : ι} (idle : st.pending i = none) (id : Int) :
    (st.table.get id = none ∧ Responds engine users fleetId i (.lockReservation id) db (.ok none) st) ∨
    ∃ b, st.table.get id = some b ∧
      ((Db.grantable st.bookingLock id i = true ∧ Responds engine users fleetId i (.lockReservation id) db
          (.ok (some (joinedRow fleetId st.sizes b))) (st.lockBooking id i)) ∨
        (Db.grantable st.bookingLock id i = false ∧
          Responds engine users fleetId i (.lockReservation id) db (.error timedOut) st)) := by
  have byId := h.find_byId id
  cases found : st.table.get id with
  | none =>
    rw [found, Option.map_none] at byId
    refine .inl ⟨rfl, db, ?_, h⟩
    simp only [postgres, h.view idle, byId]
  | some b =>
    rw [found, Option.map_some] at byId
    refine .inr ⟨b, rfl, ?_⟩
    cases free : Db.grantable st.bookingLock id i with
    | true =>
      refine .inl ⟨rfl, _, ?_, h.lockBooking id i⟩
      simp only [postgres, h.view idle, byId, h.rowLock, free, if_true]
    | false =>
      refine .inr ⟨rfl, db, ?_, h⟩
      simp [postgres, h.view idle, byId, h.rowLock, free]

/-- Saving a cancellation from under the booking's lock. -/
theorem exec_update (h : Mirrors users fleetId st db) {i : ι} (idle : st.pending i = none) {b : Booking}
    (found : st.table.get b.id = some b) (mine : st.bookingLock b.id = some i) (now : Instant) :
    Responds engine users fleetId i (.update b.id BookingStatus.cancelled.value (some now)) db (.ok ())
      (st.change i (.cancel b.id now)) := by
  have byId : (db.tables.reservations.find? fun row => row.id == b.id) = some (encode fleetId b) := by
    rw [h.rows, List.find?_map]
    exact congrArg (Option.map (encode fleetId)) found
  have held : db.rowLock b.id = some i := by rw [h.rowLock, mine]
  have same : Function.update db.rowLock b.id (some i) = db.rowLock := by
    rw [← held, Function.update_eq_self]
  refine ⟨_, ?_, h.change idle (.cancel b.id now)⟩
  simp only [postgres, h.view idle, byId, Db.grantable, held, same]
  simp [ReservationRow.cancelledAtMatchesStatus, BookingStatus.value, encodeChange, Db.write]

theorem joinedRow_injective (sizes : FleetSizes) : Function.Injective (joinedRow fleetId sizes) := by
  intro a b e
  have decoded := congrArg toBooking e
  rw [toBooking_joinedRow, toBooking_joinedRow] at decoded
  exact Except.ok.inj decoded

/-- The rows of a customer decode to the customer's bookings, latest pick-up first. -/
theorem exec_selectByUser (h : Mirrors users fleetId st db) {i : ι} (idle : st.pending i = none) (u : Int) :
    ∃ bookings rows, rows.mapM toBooking = .ok bookings ∧
      bookings.Perm (st.table.bookings.filter fun b => b.customerId == u) ∧
      (bookings.Pairwise fun a b => b.period.start ≤ a.period.start) ∧
      Responds engine users fleetId i (.selectByUser u) db rows st := by
  have own : (db.tables.joined.filter fun row => row.1.userId == u) =
      (st.table.bookings.filter fun b => b.customerId == u).map (joinedRow fleetId st.sizes) := by
    rw [h.joined, List.filter_map]
    rfl
  have perm := engine.perm (db.tables.joined.filter fun row => row.1.userId == u)
  have decodes : engine.latestFirst (db.tables.joined.filter fun row => row.1.userId == u) ∈
      Set.range (List.map (joinedRow fleetId st.sizes)) := by
    rw [Set.range_list_map]
    intro row hrow
    have there := perm.mem_iff.1 hrow
    rw [own] at there
    obtain ⟨b, -, rfl⟩ := List.mem_map.1 there
    exact ⟨b, rfl⟩
  obtain ⟨bookings, e⟩ := decodes
  refine ⟨bookings, engine.latestFirst (db.tables.joined.filter fun row => row.1.userId == u), ?_, ?_, ?_, db,
    by simp only [postgres, h.view idle], h⟩
  · rw [← e]
    clear e
    induction bookings with
    | nil => rfl
    | cons b bookings ih =>
      rw [List.map_cons, List.mapM_cons, toBooking_joinedRow, ih]
      rfl
  · rw [← e, own] at perm
    exact (List.map_perm_map_iff (joinedRow_injective st.sizes)).1 perm
  · have sorted := engine.sorted (db.tables.joined.filter fun row => row.1.userId == u)
    rw [← e] at sorted
    exact List.pairwise_map.1 sorted

theorem exec_resize (h : Mirrors users fleetId st db) {i : ι} (idle : st.pending i = none) (T : CarType) (n : Nat) :
    ((st.sizes T = none ∧ Responds engine users fleetId i (.resize T.value n) db (.ok ()) st)) ∨
    ((st.sizes T).isSome = true ∧ Db.grantable st.fleetLock T i = true ∧
      Responds engine users fleetId i (.resize T.value n) db (.ok ())
        ((st.lockFleet T i).change i (.resize T n))) ∨
    (Db.grantable st.fleetLock T i = false ∧
      Responds engine users fleetId i (.resize T.value n) db (.error timedOut) st) := by
  have named := h.named T
  cases size : st.sizes T with
  | none =>
    rw [size, Option.map_none] at named
    refine .inl ⟨rfl, db, ?_, h⟩
    simp only [postgres, h.view idle, named]
  | some m =>
    rw [size, Option.map_some] at named
    have known : (st.sizes T).isSome = true := by rw [size]; rfl
    have lock : Db.grantable db.fleetLock (fleetRow fleetId T m).id i = Db.grantable st.fleetLock T i := by
      simp only [Db.grantable, fleetRow, h.fleetLock T known]
    refine .inr ?_
    cases free : Db.grantable st.fleetLock T i with
    | true =>
      refine .inl ⟨rfl, rfl, _, ?_, (h.lockFleet known i).change (i := i) idle (.resize T n)⟩
      simp only [postgres, h.view idle, named, lock, free, if_true]
      rfl
    | false =>
      refine .inr ⟨rfl, db, ?_, h⟩
      simp [postgres, h.view idle, named, lock, free]

/-- The deferred foreign key of a new booking's user is checked at commit. -/
theorem exec_commit (h : Mirrors users fleetId st db) {i : ι} (allowed : ∀ c, st.pending i = some c → st.Allows c) :
    ((∀ c, st.pending i = some c → c.Accepted users) ∧
      Responds engine users fleetId i .commit db (.ok ()) (st.committed i)) ∨
    (∃ c, st.pending i = some c ∧ ¬ c.Accepted users ∧
      Responds engine users fleetId i .commit db (.error (.integrityError "rentals_reservation_user_id_fk"))
        (st.finish i)) := by
  have done := h.committed allowed
  have writes := h.writes i
  cases pending : st.pending i with
  | none =>
    refine .inl ⟨nofun, _, ?_, done⟩
    rw [pending] at writes
    simp only [postgres, writes]
    rfl
  | some c =>
    rw [pending] at writes
    have view : db.view i = Write.apply db.tables (encodeChange fleetId c) := by
      rw [Db.view, writes]
      rfl
    have holds : (db.writes i).all (Write.foreignKeysHold (db.view i)) = true ↔ c.Accepted users := by
      rw [view, writes]
      cases c with
      | book b =>
        obtain ⟨n, size⟩ := Option.isSome_iff_exists.1 (allowed _ pending)
        have fleet : (Write.apply db.tables (encodeChange fleetId (.book b))).carTypeOf (encode fleetId b) =
            some (fleetRow fleetId b.carType n) := h.withId _ n size
        have users' : (Write.apply db.tables (encodeChange fleetId (.book b))).users = users := h.users
        simp only [Option.map_some, Option.toList_some, List.all_cons, List.all_nil, Bool.and_true]
        show (_ && Option.isSome _) = true ↔ _
        rw [users', fleet, Option.isSome_some, Bool.and_true, List.contains_iff_mem]
        rfl
      | cancel id now => simp [encodeChange, Write.foreignKeysHold, Change.Accepted]
      | resize T n => simp [encodeChange, Write.foreignKeysHold, Change.Accepted]
    by_cases ok : c.Accepted users
    · refine .inl ⟨fun c' e => Option.some.inj e ▸ ok, _, ?_, done⟩
      simp only [postgres, holds.2 ok, if_true]
    · refine .inr ⟨c, rfl, ok, _, ?_, h.finish i⟩
      simp only [postgres, if_neg (mt holds.1 ok)]

theorem exec_rollback (h : Mirrors users fleetId st db) (i : ι) :
    Responds engine users fleetId i .rollback db () (st.finish i) :=
  ⟨_, rfl, h.finish i⟩

end Mirrors

end VehicleRentals
