import VehicleRentals.Postgres.Ledger
import VehicleRentals.Postgres.Responses

/-!
# The stages of a job on the database

Run against the database, a job is a short sequence of statements. A `Phase`
names each point between two of them; `Advance` is the step from it, in the terms
of the store the database stands for. `thread_invoked` reads the phases off the
code and `advance_of_exec` the steps off the statements' responses.
-/

namespace VehicleRentals

open Concurrent

namespace Postgres

abbrev Result := Except Exn (Option Reply)

abbrev Code := Prog Sql Result

/-- The transactions: the two blocks of the desk, and the admin's edit. -/
inductive Block where
  | reserve (r : Reserve) (key : IdempotencyKey)
  | cancel (bookingId : Int) (actor : Customer) (now : Instant)
  | edit (carType : CarType) (fleetSize : Nat)

/-- Where a job stands. An `ending` block is about to commit, or to roll back if
its result is an exception; `change` is what it has changed. -/
inductive Phase where
  | idle
  | opening (block : Block)
  | looking (r : Reserve) (key : IdempotencyKey) (size : Nat)
  | scheduling (r : Reserve) (key : IdempotencyKey) (size : Nat)
  | adding (r : Reserve) (key : IdempotencyKey) (size : Nat)
  | saving (booking : Booking) (actor : Customer) (now : Instant)
  | ending (block : Block) (x : Result) (change : Option Change)
  | retrying (r : Reserve) (key : IdempotencyKey)
  | finding (carType : CarType) (period : RentalPeriod)
  | counting (carType : CarType) (period : RentalPeriod) (size : Nat)
  | listing (customer : Customer)
  | done (x : Result)

/-- The result of a `reserve` call that ends with `x`. -/
abbrev reserved (x : Except Exn BookingResult) : Result := (x.map Reply.booked).map some

/-- The cancelled copy `save` stores. -/
def cancelledCopy (b : Booking) (now : Instant) : Booking := { b with status := .cancelled, cancelledAt := some now }

/-- `FleetBusy`, as `_lock` raises it. -/
def fleetBusy : Exn := .domain (.fleetBusy "bookings for this car type are busy right now; please try again")

/-! ## The code at each phase -/

section Code

/-- `_to_booking` of the row a lookup found. -/
def read : Option (ReservationRow × CarTypeRow) → Except Exn (Option Booking)
  | none => .ok none
  | some row => (toBooking row).map some

/-- How `_lock` takes the response. -/
def locked (carType : CarType) : Except Exn (Option CarTypeRow) → Except Exn CarTypeRow
  | .ok (some fleet) => .ok fleet
  | .ok none => .error (carTypeNotFound carType)
  | .error (.operationalError true) => .error fleetBusy
  | .error e => .error e

/-- How `add` takes the response. -/
def inserted (carType : CarType) : Except Exn ReservationRow → Except Exn Booking
  | .ok row => row.toBooking carType
  | .error (.integrityError c) =>
    if c = IDEMPOTENCY_CONSTRAINT then .error .duplicateIdempotencyKey else .error (.integrityError c)
  | .error e => .error e

/-- How the second lookup ends a `reserve` call. -/
def afterRetry (r : Reserve) : Except Exn (Option Booking) → Result
  | .error e => .error e
  | .ok none => .error .duplicateIdempotencyKey
  | .ok (some winner) => reserved (replay winner r.carType r.period)

def retryCode (r : Reserve) (key : IdempotencyKey) : Code :=
  .step (.selectByKey r.customer.id key.value) fun row => .ret (afterRetry r (read row))

/-- What an exception leads to, once it has left its block. -/
def failCode : Block → Exn → Code
  | .reserve r key, .duplicateIdempotencyKey => retryCode r key
  | _, e => .ret (.error e)

theorem failCode_of_ne (block : Block) {e : Exn} (h : e ≠ .duplicateIdempotencyKey) :
    failCode block e = .ret (.error e) := by
  cases block with
  | reserve r key => cases e <;> first | rfl | exact absurd rfl h
  | _ => rfl

/-- Leaving a block with its result. -/
def endCode (block : Block) : Result → Code
  | .ok reply => .step .commit fun
    | .ok _ => .ret (.ok reply)
    | .error e => failCode block e
  | .error e => .step .rollback fun _ => failCode block e

def addCode (r : Reserve) (key : IdempotencyKey) (fleet : CarTypeRow) : Code :=
  .step (.insert r.customer.id fleet.id r.period.start r.period.stop key.value) fun x =>
    endCode (.reserve r key) (reserved ((inserted r.carType x).map fun booking => { booking, replayed := false }))

def scheduleCode (r : Reserve) (key : IdempotencyKey) (fleet : CarTypeRow) : Code :=
  .step (.selectOverlapping fleet.id r.period) fun rows =>
    match periods rows with
    | .error e => endCode (.reserve r key) (.error e)
    | .ok booked =>
      if FleetSchedule.canAccommodate { fleetSize := fleet.fleetSize, booked } r.period then addCode r key fleet
      else endCode (.reserve r key) (.error (noAvailability r.carType r.period))

def lookCode (r : Reserve) (key : IdempotencyKey) (fleet : CarTypeRow) : Code :=
  .step (.selectByKey r.customer.id key.value) fun row =>
    match read row with
    | .error e => endCode (.reserve r key) (.error e)
    | .ok (some existing) => endCode (.reserve r key) (reserved (replay existing r.carType r.period))
    | .ok none =>
      match r.policy.validate r.period r.now with
      | .error e => endCode (.reserve r key) (.error e)
      | .ok _ => scheduleCode r key fleet

def saveCode (booking : Booking) (actor : Customer) (now : Instant) : Code :=
  .step (.update booking.id BookingStatus.cancelled.value (some now)) fun x =>
    endCode (.cancel booking.id actor now) (x.map fun _ => some (.cancelled (cancelledCopy booking now)))

def cancelCode (bookingId : Int) (actor : Customer) (now : Instant) : Option Booking → Code
  | none => endCode (.cancel bookingId actor now) (.error (reservationNotFound bookingId))
  | some booking =>
    if booking.mayBeManagedBy actor then
      if booking.isCancelled then endCode (.cancel bookingId actor now) (.ok (some (.cancelled booking)))
      else if booking.period.stop ≤ now then
        endCode (.cancel bookingId actor now)
          (.error (.domain (.reservationNotCancellable "the rental period has already ended")))
      else saveCode booking actor now
    else endCode (.cancel bookingId actor now) (.error (reservationNotFound bookingId))

def openCode : Block → Code
  | .reserve r key => .step (.lockFleet r.carType.value) fun x =>
    match locked r.carType x with
    | .error e => endCode (.reserve r key) (.error e)
    | .ok fleet => lookCode r key fleet
  | .cancel bookingId actor now => .step (.lockReservation bookingId) fun
    | .error e => endCode (.cancel bookingId actor now) (.error e)
    | .ok row =>
      match read row with
      | .error e => endCode (.cancel bookingId actor now) (.error e)
      | .ok found => cancelCode bookingId actor now found
  | .edit carType fleetSize => .step (.resize carType.value fleetSize) fun x =>
    endCode (.edit carType fleetSize) (x.map fun _ => none)

def countCode (period : RentalPeriod) (fleet : CarTypeRow) : Code :=
  .step (.selectOverlapping fleet.id period) fun rows =>
    .ret ((periods rows).map fun booked =>
      some (.free (FleetSchedule.remaining { fleetSize := fleet.fleetSize, booked } period)))

def findCode (carType : CarType) (period : RentalPeriod) : Code :=
  .step (.selectFleet carType.value) fun
    | none => .ret (.error (carTypeNotFound carType))
    | some fleet => countCode period fleet

end Code

/-- The thread of a job that stands at this phase. -/
def Phase.thread (fleetId : CarType → Int) : Phase → Thread Sql Result
  | .idle => .idle
  | .opening block => .running (openCode block)
  | .looking r key size => .running (lookCode r key (fleetRow fleetId r.carType size))
  | .scheduling r key size => .running (scheduleCode r key (fleetRow fleetId r.carType size))
  | .adding r key size => .running (addCode r key (fleetRow fleetId r.carType size))
  | .saving booking actor now => .running (saveCode booking actor now)
  | .ending block x _ => .running (endCode block x)
  | .retrying r key => .running (retryCode r key)
  | .finding carType period => .running (findCode carType period)
  | .counting carType period size => .running (countCode period (fleetRow fleetId carType size))
  | .listing customer => .running (.step (.selectByUser customer.id) fun rows =>
      .ret ((rows.mapM toBooking).map fun bookings => some (.listed bookings)))
  | .done x => .running (.ret x)

/-- Where a job stands once it is invoked, before any statement. -/
def invoked : Job → Phase
  | .call (.reserve r) =>
    match IdempotencyKey.new r.idempotencyKey with
    | .error e => .done (.error e)
    | .ok key => .opening (.reserve r key)
  | .call (.cancel bookingId actor now) => .opening (.cancel bookingId actor now)
  | .call (.availability policy carType period now) =>
    match policy.validate period now with
    | .error e => .done (.error e)
    | .ok _ => .finding carType period
  | .call (.reservationsFor customer) => .listing customer
  | .edit carType fleetSize => .opening (.edit carType fleetSize)

open PostgresBookingLedger

/-- Leaving an `atomic` block. -/
def leave {α : Type} : Except Exn α → Prog Sql (Except Exn α)
  | .ok a => .step .commit fun c => .ret (c.map fun _ => a)
  | .error e => .step .rollback fun _ => .ret (.error e)

theorem atomic_run {α : Type} (body : ExceptT Exn (Prog Sql) α) : (atomic body).run = body.run.bind leave := by
  show Prog.bind _ _ = Prog.bind _ _
  congr 1

theorem lock_run (carType : CarType) :
    (lock carType).run = .step (.lockFleet carType.value) fun x => .ret (locked carType x) := by
  refine Prog.step_congr fun x => ?_
  rcases x with e | (_ | fleet)
  · cases e with
    | operationalError waited => cases waited <;> rfl
    | _ => rfl
  · rfl
  · rfl

theorem add_run (fleet : CarTypeRow) (carType : CarType) (customerId : Int) (period : RentalPeriod)
    (key : IdempotencyKey) :
    (add fleet carType customerId period key).run =
      .step (.insert customerId fleet.id period.start period.stop key.value) fun x => .ret (inserted carType x) := by
  refine Prog.step_congr fun x => ?_
  rcases x with e | row
  · cases e with
    | integrityError c =>
      simp only [inserted, Prog.ret_bind]
      split <;> rfl
    | _ => rfl
  · exact run_liftExcept _

theorem bookedDuring_run (fleet : CarTypeRow) (period : RentalPeriod) :
    (bookedDuring fleet period).run = .step (.selectOverlapping fleet.id period) fun rows => .ret (periods rows) :=
  Prog.step_congr fun rows => run_liftExcept (periods rows)

theorem findByKey_run (customerId : Int) (key : IdempotencyKey) :
    (PostgresBookingLedger.findByKey customerId key).run =
      .step (.selectByKey customerId key.value) fun row => .ret (read row) := by
  refine Prog.step_congr fun row => ?_
  cases row with
  | none => rfl
  | some row =>
    show Prog.bind (ExceptT.run (liftExcept (toBooking row))) _ = _
    rw [liftExcept_bind]
    simp only [read]
    cases toBooking row <;> rfl

theorem exclusive_run {α : Type} (carType : CarType) (block : LockedFleet (Prog Sql) → ExceptT Exn (Prog Sql) α) :
    (PostgresBookingLedger.exclusive carType block).run = .step (.lockFleet carType.value) fun x =>
      match locked carType x with
      | .error e => leave (.error e)
      | .ok fleet => (block (lockedFleet fleet carType)).run.bind leave := by
  dsimp only [PostgresBookingLedger]
  rw [atomic_run, run_bind, lock_run]
  refine Prog.step_congr fun x => ?_
  simp only [Prog.ret_bind]
  cases locked carType x <;> rfl

theorem exclusiveBooking_run (bookingId : Int) (block : Option Booking → ExceptT Exn (Prog Sql) Booking) :
    (PostgresBookingLedger.exclusiveBooking bookingId block).run = .step (.lockReservation bookingId) fun x =>
      match x with
      | .error e => leave (.error e)
      | .ok row =>
        match read row with
        | .error e => leave (.error e)
        | .ok found => (block found).run.bind leave := by
  dsimp only [PostgresBookingLedger]
  rw [atomic_run, run_bind]
  refine Prog.step_congr fun x => ?_
  rcases x with e | (_ | row)
  · rfl
  · rfl
  · show Prog.bind (ExceptT.run (liftExcept (toBooking row) >>= fun booking => block (some booking))) leave = _
    rw [run_bind, liftExcept_bind]
    simp only [read]
    cases toBooking row <;> rfl

theorem schedule_run (carType : CarType) (period : RentalPeriod) :
    (PostgresBookingLedger.schedule carType period).run = .step (.selectFleet carType.value) fun
      | none => .ret (.error (carTypeNotFound carType))
      | some fleet => .step (.selectOverlapping fleet.id period) fun rows =>
          .ret ((periods rows).map fun booked => { fleetSize := fleet.fleetSize, booked }) := by
  refine Prog.step_congr fun fleet => ?_
  cases fleet with
  | none => rfl
  | some fleet =>
    show ExceptT.run (bookedDuring fleet period >>= fun booked =>
      pure ({ fleetSize := fleet.fleetSize, booked } : FleetSchedule)) = _
    rw [run_bind, bookedDuring_run]
    refine Prog.step_congr fun rows => ?_
    simp only [Prog.ret_bind]
    cases periods rows <;> rfl

theorem bookingsOf_run (customerId : Int) :
    (PostgresBookingLedger.bookingsOf customerId).run = .step (.selectByUser customerId) fun rows =>
      .ret (rows.mapM toBooking) :=
  Prog.step_congr fun rows => run_liftExcept (rows.mapM toBooking)

/-- The desk a `reserve` call is made on. -/
abbrev desk (r : Reserve) : ReservationDesk (Prog Sql) (Prog Sql) :=
  { ledger := PostgresBookingLedger, policy := r.policy }

theorem failCode_reserve (r : Reserve) (key : IdempotencyKey) (e : Exn) :
    ((desk r).reserveLost r.customer r.carType r.period key e).run.bind (fun x => .ret (reserved x)) =
      failCode (.reserve r key) e := by
  by_cases lost : e = .duplicateIdempotencyKey
  · subst lost
    rw [ReservationDesk.reserveLost_run, findByKey_run]
    refine Prog.step_congr fun row => ?_
    simp only [Prog.ret_bind]
    rcases read row with e | (_ | winner) <;> rfl
  · rw [ReservationDesk.reserveLost_other _ lost]
    cases e <;> first | rfl | exact absurd rfl lost

/-- What follows the block of `reserve`. -/
theorem endCode_reserve (r : Reserve) (key : IdempotencyKey) (x : Except Exn BookingResult) :
    ((leave x).bind fun
      | .ok result => .ret (.ok (some (.booked result)))
      | .error e => ((desk r).reserveLost r.customer r.carType r.period key e).run.bind fun x => .ret (reserved x)) =
    endCode (.reserve r key) (reserved x) := by
  cases x with
  | ok result =>
    refine Prog.step_congr fun c => ?_
    cases c with
    | ok _ => rfl
    | error e => exact failCode_reserve r key e
  | error e => exact Prog.step_congr fun _ => failCode_reserve r key e

/-- The block of `reserve` under the lock, and what follows it. -/
theorem lookCode_eq (r : Reserve) (key : IdempotencyKey) (fleet : CarTypeRow) :
    (ExceptT.run ((desk r).reserveBlock r.customer r.carType r.period key r.now
      (lockedFleet fleet r.carType))).bind (fun x => endCode (.reserve r key) (reserved x)) = lookCode r key fleet := by
  rw [ReservationDesk.reserveBlock_run, findByKey_run, Prog.bind_assoc]
  refine Prog.step_congr fun row => ?_
  simp only [Prog.ret_bind]
  rcases read row with e | (_ | existing)
  · rfl
  · simp only
    cases r.policy.validate r.period r.now with
    | error e => rfl
    | ok _ =>
      show Prog.bind (Prog.bind (bookedDuring fleet r.period).run _) _ = _
      rw [bookedDuring_run, Prog.bind_assoc]
      refine Prog.step_congr fun rows => ?_
      simp only [Prog.ret_bind]
      cases periods rows with
      | error e => rfl
      | ok booked =>
        simp only [lockedFleet, add_run]
        by_cases fits : FleetSchedule.canAccommodate { fleetSize := fleet.fleetSize, booked } r.period = true
        · rw [if_pos fits, if_pos fits]
          rfl
        · rw [if_neg fits, if_neg fits]
          rfl
  · rfl

/-- What follows the block of `cancel`. -/
theorem endCode_cancel (bookingId : Int) (actor : Customer) (now : Instant) (x : Except Exn Booking) :
    ((leave x).bind fun x => .ret (x.map fun b => some (.cancelled b))) =
      endCode (.cancel bookingId actor now) (x.map fun b => some (.cancelled b)) := by
  cases x with
  | ok b =>
    refine Prog.step_congr fun c => ?_
    cases c <;> rfl
  | error e => rfl

/-- The block of `cancel` on the booking it locked, and what follows it. -/
theorem cancelCode_eq (bookingId : Int) (actor : Customer) (now : Instant) (found : Option Booking) :
    Prog.bind (ExceptT.run (ReservationDesk.cancelBlock { ledger := PostgresBookingLedger } bookingId actor now found))
      (fun x => endCode (.cancel bookingId actor now) (x.map fun b => some (.cancelled b))) =
    cancelCode bookingId actor now found := by
  cases found with
  | none => rfl
  | some booking =>
    simp only [ReservationDesk.cancelBlock, cancelCode]
    by_cases managed : booking.mayBeManagedBy actor = true
    · rw [if_pos managed, if_pos managed, run_bind, liftExcept_bind]
      unfold Booking.cancel
      by_cases gone : booking.isCancelled = true
      · rw [if_pos gone, if_pos gone]
        rfl
      · rw [if_neg gone, if_neg gone]
        by_cases ended : booking.period.stop ≤ now
        · rw [if_pos ended, if_pos ended]
          rfl
        · rw [if_neg ended, if_neg ended]
          refine Prog.step_congr fun x => ?_
          cases x <;> rfl
    · rw [if_neg managed, if_neg managed]
      rfl

/-- A `reserve` call with a parsed key. -/
theorem openCode_reserve (r : Reserve) (key : IdempotencyKey) :
    ((PostgresBookingLedger.exclusive r.carType ((desk r).reserveBlock r.customer r.carType r.period key r.now)).run.bind
      fun
        | .ok result => .ret (.ok (some (.booked result)))
        | .error e => ((desk r).reserveLost r.customer r.carType r.period key e).run.bind fun x =>
            .ret (reserved x)) = openCode (.reserve r key) := by
  rw [exclusive_run]
  refine Prog.step_congr fun x => ?_
  dsimp only
  cases locked r.carType x with
  | error e => exact endCode_reserve r key (.error e)
  | ok fleet =>
    simp only [Prog.bind_assoc, endCode_reserve]
    exact lookCode_eq r key fleet

theorem openCode_cancel (bookingId : Int) (actor : Customer) (now : Instant) :
    ((PostgresBookingLedger.exclusiveBooking bookingId
      (ReservationDesk.cancelBlock { ledger := PostgresBookingLedger } bookingId actor now)).run.bind fun x =>
        .ret (x.map fun b => some (.cancelled b))) = openCode (.cancel bookingId actor now) := by
  rw [exclusiveBooking_run]
  refine Prog.step_congr fun x => ?_
  cases x with
  | error e => rfl
  | ok row =>
    simp only
    cases read row with
    | error e => rfl
    | ok found =>
      simp only [Prog.bind_assoc, endCode_cancel bookingId actor now]
      exact cancelCode_eq bookingId actor now found

/-- An invoked job stands where its code begins. -/
theorem thread_invoked (fleetId : CarType → Int) (job : Job) :
    (invoked job).thread fleetId = .running job.program := by
  cases job with
  | edit carType fleetSize =>
    refine congrArg Thread.running (Prog.step_congr fun x => ?_)
    cases x with
    | ok _ =>
      refine Prog.step_congr fun c => ?_
      cases c <;> rfl
    | error e => rfl
  | call c =>
    show _ = Thread.running (Prog.bind _ _)
    cases c with
    | reserve r =>
      rw [program_reserve, invoked]
      cases IdempotencyKey.new r.idempotencyKey with
      | error e => rfl
      | ok key =>
        refine congrArg Thread.running ((openCode_reserve r key).symm.trans ?_)
        simp only [Prog.bind_assoc]
        refine Prog.bind_congr fun x => ?_
        cases x with
        | ok result => rfl
        | error e =>
          simp only [Prog.bind_assoc]
          rfl
    | cancel bookingId actor now =>
      rw [program_cancel, Prog.bind_assoc]
      refine congrArg Thread.running ((openCode_cancel bookingId actor now).symm.trans ?_)
      refine Prog.bind_congr fun x => ?_
      cases x <;> rfl
    | availability policy carType period now =>
      rw [program_availability, invoked]
      cases policy.validate period now with
      | error e => rfl
      | ok _ =>
        refine congrArg Thread.running ?_
        dsimp only
        rw [schedule_run]
        refine Prog.step_congr fun fleet => ?_
        cases fleet with
        | none => rfl
        | some fleet =>
          refine Prog.step_congr fun rows => ?_
          simp only [Prog.ret_bind]
          cases periods rows <;> rfl
    | reservationsFor customer =>
      rw [program_reservationsFor, bookingsOf_run]
      refine congrArg Thread.running (Prog.step_congr fun rows => ?_)
      simp only [Prog.ret_bind]
      cases rows.mapM toBooking <;> rfl

end Postgres

end VehicleRentals
