import VehicleRentals.Postgres.Protocol
import VehicleRentals.Postgres.Stages

/-!
# A job's steps on the store

`Advance` is the step a job takes from each phase, with the wait that ran out in
it, if one did. `PhaseOk` says what the job knows there, its locks included;
that is what a statement's response depends on (`advance_of_exec`), and it makes
every step one of the locking protocol (`Advance.step`).
-/

namespace VehicleRentals

open Concurrent

namespace Postgres

/-- The lock a statement waited for: a car type's row, the row of an uncommitted
booking with the same key, or a reservation's row. -/
inductive Wait where
  | fleet
  | key
  | booking
  deriving DecidableEq, Repr

/-- The wait that ran out, by a statement's response. -/
def waited : {β : Type} → Sql β → β → Option Wait
  | _, .lockFleet _, .error (.operationalError true) => some .fleet
  | _, .insert .., .error (.operationalError true) => some .key
  | _, .lockReservation _, .error (.operationalError true) => some .booking
  | _, .update .., .error (.operationalError true) => some .booking
  | _, .resize .., .error (.operationalError true) => some .fleet
  | _, _, _ => none

/-- The wait that ran out in a step. -/
def waitOf {ι : Type} (l : Label Sql ι) : Option Wait :=
  match l.event with
  | none => none
  | some ⟨_, e, x⟩ => waited e x

/-- What a job has changed at this phase and not committed. -/
def Phase.pending : Phase → Option Change
  | .ending _ _ change => change
  | _ => none

/-! ## Where the responses lead -/

/-- Where the first lookup leads. -/
def afterLook (r : Reserve) (key : IdempotencyKey) (size : Nat) : Option Booking → Phase
  | some existing => .ending (.reserve r key) (reserved (replay existing r.carType r.period)) none
  | none =>
    match r.policy.validate r.period r.now with
    | .error e => .ending (.reserve r key) (.error e) none
    | .ok _ => .scheduling r key size

/-- Where the availability check leads. -/
def afterSchedule (r : Reserve) (key : IdempotencyKey) (size : Nat) (booked : List RentalPeriod) : Phase :=
  if FleetSchedule.canAccommodate { fleetSize := size, booked } r.period then .adding r key size
  else .ending (.reserve r key) (.error (noAvailability r.carType r.period)) none

/-- Where the locking read of `cancel` leads. -/
def afterFound (bookingId : Int) (actor : Customer) (now : Instant) : Option Booking → Phase
  | none => .ending (.cancel bookingId actor now) (.error (reservationNotFound bookingId)) none
  | some booking =>
    if booking.mayBeManagedBy actor then
      if booking.isCancelled then .ending (.cancel bookingId actor now) (.ok (some (.cancelled booking))) none
      else if booking.period.stop ≤ now then
        .ending (.cancel bookingId actor now)
          (.error (.domain (.reservationNotCancellable "the rental period has already ended"))) none
      else .saving booking actor now
    else .ending (.cancel bookingId actor now) (.error (reservationNotFound bookingId)) none

/-- Where an exception leads, once it has left its block. -/
def afterFail : Block → Exn → Phase
  | .reserve r key, .duplicateIdempotencyKey => .retrying r key
  | _, e => .done (.error e)

theorem afterFail_of_ne (block : Block) {e : Exn} (h : e ≠ .duplicateIdempotencyKey) :
    afterFail block e = .done (.error e) := by
  cases block with
  | reserve r key => cases e <;> first | rfl | exact absurd rfl h
  | _ => rfl

theorem thread_afterFail (fleetId : CarType → Int) (block : Block) (e : Exn) :
    (afterFail block e).thread fleetId = .running (failCode block e) := by
  cases block with
  | reserve r key => cases e <;> rfl
  | _ => rfl

/-- The foreign key of a booking's user failed at commit. -/
def userMissing : Exn := .integrityError "rentals_reservation_user_id_fk"

section

variable {ι : Type} [DecidableEq ι]

/-- The step thread `i` takes from a phase, and the wait that ran out in it. -/
inductive Advance (engine : Engine) (users : List Int) (i : ι) :
    Option Wait → Phase → Store ι → Phase → Store ι → Prop where
  | lockFleet {r : Reserve} {key : IdempotencyKey} {size : Nat} {st : Store ι} : st.sizes r.carType = some size →
      Db.grantable st.fleetLock r.carType i = true →
      Advance engine users i none (.opening (.reserve r key)) st (.looking r key size) (st.lockFleet r.carType i)
  | noFleet {r : Reserve} {key : IdempotencyKey} {st : Store ι} : st.sizes r.carType = none →
      Advance engine users i none (.opening (.reserve r key)) st
        (.ending (.reserve r key) (.error (carTypeNotFound r.carType)) none) st
  | fleetBusy {r : Reserve} {key : IdempotencyKey} {st : Store ι} :
      Advance engine users i (some .fleet) (.opening (.reserve r key)) st
        (.ending (.reserve r key) (.error fleetBusy) none) st
  | look {r : Reserve} {key : IdempotencyKey} {size : Nat} {st : Store ι} :
      Advance engine users i none (.looking r key size) st
        (afterLook r key size (st.table.findByKey r.customer.id key)) st
  | schedule {r : Reserve} {key : IdempotencyKey} {size : Nat} {st : Store ι} :
      Advance engine users i none (.scheduling r key size) st
        (afterSchedule r key size (st.table.bookedDuring r.carType r.period)) st
  | add {r : Reserve} {key : IdempotencyKey} {size : Nat} {st : Store ι} :
      Db.grantable st.keyLock (r.customer.id, key) i = true →
      (∀ b ∈ st.table.bookings, ¬ b.HasKey r.customer.id key) →
      Advance engine users i none (.adding r key size) st
        (.ending (.reserve r key) (.ok (some (.booked ⟨st.fresh engine r.carType r.customer.id r.period key, false⟩)))
          (some (.book (st.fresh engine r.carType r.customer.id r.period key))))
        (st.book i (st.fresh engine r.carType r.customer.id r.period key))
  | addLost {r : Reserve} {key : IdempotencyKey} {size : Nat} {st : Store ι} :
      (∃ b ∈ st.table.bookings, b.HasKey r.customer.id key) →
      Advance engine users i none (.adding r key size) st
        (.ending (.reserve r key) (.error .duplicateIdempotencyKey) none) st.draw
  | addBusy {r : Reserve} {key : IdempotencyKey} {size : Nat} {st : Store ι} :
      Advance engine users i (some .key) (.adding r key size) st
        (.ending (.reserve r key) (.error timedOut) none) st.draw
  | retry {r : Reserve} {key : IdempotencyKey} {st : Store ι} :
      Advance engine users i none (.retrying r key) st
        (.done (afterRetry r (.ok (st.table.findByKey r.customer.id key)))) st
  | lockBooking {b : Booking} {actor : Customer} {now : Instant} {st : Store ι} : st.table.get b.id = some b →
      Db.grantable st.bookingLock b.id i = true →
      Advance engine users i none (.opening (.cancel b.id actor now)) st (afterFound b.id actor now (some b))
        (st.lockBooking b.id i)
  | noBooking {id : Int} {actor : Customer} {now : Instant} {st : Store ι} : st.table.get id = none →
      Advance engine users i none (.opening (.cancel id actor now)) st (afterFound id actor now none) st
  | bookingBusy {id : Int} {actor : Customer} {now : Instant} {st : Store ι} :
      Advance engine users i (some .booking) (.opening (.cancel id actor now)) st
        (.ending (.cancel id actor now) (.error timedOut) none) st
  | save {b : Booking} {actor : Customer} {now : Instant} {st : Store ι} :
      Advance engine users i none (.saving b actor now) st
        (.ending (.cancel b.id actor now) (.ok (some (.cancelled (cancelledCopy b now)))) (some (.cancel b.id now)))
        (st.change i (.cancel b.id now))
  | resize {T : CarType} {n : Nat} {st : Store ι} : (st.sizes T).isSome = true →
      Db.grantable st.fleetLock T i = true →
      Advance engine users i none (.opening (.edit T n)) st (.ending (.edit T n) (.ok none) (some (.resize T n)))
        ((st.lockFleet T i).change i (.resize T n))
  | noResize {T : CarType} {n : Nat} {st : Store ι} :
      Advance engine users i none (.opening (.edit T n)) st (.ending (.edit T n) (.ok none) none) st
  | resizeBusy {T : CarType} {n : Nat} {st : Store ι} :
      Advance engine users i (some .fleet) (.opening (.edit T n)) st (.ending (.edit T n) (.error timedOut) none) st
  | commit {block : Block} {reply : Option Reply} {change : Option Change} {st : Store ι} :
      (∀ c, change = some c → c.Accepted users) →
      Advance engine users i none (.ending block (.ok reply) change) st (.done (.ok reply)) (st.committed i)
  | refuse {block : Block} {reply : Option Reply} {c : Change} {st : Store ι} : ¬ c.Accepted users →
      Advance engine users i none (.ending block (.ok reply) (some c)) st (.done (.error userMissing)) (st.finish i)
  | rollback {block : Block} {e : Exn} {change : Option Change} {st : Store ι} :
      Advance engine users i none (.ending block (.error e) change) st (afterFail block e) (st.finish i)
  | find {T : CarType} {P : RentalPeriod} {size : Nat} {st : Store ι} : st.sizes T = some size →
      Advance engine users i none (.finding T P) st (.counting T P size) st
  | notFound {T : CarType} {P : RentalPeriod} {st : Store ι} : st.sizes T = none →
      Advance engine users i none (.finding T P) st (.done (.error (carTypeNotFound T))) st
  | count {T : CarType} {P : RentalPeriod} {size : Nat} {st : Store ι} :
      Advance engine users i none (.counting T P size) st
        (.done (.ok (some (.free
          (FleetSchedule.remaining { fleetSize := size, booked := st.table.bookedDuring T P } P))))) st
  | list {customer : Customer} {bookings : List Booking} {st : Store ι} :
      bookings.Perm (st.table.bookings.filter fun b => b.customerId == customer.id) →
      (bookings.Pairwise fun a b => b.period.start ≤ a.period.start) →
      Advance engine users i none (.listing customer) st (.done (.ok (some (.listed bookings)))) st

end

/-! ## What a job knows -/

/-- The block belongs to the job. -/
def Block.Of (job : Job) : Block → Prop
  | .reserve r key => job = .call (.reserve r) ∧ IdempotencyKey.new r.idempotencyKey = .ok key
  | .cancel bookingId actor now => job = .call (.cancel bookingId actor now)
  | .edit carType fleetSize => job = .edit carType fleetSize

/-- A booking was made under the call's key. -/
def Spent (t : Table) (r : Reserve) (key : IdempotencyKey) : Prop :=
  ∃ b ∈ t.bookings, b.HasKey r.customer.id key

section

variable {ι : Type}

/-- The fleet's row is locked, and has the size read from it. -/
def HasFleet (i : ι) (st : Store ι) (carType : CarType) (size : Nat) : Prop :=
  st.fleetLock carType = some i ∧ st.sizes carType = some size

/-- How the result of a block and what it has changed belong together. -/
def EndOk (i : ι) (st : Store ι) (block : Block) (x : Result) : Option Change → Prop
  | none => x = .error .duplicateIdempotencyKey → ∃ r key, block = .reserve r key ∧ Spent st.table r key
  | some (.book b) => ∃ r key, block = .reserve r key ∧ x = .ok (some (.booked ⟨b, false⟩)) ∧
      b.HasKey r.customer.id key ∧ b.carType = r.carType ∧ b.period = r.period
  | some (.cancel id now) => ∃ actor, block = .cancel id actor now ∧ st.bookingLock id = some i ∧
      ∃ b ∈ st.table.bookings, b.id = id ∧ b.mayBeManagedBy actor = true ∧
        x = .ok (some (.cancelled (cancelledCopy b now)))
  | some (.resize carType size) => block = .edit carType size ∧ x = .ok none

/-- What a job knows at each phase. -/
def PhaseOk (i : ι) (st : Store ι) (job : Job) : Phase → Prop
  | .idle => True
  | .opening block => block.Of job
  | .looking r key size => (Block.reserve r key).Of job ∧ HasFleet i st r.carType size
  | .scheduling r key size => (Block.reserve r key).Of job ∧ HasFleet i st r.carType size ∧
      r.policy.validate r.period r.now = .ok ()
  | .adding r key size => (Block.reserve r key).Of job ∧ HasFleet i st r.carType size ∧
      r.policy.validate r.period r.now = .ok () ∧ ∀ x, r.period.Covers x → st.table.usage r.carType x < size
  | .saving b actor now => (Block.cancel b.id actor now).Of job ∧ st.bookingLock b.id = some i ∧
      b ∈ st.table.bookings ∧ b.mayBeManagedBy actor = true ∧ b.status = .active ∧ now < b.period.stop
  | .ending block x change => block.Of job ∧ EndOk i st block x change
  | .retrying r key => (Block.reserve r key).Of job ∧ Spent st.table r key
  | .finding carType period => ∃ policy now, job = .call (.availability policy carType period now)
  | .counting carType period _ => (∃ policy now, job = .call (.availability policy carType period now)) ∧
      (st.sizes carType).isSome = true
  | .listing customer => job = .call (.reservationsFor customer)
  | .done _ => True

/-! ## What a job knows stays true under the steps of the others -/

theorem Spent.later {t t' : Table} {r : Reserve} {key : IdempotencyKey} (h : Spent t r key) (l : t.Later t') :
    Spent t' r key := by
  obtain ⟨b, hb, hk⟩ := h
  obtain ⟨b', hb', origin, -⟩ := l b hb
  exact ⟨b', hb', origin.customerId ▸ hk.1, origin.idempotencyKey ▸ hk.2⟩

theorem HasFleet.stable {i : ι} {st st' : Store ι} {carType : CarType} {size : Nat} (h : HasFleet i st carType size)
    (others : Store.Interferes i st st') : HasFleet i st' carType size :=
  ⟨others.fleetLock _ h.1, (others.fleet _ h.1).2.trans h.2⟩

theorem EndOk.stable {i : ι} {st st' : Store ι} {block : Block} {x : Result} {change : Option Change}
    (h : EndOk i st block x change) (others : Store.Interferes i st st') : EndOk i st' block x change := by
  rcases change with _ | (b | ⟨id, now⟩ | ⟨T, n⟩)
  · intro e
    obtain ⟨r, key, isBlock, spent⟩ := h e
    exact ⟨r, key, isBlock, spent.later others.later⟩
  · exact h
  · obtain ⟨actor, isBlock, lock, b, hb, e, managed, result⟩ := h
    exact ⟨actor, isBlock, others.bookingLock _ lock, b, others.booking _ lock b hb e, e, managed, result⟩
  · exact h

theorem PhaseOk.stable {i : ι} {st st' : Store ι} {job : Job} {ph : Phase} (h : PhaseOk i st job ph)
    (others : Store.Interferes i st st') : PhaseOk i st' job ph := by
  cases ph with
  | looking r key size => exact ⟨h.1, h.2.stable others⟩
  | scheduling r key size => exact ⟨h.1, h.2.1.stable others, h.2.2⟩
  | adding r key size =>
    obtain ⟨isJob, fleet, valid, room⟩ := h
    have quiet := (others.fleet _ fleet.1).1
    exact ⟨isJob, fleet.stable others, valid, fun x hx => lt_of_le_of_lt (quiet.usage_le x) (room x hx)⟩
  | saving b actor now =>
    obtain ⟨isJob, lock, hb, rest⟩ := h
    exact ⟨isJob, others.bookingLock _ lock, others.booking _ lock b hb rfl, rest⟩
  | ending block x change => exact ⟨h.1, h.2.stable others⟩
  | retrying r key => exact ⟨h.1, h.2.later others.later⟩
  | counting T P size => exact ⟨h.1, others.known _ h.2⟩
  | _ => exact h

/-! ## A job's own step -/

theorem pending_afterLook (r : Reserve) (key : IdempotencyKey) (size : Nat) (found : Option Booking) :
    (afterLook r key size found).pending = none := by
  unfold afterLook
  cases found with
  | some existing => rfl
  | none => dsimp only; split <;> rfl

theorem pending_afterSchedule (r : Reserve) (key : IdempotencyKey) (size : Nat) (booked : List RentalPeriod) :
    (afterSchedule r key size booked).pending = none := by
  unfold afterSchedule
  split <;> rfl

theorem pending_afterFound (id : Int) (actor : Customer) (now : Instant) (found : Option Booking) :
    (afterFound id actor now found).pending = none := by
  unfold afterFound
  cases found with
  | none => rfl
  | some b => dsimp only; split_ifs <;> rfl

theorem pending_afterFail (block : Block) (e : Exn) : (afterFail block e).pending = none := by
  cases block with
  | reserve r key => cases e <;> rfl
  | _ => rfl

variable [DecidableEq ι] {engine : Engine} {users : List Int} {i : ι} {w : Option Wait} {ph ph' : Phase}
  {st st' : Store ι} {job : Job}

/-- The store holds what the job has changed. -/
theorem Advance.pending (h : Advance engine users i w ph st ph' st') (tied : st.pending i = ph.pending) :
    st'.pending i = ph'.pending := by
  cases h with
  | look => exact tied.trans (pending_afterLook ..).symm
  | schedule => exact tied.trans (pending_afterSchedule ..).symm
  | add free unused => exact Store.pending_book ..
  | lockBooking found free => exact tied.trans (pending_afterFound ..).symm
  | noBooking missing => exact tied.trans (pending_afterFound ..).symm
  | save => exact Store.pending_change ..
  | resize known free => exact Store.pending_change ..
  | commit accepted => exact Store.pending_committed ..
  | refuse missing => exact Store.pending_finish ..
  | rollback => exact (Store.pending_finish ..).trans (pending_afterFail ..).symm
  | _ => exact tied

/-- Every step of a job is one of the protocol. -/
theorem Advance.step (h : Advance engine users i w ph st ph' st') (tied : st.pending i = ph.pending)
    (ok : PhaseOk i st job ph) : Store.Step engine i st st' := by
  cases h with
  | lockFleet size free => exact .lockFleet tied free
  | add free unused =>
    obtain ⟨-, fleet, -, room⟩ := ok
    exact .book tied fleet.1 fleet.2 free unused room
  | addLost taken => exact .draw tied
  | addBusy => exact .draw tied
  | lockBooking found free => exact .lockBooking tied free
  | save =>
    obtain ⟨-, lock, hb, -, active, running⟩ := ok
    exact .cancel tied lock hb active running
  | resize known free => exact .resize tied free known
  | commit accepted => exact .commit
  | refuse missing => exact .rollback
  | rollback => exact .rollback
  | _ => exact .none

omit [DecidableEq ι] in
/-- Most blocks end without having lost a key. -/
theorem endOk_none {block : Block} {x : Result} (h : x ≠ .error .duplicateIdempotencyKey) : EndOk i st block x none :=
  fun e => absurd e h

omit [DecidableEq ι] in
theorem phaseOk_afterLook {r : Reserve} {key : IdempotencyKey} {size : Nat} (isJob : (Block.reserve r key).Of job)
    (fleet : HasFleet i st r.carType size) :
    PhaseOk i st job (afterLook r key size (st.table.findByKey r.customer.id key)) := by
  cases found : st.table.findByKey r.customer.id key with
  | some existing => exact ⟨isJob, fun _ => ⟨r, key, rfl, existing, Table.findByKey_some found⟩⟩
  | none =>
    simp only [afterLook]
    cases valid : r.policy.validate r.period r.now with
    | error e =>
      have refused : (.error e : Result) ≠ .error .duplicateIdempotencyKey := by
        rcases BookingPolicy.validate_error valid with ⟨m, rfl⟩ | ⟨rfl, -⟩ <;> simp
      exact ⟨isJob, endOk_none refused⟩
    | ok _ => exact ⟨isJob, fleet, valid⟩

omit [DecidableEq ι] in
theorem phaseOk_afterFound {actor : Customer} {now : Instant} {b : Booking} (isJob : (Block.cancel b.id actor now).Of job)
    (lock : st.bookingLock b.id = some i) (hb : b ∈ st.table.bookings) :
    PhaseOk i st job (afterFound b.id actor now (some b)) := by
  simp only [afterFound]
  by_cases managed : b.mayBeManagedBy actor = true
  · rw [if_pos managed]
    cases gone : b.isCancelled with
    | true => exact ⟨isJob, endOk_none (by simp)⟩
    | false =>
      by_cases ended : b.period.stop ≤ now
      · rw [if_neg (by simp), if_pos ended]
        exact ⟨isJob, endOk_none (by simp)⟩
      · rw [if_neg (by simp), if_neg ended]
        exact ⟨isJob, lock, hb, managed, Booking.isCancelled_eq_false.1 gone, not_le.1 ended⟩
  · rw [if_neg managed]
    exact ⟨isJob, endOk_none (by simp [reservationNotFound])⟩

/-- A block that raises has changed nothing. -/
theorem EndOk.unchanged {ι : Type} {i : ι} {st : Store ι} {block : Block} {e : Exn} {change : Option Change}
    (h : EndOk i st block (.error e) change) : change = none := by
  rcases change with _ | (b | ⟨id, now⟩ | ⟨T, n⟩)
  · rfl
  · obtain ⟨r, key, -, result, -⟩ := h
    cases result
  · obtain ⟨actor, -, -, b, -, -, -, result⟩ := h
    cases result
  · cases h.2

/-- A duplicate key is all that a second lookup follows. -/
theorem phaseOk_afterFail {block : Block} {e : Exn} {change : Option Change} (isJob : block.Of job)
    (ended : EndOk i st block (.error e) change) : PhaseOk i (st.finish i) job (afterFail block e) := by
  obtain rfl := ended.unchanged
  by_cases lost : e = .duplicateIdempotencyKey
  · obtain ⟨r, key, rfl, spent⟩ := ended (congrArg Except.error lost)
    subst lost
    exact ⟨isJob, spent⟩
  · rw [afterFail_of_ne block lost]
    trivial

/-- What the job knows after its own step. -/
theorem Advance.phaseOk (h : Advance engine users i w ph st ph' st') (ok : PhaseOk i st job ph) :
    PhaseOk i st' job ph' := by
  cases h with
  | lockFleet size free => exact ⟨ok, Function.update_self .., size⟩
  | noFleet missing => exact ⟨ok, endOk_none (by simp [carTypeNotFound])⟩
  | fleetBusy => exact ⟨ok, endOk_none (by simp [Postgres.fleetBusy])⟩
  | look => exact phaseOk_afterLook ok.1 ok.2
  | schedule =>
    unfold afterSchedule
    obtain ⟨isJob, fleet, valid⟩ := ok
    split
    · exact ⟨isJob, fleet, valid, (st.table.canAccommodate_iff _ _ _).1 ‹_›⟩
    · exact ⟨isJob, endOk_none (by simp [noAvailability])⟩
  | add free unused => exact ⟨ok.1, _, _, rfl, rfl, ⟨rfl, rfl⟩, rfl, rfl⟩
  | addLost taken => exact ⟨ok.1, fun _ => ⟨_, _, rfl, taken⟩⟩
  | addBusy => exact ⟨ok.1, endOk_none (by simp [timedOut])⟩
  | retry => trivial
  | lockBooking found free => exact phaseOk_afterFound ok (Function.update_self ..) (Table.get_some found).1
  | noBooking missing => exact ⟨ok, endOk_none (by simp [reservationNotFound])⟩
  | bookingBusy => exact ⟨ok, endOk_none (by simp [timedOut])⟩
  | save =>
    obtain ⟨isJob, lock, hb, managed, -, -⟩ := ok
    exact ⟨isJob, _, rfl, lock, _, hb, rfl, managed, rfl⟩
  | resize known free => exact ⟨ok, rfl, rfl⟩
  | noResize => exact ⟨ok, endOk_none (by simp)⟩
  | resizeBusy => exact ⟨ok, endOk_none (by simp [timedOut])⟩
  | commit accepted => trivial
  | refuse missing => trivial
  | rollback => exact phaseOk_afterFail ok.1 ok.2
  | find size => exact ⟨ok, Option.isSome_iff_exists.2 ⟨_, size⟩⟩
  | notFound missing => trivial
  | count => trivial
  | list perm sorted => trivial

/-! ## The statements lead where the phases do -/

@[simp] theorem read_joined (fleetId : CarType → Int) (sizes : FleetSizes) (found : Option Booking) :
    read (found.map (joinedRow fleetId sizes)) = .ok found := by
  cases found with
  | none => rfl
  | some b =>
    simp only [Option.map_some, read, toBooking_joinedRow]
    rfl

theorem thread_afterLook (fleetId : CarType → Int) (r : Reserve) (key : IdempotencyKey) (size : Nat)
    (found : Option Booking) : (afterLook r key size found).thread fleetId =
      .running (match found with
        | some existing => endCode (.reserve r key) (reserved (replay existing r.carType r.period))
        | none =>
          match r.policy.validate r.period r.now with
          | .error e => endCode (.reserve r key) (.error e)
          | .ok _ => scheduleCode r key (fleetRow fleetId r.carType size)) := by
  cases found with
  | some existing => rfl
  | none =>
    simp only [afterLook]
    cases r.policy.validate r.period r.now <;> rfl

theorem thread_afterSchedule (fleetId : CarType → Int) (r : Reserve) (key : IdempotencyKey) (size : Nat)
    (booked : List RentalPeriod) : (afterSchedule r key size booked).thread fleetId =
      .running (if FleetSchedule.canAccommodate { fleetSize := size, booked } r.period then
          addCode r key (fleetRow fleetId r.carType size)
        else endCode (.reserve r key) (.error (noAvailability r.carType r.period))) := by
  unfold afterSchedule
  split <;> rfl

theorem thread_afterFound (fleetId : CarType → Int) (id : Int) (actor : Customer) (now : Instant)
    (found : Option Booking) :
    (afterFound id actor now found).thread fleetId = .running (cancelCode id actor now found) := by
  cases found with
  | none => rfl
  | some b =>
    simp only [afterFound, cancelCode]
    split_ifs <;> rfl

/-- The response `x` of statement `e` takes the job to the phase where `next` is
its code, and `db'` stands for the store there. -/
def Leads (engine : Engine) (users : List Int) (fleetId : CarType → Int) (i : ι) (ph : Phase) (st : Store ι) {β : Type}
    (e : Sql β) (x : β) (next : Code) (db' : Db ι) : Prop :=
  ∃ ph' st', Advance engine users i (waited e x) ph st ph' st' ∧ ph'.thread fleetId = .running next ∧
    Mirrors users fleetId st' db'

section Leads

variable {fleetId : CarType → Int} {db db' : Db ι} {β : Type} {e : Sql β} {k : β → Code} {x : β}

theorem leads_opening (mirrors : Mirrors users fleetId st db) (idle : st.pending i = none) {block : Block}
    (h : openCode block = .step e k) (hx : (x, db') ∈ (postgres engine ι).exec i e db) :
    Leads engine users fleetId i (.opening block) st e x (k x) db' := by
  cases block with
  | reserve r key =>
    cases h
    rcases mirrors.exec_lockFleet idle r.carType with ⟨size, resp⟩ | ⟨n, size, ⟨free, resp⟩ | ⟨-, resp⟩⟩ <;>
      obtain ⟨rfl, after⟩ := resp.only hx
    · exact ⟨_, _, .noFleet size, rfl, after⟩
    · exact ⟨_, _, .lockFleet size free, rfl, after⟩
    · exact ⟨_, _, .fleetBusy, rfl, after⟩
  | cancel id actor now =>
    cases h
    rcases mirrors.exec_lockReservation idle id with ⟨missing, resp⟩ | ⟨b, found, ⟨free, resp⟩ | ⟨-, resp⟩⟩ <;>
      obtain ⟨rfl, after⟩ := resp.only hx
    · exact ⟨_, _, .noBooking missing, thread_afterFound .., after⟩
    · obtain ⟨-, rfl⟩ := Table.get_some found
      refine ⟨_, _, .lockBooking found free, ?_, after⟩
      have reads := read_joined fleetId st.sizes (some b)
      rw [Option.map_some] at reads
      simp only [thread_afterFound, reads]
    · exact ⟨_, _, .bookingBusy, rfl, after⟩
  | edit T n =>
    cases h
    rcases mirrors.exec_resize idle T n with ⟨-, resp⟩ | ⟨known, free, resp⟩ | ⟨-, resp⟩ <;>
      obtain ⟨rfl, after⟩ := resp.only hx
    · exact ⟨_, _, .noResize, rfl, after⟩
    · exact ⟨_, _, .resize known free, rfl, after⟩
    · exact ⟨_, _, .resizeBusy, rfl, after⟩

theorem leads_adding (mirrors : Mirrors users fleetId st db) (idle : st.pending i = none) {r : Reserve}
    {key : IdempotencyKey} {size : Nat} (h : addCode r key (fleetRow fleetId r.carType size) = .step e k)
    (hx : (x, db') ∈ (postgres engine ι).exec i e db) :
    Leads engine users fleetId i (.adding r key size) st e x (k x) db' := by
  cases h
  rcases mirrors.exec_insert idle r.carType r.customer.id r.period key with
    ⟨-, resp⟩ | ⟨taken, resp⟩ | ⟨free, unused, resp⟩ <;> obtain ⟨rfl, after⟩ := resp.only hx
  · exact ⟨_, _, .addBusy, rfl, after⟩
  · exact ⟨_, _, .addLost taken, rfl, after⟩
  · refine ⟨_, _, .add free unused, ?_, after⟩
    have decoded : (encode fleetId (st.fresh engine r.carType r.customer.id r.period key)).toBooking r.carType =
        .ok (st.fresh engine r.carType r.customer.id r.period key) := toBooking_encode fleetId _
    simp only [inserted, decoded]
    rfl

theorem leads_ending (mirrors : Mirrors users fleetId st db) (inv : Store.Inv engine st) {block : Block} {y : Result}
    {change : Option Change} (tied : st.pending i = change) (h : endCode block y = .step e k)
    (hx : (x, db') ∈ (postgres engine ι).exec i e db) :
    Leads engine users fleetId i (.ending block y change) st e x (k x) db' := by
  cases y with
  | error ex =>
    cases h
    obtain ⟨-, after⟩ := (mirrors.exec_rollback i).only hx
    exact ⟨_, _, .rollback, thread_afterFail .., after⟩
  | ok reply =>
    cases h
    rcases mirrors.exec_commit fun c hc => (inv.changes i c hc).allows with
      ⟨accepted, resp⟩ | ⟨c, hc, missing, resp⟩ <;> obtain ⟨rfl, after⟩ := resp.only hx
    · rw [tied] at accepted
      exact ⟨_, _, .commit accepted, rfl, after⟩
    · rw [tied] at hc
      subst hc
      refine ⟨_, _, .refuse missing, ?_, after⟩
      cases block <;> rfl

end Leads

/-- Whatever the code of a phase executes next is the phase's step. -/
theorem advance_of_exec {fleetId : CarType → Int} {db db' : Db ι} (mirrors : Mirrors users fleetId st db)
    (inv : Store.Inv engine st) (tied : st.pending i = ph.pending)
    (ok : PhaseOk i st job ph) {β : Type} {e : Sql β} {k : β → Code} {x : β}
    (h : ph.thread fleetId = .running (.step e k)) (hx : (x, db') ∈ (postgres engine ι).exec i e db) :
    Leads engine users fleetId i ph st e x (k x) db' := by
  cases ph with
  | idle => cases h
  | done x => cases h
  | opening block => exact leads_opening mirrors tied (Thread.running.inj h) hx
  | looking r key size =>
    cases h
    obtain ⟨rfl, after⟩ := (mirrors.exec_selectByKey tied r.customer.id key).only hx
    refine ⟨_, _, .look, ?_, after⟩
    dsimp only
    rw [thread_afterLook, read_joined]
    cases st.table.findByKey r.customer.id key <;> rfl
  | scheduling r key size =>
    cases h
    have known : (st.sizes r.carType).isSome = true := Option.isSome_iff_exists.2 ⟨_, ok.2.1.2⟩
    obtain ⟨rows, decoded, resp⟩ := mirrors.exec_selectOverlapping tied known r.period
    obtain ⟨rfl, after⟩ := resp.only hx
    refine ⟨_, _, .schedule, ?_, after⟩
    dsimp only
    rw [thread_afterSchedule, decoded]
    rfl
  | adding r key size => exact leads_adding mirrors tied (Thread.running.inj h) hx
  | saving b actor now =>
    cases h
    obtain ⟨-, lock, hb, -⟩ := ok
    have found := Table.get_of_mem inv.stored.ids hb
    obtain ⟨rfl, after⟩ := (mirrors.exec_update tied found lock now).only hx
    exact ⟨_, _, .save, rfl, after⟩
  | ending block y change => exact leads_ending mirrors inv tied (Thread.running.inj h) hx
  | retrying r key =>
    cases h
    obtain ⟨rfl, after⟩ := (mirrors.exec_selectByKey tied r.customer.id key).only hx
    refine ⟨_, _, .retry, ?_, after⟩
    dsimp only
    rw [read_joined]
    rfl
  | finding T P =>
    cases h
    obtain ⟨rfl, after⟩ := (mirrors.exec_selectFleet tied T).only hx
    cases size : st.sizes T with
    | none => exact ⟨_, _, .notFound size, rfl, after⟩
    | some n => exact ⟨_, _, .find size, rfl, after⟩
  | counting T P size =>
    cases h
    obtain ⟨rows, decoded, resp⟩ := mirrors.exec_selectOverlapping tied ok.2 P
    obtain ⟨rfl, after⟩ := resp.only hx
    refine ⟨_, _, .count, ?_, after⟩
    dsimp only
    rw [decoded]
    rfl
  | listing customer =>
    cases h
    obtain ⟨bookings, rows, decoded, perm, sorted, resp⟩ := mirrors.exec_selectByUser tied customer.id
    obtain ⟨rfl, after⟩ := resp.only hx
    refine ⟨_, _, .list perm sorted, ?_, after⟩
    dsimp only
    rw [decoded]
    rfl

end

end Postgres

end VehicleRentals
