import VehicleRentals.Domain.Renaming
import VehicleRentals.Memory.Answers
import VehicleRentals.Postgres.Jobs

/-!
# The two ledgers are observationally equivalent

Calls made one at a time on the database answer as they do in memory, up to the
ids its sequence yields. The database stands for the memory's table, renamed:
every call keeps that, whatever it returns or raises (`solo_call`).
-/

namespace VehicleRentals

open Concurrent

/-- With nobody else on the database, the code ends with `x` and leaves a
database that stands for `st`. -/
def Ends {ι α : Type} [DecidableEq ι] (engine : Engine) (users : List Int) (fleetId : CarType → Int) (i : ι)
    (p : Prog Sql α) (db : Db ι) (x : α) (st : Store ι) : Prop :=
  ∃ db', (postgres engine ι).solo i p db = some (x, db') ∧ Mirrors users fleetId st db'

/-- The reservation table keeps its primary key and its three constraints. -/
structure Tables.Valid (t : Tables) : Prop where
  ids : (t.reservations.map (·.id)).Nodup
  endAfterStart : ∀ row ∈ t.reservations, row.endAfterStart = true
  cancelledAtMatchesStatus : ∀ row ∈ t.reservations, row.cancelledAtMatchesStatus = true
  keys : (t.reservations.map fun row => (row.userId, row.idempotencyKey)).Nodup

namespace Postgres

/-- The id the database's sequence yields where the memory's counts to `n`. -/
def yields (engine : Engine) (drawn : Int) : Int ≃ Int := (Equiv.addRight (drawn - 1)).trans engine.serial

/-- The store of a database that nobody is using, where the memory has the table `t`. -/
abbrev stored (ι : Type) (engine : Engine) (drawn : Int) (sizes : FleetSizes) (t : Table) : Store ι :=
  quiet ι (t.renamed (yields engine drawn) (drawn - 1)) sizes

/-- The code, run alone, does what the memory answers. -/
def Answers {ι : Type} [DecidableEq ι] (engine : Engine) (users : List Int) (fleetId : CarType → Int)
    (sizes : FleetSizes) (drawn : Int) (i : ι) (p : Code) (db : Db ι) (answer : Outcome × Table) : Prop :=
  ∃ x, Agree (yields engine drawn) answer.1 x ∧
    Ends engine users fleetId i p db (x.map some) (stored ι engine drawn sizes answer.2)

variable {ι : Type} [DecidableEq ι] {engine : Engine} {users : List Int} {fleetId : CarType → Int}
  {sizes : FleetSizes} {drawn : Int} {i : ι}

/-! ## Locks taken and given up -/

theorem released_none {κ : Type} : Db.released (fun _ : κ => none) i = fun _ => none := by
  funext k
  simp [Db.released]

theorem released_taken {κ : Type} [DecidableEq κ] (k : κ) :
    Db.released (Function.update (fun _ => none) k (some i)) i = fun _ => none := by
  funext k'
  by_cases e : k' = k
  · subst e
    simp [Db.released]
  · simp [Db.released, Function.update_of_ne e]

theorem finish_quiet (t : Table) : (quiet ι t sizes).finish i = quiet ι t sizes := by
  simp only [Store.finish, quiet, released_none, Function.update_eq_self]

theorem finish_fleet (t : Table) (T : CarType) : ((quiet ι t sizes).lockFleet T i).finish i = quiet ι t sizes := by
  simp only [Store.finish, Store.lockFleet, quiet, released_none, released_taken, Function.update_eq_self]

theorem finish_booking (t : Table) (id : Int) : ((quiet ι t sizes).lockBooking id i).finish i = quiet ι t sizes := by
  simp only [Store.finish, Store.lockBooking, quiet, released_none, released_taken, Function.update_eq_self]

theorem committed_book (t : Table) (b : Booking) (T : CarType) :
    (((quiet ι t sizes).lockFleet T i).book i b).committed i = quiet ι (t.push b) sizes := by
  simp only [Store.committed, Store.book, Store.change, Store.draw, Store.lockFleet, Function.update_self,
    Store.commit, Store.finish, quiet, released_none, released_taken, Function.update_idem, Function.update_eq_self]
  rfl

theorem committed_cancel (t : Table) (id : Int) (now : Instant) :
    (((quiet ι t sizes).lockBooking id i).change i (.cancel id now)).committed i =
      quiet ι (t.cancelled id now) sizes := by
  simp only [Store.committed, Store.change, Store.lockBooking, Function.update_self, Store.commit, Store.finish,
    quiet, released_none, released_taken, Function.update_idem, Function.update_eq_self]

/-! ## The stages of a call -/

section Stages

variable {t : Table} {db : Db ι}

theorem Answers.step {β : Type} {e : Sql β} {k : β → Code} {r : β} {st : Store ι} {answer : Outcome × Table}
    (h : Responds engine users fleetId i e db r st)
    (next : ∀ db', Mirrors users fleetId st db' → Answers engine users fleetId sizes drawn i (k r) db' answer) :
    Answers engine users fleetId sizes drawn i (.step e k) db answer := by
  obtain ⟨db', mirrors, goesOn⟩ := h.solo k
  obtain ⟨x, agree, db'', ends, left⟩ := next db' mirrors
  exact ⟨x, agree, db'', goesOn.trans ends, left⟩

/-- Raising an exception of the same class. -/
theorem answers_raised {e e' : Exn} (same : e'.className = e.className)
    (h : Mirrors users fleetId (stored ι engine drawn sizes t) db) :
    Answers engine users fleetId sizes drawn i (.ret (.error e')) db (.error e, t) :=
  ⟨.error e', .raised same, db, rfl, h⟩

/-- A block that raises is rolled back. -/
theorem answers_refused {st : Store ι} {e e' : Exn} (block : Block) (same : e'.className = e.className)
    (ne : e' ≠ .duplicateIdempotencyKey) (left : st.finish i = stored ι engine drawn sizes t)
    (h : Mirrors users fleetId st db) :
    Answers engine users fleetId sizes drawn i (endCode block (.error e')) db (.error e, t) := by
  refine .step (h.exec_rollback i) fun db' h' => ?_
  rw [failCode_of_ne block ne]
  exact answers_raised same (left ▸ h')

/-- A block that returns commits what it has changed. -/
theorem answers_granted {st : Store ι} {o : Outcome} {reply : Reply} (block : Block)
    (agree : Agree (yields engine drawn) o (.ok reply)) (allowed : ∀ c, st.pending i = some c → st.Allows c)
    (accepted : ∀ c, st.pending i = some c → c.Accepted users)
    (left : st.committed i = stored ι engine drawn sizes t) (h : Mirrors users fleetId st db) :
    Answers engine users fleetId sizes drawn i (endCode block (.ok (some reply))) db (o, t) := by
  rcases h.exec_commit allowed with ⟨-, responds⟩ | ⟨c, pending, no, -⟩
  · exact .step responds fun db' h' => ⟨.ok reply, agree, db', rfl, left ▸ h'⟩
  · exact absurd (accepted c pending) no

/-- A block that changes nothing. -/
theorem answers_unchanged {st : Store ι} {o : Outcome} {reply : Reply} (block : Block)
    (agree : Agree (yields engine drawn) o (.ok reply)) (idle : st.pending i = none)
    (left : st.finish i = stored ι engine drawn sizes t) (h : Mirrors users fleetId st db) :
    Answers engine users fleetId sizes drawn i (endCode block (.ok (some reply))) db (o, t) := by
  refine answers_granted block agree ?_ ?_ ?_ h
  · intro c pending
    rw [idle] at pending
    cases pending
  · intro c pending
    rw [idle] at pending
    cases pending
  · rw [Store.committed, idle]
    exact left

/-- Under the fleet's lock, an insert with an unused key stores the new booking. -/
theorem answers_add {r : Reserve} {key : IdempotencyKey} {size : Nat} (known : sizes r.carType = some size)
    (customer : r.customer.id ∈ users) (unused : ∀ b ∈ t.bookings, ¬ b.HasKey r.customer.id key)
    (h : Mirrors users fleetId ((stored ι engine drawn sizes t).lockFleet r.carType i) db) :
    Answers engine users fleetId sizes drawn i (addCode r key (fleetRow fleetId r.carType size)) db
      (.ok (.booked ⟨t.fresh r.carType r.customer.id r.period key, false⟩),
        t.push (t.fresh r.carType r.customer.id r.period key)) := by
  rcases h.exec_insert (i := i) rfl r.carType r.customer.id r.period key with
    ⟨held, -⟩ | ⟨⟨b, hb, hk⟩, -⟩ | ⟨-, -, responds⟩
  · simp [Db.grantable, Store.lockFleet, quiet] at held
  · obtain ⟨a, ha, rfl⟩ := List.mem_map.1 hb
    exact absurd hk (unused a ha)
  · refine .step responds fun db' h' => ?_
    have fresh : Store.fresh engine ((stored ι engine drawn sizes t).lockFleet r.carType i) r.carType r.customer.id
        r.period key = (t.fresh r.carType r.customer.id r.period key).renamed (yields engine drawn) := rfl
    rw [fresh] at h' ⊢
    have stores : inserted r.carType (.ok (encode fleetId
          ((t.fresh r.carType r.customer.id r.period key).renamed (yields engine drawn)))) =
        .ok ((t.fresh r.carType r.customer.id r.period key).renamed (yields engine drawn)) :=
      toBooking_encode fleetId _
    rw [stores]
    refine answers_granted (.reserve r key) (.booked _ false) ?_ ?_ ?_ h'
    · intro c pending
      rw [← Option.some.inj ((Store.pending_book ..).symm.trans pending)]
      exact Option.isSome_iff_exists.2 ⟨size, known⟩
    · intro c pending
      rw [← Option.some.inj ((Store.pending_book ..).symm.trans pending)]
      exact customer
    · rw [committed_book, stored, Table.push_renamed]

theorem answers_schedule {r : Reserve} {key : IdempotencyKey} {size : Nat} (known : sizes r.carType = some size)
    (customer : r.customer.id ∈ users) (unused : ∀ b ∈ t.bookings, ¬ b.HasKey r.customer.id key)
    (h : Mirrors users fleetId ((stored ι engine drawn sizes t).lockFleet r.carType i) db) :
    Answers engine users fleetId sizes drawn i (scheduleCode r key (fleetRow fleetId r.carType size)) db
      (if FleetSchedule.canAccommodate { fleetSize := size, booked := t.bookedDuring r.carType r.period } r.period then
        (.ok (.booked ⟨t.fresh r.carType r.customer.id r.period key, false⟩),
          t.push (t.fresh r.carType r.customer.id r.period key))
      else (.error (noAvailability r.carType r.period), t)) := by
  obtain ⟨rows, reads, responds⟩ := h.exec_selectOverlapping (i := i) rfl (T := r.carType)
    (Option.isSome_iff_exists.2 ⟨size, known⟩) r.period
  refine .step responds fun db' h' => ?_
  have booked : periods rows = .ok (t.bookedDuring r.carType r.period) :=
    reads.trans (congrArg Except.ok (Table.bookedDuring_renamed ..))
  have sized : (fleetRow fleetId r.carType size).fleetSize = size := rfl
  simp only [booked, sized]
  by_cases fits : FleetSchedule.canAccommodate
      { fleetSize := size, booked := t.bookedDuring r.carType r.period } r.period = true
  · rw [if_pos fits, if_pos fits]
    exact answers_add known customer unused h'
  · rw [if_neg fits, if_neg fits]
    exact answers_refused _ rfl (by simp [noAvailability]) (finish_fleet _ _) h'

/-- The block of `reserve` under the fleet's lock. -/
theorem answers_look {r : Reserve} {key : IdempotencyKey} {size : Nat}
    (parsed : IdempotencyKey.new r.idempotencyKey = .ok key) (known : sizes r.carType = some size)
    (customer : r.customer.id ∈ users)
    (h : Mirrors users fleetId ((stored ι engine drawn sizes t).lockFleet r.carType i) db) :
    Answers engine users fleetId sizes drawn i (lookCode r key (fleetRow fleetId r.carType size)) db
      (Memory.answerReserve sizes r t) := by
  refine .step (h.exec_selectByKey rfl r.customer.id key) fun db' h' => ?_
  have found : Table.findByKey ((stored ι engine drawn sizes t).lockFleet r.carType i).table r.customer.id key =
      (t.findByKey r.customer.id key).map (Booking.renamed (yields engine drawn)) := Table.findByKey_renamed ..
  simp only [read_joined, found, Memory.answerReserve, parsed, known]
  cases spent : t.findByKey r.customer.id key with
  | some existing =>
    simp only [Option.map_some, replay_renamed]
    unfold replay
    split
    · exact answers_unchanged _ (.booked existing true) rfl (finish_fleet _ _) h'
    · exact answers_refused _ rfl (by simp [idempotencyConflict]) (finish_fleet _ _) h'
  | none =>
    simp only [Option.map_none]
    cases valid : r.policy.validate r.period r.now with
    | error e => exact answers_refused _ rfl (Memory.validate_ne_duplicate valid) (finish_fleet _ _) h'
    | ok _ => exact answers_schedule known customer (Table.findByKey_none.1 spent) h'

theorem answers_reserve {r : Reserve} {key : IdempotencyKey} (parsed : IdempotencyKey.new r.idempotencyKey = .ok key)
    (customer : r.customer.id ∈ users) (h : Mirrors users fleetId (stored ι engine drawn sizes t) db) :
    Answers engine users fleetId sizes drawn i (openCode (.reserve r key)) db (Memory.answerReserve sizes r t) := by
  rcases h.exec_lockFleet (i := i) rfl r.carType with ⟨missing, responds⟩ | ⟨n, size, ⟨-, responds⟩ | ⟨held, -⟩⟩
  · have unknown : sizes r.carType = none := missing
    refine .step responds fun db' h' => ?_
    simp only [Memory.answerReserve, parsed, unknown]
    exact answers_refused _ rfl (by simp [carTypeNotFound]) (finish_quiet _) h'
  · exact .step responds fun db' h' => answers_look parsed size customer h'
  · cases held

/-- The block of `cancel` under the booking's lock. -/
theorem answers_found (sound : t.Sound sizes) {b : Booking} (hb : b ∈ t.bookings) (actor : Customer) (now : Instant)
    (h : Mirrors users fleetId ((stored ι engine drawn sizes t).lockBooking (yields engine drawn b.id) i) db) :
    Answers engine users fleetId sizes drawn i
      (cancelCode (yields engine drawn b.id) actor now (some (b.renamed (yields engine drawn)))) db
      ((Memory.cancelStep t b.id actor now).1.map .cancelled, (Memory.cancelStep t b.id actor now).2) := by
  -- what the code asks of the renamed booking it asks of the booking
  have code : cancelCode (yields engine drawn b.id) actor now (some (b.renamed (yields engine drawn))) =
      if b.mayBeManagedBy actor then
        if b.isCancelled then endCode (.cancel (yields engine drawn b.id) actor now)
          (.ok (some (.cancelled (b.renamed (yields engine drawn)))))
        else if b.period.stop ≤ now then endCode (.cancel (yields engine drawn b.id) actor now)
          (.error (.domain (.reservationNotCancellable "the rental period has already ended")))
        else saveCode (b.renamed (yields engine drawn)) actor now
      else endCode (.cancel (yields engine drawn b.id) actor now)
        (.error (reservationNotFound (yields engine drawn b.id))) := rfl
  rw [code]
  rcases Table.cancelStep_cases sound.ids_nodup b.id actor now with
    ⟨unmanaged, e⟩ | ⟨a, ha, id, managed, status, ended, e⟩ | ⟨a, ha, id, managed, status, e⟩ |
      ⟨a, ha, id, managed, status, running, e⟩ <;> rw [e]
  · simp only [unmanaged b hb rfl]
    exact answers_refused _ rfl (by simp [reservationNotFound]) (finish_booking ..) h
  · obtain rfl := sound.eq_of_id ha hb id
    simp only [managed, Booking.isCancelled_eq_false.2 status, ended, if_true]
    exact answers_refused _ rfl (by simp) (finish_booking ..) h
  · obtain rfl := sound.eq_of_id ha hb id
    simp only [managed, Booking.isCancelled_eq_true.2 status, if_true]
    exact answers_unchanged _ (.cancelled a) rfl (finish_booking ..) h
  · obtain rfl := sound.eq_of_id ha hb id
    simp only [managed, Booking.isCancelled_eq_false.2 status, not_le.2 running, if_true, if_false]
    have found : (t.renamed (yields engine drawn) (drawn - 1)).get (yields engine drawn a.id) =
        some (a.renamed (yields engine drawn)) := by
      rw [Table.get_renamed, sound.get_eq ha]
      rfl
    refine .step (h.exec_update (b := a.renamed (yields engine drawn)) rfl found (Function.update_self ..) now)
      fun db' h' => ?_
    have copy : Table.cancelAt a.id now a = cancelledCopy a now := if_pos rfl
    rw [copy]
    refine answers_granted _ (.cancelled (cancelledCopy a now)) ?_ ?_ ?_ h'
    · intro c pending
      rw [← Option.some.inj ((Store.pending_change ..).symm.trans pending)]
      trivial
    · intro c pending
      rw [← Option.some.inj ((Store.pending_change ..).symm.trans pending)]
      trivial
    · exact (committed_cancel ..).trans (congrArg (quiet ι · sizes) (Table.cancelled_renamed ..).symm)

theorem answers_cancel (sound : t.Sound sizes) (bookingId : Int) (actor : Customer) (now : Instant)
    (h : Mirrors users fleetId (stored ι engine drawn sizes t) db) :
    Answers engine users fleetId sizes drawn i (openCode (.cancel (yields engine drawn bookingId) actor now)) db
      ((Memory.cancelStep t bookingId actor now).1.map .cancelled, (Memory.cancelStep t bookingId actor now).2) := by
  have lookup : (stored ι engine drawn sizes t).table.get (yields engine drawn bookingId) =
      (t.get bookingId).map (Booking.renamed (yields engine drawn)) := Table.get_renamed ..
  rcases h.exec_lockReservation (i := i) rfl (yields engine drawn bookingId) with
    ⟨missing, responds⟩ | ⟨b', found, ⟨-, responds⟩ | ⟨held, -⟩⟩
  · rw [missing, eq_comm, Option.map_eq_none_iff] at lookup
    refine .step responds fun db' h' => ?_
    simp only [Memory.cancelStep, lookup]
    exact answers_refused _ rfl (by simp [reservationNotFound]) (finish_quiet _) h'
  · rw [found, eq_comm, Option.map_eq_some_iff] at lookup
    obtain ⟨b, there, rfl⟩ := lookup
    obtain ⟨hb, rfl⟩ := Table.get_some there
    refine .step responds fun db' h' => ?_
    have reads := read_joined fleetId (stored ι engine drawn sizes t).sizes (some (b.renamed (yields engine drawn)))
    rw [Option.map_some] at reads
    simp only [reads]
    exact answers_found sound hb actor now h'
  · cases held

theorem answers_availability {policy : BookingPolicy} {carType : CarType} {period : RentalPeriod} {now : Instant}
    (valid : policy.validate period now = .ok ()) (h : Mirrors users fleetId (stored ι engine drawn sizes t) db) :
    Answers engine users fleetId sizes drawn i (findCode carType period) db
      (Memory.answerAvailability sizes policy carType period now t, t) := by
  refine .step (h.exec_selectFleet rfl carType) fun db' h' => ?_
  have size : (stored ι engine drawn sizes t).sizes carType = sizes carType := rfl
  simp only [Memory.answerAvailability, valid, size]
  cases known : sizes carType with
  | none => exact answers_raised rfl h'
  | some n =>
    obtain ⟨rows, reads, responds⟩ := h'.exec_selectOverlapping (i := i) rfl (T := carType)
      (Option.isSome_iff_exists.2 ⟨n, known⟩) period
    refine .step responds fun db'' h'' => ?_
    have booked : periods rows = .ok (t.bookedDuring carType period) :=
      reads.trans (congrArg Except.ok (Table.bookedDuring_renamed ..))
    rw [booked]
    exact ⟨_, .free _, db'', rfl, h''⟩

/-- Both lists have the customer's bookings, latest pick-up first. -/
theorem answers_listing (customer : Customer) (h : Mirrors users fleetId (stored ι engine drawn sizes t) db) :
    Answers engine users fleetId sizes drawn i
      (.step (.selectByUser customer.id) fun rows => .ret ((rows.mapM toBooking).map fun bs => some (.listed bs))) db
      (.ok (.listed (t.bookingsOf customer.id)), t) := by
  obtain ⟨bs, rows, reads, perm, sorted, responds⟩ := h.exec_selectByUser (i := i) rfl customer.id
  refine .step responds fun db' h' => ?_
  rw [reads]
  have same : bs.Perm ((t.bookingsOf customer.id).map (Booking.renamed (yields engine drawn))) := by
    refine perm.trans ?_
    rw [stored, quiet, Table.filter_renamed]
    exact ((List.perm_insertionSort _ _).map _).symm
  refine ⟨_, .listed same ?_, db', rfl, h'⟩
  have starts : (bs.map (·.period.start)).Perm ((t.bookingsOf customer.id).map (·.period.start)) := by
    refine (same.map _).trans ?_
    rw [List.map_map]
    exact .refl _
  have latestFirst : (bs.map (·.period.start)).Pairwise fun a b => b ≤ a := List.pairwise_map.2 sorted
  have latestFirst' : ((t.bookingsOf customer.id).map (·.period.start)).Pairwise fun a b => b ≤ a :=
    List.pairwise_map.2 (Table.pairwise_latestFirst (fun b : Booking => b.period.start) _)
  exact starts.eq_of_pairwise (fun _ _ _ _ h h' => le_antisymm h' h) latestFirst latestFirst'

end Stages

/-! ## Whole calls -/

/-- A job's result is its call's. -/
theorem ends_of_job {call : Call} {db : Db ι} {x : Outcome} {st : Store ι}
    (h : Ends engine users fleetId i (Job.program (.call call)) db (x.map some) st) :
    Ends engine users fleetId i (call.program PostgresBookingLedger) db x st := by
  obtain ⟨db', ends, mirrors⟩ := h
  have job : (postgres engine ι).solo i (Job.program (.call call)) db =
      ((postgres engine ι).solo i (call.program PostgresBookingLedger) db).bind fun (y, s') =>
        some (y.map some, s') := Machine.solo_bind ..
  rw [job, Option.bind_eq_some_iff] at ends
  obtain ⟨⟨y, db''⟩, run, e⟩ := ends
  obtain ⟨same, rfl⟩ := Prod.mk.inj (Option.some.inj e)
  have unique : y = x := by
    cases x <;> cases y <;> cases same <;> rfl
  exact ⟨db'', unique ▸ run, mirrors⟩

/-- A call that nobody disturbs does on the database what it does in memory. -/
theorem solo_call {t : Table} (sound : t.Sound sizes) {db : Db ι} (call : Call)
    (customer : ∀ r, call = .reserve r → r.customer.id ∈ users)
    (h : Mirrors users fleetId (stored ι engine drawn sizes t) db) :
    ∃ x db', (postgres engine ι).solo i ((call.renamed (yields engine drawn)).program PostgresBookingLedger) db =
        some (x, db') ∧
      Agree (yields engine drawn) (Memory.answer sizes call t).1 x ∧
      Mirrors users fleetId (stored ι engine drawn sizes (Memory.answer sizes call t).2) db' := by
  have answers : Answers engine users fleetId sizes drawn i (Job.program (.call (call.renamed (yields engine drawn)))) db
      (Memory.answer sizes call t) := by
    have thread := thread_invoked fleetId (.call (call.renamed (yields engine drawn)))
    cases call with
    | reserve r =>
      cases parsed : IdempotencyKey.new r.idempotencyKey with
      | error e =>
        simp only [Call.renamed, invoked, parsed] at thread
        rw [Call.renamed, ← Thread.running.inj thread]
        simp only [Memory.answer, Memory.answerReserve, parsed]
        exact answers_raised rfl h
      | ok key =>
        simp only [Call.renamed, invoked, parsed] at thread
        rw [Call.renamed, ← Thread.running.inj thread]
        exact answers_reserve parsed (customer r rfl) h
    | cancel bookingId actor now =>
      rw [← Thread.running.inj thread]
      exact answers_cancel sound bookingId actor now h
    | availability policy carType period now =>
      cases valid : policy.validate period now with
      | error e =>
        simp only [Call.renamed, invoked, valid] at thread
        rw [Call.renamed, ← Thread.running.inj thread]
        simp only [Memory.answer, Memory.answerAvailability, valid]
        exact answers_raised rfl h
      | ok _ =>
        simp only [Call.renamed, invoked, valid] at thread
        rw [Call.renamed, ← Thread.running.inj thread]
        exact answers_availability valid h
    | reservationsFor owner =>
      rw [← Thread.running.inj thread]
      exact answers_listing owner h
  obtain ⟨x, agree, ends⟩ := answers
  obtain ⟨db', run, mirrors⟩ := ends_of_job ends
  exact ⟨x, db', run, agree, mirrors⟩

/-- What the client sees of a database exception it would see in memory too. -/
theorem Agree.not_database {ρ : Int ≃ Int} {o : Outcome} {e' : Exn} (h : Agree ρ o (.error e'))
    (memory : ∀ e, o = .error e → e.isDatabase = false) : e'.isDatabase = false := by
  cases h with
  | raised same => rw [Exn.isDatabase_congr same, memory _ rfl]

/-- Calls made one after another do on the database what they do in memory. -/
theorem solos_calls {t : Table} (sound : t.Sound sizes) {db : Db ι} (calls : List Call)
    (customers : ∀ r, .reserve r ∈ calls → r.customer.id ∈ users)
    (h : Mirrors users fleetId (stored ι engine drawn sizes t) db) :
    ∃ os t' os' db',
      (memory ι).solos i (calls.map fun call => call.program (InMemoryBookingLedger.new sizes)) (.at ι t) =
        some (os, .at ι t') ∧
      (postgres engine ι).solos i (calls.map fun call =>
        (call.renamed (yields engine drawn)).program PostgresBookingLedger) db = some (os', db') ∧
      List.Forall₂ (Agree (yields engine drawn)) os os' ∧ (∀ e, .error e ∈ os' → e.isDatabase = false) ∧
      t'.Sound sizes ∧ Mirrors users fleetId (stored ι engine drawn sizes t') db' := by
  induction calls generalizing t db with
  | nil => exact ⟨[], t, [], db, rfl, rfl, .nil, by simp, sound, h⟩
  | cons call calls ih =>
    obtain ⟨x, db₁, run, agree, h₁⟩ :=
      solo_call (i := i) sound call (fun r e => customers r (e ▸ List.mem_cons_self)) h
    obtain ⟨os, t', os', db', runs, runs', agrees, clean, sound', h'⟩ :=
      ih (Memory.answer_sound sound call) (fun r hr => customers r (List.mem_cons_of_mem _ hr)) h₁
    refine ⟨_ :: os, t', x :: os', db', Machine.solos_cons (Memory.solo_answer sound i call) runs,
      Machine.solos_cons run runs', .cons agree agrees, fun e he => ?_, sound', h'⟩
    rcases List.mem_cons.1 he with rfl | he
    · exact Agree.not_database agree fun _ => Memory.answer_not_database sound
    · exact clean e he

omit [DecidableEq ι] in
/-- The rows of bookings that were made keep the table's constraints. -/
theorem valid_of_sound {t : Table} (sound : t.Sound sizes) {db : Db ι}
    (h : Mirrors users fleetId (stored ι engine drawn sizes t) db) : db.tables.Valid := by
  have rows : db.tables.reservations = t.bookings.map (encode fleetId ∘ Booking.renamed (yields engine drawn)) := by
    rw [h.rows, ← List.map_map]
    rfl
  refine ⟨?_, ?_, ?_, ?_⟩
  · rw [rows, List.map_map]
    have ids := sound.ids_nodup.map (yields engine drawn).injective
    rwa [List.map_map] at ids
  · intro row hrow
    rw [rows] at hrow
    obtain ⟨b, -, rfl⟩ := List.mem_map.1 hrow
    exact decide_eq_true b.period.startsBeforeStop
  · intro row hrow
    rw [rows] at hrow
    obtain ⟨b, hb, rfl⟩ := List.mem_map.1 hrow
    have stamps := sound.stamps b hb
    show ((b.status.value == "cancelled" && b.cancelledAt.isSome) ||
      (b.status.value == "active" && b.cancelledAt.isNone)) = true
    cases status : b.status <;> cases stamp : b.cancelledAt <;> simp_all [BookingStatus.value]
  · rw [rows, List.map_map]
    have keys := sound.keys.map (f := fun k : Int × IdempotencyKey => (k.1, k.2.value)) fun a b e =>
      Prod.ext (Prod.mk.inj e).1 (key_inj.1 (Prod.mk.inj e).2)
    rwa [List.map_map] at keys

omit [DecidableEq ι] in
/-- Every row has its car type, and decodes to the booking that was stored. -/
theorem decoded {t : Table} {db : Db ι} (h : Mirrors users fleetId (stored ι engine drawn sizes t) db) :
    (db.tables.reservations.map fun row => (db.tables.carTypeOf row).map fun fleet => toBooking (row, fleet)) =
      t.bookings.map fun b => some (.ok (b.renamed (yields engine drawn))) := by
  rw [h.rows]
  show List.map _ (List.map _ (List.map _ _)) = _
  rw [List.map_map, List.map_map]
  refine List.map_congr_left fun b hb => ?_
  obtain ⟨n, size⟩ := Option.isSome_iff_exists.1 (h.known (b.renamed (yields engine drawn)) (List.mem_map_of_mem hb))
  have fleet : db.tables.carTypeOf (encode fleetId (b.renamed (yields engine drawn))) =
      some (fleetRow fleetId b.carType n) := h.withId _ n size
  simp only [Function.comp_apply, fleet, Option.map_some]
  exact congrArg some (toBooking_joined fleetId (b.renamed (yields engine drawn)) n)

/-- Whatever calls are made, one at a time, on a new memory ledger and on tables
with no bookings yet, by customers who exist: a client cannot tell the two
ledgers apart, given the one-to-one renaming of ids. No statement fails (every id
drawn is a stored row's), every row keeps the table's constraints, and decodes
to the booking that the memory holds. -/
theorem observationally_equivalent {ι : Type} [DecidableEq ι] (engine : Engine) {t : Tables} (fresh : NoBookings t)
    (drawn : Int) (i : ι) (calls : List Call) (customers : ∀ r, .reserve r ∈ calls → r.customer.id ∈ t.users) :
    ∃ os m os' db,
      (memory ι).solos i (calls.map fun call => call.program (InMemoryBookingLedger.new (fleetSizes t)))
        (.at ι .empty) = some (os, m) ∧
      (postgres engine ι).solos i (calls.map fun call =>
        (call.renamed (yields engine drawn)).program PostgresBookingLedger) (Db.quiet t drawn) = some (os', db) ∧
      List.Forall₂ (Agree (yields engine drawn)) os os' ∧
      (∀ e, .error e ∈ os' → e.isDatabase = false) ∧
      db.tables.Valid ∧ db.drawn = drawn + db.tables.reservations.length ∧
      (db.tables.reservations.map fun row => (db.tables.carTypeOf row).map fun fleet => toBooking (row, fleet)) =
        m.table.bookings.map fun b => some (.ok (b.renamed (yields engine drawn))) := by
  have start : Mirrors t.users (fleetIdOf t) (stored ι engine drawn (fleetSizes t) .empty) (Db.quiet t drawn) := by
    have ids : Table.empty.renamed (yields engine drawn) (drawn - 1) = { bookings := [], ids := drawn } := by
      simp only [Table.renamed, Table.empty, List.map_nil, Table.mk.injEq, true_and]
      omega
    rw [stored, ids]
    exact mirrors_start fresh drawn
  obtain ⟨os, t', os', db, run, run', agree, clean, sound, mirrors⟩ :=
    solos_calls (i := i) (Table.sound_empty _) calls customers start
  refine ⟨os, _, os', db, run, run', agree, clean, valid_of_sound sound mirrors, ?_, decoded mirrors⟩
  have ids : db.drawn = t'.ids + (drawn - 1) := mirrors.drawn
  have length : db.tables.reservations.length = t'.bookings.length := by
    rw [mirrors.rows, List.length_map]
    exact List.length_map _
  have next := sound.next
  omega

/-- The customer 7 books a sedan, retries, uses the key for a van, cancels and looks. -/
def springCalls : List Call :=
  [.reserve (springReserve .sedan), .reserve (springReserve .sedan), .reserve (springReserve .van),
    .cancel 1 { id := 7 } 10, .reservationsFor { id := 7 }]

/-- The ids of the bookings that `reserve` calls returned. -/
def returnedIds (os : List Outcome) : List (Option Int) := os.map fun o => o.returned.map (·.id)

theorem observationally_equivalent_spring : ∃ os m os' db,
    (memory Unit).solos () (springCalls.map fun call => call.program (InMemoryBookingLedger.new (fleetSizes smallTables)))
      (.at Unit .empty) = some (os, m) ∧
    (postgres plainEngine Unit).solos () (springCalls.map fun call =>
      (call.renamed (yields plainEngine 5)).program PostgresBookingLedger) (Db.quiet smallTables 5) = some (os', db) ∧
    List.Forall₂ (Agree (yields plainEngine 5)) os os' ∧
    returnedIds os = [some 1, some 1, none, none, none] ∧ returnedIds os' = [some 5, some 5, none, none, none] := by
  have customers : ∀ r, .reserve r ∈ springCalls → r.customer.id ∈ smallTables.users := by
    intro r hr
    have both : r = springReserve .sedan ∨ r = springReserve .van := by simpa [springCalls] using hr
    rcases both with rfl | rfl <;> decide
  obtain ⟨os, m, os', db, run, run', agree, -⟩ :=
    observationally_equivalent plainEngine noBookings_smallTables 5 () springCalls customers
  have ids : ((memory Unit).solos () (springCalls.map fun call =>
      call.program (InMemoryBookingLedger.new (fleetSizes smallTables))) (.at Unit .empty)).map (fun x => returnedIds x.1) =
        some [some 1, some 1, none, none, none] := by decide +kernel
  have ids' : ((postgres plainEngine Unit).solos () (springCalls.map fun call =>
      (call.renamed (yields plainEngine 5)).program PostgresBookingLedger) (Db.quiet smallTables 5)).map
        (fun x => returnedIds x.1) = some [some 5, some 5, none, none, none] := by decide +kernel
  rw [run] at ids
  rw [run'] at ids'
  exact ⟨os, m, os', db, run, run', agree, Option.some.inj ids, Option.some.inj ids'⟩

end Postgres

end VehicleRentals
