import VehicleRentals.Concurrent.Linearize
import VehicleRentals.Memory.Bookings

/-!
# Calls made one at a time

`answer` is a whole call as one function of the table: the sequential meaning
of the desk. A call that runs with nobody else on the ledger computes it
(`solo_answer`), and leaves the locks free.
-/

namespace VehicleRentals

open Concurrent

namespace Memory

/-- `reserve` from a table with nobody else on the ledger. -/
def answerReserve (sizes : FleetSizes) (r : Reserve) (t : Table) : Outcome × Table :=
  match IdempotencyKey.new r.idempotencyKey with
  | .error e => (.error e, t)
  | .ok key =>
    match sizes r.carType with
    | none => (.error (carTypeNotFound r.carType), t)
    | some size =>
      match t.findByKey r.customer.id key with
      | some existing => (reserved (replay existing r.carType r.period), t)
      | none =>
        match r.policy.validate r.period r.now with
        | .error e => (.error e, t)
        | .ok _ =>
          if FleetSchedule.canAccommodate
              { fleetSize := size, booked := t.bookedDuring r.carType r.period } r.period then
            let booking := t.fresh r.carType r.customer.id r.period key
            (.ok (.booked { booking, replayed := false }), t.push booking)
          else (.error (noAvailability r.carType r.period), t)

/-- `availability` from a table with nobody else on the ledger. -/
def answerAvailability (sizes : FleetSizes) (policy : BookingPolicy) (carType : CarType) (period : RentalPeriod)
    (now : Instant) (t : Table) : Outcome :=
  match policy.validate period now with
  | .error e => .error e
  | .ok _ =>
    match sizes carType with
    | none => .error (carTypeNotFound carType)
    | some size =>
      .ok (.free (FleetSchedule.remaining { fleetSize := size, booked := t.bookedDuring carType period } period))

/-- A call on a table: its outcome, and the table after it. -/
def answer (sizes : FleetSizes) : Call → Table → Outcome × Table
  | .reserve r, t => answerReserve sizes r t
  | .cancel bookingId actor now, t =>
    ((cancelStep t bookingId actor now).1.map .cancelled, (cancelStep t bookingId actor now).2)
  | .availability policy carType period now, t => (answerAvailability sizes policy carType period now t, t)
  | .reservationsFor customer, t => (.ok (.listed (t.bookingsOf customer.id)), t)

/-- What `reserve` does to a table: refuse or replay, or store one booking. -/
theorem answerReserve_cases (sizes : FleetSizes) (r : Reserve) (t : Table) :
    ((answerReserve sizes r t).2 = t ∧ (answerReserve sizes r t).1.created = none) ∨
    ∃ key size, IdempotencyKey.new r.idempotencyKey = .ok key ∧ sizes r.carType = some size ∧
      (∀ b ∈ t.bookings, ¬ b.HasKey r.customer.id key) ∧ r.policy.validate r.period r.now = .ok () ∧
      (∀ x, r.period.Covers x → t.usage r.carType x < size) ∧
      answerReserve sizes r t = (.ok (.booked ⟨t.fresh r.carType r.customer.id r.period key, false⟩),
        t.push (t.fresh r.carType r.customer.id r.period key)) := by
  unfold answerReserve
  cases IdempotencyKey.new r.idempotencyKey with
  | error e => exact .inl ⟨rfl, rfl⟩
  | ok key =>
    cases sizes r.carType with
    | none => exact .inl ⟨rfl, rfl⟩
    | some size =>
      cases found : t.findByKey r.customer.id key with
      | some existing => exact .inl ⟨by simp only [found], by simp only [found, created_replay]⟩
      | none =>
        simp only [found]
        cases r.policy.validate r.period r.now with
        | error e => exact .inl ⟨rfl, rfl⟩
        | ok _ =>
          by_cases fits : FleetSchedule.canAccommodate
              { fleetSize := size, booked := t.bookedDuring r.carType r.period } r.period = true
          · exact .inr ⟨key, size, rfl, rfl, Table.findByKey_none.1 found, rfl,
              (t.canAccommodate_iff r.carType size r.period).1 fits, by simp only [fits, if_true]⟩
          · exact .inl ⟨by simp only [fits]; rfl, by simp only [fits]; rfl⟩

theorem answer_sound {sizes : FleetSizes} {t : Table} (h : t.Sound sizes) (call : Call) :
    (answer sizes call t).2.Sound sizes := by
  cases call with
  | reserve r =>
    rcases answerReserve_cases sizes r t with ⟨e, -⟩ | ⟨key, size, -, known, unused, -, room, e⟩
    · simpa only [answer, e] using h
    · simpa only [answer, e] using h.push unused known room
  | cancel bookingId actor now =>
    simp only [answer]
    rcases Table.cancelStep_cases h.ids_nodup bookingId actor now with
      ⟨-, e⟩ | ⟨b, -, -, -, -, -, e⟩ | ⟨b, -, -, -, -, e⟩ | ⟨b, -, -, -, -, -, e⟩ <;> rw [e]
    · exact h
    · exact h
    · exact h
    · exact h.cancelled ..
  | availability policy carType period now => exact h
  | reservationsFor customer => exact h

theorem new_error {value : String} {e : Exn} (h : IdempotencyKey.new value = .error e) : e.isDatabase = false := by
  unfold IdempotencyKey.new at h
  split at h
  · cases h
  · cases h; rfl

theorem validate_not_database {policy : BookingPolicy} {period : RentalPeriod} {now : Instant} {e : Exn}
    (h : policy.validate period now = .error e) : e.isDatabase = false := by
  rcases BookingPolicy.validate_error h with ⟨m, rfl⟩ | ⟨rfl, -⟩ <;> rfl

/-- No call raises an exception that would come from a database. -/
theorem answer_not_database {sizes : FleetSizes} {t : Table} (sound : t.Sound sizes) {call : Call} {e : Exn}
    (h : (answer sizes call t).1 = .error e) : e.isDatabase = false := by
  cases call with
  | reserve r =>
    simp only [answer, answerReserve] at h
    split at h
    · cases h; exact new_error ‹_›
    · split at h
      · cases h; rfl
      · split at h
        · unfold replay at h
          split at h
          · cases h
          · cases h; rfl
        · split at h
          · cases h; exact validate_not_database ‹_›
          · split at h
            · cases h
            · cases h; rfl
  | cancel bookingId actor now =>
    simp only [answer] at h
    rcases Table.cancelStep_cases sound.ids_nodup bookingId actor now with
      ⟨-, eq⟩ | ⟨b, -, -, -, -, -, eq⟩ | ⟨b, -, -, -, -, eq⟩ | ⟨b, -, -, -, -, -, eq⟩ <;> rw [eq] at h <;> cases h <;> rfl
  | availability policy carType period now =>
    simp only [answer, answerAvailability] at h
    split at h
    · cases h; exact validate_not_database ‹_›
    · split at h
      · cases h; rfl
      · cases h
  | reservationsFor customer => cases h

/-! ## The code run alone computes it -/

section Solo

variable {ι : Type} {sizes : FleetSizes} {i : ι} {t : Table} {r : Reserve}

/-- The memory while thread `i` is alone inside the block of a car type. -/
abbrev inside (i : ι) (carType : CarType) (t : Table) : Memory ι :=
  ⟨t, Function.update (fun _ => none) carType (some i)⟩

theorem solo_release (key : IdempotencyKey) {x : Except Exn BookingResult} (h : x ≠ .error .duplicateIdempotencyKey) :
    (memory ι).solo i (releaseCode r key x) (inside i r.carType t) = some (reserved x, .at ι t) := by
  have freed : Function.update (Function.update (fun _ => none) r.carType (some i)) r.carType none =
      fun _ : CarType => (none : Option ι) := by
    rw [Function.update_idem, Function.update_eq_self]
  unfold releaseCode
  rw [Machine.solo_step rfl]
  simp only [freed]
  rfl

theorem solo_look {key : IdempotencyKey} {size : Nat} (sound : t.Sound sizes) (parsed : IdempotencyKey.new r.idempotencyKey = .ok key)
    (known : sizes r.carType = some size) :
    (memory ι).solo i (lookCode r key size) (inside i r.carType t) =
      some ((answerReserve sizes r t).1, .at ι (answerReserve sizes r t).2) := by
  rw [lookCode, Machine.solo_step rfl]
  simp only [answerReserve, parsed, known]
  cases found : t.findByKey r.customer.id key with
  | some existing => exact solo_release key (replay_ne_duplicate _ _ _)
  | none =>
    cases valid : r.policy.validate r.period r.now with
    | error e => exact solo_release key fun he => validate_ne_duplicate valid (Except.error.inj he)
    | ok _ =>
      simp only
      rw [scheduleCode, Machine.solo_step rfl]
      by_cases fits : FleetSchedule.canAccommodate
          { fleetSize := size, booked := t.bookedDuring r.carType r.period } r.period = true
      · rcases Table.add_cases sound r.carType r.customer.id r.period key with ⟨b, hb, hk, -⟩ | ⟨-, e⟩
        · exact absurd hk (Table.findByKey_none.1 found b hb)
        · simp only [fits, if_true]
          rw [addCode, Machine.solo_step (by simp only [memory, e]; rfl)]
          exact solo_release key fun lost => by cases lost
      · have refused : (.error (noAvailability r.carType r.period) : Except Exn BookingResult) ≠
            .error .duplicateIdempotencyKey := by simp [noAvailability]
        simp only [fits]
        exact solo_release key refused

end Solo

/-- The block of `cancel` is one step, whoever holds a fleet's lock. -/
theorem solo_cancelBlock {ι α : Type} (sizes : FleetSizes) (i : ι) (bookingId : Int) (actor : Customer) (now : Instant)
    (k : Except Exn Booking → Prog MemOp α) (m : Memory ι) :
    (memory ι).solo i (.step (.exclusiveBooking bookingId (cancelBlock sizes bookingId actor now)) k) m =
      (memory ι).solo i (k (cancelStep m.table bookingId actor now).1)
        ⟨(cancelStep m.table bookingId actor now).2, m.holder⟩ :=
  Machine.solo_step (by simp only [memory, cancelBlock_run]; rfl)

/-- A call that nobody disturbs computes its answer. -/
theorem solo_answer {ι : Type} {sizes : FleetSizes} {t : Table} (sound : t.Sound sizes) (i : ι) (call : Call) :
    (memory ι).solo i (call.program (InMemoryBookingLedger.new sizes)) (.at ι t) =
      some ((answer sizes call t).1, .at ι (answer sizes call t).2) := by
  have thread := thread_invoked sizes call
  cases call with
  | reserve r =>
    simp only [answer]
    cases parsed : IdempotencyKey.new r.idempotencyKey with
    | error e =>
      simp only [invoked, parsed] at thread
      rw [← Thread.running.inj thread]
      simp [answerReserve, parsed]
    | ok key =>
      cases known : sizes r.carType with
      | none =>
        simp only [invoked, parsed, known] at thread
        rw [← Thread.running.inj thread]
        simp [answerReserve, parsed, known]
      | some size =>
        simp only [invoked, parsed, known] at thread
        rw [← Thread.running.inj thread, ← solo_look sound parsed known]
        rfl
  | cancel bookingId actor now =>
    rw [← Thread.running.inj thread]
    exact solo_cancelBlock ..
  | availability policy carType period now =>
    simp only [answer, answerAvailability]
    cases valid : policy.validate period now with
    | error e =>
      simp only [invoked, valid] at thread
      rw [← Thread.running.inj thread]
      rfl
    | ok _ =>
      cases known : sizes carType with
      | none =>
        simp only [invoked, valid, known] at thread
        rw [← Thread.running.inj thread]
        rfl
      | some size =>
        simp only [invoked, valid, known] at thread
        rw [← Thread.running.inj thread]
        rfl
  | reservationsFor customer =>
    rw [← Thread.running.inj thread]
    rfl

/-- Calls made one after another compute their answers in turn. -/
theorem solos_serial {ι κ : Type} {sizes : FleetSizes} (i : ι) (calls : κ → Call) {t : Table}
    (sound : t.Sound sizes) (order : List κ) :
    (memory ι).solos i (order.map fun k => (calls k).program (InMemoryBookingLedger.new sizes)) (.at ι t) =
      some ((serial (fun k => answer sizes (calls k)) order t).1,
        .at ι (serial (fun k => answer sizes (calls k)) order t).2) := by
  induction order generalizing t with
  | nil => rfl
  | cons k order ih =>
    simp only [List.map_cons, Machine.solos, solo_answer sound, serial]
    exact (congrArg (Option.bind · _) (ih (answer_sound sound (calls k)))).trans rfl

end Memory

end VehicleRentals
