import VehicleRentals.Domain.Programs
import VehicleRentals.Memory.Ledger

/-!
# The stages of a call on the in-memory ledger

Run against this ledger, the code of a call is a short sequence of
lock-protected steps. A `Phase` names each point between two of them, with the
values the rest of the call still uses; `Advance` is the step taken from it.
`thread_invoked` and `advance_of_exec` read the phases off the code, so a pool
of calls is a pool of phases (`step_moves`).
-/

namespace VehicleRentals

open Concurrent

namespace Memory

/-- Where a `reserve` call stands, in its exclusive block and after it. -/
inductive Stage where
  | acquiring
  | looking
  | scheduling
  | adding
  | releasing (x : Except Exn BookingResult)
  | retrying

/-- Where a call stands. -/
inductive Phase where
  | idle
  | reserving (r : Reserve) (key : IdempotencyKey) (size : Nat) (g : Stage)
  | cancelling (bookingId : Int) (actor : Customer) (now : Instant)
  | checking (carType : CarType) (period : RentalPeriod) (size : Nat)
  | listing (customer : Customer)
  | done (o : Outcome)

/-- The outcome of a `reserve` call that ends with `x`. -/
abbrev reserved (x : Except Exn BookingResult) : Outcome := x.map .booked

/-- The block of `cancel` on a table: its result, and the table after it. -/
def cancelStep (t : Table) (bookingId : Int) (actor : Customer) (now : Instant) : Except Exn Booking × Table :=
  match t.get bookingId with
  | none => (.error (reservationNotFound bookingId), t)
  | some b =>
    if b.mayBeManagedBy actor then
      match b.cancel now with
      | .error e => (.error e, t)
      | .ok (changed, b') => (.ok b', if changed then t.set b' else t)
    else (.error (reservationNotFound bookingId), t)

/-- Where the first lookup leads. -/
def afterLook (r : Reserve) : Option Booking → Stage
  | some existing => .releasing (replay existing r.carType r.period)
  | none =>
    match r.policy.validate r.period r.now with
    | .error e => .releasing (.error e)
    | .ok _ => .scheduling

/-- Where the availability check leads. -/
def afterSchedule (r : Reserve) (size : Nat) (booked : List RentalPeriod) : Stage :=
  if FleetSchedule.canAccommodate { fleetSize := size, booked } r.period then .adding
  else .releasing (.error (noAvailability r.carType r.period))

/-- Where the insert leads. -/
def afterAdd (added : Except Exn Booking) : Stage :=
  .releasing (added.map fun booking => { booking, replayed := false })

/-- Where leaving the block leads: to the second lookup if it was the insert that lost. -/
def afterRelease (r : Reserve) (key : IdempotencyKey) (size : Nat) : Except Exn BookingResult → Phase
  | .error .duplicateIdempotencyKey => .reserving r key size .retrying
  | x => .done (reserved x)

/-- How the second lookup ends the call. -/
def afterRetry (r : Reserve) : Option Booking → Outcome
  | none => .error .duplicateIdempotencyKey
  | some winner => reserved (replay winner r.carType r.period)

/-- Where a call stands once it is invoked, before any step on the ledger. -/
def invoked (sizes : FleetSizes) : Call → Phase
  | .reserve r =>
    match IdempotencyKey.new r.idempotencyKey with
    | .error e => .done (.error e)
    | .ok key =>
      match sizes r.carType with
      | none => .done (.error (carTypeNotFound r.carType))
      | some size => .reserving r key size .acquiring
  | .cancel bookingId actor now => .cancelling bookingId actor now
  | .availability policy carType period now =>
    match policy.validate period now with
    | .error e => .done (.error e)
    | .ok _ =>
      match sizes carType with
      | none => .done (.error (carTypeNotFound carType))
      | some size => .checking carType period size
  | .reservationsFor customer => .listing customer

/-- The step thread `i` takes from a phase. -/
inductive Advance {ι : Type} (i : ι) : Phase → Memory ι → Phase → Memory ι → Prop where
  | acquire {r : Reserve} {key : IdempotencyKey} {size : Nat} {m : Memory ι} : m.holder r.carType = none →
      Advance i (.reserving r key size .acquiring) m
        (.reserving r key size .looking) ⟨m.table, Function.update m.holder r.carType (some i)⟩
  | look {r : Reserve} {key : IdempotencyKey} {size : Nat} {m : Memory ι} :
      Advance i (.reserving r key size .looking) m
        (.reserving r key size (afterLook r (m.table.findByKey r.customer.id key))) m
  | schedule {r : Reserve} {key : IdempotencyKey} {size : Nat} {m : Memory ι} :
      Advance i (.reserving r key size .scheduling) m
        (.reserving r key size (afterSchedule r size (m.table.bookedDuring r.carType r.period))) m
  | add {r : Reserve} {key : IdempotencyKey} {size : Nat} {m : Memory ι} :
      Advance i (.reserving r key size .adding) m
        (.reserving r key size (afterAdd (m.table.add r.carType r.customer.id r.period key).1))
        ⟨(m.table.add r.carType r.customer.id r.period key).2, m.holder⟩
  | release {r : Reserve} {key : IdempotencyKey} {size : Nat} {x : Except Exn BookingResult} {m : Memory ι} :
      Advance i (.reserving r key size (.releasing x)) m
        (afterRelease r key size x) ⟨m.table, Function.update m.holder r.carType none⟩
  | retry {r : Reserve} {key : IdempotencyKey} {size : Nat} {m : Memory ι} :
      Advance i (.reserving r key size .retrying) m
        (.done (afterRetry r (m.table.findByKey r.customer.id key))) m
  | cancel {bookingId : Int} {actor : Customer} {now : Instant} {m : Memory ι} :
      Advance i (.cancelling bookingId actor now) m
        (.done ((cancelStep m.table bookingId actor now).1.map .cancelled))
        ⟨(cancelStep m.table bookingId actor now).2, m.holder⟩
  | check {carType : CarType} {period : RentalPeriod} {size : Nat} {m : Memory ι} :
      Advance i (.checking carType period size) m
        (.done (.ok (.free (FleetSchedule.remaining
          { fleetSize := size, booked := m.table.bookedDuring carType period } period)))) m
  | list {customer : Customer} {m : Memory ι} :
      Advance i (.listing customer) m (.done (.ok (.listed (m.table.bookingsOf customer.id)))) m

/-! ## The code at each stage -/

abbrev Code := Prog MemOp Outcome

section Code

variable (r : Reserve) (key : IdempotencyKey) (size : Nat)

def retryCode : Code := .step (.findByKey r.customer.id key) fun found => .ret (afterRetry r found)

def releaseCode (x : Except Exn BookingResult) : Code :=
  .step (.release r.carType) fun _ =>
    match x with
    | .error .duplicateIdempotencyKey => retryCode r key
    | x => .ret (reserved x)

def addCode : Code :=
  .step (.add r.carType r.customer.id r.period key) fun added =>
    releaseCode r key (added.map fun booking => { booking, replayed := false })

def scheduleCode : Code :=
  .step (.bookedDuring r.carType r.period) fun booked =>
    if FleetSchedule.canAccommodate { fleetSize := size, booked } r.period then addCode r key
    else releaseCode r key (.error (noAvailability r.carType r.period))

def lookCode : Code :=
  .step (.findByKey r.customer.id key) fun found =>
    match found with
    | some existing => releaseCode r key (replay existing r.carType r.period)
    | none =>
      match r.policy.validate r.period r.now with
      | .error e => releaseCode r key (.error e)
      | .ok _ => scheduleCode r key size

def Stage.code : Stage → Code
  | .acquiring => .step (.acquire r.carType) fun _ => lookCode r key size
  | .looking => lookCode r key size
  | .scheduling => scheduleCode r key size
  | .adding => addCode r key
  | .releasing x => releaseCode r key x
  | .retrying => retryCode r key

end Code

/-- The code of `cancel`'s block on this ledger. -/
abbrev cancelBlock (sizes : FleetSizes) (bookingId : Int) (actor : Customer) (now : Instant) :
    Option Booking → ExceptT Exn (StateM Table) Booking :=
  ReservationDesk.cancelBlock { ledger := InMemoryBookingLedger.new sizes } bookingId actor now

/-- The thread of a call that stands at this phase. -/
def Phase.thread (sizes : FleetSizes) : Phase → Thread MemOp Outcome
  | .idle => .idle
  | .reserving r key size g => .running (g.code r key size)
  | .cancelling bookingId actor now => .running (.step
      (.exclusiveBooking bookingId (cancelBlock sizes bookingId actor now)) fun x => .ret (x.map .cancelled))
  | .checking carType period size => .running (.step (.bookedDuring carType period) fun booked =>
      .ret (.ok (.free (FleetSchedule.remaining { fleetSize := size, booked } period))))
  | .listing customer => .running (.step (.bookingsOf customer.id) fun bookings => .ret (.ok (.listed bookings)))
  | .done o => .running (.ret o)

/-- The block of `reserve` followed by what its result leads to. -/
theorem lookCode_eq (sizes : FleetSizes) (r : Reserve) (key : IdempotencyKey) (size : Nat) :
    (ExceptT.run (ReservationDesk.reserveBlock { ledger := InMemoryBookingLedger.new sizes, policy := r.policy }
      r.customer r.carType r.period key r.now (InMemoryBookingLedger.lockedFleet r.carType size))).bind
        (releaseCode r key) = lookCode r key size := by
  rw [ReservationDesk.reserveBlock_run, Prog.bind_assoc]
  refine Prog.step_congr fun found => ?_
  cases found with
  | some existing => rfl
  | none =>
    show Prog.bind (match r.policy.validate r.period r.now with | .error e => _ | .ok _ => _) _ =
      match r.policy.validate r.period r.now with | .error e => _ | .ok _ => _
    cases r.policy.validate r.period r.now with
    | error e => rfl
    | ok _ =>
      refine Prog.step_congr fun booked => ?_
      show Prog.bind (ite _ _ _) _ = ite _ _ _
      by_cases fits : FleetSchedule.canAccommodate { fleetSize := size, booked } r.period = true
      · exact (congrArg (Prog.bind · (releaseCode r key)) (if_pos fits)).trans (if_pos fits).symm
      · exact (congrArg (Prog.bind · (releaseCode r key)) (if_neg fits)).trans (if_neg fits).symm

/-- `exclusive` on this ledger: the lock is released whatever the block does. -/
theorem exclusive_run {α : Type} (sizes : FleetSizes) (carType : CarType)
    (block : LockedFleet (Prog MemOp) → ExceptT Exn (Prog MemOp) α) :
    ((InMemoryBookingLedger.new sizes).exclusive carType block).run =
      match sizes carType with
      | none => .ret (.error (carTypeNotFound carType))
      | some size => .step (.acquire carType) fun _ =>
          (block (InMemoryBookingLedger.lockedFleet carType size)).run.bind fun x =>
            .step (.release carType) fun _ => .ret x := by
  dsimp only [InMemoryBookingLedger.new, InMemoryBookingLedger.known]
  cases sizes carType <;> rfl

/-- An invoked call stands where its code begins. -/
theorem thread_invoked (sizes : FleetSizes) (call : Call) :
    (invoked sizes call).thread sizes = .running (call.program (InMemoryBookingLedger.new sizes)) := by
  cases call with
  | reserve r =>
    rw [program_reserve, invoked]
    cases IdempotencyKey.new r.idempotencyKey with
    | error e => rfl
    | ok key =>
      dsimp only
      rw [exclusive_run]
      cases sizes r.carType with
      | none => rfl
      | some size =>
        refine congrArg Thread.running (Prog.step_congr fun _ => ?_)
        rw [← lookCode_eq sizes]
        show _ = Prog.bind (Prog.bind _ _) _
        rw [Prog.bind_assoc]
        refine Prog.bind_congr fun x => ?_
        cases x with
        | ok result => rfl
        | error e =>
          refine Prog.step_congr fun _ => ?_
          by_cases lost : e = .duplicateIdempotencyKey
          · subst lost
            show _ = Prog.bind (ExceptT.run (ReservationDesk.reserveLost _ _ _ _ _ _)) _
            rw [ReservationDesk.reserveLost_run, Prog.bind_assoc]
            refine Prog.step_congr fun found => ?_
            cases found <;> rfl
          · show _ = Prog.bind (ExceptT.run (ReservationDesk.reserveLost _ _ _ _ _ _)) _
            rw [ReservationDesk.reserveLost_other _ lost]
            cases e <;> first | rfl | exact absurd rfl lost
  | cancel bookingId actor now => rw [program_cancel]; rfl
  | availability policy carType period now =>
    rw [program_availability, invoked]
    cases policy.validate period now with
    | error e => rfl
    | ok _ =>
      dsimp only [InMemoryBookingLedger.new, InMemoryBookingLedger.known]
      cases sizes carType <;> rfl
  | reservationsFor customer => rfl

theorem cancelBlock_run (sizes : FleetSizes) (t : Table) (bookingId : Int) (actor : Customer) (now : Instant) :
    (cancelBlock sizes bookingId actor now (t.get bookingId)).run.run t = cancelStep t bookingId actor now := by
  unfold cancelStep
  cases t.get bookingId with
  | none => rfl
  | some b =>
    dsimp only [cancelBlock, ReservationDesk.cancelBlock]
    split
    · cases b.cancel now with
      | error e => rfl
      | ok x =>
        obtain ⟨changed, b'⟩ := x
        cases changed <;> rfl
    · rfl

/-- Whatever the code of a phase executes next is the phase's step. -/
theorem advance_of_exec {ι : Type} {sizes : FleetSizes} {i : ι} {ph : Phase} {m m' : Memory ι} {β : Type}
    {e : MemOp β} {k : β → Code} {x : β} (h : ph.thread sizes = .running (.step e k))
    (hx : (x, m') ∈ (memory ι).exec i e m) :
    ∃ ph', Advance i ph m ph' m' ∧ ph'.thread sizes = .running (k x) := by
  cases ph with
  | idle => cases h
  | done o => cases h
  | cancelling bookingId actor now =>
    cases h
    simp only [memory, cancelBlock_run, List.mem_singleton, Prod.mk.injEq] at hx
    obtain ⟨rfl, rfl⟩ := hx
    exact ⟨_, .cancel, rfl⟩
  | checking carType period size =>
    cases h
    cases List.mem_singleton.1 hx
    exact ⟨_, .check, rfl⟩
  | listing customer =>
    cases h
    cases List.mem_singleton.1 hx
    exact ⟨_, .list, rfl⟩
  | reserving r key size g =>
    cases g with
    | acquiring =>
      cases h
      cases free : m.holder r.carType with
      | some j => simp [memory, free] at hx
      | none =>
        simp only [memory, free] at hx
        cases List.mem_singleton.1 hx
        exact ⟨_, .acquire free, rfl⟩
    | looking =>
      cases h
      cases List.mem_singleton.1 hx
      refine ⟨_, .look, ?_⟩
      cases m.table.findByKey r.customer.id key with
      | some existing => rfl
      | none =>
        simp only [afterLook]
        cases r.policy.validate r.period r.now <;> rfl
    | scheduling =>
      cases h
      cases List.mem_singleton.1 hx
      refine ⟨_, .schedule, ?_⟩
      simp only [afterSchedule]
      split <;> rfl
    | adding =>
      cases h
      cases List.mem_singleton.1 hx
      exact ⟨_, .add, rfl⟩
    | releasing x =>
      cases h
      cases List.mem_singleton.1 hx
      refine ⟨_, .release, ?_⟩
      cases x with
      | ok result => rfl
      | error e => cases e <;> rfl
    | retrying =>
      cases h
      cases List.mem_singleton.1 hx
      exact ⟨_, .retry, rfl⟩

/-! ## Pools of calls -/

section Pool

variable {ι : Type}

/-- The memory, and where each call stands. -/
@[ext] structure State (ι : Type) where
  memory : Memory ι
  phase : ι → Phase

def State.start (ι : Type) (t : Table) : State ι := { memory := .at ι t, phase := fun _ => .idle }

/-- The pool of threads a state stands for. -/
def State.pool (sizes : FleetSizes) (s : State ι) : Pool MemOp ι (Memory ι) Outcome where
  shared := s.memory
  thread i := (s.phase i).thread sizes

/-- Calls over one ledger, as a pool of programs. -/
abbrev code (sizes : FleetSizes) (calls : ι → Call) (i : ι) : Code :=
  (calls i).program (InMemoryBookingLedger.new sizes)

variable [DecidableEq ι]

/-- Thread `i` is invoked, or takes its next step. -/
inductive Moves (sizes : FleetSizes) (calls : ι → Call) : State ι → ι → State ι → Prop where
  | invoke {s : State ι} {i : ι} : s.phase i = .idle →
      Moves sizes calls s i ⟨s.memory, Function.update s.phase i (invoked sizes (calls i))⟩
  | advance {s : State ι} {i : ι} {ph' : Phase} {m' : Memory ι} : Advance i (s.phase i) s.memory ph' m' →
      Moves sizes calls s i ⟨m', Function.update s.phase i ph'⟩

theorem State.pool_update (sizes : FleetSizes) (m : Memory ι) (phase : ι → Phase) (i : ι) (ph : Phase) :
    State.pool sizes ⟨m, Function.update phase i ph⟩ =
      ⟨m, Function.update (fun j => (phase j).thread sizes) i (ph.thread sizes)⟩ := by
  refine Pool.ext rfl (funext fun j => ?_)
  by_cases e : j = i
  · subst e; simp [State.pool]
  · simp [State.pool, Function.update_of_ne e]

theorem Phase.thread_eq_idle {sizes : FleetSizes} {ph : Phase} (h : ph.thread sizes = .idle) : ph = .idle := by
  cases ph <;> first | rfl | cases h

/-- Every step of a pool of calls is a step of its phases. -/
theorem step_moves {sizes : FleetSizes} {calls : ι → Call} {s : State ι} {l : Label MemOp ι}
    {c : Pool MemOp ι (Memory ι) Outcome} (h : Step (memory ι) (code sizes calls) (s.pool sizes) l c) :
    ∃ s', Moves sizes calls s l.thread s' ∧ c = s'.pool sizes := by
  cases h with
  | @invoke i idle =>
    refine ⟨_, .invoke (Phase.thread_eq_idle idle), ?_⟩
    rw [State.pool_update, thread_invoked]
    rfl
  | act running hx =>
    obtain ⟨ph', moved, thread⟩ := advance_of_exec running hx
    refine ⟨_, .advance moved, ?_⟩
    rw [State.pool_update, thread]
    rfl

/-- Every run of a pool of calls is a run of its phases. -/
theorem run_moves {sizes : FleetSizes} {calls : ι → Call} {s : State ι} {ls : List (Label MemOp ι)}
    {c : Pool MemOp ι (Memory ι) Outcome} (h : Run (Step (memory ι) (code sizes calls)) (s.pool sizes) ls c) :
    ∃ s', Run (fun a l b => Moves sizes calls a (Label.thread l) b) s ls s' ∧ c = s'.pool sizes := by
  refine h.simulate (fun c (s : State ι) => c = s.pool sizes) ?_ rfl
  rintro _ _ _ _ rfl hs
  exact step_moves hs

/-- The thread is about to insert. -/
def atAdd : Thread MemOp Outcome → Bool
  | .running (.step (.add ..) _) => true
  | _ => false

theorem Phase.adding_of_atAdd {sizes : FleetSizes} {ph : Phase} (h : atAdd (ph.thread sizes) = true) :
    ∃ r key size, ph = .reserving r key size .adding := by
  cases ph with
  | reserving r key size g => cases g <;> first | exact ⟨r, key, size, rfl⟩ | cases h
  | _ => cases h

/-- An insert takes its thread from `adding` to leaving the block with the response. -/
theorem step_add {sizes : FleetSizes} {calls : ι → Call} {s : State ι} {i : ι} {carType : CarType}
    {customerId : Int} {period : RentalPeriod} {key : IdempotencyKey} {added : Except Exn Booking}
    {c : Pool MemOp ι (Memory ι) Outcome}
    (h : Step (memory ι) (code sizes calls) (s.pool sizes)
      ⟨i, some ⟨_, .add carType customerId period key, added⟩⟩ c) :
    ∃ r size s', r.carType = carType ∧ r.customer.id = customerId ∧ r.period = period ∧
      Moves sizes calls s i s' ∧ s'.phase i = .reserving r key size (afterAdd added) ∧ c = s'.pool sizes := by
  cases h with
  | act running hx =>
    obtain ⟨r, key', size, here⟩ :=
      Phase.adding_of_atAdd (show atAdd ((s.phase i).thread sizes) = true from congrArg atAdd running)
    simp only [State.pool, here] at running
    cases running
    cases List.mem_singleton.1 hx
    refine ⟨r, size, _, rfl, rfl, rfl, .advance (by rw [here]; exact .add), Function.update_self .., ?_⟩
    rw [State.pool_update]
    rfl

end Pool

end Memory

end VehicleRentals
