import Mathlib.Data.Fintype.Card
import Mathlib.Tactic.FinCases
import VehicleRentals.Postgres.Jobs

/-!
# Lock waits that run out

`_lock` turns a wait for the fleet's row that ran out into `FleetBusy`. A call
can wait in two more places, for the row of an uncommitted booking with the same
key and for a reservation's row; there the `OperationalError` reaches the caller.
Either way the transaction is rolled back.
-/

namespace VehicleRentals

open Concurrent

namespace Postgres

/-- What the caller sees of a wait that ran out. -/
def waitError : Wait → Exn
  | .fleet => fleetBusy
  | .key => timedOut
  | .booking => timedOut

/-- The job is a `reserve` or a `cancel` call. -/
def Books (job : Job) : Prop :=
  (∃ r, job = .call (.reserve r)) ∨ ∃ bookingId actor now, job = .call (.cancel bookingId actor now)

/-- A `reserve` call is by an existing user. -/
def ByUser (users : List Int) (job : Job) : Prop := ∀ r, job = .call (.reserve r) → r.customer.id ∈ users

/-- The date arithmetic of the call's policy leaves Python's ranges. -/
def Overflows (job : Job) : Prop :=
  ∃ r, job = .call (.reserve r) ∧ r.policy.validate r.period r.now = .error .overflowError

/-- What a call raises by itself: domain errors, and `OverflowError` from its policy. -/
def MayRaise (job : Job) (e : Exn) : Prop := e.isDomain = true ∨ (e = .overflowError ∧ Overflows job)

/-- No other exception is on its way to the caller. -/
def Clean (job : Job) : Phase → Prop
  | .ending _ (.error e) _ => MayRaise job e ∨ e = .duplicateIdempotencyKey
  | .done (.error e) => MayRaise job e
  | _ => True

/-- The call ends with `e`, having changed nothing. -/
def Doomed (e : Exn) (ph : Phase) : Prop :=
  ph = .done (.error e) ∨ ∃ block, ph = .ending block (.error e) none

variable {ι : Type} [DecidableEq ι] {engine : Engine} {jobs : ι → Job} {users : List Int} {fleetId : CarType → Int}

section

variable {i : ι} {ph ph' : Phase} {st st' : Store ι}

theorem waitError_ne_duplicate (w : Wait) : waitError w ≠ .duplicateIdempotencyKey := by
  cases w <;> simp [waitError, fleetBusy, timedOut]

/-- A wait that ran out ends the call. -/
theorem Advance.doomed {w : Wait} (h : Advance engine users i (some w) ph st ph' st') {job : Job} (books : Books job)
    (ok : PhaseOk i st job ph) : Doomed (waitError w) ph' := by
  cases h with
  | fleetBusy => exact .inr ⟨_, rfl⟩
  | addBusy => exact .inr ⟨_, rfl⟩
  | bookingBusy => exact .inr ⟨_, rfl⟩
  | resizeBusy =>
    obtain rfl : job = .edit _ _ := ok
    rcases books with ⟨r, e⟩ | ⟨id, actor, now, e⟩ <;> cases e

/-- A call that is to end with an exception rolls back and ends with it. -/
theorem Doomed.step {e : Exn} {w : Option Wait} (h : Doomed e ph) (ne : e ≠ .duplicateIdempotencyKey)
    (step : Advance engine users i w ph st ph' st') : w = none ∧ Doomed e ph' := by
  rcases h with rfl | ⟨block, rfl⟩
  · cases step
  · cases step with
    | rollback => exact ⟨rfl, .inl (afterFail_of_ne block ne)⟩

theorem clean_replay (job : Job) (block : Block) (b : Booking) (carType : CarType) (period : RentalPeriod) :
    Clean job (.ending block (reserved (replay b carType period)) none) := by
  unfold replay
  split
  · trivial
  · exact .inl (.inl rfl)

theorem clean_afterLook (r : Reserve) (key : IdempotencyKey) (size : Nat) (found : Option Booking) :
    Clean (.call (.reserve r)) (afterLook r key size found) := by
  cases found with
  | some existing => exact clean_replay ..
  | none =>
    simp only [afterLook]
    cases e : r.policy.validate r.period r.now with
    | ok _ => trivial
    | error ex =>
      rcases BookingPolicy.validate_error e with ⟨m, rfl⟩ | ⟨rfl, -⟩
      · exact .inl (.inl rfl)
      · exact .inl (.inr ⟨rfl, r, rfl, e⟩)

theorem clean_afterFound (job : Job) (id : Int) (actor : Customer) (now : Instant) (found : Option Booking) :
    Clean job (afterFound id actor now found) := by
  cases found with
  | none => exact .inl (.inl rfl)
  | some b =>
    simp only [afterFound]
    split_ifs
    · trivial
    · exact .inl (.inl rfl)
    · trivial
    · exact .inl (.inl rfl)

/-- The second lookup finds who won. -/
theorem clean_afterRetry (job : Job) {t : Table} {r : Reserve} {key : IdempotencyKey} (spent : Spent t r key) :
    Clean job (.done (afterRetry r (.ok (t.findByKey r.customer.id key)))) := by
  cases found : t.findByKey r.customer.id key with
  | none =>
    obtain ⟨b, hb, hk⟩ := spent
    exact absurd hk (Table.findByKey_none.1 found b hb)
  | some winner =>
    simp only [afterRetry, replay]
    split
    · trivial
    · exact .inl rfl

omit [DecidableEq ι] in
/-- Only a duplicate key is caught, and only `reserve` raises it. -/
theorem clean_afterFail {job : Job} {block : Block} {e : Exn} {change : Option Change}
    (clean : Clean job (.ending block (.error e) change)) (ended : EndOk i st block (.error e) change) :
    Clean job (afterFail block e) := by
  obtain rfl := ended.unchanged
  by_cases lost : e = .duplicateIdempotencyKey
  · obtain ⟨r, key, rfl, -⟩ := ended (congrArg Except.error lost)
    subst lost
    trivial
  · rw [afterFail_of_ne block lost]
    exact clean.resolve_right lost

/-- A step in which no wait runs out brings no other exception. -/
theorem Advance.clean (h : Advance engine users i none ph st ph' st') {job : Job} (ok : PhaseOk i st job ph)
    (byUser : ByUser users job) (clean : Clean job ph) : Clean job ph' := by
  cases h with
  | noFleet missing => exact .inl (.inl rfl)
  | look =>
    obtain rfl := ok.1.1
    exact clean_afterLook ..
  | schedule =>
    unfold afterSchedule
    split
    · trivial
    · exact .inl (.inl rfl)
  | addLost taken => exact .inr rfl
  | retry => exact clean_afterRetry job ok.2
  | lockBooking found free => exact clean_afterFound ..
  | noBooking missing => exact clean_afterFound ..
  | @refuse block reply c _ missing =>
    refine absurd ?_ missing
    obtain ⟨isJob, ended⟩ := ok
    cases c with
    | book b =>
      obtain ⟨r, key, rfl, -, hasKey, -⟩ := ended
      show b.customerId ∈ users
      rw [hasKey.1]
      exact byUser r isJob.1
    | cancel id now => trivial
    | resize T n => trivial
  | rollback => exact clean_afterFail clean ok.2
  | notFound missing => exact .inl rfl
  | _ => trivial

end

/-! ## Whole runs -/

theorem clean_invoked {job : Job} (books : Books job) : Clean job (invoked job) := by
  rcases books with ⟨r, rfl⟩ | ⟨id, actor, now, rfl⟩
  · simp only [invoked]
    cases parsed : IdempotencyKey.new r.idempotencyKey with
    | ok key => trivial
    | error e =>
      unfold IdempotencyKey.new at parsed
      split at parsed <;> cases parsed
      exact .inl rfl
  · trivial

/-- A call that is to end with an exception waits no more. -/
theorem run_doomed {s s' : State ι} {ls : List (Label Sql ι)}
    (run : Run (fun a l b => Moves engine jobs users a (Label.thread l, waitOf l) b) s ls s') {i : ι} {e : Exn}
    (ne : e ≠ .duplicateIdempotencyKey) (doomed : Doomed e (s.phase i)) :
    Doomed e (s'.phase i) ∧ ∀ l ∈ ls, l.thread = i → waitOf l = none := by
  induction run with
  | nil => exact ⟨doomed, by simp⟩
  | @cons a b c l ls hs _ ih =>
    by_cases mine : l.thread = i
    · rw [mine] at hs
      rcases hs.own with ⟨idle, -, -⟩ | advance
      · rw [idle] at doomed
        rcases doomed with e' | ⟨block, e'⟩ <;> cases e'
      · obtain ⟨none, still⟩ := doomed.step ne advance
        obtain ⟨last, rest⟩ := ih still
        exact ⟨last, List.forall_mem_cons.2 ⟨fun _ => none, rest⟩⟩
    · rw [← hs.frame (Ne.symm mine)] at doomed
      obtain ⟨last, rest⟩ := ih doomed
      exact ⟨last, List.forall_mem_cons.2 ⟨fun e => absurd e mine, rest⟩⟩

/-- How a call stands after a run: no wait of its own ran out and it is clean, or
one did and the call ends with what that raises. -/
theorem run_waits {s s' : State ι} {ls : List (Label Sql ι)}
    (run : Run (fun a l b => Moves engine jobs users a (Label.thread l, waitOf l) b) s ls s')
    (inv : Inv engine jobs s) {i : ι} (books : Books (jobs i)) (byUser : ByUser users (jobs i))
    (clean : Clean (jobs i) (s.phase i)) :
    (Clean (jobs i) (s'.phase i) ∧ ∀ l ∈ ls, l.thread = i → waitOf l = none) ∨
    ∃ w, (∃ l ∈ ls, l.thread = i ∧ waitOf l = some w) ∧
      (∀ l ∈ ls, l.thread = i → waitOf l = none ∨ waitOf l = some w) ∧ Doomed (waitError w) (s'.phase i) := by
  induction run with
  | nil => exact .inl ⟨clean, by simp⟩
  | @cons a b c l ls hs rest ih =>
    -- unless a wait of the call runs out in the first step, what holds of the rest holds of all
    have goOn : (l.thread = i → waitOf l = none) → Clean (jobs i) (b.phase i) →
        (Clean (jobs i) (c.phase i) ∧ ∀ l' ∈ l :: ls, l'.thread = i → waitOf l' = none) ∨
        ∃ w, (∃ l' ∈ l :: ls, l'.thread = i ∧ waitOf l' = some w) ∧
          (∀ l' ∈ l :: ls, l'.thread = i → waitOf l' = none ∨ waitOf l' = some w) ∧
          Doomed (waitError w) (c.phase i) := by
      intro none clean
      rcases ih (inv_moves hs inv) clean with ⟨last, quiet⟩ | ⟨w, ⟨l', hl', mine, waits⟩, only, last⟩
      · exact .inl ⟨last, List.forall_mem_cons.2 ⟨none, quiet⟩⟩
      · exact .inr ⟨w, ⟨l', List.mem_cons_of_mem _ hl', mine, waits⟩,
          List.forall_mem_cons.2 ⟨fun e => .inl (none e), only⟩, last⟩
    by_cases mine : l.thread = i
    · rw [mine] at hs
      rcases hs.own with ⟨-, none, invoked⟩ | advance
      · refine goOn (fun _ => none) ?_
        rw [invoked]
        exact clean_invoked books
      · cases waits : waitOf l with
        | none =>
          rw [waits] at advance
          exact goOn (fun _ => waits) (advance.clean (inv.phases i) byUser clean)
        | some w =>
          rw [waits] at advance
          have doomed := advance.doomed books (inv.phases i)
          obtain ⟨last, quiet⟩ := run_doomed rest (waitError_ne_duplicate w) doomed
          exact .inr ⟨w, ⟨l, List.mem_cons_self, mine, waits⟩,
            List.forall_mem_cons.2 ⟨fun _ => .inr waits, fun l' hl' e => .inl (quiet l' hl' e)⟩, last⟩
    · refine goOn (fun e => absurd e mine) ?_
      rwa [hs.frame (Ne.symm mine)]

/-! ## The committed tables -/

/-- The statement commits. -/
def commits : {β : Type} → Sql β → β → Bool
  | _, .commit, .ok _ => true
  | _, _, _ => false

/-- Only a commit changes the committed tables. -/
theorem tables_of_exec {β : Type} {i : ι} {e : Sql β} {db db' : Db ι} {x : β}
    (hx : (x, db') ∈ (postgres engine ι).exec i e db) (other : commits e x = false) : db'.tables = db.tables := by
  cases e <;> simp only [postgres] at hx <;> repeat' split at hx
  all_goals
    cases List.mem_singleton.1 hx
    first | rfl | cases other

/-- The thread is about to commit. -/
def atCommit : Thread Sql Result → Bool
  | .running (.step .commit _) => true
  | _ => false

omit [DecidableEq ι] in
theorem Phase.ending_of_atCommit {ph : Phase} (h : atCommit (ph.thread fleetId) = true) :
    ∃ block reply change, ph = .ending block (.ok reply) change := by
  cases ph with
  | opening block => cases block <;> cases h
  | ending block x change =>
    cases x with
    | error e => cases h
    | ok reply => exact ⟨block, reply, change, rfl⟩
  | _ => cases h

omit [DecidableEq ι] in
theorem Phase.done_of_result {ph : Phase} {x : Result} (h : (ph.thread fleetId).result = some x) : ph = .done x := by
  cases ph with
  | opening block => cases block <;> cases h
  | ending block y change => cases y <;> cases h
  | done y => cases h; rfl
  | _ => cases h

/-- A step that changes the committed tables ends its job, which has not waited in vain. -/
theorem returned_of_change {c c' : Jobs ι} {s : State ι} {l : Label Sql ι}
    (stands : Stands engine jobs users fleetId c s) (step : Step (postgres engine ι) (code jobs) c l c')
    (changed : c'.shared.tables ≠ c.shared.tables) :
    waitOf l = none ∧ (∃ block reply change, s.phase l.thread = .ending block (.ok reply) change) ∧
      ∃ x, (c'.thread l.thread).result = some x := by
  cases step with
  | invoke idle => exact absurd rfl changed
  | @act i β e k x db' running hx =>
    have commit : commits e x = true := by
      by_contra other
      exact changed (tables_of_exec hx (by simpa using other))
    rw [stands.threads] at running
    cases e with
    | commit =>
      have committing : atCommit ((s.phase i).thread fleetId) = true := congrArg atCommit running
      obtain ⟨block, reply, change, ending⟩ := Phase.ending_of_atCommit committing
      rw [ending] at running
      cases running
      cases x with
      | error e => cases commit
      | ok _ =>
        refine ⟨rfl, ⟨block, reply, change, ending⟩, .ok reply, ?_⟩
        simp only [Function.update_self, Thread.result_ret]
    | _ => cases commit

/-- How a finished call ended, by the waits of its own that ran out. -/
theorem outcome_of_waits {s s' : State ι} {ls : List (Label Sql ι)}
    (run : Run (fun a l b => Moves engine jobs users a (Label.thread l, waitOf l) b) s ls s')
    (inv : Inv engine jobs s) {i : ι} (books : Books (jobs i)) (byUser : ByUser users (jobs i))
    (clean : Clean (jobs i) (s.phase i)) {x : Result} (done : s'.phase i = .done x) :
    ((∀ e, x = .error e → MayRaise (jobs i) e) ∧ ∀ l ∈ ls, l.thread = i → waitOf l = none) ∨
    ∃ w, x = .error (waitError w) ∧ (∃ l ∈ ls, l.thread = i ∧ waitOf l = some w) ∧
      ∀ l ∈ ls, l.thread = i → waitOf l = none ∨ waitOf l = some w := by
  rcases run_waits run inv books byUser clean with ⟨last, quiet⟩ | ⟨w, waits, only, doomed⟩
  · rw [done] at last
    refine .inl ⟨?_, quiet⟩
    intro e he
    subst he
    exact last
  · rw [done] at doomed
    rcases doomed with e | ⟨block, e⟩ <;> cases e
    exact .inr ⟨w, rfl, waits, only⟩

/-- A call that waited in vain is not about to commit. -/
theorem not_ending_of_wait {s s' : State ι} {ls : List (Label Sql ι)}
    (run : Run (fun a l b => Moves engine jobs users a (Label.thread l, waitOf l) b) s ls s')
    (inv : Inv engine jobs s) {i : ι} (books : Books (jobs i)) (byUser : ByUser users (jobs i))
    (clean : Clean (jobs i) (s.phase i)) {l : Label Sql ι} (hl : l ∈ ls) (mine : l.thread = i)
    (waits : (waitOf l).isSome = true) (block : Block) (reply : Option Reply) (change : Option Change) :
    s'.phase i ≠ .ending block (.ok reply) change := by
  intro ending
  rcases run_waits run inv books byUser clean with ⟨-, quiet⟩ | ⟨w, -, -, doomed⟩
  · rw [quiet l hl mine] at waits
    cases waits
  · rw [ending] at doomed
    rcases doomed with e | ⟨block', e⟩ <;> cases e

/-- Of the waits that may run out only the one for a fleet's row ends in a domain error. -/
theorem waitError_surfaces (w : Wait) (job : Job) :
    (∀ e, .error (waitError w) = (.error e : Result) → e.isDomain = true ∨ (e = .overflowError ∧ Overflows job)) ↔
      w = .fleet := by
  cases w with
  | fleet =>
    refine iff_of_true ?_ rfl
    intro e he
    cases he
    exact .inl rfl
  | key =>
    refine iff_of_false (fun raises => ?_) nofun
    rcases raises _ rfl with domain | ⟨overflow, -⟩ <;> contradiction
  | booking =>
    refine iff_of_false (fun raises => ?_) nofun
    rcases raises _ rfl with domain | ⟨overflow, -⟩ <;> contradiction

/-- Exactly when a finished `reserve` or `cancel` has returned or raised a domain
error (or the `OverflowError` of its own policy): none of its waits for another
booking's row, by key or by id, ran out. A wait for the fleet's row that ran out
ends it with `FleetBusy`. And no step of a call that waited in vain changes the
committed tables. -/
theorem waits_surface (engine : Engine) (jobs : ι → Job) {t : Tables} (fresh : NoBookings t) (drawn : Int)
    {ls : List (Label Sql ι)} {c : Jobs ι}
    (run : Run (Step (postgres engine ι) (code jobs)) (Pool.start (Db.quiet t drawn)) ls c) {i : ι}
    (books : Books (jobs i)) (byUser : ByUser t.users (jobs i)) :
    (∀ x, (c.thread i).result = some x →
      ((∀ e, x = .error e → e.isDomain = true ∨ (e = .overflowError ∧ Overflows (jobs i))) ↔
        ∀ l ∈ ls, l.thread = i → waitOf l ≠ some .key ∧ waitOf l ≠ some .booking) ∧
      ((∃ l ∈ ls, l.thread = i ∧ waitOf l = some .fleet) → x = .error fleetBusy)) ∧
    ((∃ l ∈ ls, l.thread = i ∧ (waitOf l).isSome = true) →
      ∀ ls₁ a l b ls₂, ls = ls₁ ++ l :: ls₂ →
        Run (Step (postgres engine ι) (code jobs)) (Pool.start (Db.quiet t drawn)) ls₁ a →
        Step (postgres engine ι) (code jobs) a l b → Run (Step (postgres engine ι) (code jobs)) b ls₂ c →
        l.thread = i → b.shared.tables = a.shared.tables) := by
  have start := stands_start (ι := ι) fresh engine jobs drawn
  constructor
  · intro x returned
    obtain ⟨s, moves, stands⟩ := run_stands start run
    rw [stands.threads] at returned
    have done := Phase.done_of_result returned
    rcases outcome_of_waits moves start.inv books byUser trivial done with
      ⟨clean, quiet⟩ | ⟨w, rfl, ⟨l, hl, mine, waits⟩, only⟩
    · refine ⟨⟨?_, fun _ => clean⟩, ?_⟩
      · intro _ l hl mine
        rw [quiet l hl mine]
        exact ⟨nofun, nofun⟩
      · rintro ⟨l, hl, mine, waits⟩
        rw [quiet l hl mine] at waits
        cases waits
    · -- all the waits of the call that ran out are of the one kind
      have same : ∀ l' ∈ ls, l'.thread = i → ∀ w', waitOf l' = some w' → w' = w := by
        intro l' hl' mine' w' waits'
        rcases only l' hl' mine' with e | e <;> rw [waits'] at e <;> cases e
        rfl
      rw [waitError_surfaces]
      refine ⟨⟨?_, ?_⟩, ?_⟩
      · rintro rfl l' hl' mine'
        constructor
        · intro e
          cases same l' hl' mine' _ e
        · intro e
          cases same l' hl' mine' _ e
      · intro quiet
        obtain ⟨notKey, notBooking⟩ := quiet l hl mine
        cases w with
        | fleet => rfl
        | key => exact absurd waits notKey
        | booking => exact absurd waits notBooking
      · rintro ⟨l', hl', mine', waits'⟩
        rw [← same l' hl' mine' _ waits']
        rfl
  · rintro ⟨l', hl', mine', waits⟩ ls₁ a l b ls₂ rfl first step last mine
    by_contra changed
    obtain ⟨s, moves, stands⟩ := run_stands start first
    obtain ⟨none, ⟨block, reply, change, ending⟩, x, returned⟩ := returned_of_change stands step changed
    rw [mine] at ending returned
    rcases List.mem_append.1 hl' with before | here
    · exact not_ending_of_wait moves start.inv books byUser trivial before mine' waits block reply change ending
    · rcases List.mem_cons.1 here with rfl | after
      · rw [none] at waits
        cases waits
      · exact last.returned returned l' after mine'

/-- One key raced for a sedan and a van, two cancels of one booking, and a second
customer in the queue for the sedan. -/
def impatient : Fin 5 → Job
  | 0 => .call (.reserve (springReserve .sedan))
  | 1 => .call (.reserve (springReserve .van))
  | 2 => .call (.cancel 1 { id := 7 } 0)
  | 3 => .call (.cancel 1 { id := 8, isStaff := true } 0)
  | 4 => .call (.reserve { springReserve .sedan with customer := { id := 8 } })

/-- Jobs 4, 1 and 3 wait in turn, for the fleet, the key and the booking, and every wait runs out. -/
def impatientTurns : List (Fin 5 × Nat) := [0, 0, 0, 0, 0, 4, 4, 4, 1, 1, 1, 1, 1, 1, 0, 2, 2, 3, 3, 3].map (·, 0)

theorem books_impatient (i : Fin 5) : Books (impatient i) := by
  fin_cases i
  · exact .inl ⟨_, rfl⟩
  · exact .inl ⟨_, rfl⟩
  · exact .inr ⟨_, _, _, rfl⟩
  · exact .inr ⟨_, _, _, rfl⟩
  · exact .inl ⟨_, rfl⟩

theorem byUser_impatient (i : Fin 5) : ByUser smallTables.users (impatient i) := by
  intro r e
  fin_cases i <;> cases e <;> decide

theorem waits_surface_race : ∃ ls c,
    Run (Step (postgres plainEngine (Fin 5)) (code impatient)) (Pool.start (Db.quiet smallTables 1)) ls c ∧
    (c.thread 4).result = some (.error fleetBusy) := by
  obtain ⟨ls, c, run, finished, waits⟩ : ∃ ls c,
      Run (Step (postgres plainEngine (Fin 5)) (code impatient)) (Pool.start (Db.quiet smallTables 1)) ls c ∧
      (c.thread 4).result.isSome = true ∧ ∃ l ∈ ls, l.thread = 4 ∧ waitOf l = some .fleet :=
    Machine.exists_run_of_schedule impatientTurns (by decide +kernel)
  obtain ⟨x, returned⟩ := Option.isSome_iff_exists.1 finished
  have busy := ((waits_surface plainEngine impatient noBookings_smallTables 1 run (books_impatient 4)
    (byUser_impatient 4)).1 x returned).2 waits
  exact ⟨ls, c, run, by rw [returned, busy]⟩

/-- The insert's wait and the wait of `exclusive_booking` reach the caller as they are. -/
theorem waits_escape : ∃ ls c,
    Run (Step (postgres plainEngine (Fin 5)) (code impatient)) (Pool.start (Db.quiet smallTables 1)) ls c ∧
    (∀ i, Books (impatient i) ∧ ByUser smallTables.users (impatient i)) ∧
    (c.thread 1).result = some (.error timedOut) ∧ (c.thread 3).result = some (.error timedOut) ∧
    timedOut.isDomain = false ∧ timedOut.isDatabase = true := by
  obtain ⟨ls, c, run, reserve, cancel⟩ : ∃ ls c,
      Run (Step (postgres plainEngine (Fin 5)) (code impatient)) (Pool.start (Db.quiet smallTables 1)) ls c ∧
      (c.thread 1).result = some (.error timedOut) ∧ (c.thread 3).result = some (.error timedOut) :=
    Machine.exists_run_of_schedule impatientTurns (by decide +kernel)
  exact ⟨ls, c, run, fun i => ⟨books_impatient i, byUser_impatient i⟩, reserve, cancel, rfl, rfl⟩

end Postgres

end VehicleRentals
