import VehicleRentals.Concurrent.Measures
import VehicleRentals.Postgres.Deadlock
import VehicleRentals.Postgres.Timeouts

/-!
# Every run ends, and leaves nothing behind

A job has at most seven steps ahead of it, its invocation included, so a run of
finitely many jobs is bounded however they are interleaved and whichever waits run
out. Since somebody who does not wait can always go on, none has to run out. A job
that has returned has no lock and no change that is not committed.
-/

namespace VehicleRentals

open Concurrent

namespace Postgres

/-- A bound on the steps a job still has ahead of it. -/
def Phase.ahead : Phase → Nat
  | .idle => 7
  | .opening _ => 6
  | .looking _ _ _ => 5
  | .scheduling _ _ _ => 4
  | .adding _ _ _ | .saving _ _ _ => 3
  | .ending _ _ _ | .finding _ _ => 2
  | .retrying _ _ | .counting _ _ _ | .listing _ => 1
  | .done _ => 0

theorem ahead_afterLook_lt (r : Reserve) (key : IdempotencyKey) (size : Nat) (found : Option Booking) :
    (afterLook r key size found).ahead < 5 := by
  unfold afterLook
  split
  · simp [Phase.ahead]
  · split <;> simp [Phase.ahead]

theorem ahead_afterFound_lt (bookingId : Int) (actor : Customer) (now : Instant) (found : Option Booking) :
    (afterFound bookingId actor now found).ahead < 6 := by
  unfold afterFound
  split
  · simp [Phase.ahead]
  · split_ifs <;> simp [Phase.ahead]

theorem ahead_afterFail_lt (block : Block) (e : Exn) : (afterFail block e).ahead < 2 := by
  by_cases lost : e = .duplicateIdempotencyKey
  · subst lost
    cases block <;> simp [afterFail, Phase.ahead]
  · rw [afterFail_of_ne block lost]
    exact Nat.two_pos

theorem ahead_invoked_lt (job : Job) : (invoked job).ahead < 7 := by
  rcases job with (r | _ | ⟨policy, T, P, now⟩ | _) | _
  · simp only [invoked]
    split <;> simp [Phase.ahead]
  · simp [invoked, Phase.ahead]
  · simp only [invoked]
    split <;> simp [Phase.ahead]
  · simp [invoked, Phase.ahead]
  · simp [invoked, Phase.ahead]

variable {ι : Type} [DecidableEq ι] {engine : Engine} {jobs : ι → Job} {users : List Int} {fleetId : CarType → Int}

theorem Advance.ahead_lt {i : ι} {w : Option Wait} {ph ph' : Phase} {st st' : Store ι}
    (h : Advance engine users i w ph st ph' st') : ph'.ahead < ph.ahead := by
  cases h with
  | look => exact ahead_afterLook_lt ..
  | schedule =>
    unfold afterSchedule
    split <;> simp [Phase.ahead]
  | lockBooking found free => exact ahead_afterFound_lt ..
  | noBooking missing => exact ahead_afterFound_lt ..
  | rollback => exact ahead_afterFail_lt ..
  | _ => simp [Phase.ahead]

/-- Each step leaves a pool of jobs with fewer steps ahead. -/
theorem Moves.ahead_lt [Fintype ι] {s s' : State ι} {m : ι × Option Wait} (h : Moves engine jobs users s m s') :
    ∑ j, (s'.phase j).ahead < ∑ j, (s.phase j).ahead := by
  refine sum_lt_of_one m.1 ?_ fun j ne => by rw [h.frame ne]
  rcases h.own with ⟨idle, -, phase⟩ | step
  · rw [idle, phase]
    exact ahead_invoked_lt _
  · exact step.ahead_lt

/-- A pool that stands at phases of the protocol, with every thread's locks in place. -/
structure Running (engine : Engine) (jobs : ι → Job) (users : List Int) (fleetId : CarType → Int) (c : Jobs ι)
    (s : State ι) : Prop where
  stands : Stands engine jobs users fleetId c s
  placed : ∀ i, Placed c.shared i (c.thread i)

theorem Running.step {c c' : Jobs ι} {s : State ι} {l : Label Sql ι} (running : Running engine jobs users fleetId c s)
    (h : Step (postgres engine ι) (code jobs) c l c') :
    ∃ s', Moves engine jobs users s (l.thread, waitOf l) s' ∧ Running engine jobs users fleetId c' s' := by
  obtain ⟨s', moved, stands⟩ := step_moves running.stands h
  exact ⟨s', moved, stands, placed_step running.placed h⟩

omit [DecidableEq ι] in
theorem running_start {t : Tables} (fresh : NoBookings t) (engine : Engine) (jobs : ι → Job) (drawn : Int) :
    Running engine jobs t.users (fleetIdOf t) (Pool.start (Db.quiet t drawn)) (State.start ι t drawn) where
  stands := stands_start fresh engine jobs drawn
  placed i := .idle ⟨fun _ => (Option.some_ne_none i).symm, fun _ => (Option.some_ne_none i).symm,
    fun _ => (Option.some_ne_none i).symm⟩

theorem running_of_run {t : Tables} (fresh : NoBookings t) {drawn : Int} {ls : List (Label Sql ι)} {c : Jobs ι}
    (run : Run (Step (postgres engine ι) (code jobs)) (Pool.start (Db.quiet t drawn)) ls c) :
    ∃ s, Running engine jobs t.users (fleetIdOf t) c s := by
  refine run.invariant (I := fun c => ∃ s, Running engine jobs t.users (fleetIdOf t) c s) ?_
    ⟨_, running_start fresh engine jobs drawn⟩
  rintro _ _ _ ⟨s, running⟩ hs
  obtain ⟨s', -, running'⟩ := running.step hs
  exact ⟨s', running'⟩

omit [DecidableEq ι] in
/-- Among the jobs that have a statement ahead, one needs nobody else's lock. -/
theorem exists_free {c : Jobs ι} (placed : ∀ i, Placed c.shared i (c.thread i)) {i : ι} {β : Type} {e : Sql β} {k : β → Code}
    (here : c.thread i = .running (.step e k)) :
    ∃ (j : ι) (β : Type) (e : Sql β) (k : β → Code), c.thread j = .running (.step e k) ∧
      ∀ j', j ≠ j' → ¬ c.shared.Blocks j j' e := by
  have falls : ∀ i j, WaitsFor c i j → threadLevel (c.thread j) < threadLevel (c.thread i) :=
    fun i j => waits_down placed
  -- whoever is waited for is inside a transaction, and has a statement ahead
  have closed : ∀ i j, (∃ (β : Type) (e : Sql β) (k : β → Code), c.thread i = .running (.step e k)) → WaitsFor c i j →
      ∃ (β : Type) (e : Sql β) (k : β → Code), c.thread j = .running (.step e k) := by
    rintro i j - waits
    obtain ⟨p, there, transacting⟩ := unfinished_of_waits placed waits
    cases transacting <;> exact ⟨_, _, _, there⟩
  obtain ⟨j, ⟨β, e', k', there⟩, goes⟩ := exists_not_waiting falls closed ⟨_, e, k, here⟩
  exact ⟨j, β, e', k', there, fun j' ne blocks => goes j' ⟨ne, β, e', k', there, blocks⟩⟩

/-- As long as some job has not returned, some job can move without a wait running out. -/
theorem goes_on {c : Jobs ι} (placed : ∀ i, Placed c.shared i (c.thread i)) (unfinished : ¬ c.Complete) :
    ∃ l c', Step (postgres engine ι) (code jobs) c l c' ∧ waitOf l = none := by
  obtain ⟨i, running⟩ := not_forall.1 unfinished
  cases here : c.thread i with
  | idle => exact ⟨_, _, .invoke here, rfl⟩
  | running p =>
    cases p with
    | ret x =>
      rw [here] at running
      exact absurd rfl running
    | step e k =>
      obtain ⟨j, β, e', k', there, free⟩ := exists_free placed here
      obtain ⟨x, db', hx, unwaited⟩ := exec_free engine free
      exact ⟨_, _, .act there hx, unwaited⟩

omit [DecidableEq ι] in
/-- A job that is not under way has neither a lock nor a change. -/
theorem Running.rests {c : Jobs ι} {s : State ι} (running : Running engine jobs users fleetId c s) {i : ι}
    (rests : ¬ c.InProgress i) : Unlocked c.shared i ∧ c.shared.writes i = [] := by
  have phase := running.stands.threads i
  have ended : c.thread i = .idle ∨ ∃ x, (c.thread i).result = some x := by
    by_contra under
    push Not at under
    exact rests ⟨under.1, Option.eq_none_iff_forall_ne_some.2 under.2⟩
  constructor
  · rcases (running.placed i).unlocked_or_transacting with free | ⟨p, here, transacting⟩
    · exact free
    · rcases ended with idle | ⟨x, returned⟩
      · cases idle.symm.trans here
      · rw [Thread.result_eq_some returned] at here
        cases here
        cases transacting
  · rw [running.stands.mirrors.writes, running.stands.inv.tied]
    rcases ended with idle | ⟨x, returned⟩
    · rw [Phase.thread_eq_idle (phase.symm.trans idle)]
      rfl
    · rw [phase] at returned
      rw [Phase.done_of_result returned]
      rfl

/-- However finitely many jobs are interleaved and whichever waits run out: they take at
most seven steps each; from any state they can go on to the end without a wait running
out; and a job that has returned has neither a lock nor a change it has not committed. -/
theorem run_ends [Fintype ι] (engine : Engine) (jobs : ι → Job) {t : Tables} (fresh : NoBookings t) (drawn : Int)
    {ls : List (Label Sql ι)} {c : Jobs ι}
    (run : Run (Step (postgres engine ι) (code jobs)) (Pool.start (Db.quiet t drawn)) ls c) :
    ls.length ≤ 7 * Fintype.card ι ∧
    (∃ ls' c', Run (fun a l b => Step (postgres engine ι) (code jobs) a l b ∧ waitOf l = none) c ls' c' ∧ c'.Complete) ∧
    ∀ i x, (c.thread i).result = some x → Unlocked c.shared i ∧ c.shared.writes i = [] := by
  have start := running_start fresh engine jobs drawn
  obtain ⟨s, trace, running⟩ : ∃ s, Run (fun a l b => Moves engine jobs t.users a (Label.thread l, waitOf l) b)
        (State.start ι t drawn) ls s ∧ Running engine jobs t.users (fleetIdOf t) c s := by
    refine run.simulate (Running engine jobs t.users (fleetIdOf t)) ?_ start
    intro _ _ _ _ running hs
    exact running.step hs
  refine ⟨?_, ?_, ?_⟩
  · have length := trace.length_le (I := fun _ => True) (m := fun s => ∑ j, (s.phase j).ahead)
      (fun _ _ _ _ moved => ⟨trivial, moved.ahead_lt⟩) trivial
    have all : ∑ j, ((State.start ι t drawn).phase j).ahead = Fintype.card ι * 7 :=
      Finset.sum_const_nat fun _ _ => rfl
    rw [all] at length
    omega
  · have goes : ∀ a : Jobs ι × State ι, Running engine jobs t.users (fleetIdOf t) a.1 a.2 → ¬ a.1.Complete →
        ∃ l, ∃ b : Jobs ι × State ι, (Step (postgres engine ι) (code jobs) a.1 l b.1 ∧ waitOf l = none) ∧
          Running engine jobs t.users (fleetIdOf t) b.1 b.2 ∧ ∑ j, (b.2.phase j).ahead < ∑ j, (a.2.phase j).ahead := by
      intro a running unfinished
      obtain ⟨l, c', hs, unwaited⟩ := goes_on running.placed unfinished
      obtain ⟨s', moved, running'⟩ := running.step hs
      exact ⟨l, (c', s'), ⟨hs, unwaited⟩, running', moved.ahead_lt⟩
    obtain ⟨ls', ⟨c', s'⟩, rest, -, complete⟩ := exists_run_to goes (c, s) running
    exact ⟨ls', c', rest.fst fun _ _ _ hs => hs, complete⟩
  · intro i x returned
    exact running.rests fun under => by cases under.2.symm.trans returned

/-- The sedan is booked, cancelled and booked again, while its fleet is edited. -/
def longQueue : Fin 4 → Job
  | 0 => .call (.reserve (springReserve .sedan))
  | 1 => .call (.cancel 1 { id := 7 } 10)
  | 2 => .call (.reserve { springReserve .sedan with idempotencyKey := "spring-2027" })
  | 3 => .edit .sedan 2

/-- All four are under way and three wait for the first. -/
theorem run_ends_longQueue : ∃ ls c ls' c', Run (Step (postgres plainEngine (Fin 4)) (code longQueue))
      (Pool.start (Db.quiet smallTables 1)) ls c ∧ WaitsFor c 2 0 ∧ WaitsFor c 3 0 ∧ ls.length ≤ 28 ∧
    Run (fun a l b => Step (postgres plainEngine (Fin 4)) (code longQueue) a l b ∧ waitOf l = none) c ls' c' ∧
    c'.Complete := by
  obtain ⟨ls, c, run, second, third⟩ : ∃ ls c, Run (Step (postgres plainEngine (Fin 4)) (code longQueue))
        (Pool.start (Db.quiet smallTables 1)) ls c ∧ WaitsFor c 2 0 ∧ WaitsFor c 3 0 :=
    Machine.exists_run_of_drive ([0, 2, 3, 1, 0, 0].map (·, 0)) ⟨_, _, rfl,
      ⟨by decide, _, _, _, rfl, _, rfl, rfl⟩, ⟨by decide, _, _, _, rfl, _, rfl, rfl⟩⟩
  obtain ⟨short, ⟨ls', c', rest, complete⟩, -⟩ := run_ends plainEngine longQueue noBookings_smallTables 1 run
  exact ⟨ls, c, ls', c', run, second, third, short, rest, complete⟩

end Postgres

end VehicleRentals
