import VehicleRentals.Concurrent.Waits
import VehicleRentals.Postgres.Jobs
import VehicleRentals.Postgres.Locks

/-!
# No deadlock

A transaction waits in one of three places. Whoever has inserted a row only ends,
and whoever has a fleet's row waits at most for such an insert; a reservation's
row is had by a cancellation, which then waits for nothing. So waiting goes down
a level (`waits_down`), whatever the tables hold.
-/

namespace VehicleRentals

open Concurrent

variable {ι : Type}

/-- Connection `j` has the lock that a statement of connection `i` needs. -/
def Db.Blocks (db : Db ι) (i j : ι) : {β : Type} → Sql β → Prop
  | _, .lockFleet name => ∃ fleet, (db.view i).fleetNamed name = some fleet ∧ db.fleetLock fleet.id = some j
  | _, .resize name _ => ∃ fleet, (db.view i).fleetNamed name = some fleet ∧ db.fleetLock fleet.id = some j
  | _, .lockReservation id => db.rowLock id = some j
  | _, .update id _ _ => db.rowLock id = some j
  | _, .insert userId _ _ _ key => db.keyLock (userId, key) = some j
  | _, _ => False

namespace Postgres

/-- Thread `i` cannot execute its next statement before the transaction of another
thread `j` has ended. -/
def WaitsFor (c : Jobs ι) (i j : ι) : Prop :=
  i ≠ j ∧ ∃ (β : Type) (e : Sql β) (k : β → Code), c.thread i = .running (.step e k) ∧ c.shared.Blocks i j e

/-- Code inside a transaction: whichever way it goes, a `COMMIT` or a `ROLLBACK` is ahead. -/
inductive Transacting : Code → Prop where
  | commit {k : Except Exn Unit → Code} : Transacting (.step .commit k)
  | rollback {k : Unit → Code} : Transacting (.step .rollback k)
  | step {β : Type} {e : Sql β} {k : β → Code} : (∀ x, Transacting (k x)) → Transacting (.step e k)

/-- Thread `i` has a transaction that has not ended. -/
def Unfinished (c : Jobs ι) (i : ι) : Prop := ∃ p, c.thread i = .running p ∧ Transacting p

/-- What a statement may have to wait for, from the lowest level: nothing, a key or a
reservation's row, the row of a fleet. The `UPDATE` of a cancellation has its lock. -/
def level : {β : Type} → Sql β → Nat
  | _, .lockFleet _ => 2
  | _, .resize .. => 2
  | _, .lockReservation _ => 1
  | _, .insert .. => 1
  | _, _ => 0

/-- The level of a thread's next statement. -/
def threadLevel : Thread Sql Result → Nat
  | .running (.step e _) => level e
  | _ => 0

/-! ## What a connection has at each point of its code -/

/-- Code outside a transaction. -/
inductive Reading : Code → Prop where
  | ret {x : Result} : Reading (.ret x)
  | selectByKey {u : Int} {key : String} {k : Option (ReservationRow × CarTypeRow) → Code} :
      (∀ x, Reading (k x)) → Reading (.step (.selectByKey u key) k)
  | selectFleet {name : String} {k : Option CarTypeRow → Code} :
      (∀ x, Reading (k x)) → Reading (.step (.selectFleet name) k)
  | selectOverlapping {id : Int} {period : RentalPeriod} {k : List ReservationRow → Code} :
      (∀ x, Reading (k x)) → Reading (.step (.selectOverlapping id period) k)
  | selectByUser {u : Int} {k : List (ReservationRow × CarTypeRow) → Code} :
      (∀ x, Reading (k x)) → Reading (.step (.selectByUser u) k)

/-- Where a thread stands, with the locks its connection may have there. The fleet's
row is what the code read under its lock, whatever that was. -/
inductive Placed (db : Db ι) (i : ι) : Thread Sql Result → Prop where
  | idle : Unlocked db i → Placed db i .idle
  | reading {p : Code} : Unlocked db i → Reading p → Placed db i (.running p)
  | opening (block : Block) : Unlocked db i → Placed db i (.running (openCode block))
  | looking (r : Reserve) (key : IdempotencyKey) (fleet : CarTypeRow) :
      HasNone db.rowLock i → HasNone db.keyLock i → Placed db i (.running (lookCode r key fleet))
  | scheduling (r : Reserve) (key : IdempotencyKey) (fleet : CarTypeRow) :
      HasNone db.rowLock i → HasNone db.keyLock i → Placed db i (.running (scheduleCode r key fleet))
  | adding (r : Reserve) (key : IdempotencyKey) (fleet : CarTypeRow) :
      HasNone db.rowLock i → HasNone db.keyLock i → Placed db i (.running (addCode r key fleet))
  | saving (booking : Booking) (actor : Customer) (now : Instant) :
      db.rowLock booking.id = some i → Placed db i (.running (saveCode booking actor now))
  | ending (block : Block) (x : Result) : Placed db i (.running (endCode block x))

theorem transacting_endCode (block : Block) (x : Result) : Transacting (endCode block x) := by
  cases x with
  | ok reply => exact .commit
  | error e => exact .rollback

theorem transacting_addCode (r : Reserve) (key : IdempotencyKey) (fleet : CarTypeRow) :
    Transacting (addCode r key fleet) :=
  .step fun _ => transacting_endCode _ _

theorem transacting_scheduleCode (r : Reserve) (key : IdempotencyKey) (fleet : CarTypeRow) :
    Transacting (scheduleCode r key fleet) := by
  refine .step fun rows => ?_
  split
  · exact transacting_endCode _ _
  · split
    · exact transacting_addCode r key fleet
    · exact transacting_endCode _ _

theorem transacting_lookCode (r : Reserve) (key : IdempotencyKey) (fleet : CarTypeRow) :
    Transacting (lookCode r key fleet) := by
  refine .step fun row => ?_
  split
  · exact transacting_endCode _ _
  · exact transacting_endCode _ _
  · split
    · exact transacting_endCode _ _
    · exact transacting_scheduleCode r key fleet

theorem transacting_saveCode (booking : Booking) (actor : Customer) (now : Instant) :
    Transacting (saveCode booking actor now) :=
  .step fun _ => transacting_endCode _ _

/-- Whoever has a lock is in a transaction. -/
theorem Placed.unlocked_or_transacting {db : Db ι} {i : ι} {th : Thread Sql Result} (h : Placed db i th) :
    Unlocked db i ∨ ∃ p, th = .running p ∧ Transacting p := by
  cases h with
  | idle free => exact .inl free
  | reading free _ => exact .inl free
  | opening block free => exact .inl free
  | looking r key fleet => exact .inr ⟨_, rfl, transacting_lookCode r key fleet⟩
  | scheduling r key fleet => exact .inr ⟨_, rfl, transacting_scheduleCode r key fleet⟩
  | adding r key fleet => exact .inr ⟨_, rfl, transacting_addCode r key fleet⟩
  | saving booking actor now => exact .inr ⟨_, rfl, transacting_saveCode booking actor now⟩
  | ending block x => exact .inr ⟨_, rfl, transacting_endCode block x⟩

theorem threadLevel_endCode (block : Block) (x : Result) : threadLevel (.running (endCode block x)) = 0 := by
  cases x <;> rfl

/-- Who has a fleet's row waits at most for a key. -/
theorem Placed.level_of_fleet {db : Db ι} {i : ι} {th : Thread Sql Result} (h : Placed db i th) {f : Int}
    (mine : db.fleetLock f = some i) : threadLevel th < 2 := by
  cases h with
  | idle free => exact absurd mine (free.fleet f)
  | reading free _ => exact absurd mine (free.fleet f)
  | opening block free => exact absurd mine (free.fleet f)
  | looking => exact Nat.two_pos
  | scheduling => exact Nat.two_pos
  | adding => exact Nat.one_lt_two
  | saving => exact Nat.two_pos
  | ending block x => rw [threadLevel_endCode]; exact Nat.two_pos

/-- Whoever waits has no reservation's row and has inserted nothing. -/
theorem Placed.bare_or_zero {db : Db ι} {i : ι} {th : Thread Sql Result} (h : Placed db i th) :
    (HasNone db.rowLock i ∧ HasNone db.keyLock i) ∨ threadLevel th = 0 := by
  cases h with
  | idle free => exact .inl ⟨free.row, free.key⟩
  | reading free _ => exact .inl ⟨free.row, free.key⟩
  | opening block free => exact .inl ⟨free.row, free.key⟩
  | looking _ _ _ noRow noKey => exact .inl ⟨noRow, noKey⟩
  | scheduling _ _ _ noRow noKey => exact .inl ⟨noRow, noKey⟩
  | adding _ _ _ noRow noKey => exact .inl ⟨noRow, noKey⟩
  | saving => exact .inr rfl
  | ending block x => exact .inr (threadLevel_endCode block x)

theorem Placed.level_of_row {db : Db ι} {i : ι} {th : Thread Sql Result} (h : Placed db i th) {id : Int}
    (mine : db.rowLock id = some i) : threadLevel th = 0 := by
  rcases h.bare_or_zero with ⟨noRow, -⟩ | zero
  · exact absurd mine (noRow id)
  · exact zero

theorem Placed.level_of_key {db : Db ι} {i : ι} {th : Thread Sql Result} (h : Placed db i th) {uk : Int × String}
    (mine : db.keyLock uk = some i) : threadLevel th = 0 := by
  rcases h.bare_or_zero with ⟨-, noKey⟩ | zero
  · exact absurd mine (noKey uk)
  · exact zero

/-- The reservation a thread is about to update. -/
def updating : Thread Sql Result → Option Int
  | .running (.step (.update id _ _) _) => some id
  | _ => none

/-- The `UPDATE` of a cancellation is of the row it has locked. -/
theorem Placed.row_of_update {db : Db ι} {i : ι} {th : Thread Sql Result} (h : Placed db i th) {id : Int}
    (about : updating th = some id) : db.rowLock id = some i := by
  cases h with
  | saving booking actor now mine =>
    cases about
    exact mine
  | ending block x => cases x <;> cases about
  | opening block => cases block <;> cases about
  | reading free reads => cases reads <;> cases about
  | _ => cases about

/-- Waiting goes down a level. -/
theorem waits_down {c : Jobs ι} (placed : ∀ i, Placed c.shared i (c.thread i)) {i j : ι} (h : WaitsFor c i j) :
    threadLevel (c.thread j) < threadLevel (c.thread i) := by
  obtain ⟨ne, β, e, k, here, blocks⟩ := h
  have mine := placed i
  rw [here] at mine ⊢
  cases e with
  | lockFleet name =>
    obtain ⟨fleet, -, theirs⟩ := blocks
    exact (placed j).level_of_fleet theirs
  | resize name fleetSize =>
    obtain ⟨fleet, -, theirs⟩ := blocks
    exact (placed j).level_of_fleet theirs
  | lockReservation id =>
    rw [(placed j).level_of_row blocks]
    exact Nat.one_pos
  | insert userId carTypeId startAt endAt key =>
    rw [(placed j).level_of_key blocks]
    exact Nat.one_pos
  | update id status cancelledAt =>
    have both : some i = some j := (mine.row_of_update rfl).symm.trans blocks
    exact absurd (Option.some.inj both) ne
  | _ => exact blocks.elim

/-- Whoever is waited for has a transaction that has not ended. -/
theorem unfinished_of_waits {c : Jobs ι} (placed : ∀ i, Placed c.shared i (c.thread i)) {i j : ι}
    (h : WaitsFor c i j) : Unfinished c j := by
  obtain ⟨-, β, e, k, -, blocks⟩ := h
  rcases (placed j).unlocked_or_transacting with free | unfinished
  · exfalso
    cases e with
    | lockFleet name =>
      obtain ⟨fleet, -, theirs⟩ := blocks
      exact free.fleet _ theirs
    | resize name fleetSize =>
      obtain ⟨fleet, -, theirs⟩ := blocks
      exact free.fleet _ theirs
    | lockReservation id => exact free.row _ blocks
    | insert userId carTypeId startAt endAt key => exact free.key _ blocks
    | update id status cancelledAt => exact free.row _ blocks
    | _ => exact blocks
  · exact unfinished

/-! ## The steps -/

theorem id_of_toBooking {row : ReservationRow × CarTypeRow} {b : Booking} (h : toBooking row = .ok b) :
    b.id = row.1.id := by
  unfold toBooking ReservationRow.toBooking at h
  cases kind : row.2.kind with
  | error e => rw [kind] at h; cases h
  | ok kind' =>
    cases period : RentalPeriod.new row.1.startAt row.1.endAt with
    | error e => rw [kind, period] at h; cases h
    | ok period' =>
      cases key : IdempotencyKey.new row.1.idempotencyKey with
      | error e => rw [kind, period, key] at h; cases h
      | ok key' =>
        cases status : BookingStatus.ofValue row.1.status with
        | none => rw [kind, period, key, status] at h; cases h
        | some status' => rw [kind, period, key, status] at h; cases h; rfl

/-- A thread that fails leaves its transaction; it may still read. -/
theorem reading_failCode (block : Block) (e : Exn) : Reading (failCode block e) := by
  by_cases lost : e = .duplicateIdempotencyKey
  · subst lost
    cases block with
    | reserve r key => exact .selectByKey fun _ => .ret
    | cancel => exact .ret
    | edit => exact .ret
  · rw [failCode_of_ne block lost]
    exact .ret

/-- An invoked job reads, or opens its transaction. -/
theorem placed_invoked {db : Db ι} {i : ι} (free : Unlocked db i) (job : Job) : Placed db i (.running job.program) := by
  have counting : ∀ period fleet, Reading (countCode period fleet) := fun _ _ => .selectOverlapping fun _ => .ret
  have finding : ∀ carType period, Reading (findCode carType period) := by
    intro carType period
    refine .selectFleet fun fleet => ?_
    cases fleet with
    | none => exact .ret
    | some fleet => exact counting period fleet
  rw [← thread_invoked fun _ => 0]
  cases job with
  | edit carType fleetSize => exact .opening _ free
  | call c =>
    cases c with
    | reserve r =>
      simp only [invoked]
      cases IdempotencyKey.new r.idempotencyKey with
      | error e => exact .reading free .ret
      | ok key => exact .opening _ free
    | cancel bookingId actor now => exact .opening _ free
    | availability policy carType period now =>
      simp only [invoked]
      cases policy.validate period now with
      | error e => exact .reading free .ret
      | ok _ => exact .reading free (finding carType period)
    | reservationsFor customer => exact .reading free (.selectByUser fun _ => .ret)

/-- What a thread has is not changed by the others. -/
theorem Placed.stable {db db' : Db ι} {j : ι} {th : Thread Sql Result} (h : Placed db j th) (kept : Keeps j db db') :
    Placed db' j th := by
  have none : ∀ {κ : Type} {locks locks' : κ → Option ι}, (∀ k, locks' k = some j ↔ locks k = some j) →
      HasNone locks j → HasNone locks' j :=
    fun same free k mine => free k ((same k).1 mine)
  have unlocked : Unlocked db j → Unlocked db' j :=
    fun free => ⟨none kept.fleet free.fleet, none kept.row free.row, none kept.key free.key⟩
  cases h with
  | idle free => exact .idle (unlocked free)
  | reading free reads => exact .reading (unlocked free) reads
  | opening block free => exact .opening block (unlocked free)
  | looking r key fleet noRow noKey => exact .looking r key fleet (none kept.row noRow) (none kept.key noKey)
  | scheduling r key fleet noRow noKey => exact .scheduling r key fleet (none kept.row noRow) (none kept.key noKey)
  | adding r key fleet noRow noKey => exact .adding r key fleet (none kept.row noRow) (none kept.key noKey)
  | saving booking actor now mine => exact .saving booking actor now ((kept.row _).2 mine)
  | ending block x => exact .ending block x

section

variable [DecidableEq ι] {engine : Engine}

/-- The next statement of a thread leads to where it stands next. -/
theorem placed_exec {i : ι} {db db' : Db ι} {β : Type} {e : Sql β} {k : β → Code} {x : β}
    (h : Placed db i (.running (.step e k))) (hx : (x, db') ∈ (postgres engine ι).exec i e db) :
    Placed db' i (.running (k x)) := by
  generalize here : Thread.running (Prog.step e k) = th at h
  cases h with
  | idle free => cases here
  | reading free reads =>
    cases here
    cases reads with
    | selectByKey reads =>
      cases List.mem_singleton.1 hx
      exact .reading free (reads _)
    | selectFleet reads =>
      cases List.mem_singleton.1 hx
      exact .reading free (reads _)
    | selectOverlapping reads =>
      cases List.mem_singleton.1 hx
      exact .reading free (reads _)
    | selectByUser reads =>
      cases List.mem_singleton.1 hx
      exact .reading free (reads _)
  | opening block free =>
    cases block with
    | reserve r key =>
      cases here
      obtain ⟨-, row, keys⟩ := taken_lockFleet hx
      dsimp only
      cases locked r.carType x with
      | error e => exact .ending _ _
      | ok fleet => exact .looking r key fleet (row ▸ free.row) (keys ▸ free.key)
    | cancel bookingId actor now =>
      cases here
      rcases x with e | (_ | row)
      · exact .ending _ _
      · exact .ending (.cancel bookingId actor now) (.error (reservationNotFound bookingId))
      · obtain ⟨same, mine⟩ := exec_lockReservation hx
        cases decoded : toBooking row with
        | error e =>
          simp only [read, decoded, Except.map]
          exact .ending _ _
        | ok booking =>
          simp only [read, decoded, Except.map, cancelCode]
          have id := (id_of_toBooking decoded).trans same
          split
          · split
            · exact .ending _ _
            · split
              · exact .ending _ _
              · exact .saving booking actor now (id ▸ mine)
          · exact .ending _ _
    | edit carType fleetSize =>
      cases here
      exact .ending _ _
  | looking r key fleet noRow noKey =>
    cases here
    cases List.mem_singleton.1 hx
    dsimp only
    split
    · exact .ending _ _
    · exact .ending _ _
    · split
      · exact .ending _ _
      · exact .scheduling r key fleet noRow noKey
  | scheduling r key fleet noRow noKey =>
    cases here
    cases List.mem_singleton.1 hx
    dsimp only
    split
    · exact .ending _ _
    · split
      · exact .adding r key fleet noRow noKey
      · exact .ending _ _
  | adding r key fleet noRow noKey =>
    cases here
    exact .ending _ _
  | saving booking actor now mine =>
    cases here
    exact .ending _ _
  | ending block result =>
    cases result with
    | ok reply =>
      cases here
      obtain ⟨tables, rfl⟩ := exec_commit hx
      have free := unlocked_finish db i tables
      cases x with
      | ok _ => exact .reading free .ret
      | error e => exact .reading free (reading_failCode block e)
    | error e =>
      cases here
      cases List.mem_singleton.1 hx
      exact .reading (unlocked_finish db i _) (reading_failCode block e)

/-- Every step of a pool keeps every thread at one of these places. -/
theorem placed_step {jobs : ι → Job} {c c' : Jobs ι} {l : Label Sql ι}
    (placed : ∀ i, Placed c.shared i (c.thread i)) (h : Step (postgres engine ι) (code jobs) c l c') :
    ∀ i, Placed c'.shared i (c'.thread i) := by
  intro j
  cases h with
  | @invoke i idle =>
    by_cases e : j = i
    · subst e
      have here := placed j
      rw [idle] at here
      simp only [Function.update_self]
      cases here with
      | idle free => exact placed_invoked free (jobs j)
    · simp only [Function.update_of_ne e]
      exact placed j
  | @act i β st k x db' running hx =>
    by_cases e : j = i
    · subst e
      have here := placed j
      rw [running] at here
      simp only [Function.update_self]
      exact placed_exec here hx
    · simp only [Function.update_of_ne e]
      exact (placed j).stable (keeps_exec e hx)

theorem grantable_of_free {κ : Type} {locks : κ → Option ι} {k : κ} {i : ι} (free : ∀ j, i ≠ j → locks k ≠ some j) :
    Db.grantable locks k i = true := by
  unfold Db.grantable
  cases holder : locks k with
  | none => rfl
  | some j =>
    by_cases e : i = j
    · rw [e, beq_self_eq_true, Bool.or_true]
    · exact absurd holder (free j e)

/-- A statement that needs no other connection's lock responds without a wait running out. -/
theorem exec_free (engine : Engine) {i : ι} {β : Type} {e : Sql β} {db : Db ι} (free : ∀ j, i ≠ j → ¬ db.Blocks i j e) :
    ∃ x db', (x, db') ∈ (postgres engine ι).exec i e db ∧ waited e x = none := by
  cases e with
  | lockFleet name =>
    simp only [postgres]
    cases found : (db.view i).fleetNamed name with
    | none => exact ⟨_, _, List.mem_singleton_self _, rfl⟩
    | some fleet =>
      have grant := grantable_of_free fun j ne held => free j ne ⟨fleet, found, held⟩
      simp only [grant, if_true]
      exact ⟨_, _, List.mem_singleton_self _, rfl⟩
  | resize name fleetSize =>
    simp only [postgres]
    cases found : (db.view i).fleetNamed name with
    | none => exact ⟨_, _, List.mem_singleton_self _, rfl⟩
    | some fleet =>
      have grant := grantable_of_free fun j ne held => free j ne ⟨fleet, found, held⟩
      simp only [grant, if_true]
      exact ⟨_, _, List.mem_singleton_self _, rfl⟩
  | lockReservation id =>
    have grant : Db.grantable db.rowLock id i = true := grantable_of_free free
    simp only [postgres, grant, if_true]
    split <;> exact ⟨_, _, List.mem_singleton_self _, rfl⟩
  | insert userId carTypeId startAt endAt key =>
    have grant : Db.grantable db.keyLock (userId, key) i = true := grantable_of_free free
    simp only [postgres, grant, Bool.not_true, Bool.false_eq_true, if_false]
    split_ifs <;> exact ⟨_, _, List.mem_singleton_self _, rfl⟩
  | update id status cancelledAt =>
    have grant : Db.grantable db.rowLock id i = true := grantable_of_free free
    simp only [postgres, grant, Bool.not_true, Bool.false_eq_true, if_false]
    split
    · exact ⟨_, _, List.mem_singleton_self _, rfl⟩
    · split_ifs <;> exact ⟨_, _, List.mem_singleton_self _, rfl⟩
  | commit =>
    simp only [postgres]
    split_ifs <;> exact ⟨_, _, List.mem_singleton_self _, rfl⟩
  | _ => exact ⟨_, _, List.mem_singleton_self _, rfl⟩

/-- Whatever the tables hold at first, and in every state of every interleaving of jobs,
each in a transaction of its own: nobody waits for themselves through others, and if
some transaction has not ended then one of those does not wait, and can go on. -/
theorem no_deadlock (engine : Engine) (jobs : ι → Job) (tables : Tables) (drawn : Int) {ls : List (Label Sql ι)}
    {c : Jobs ι} (h : Run (Step (postgres engine ι) (code jobs)) (.start (Db.quiet tables drawn)) ls c) :
    (∀ i, ¬ Relation.TransGen (WaitsFor c) i i) ∧
    ((∃ i, Unfinished c i) → ∃ i, Unfinished c i ∧ (∀ j, ¬ WaitsFor c i j) ∧
      ∃ l c', Step (postgres engine ι) (code jobs) c l c' ∧ l.thread = i ∧ waitOf l = none) := by
  have start : ∀ i, Placed (Pool.start (Db.quiet tables drawn) : Jobs ι).shared i
      ((Pool.start (Db.quiet tables drawn) : Jobs ι).thread i) := by
    intro i
    exact .idle ⟨nofun, nofun, nofun⟩
  have placed : ∀ i, Placed c.shared i (c.thread i) :=
    h.invariant (I := fun c => ∀ i, Placed c.shared i (c.thread i)) (fun _ _ _ hc hs => placed_step hc hs) start
  have falls : ∀ i j, WaitsFor c i j → threadLevel (c.thread j) < threadLevel (c.thread i) :=
    fun i j => waits_down placed
  refine ⟨no_cycle falls, ?_⟩
  rintro ⟨i, unfinished⟩
  obtain ⟨j, unfinished', goes⟩ := exists_not_waiting falls (fun _ _ _ => unfinished_of_waits placed) unfinished
  refine ⟨j, unfinished', goes, ?_⟩
  obtain ⟨p, here, transacting⟩ := unfinished'
  obtain ⟨β, e, k, rfl⟩ : ∃ (β : Type) (e : Sql β) (k : β → Code), p = .step e k := by
    cases transacting <;> exact ⟨_, _, _, rfl⟩
  have free : ∀ j', j ≠ j' → ¬ c.shared.Blocks j j' e :=
    fun j' ne blocks => goes j' ⟨ne, β, e, k, here, blocks⟩
  obtain ⟨x, db', hx, unwaited⟩ := exec_free engine free
  exact ⟨_, _, .act here hx, rfl, unwaited⟩

/-- One key for the sedan and the van, and a third request for the van. -/
def queueJobs : Fin 3 → Job
  | 0 => .call (.reserve (springReserve .sedan))
  | 1 => .call (.reserve (springReserve .van))
  | 2 => .call (.reserve { springReserve .van with idempotencyKey := "spring-2027" })

/-- The third waits for the van's row and its holder for the first one's key. -/
theorem no_deadlock_queue : ∃ ls c,
    Run (Step (postgres plainEngine (Fin 3)) (code queueJobs)) (.start (Db.quiet smallTables 1)) ls c ∧
    WaitsFor c 2 1 ∧ WaitsFor c 1 0 ∧ ¬ Relation.TransGen (WaitsFor c) 2 2 ∧
    ∃ i, Unfinished c i ∧ ∀ j, ¬ WaitsFor c i j := by
  obtain ⟨ls, c, run, first, second, opened⟩ : ∃ ls c,
      Run (Step (postgres plainEngine (Fin 3)) (code queueJobs)) (.start (Db.quiet smallTables 1)) ls c ∧
        WaitsFor c 2 1 ∧ WaitsFor c 1 0 ∧ Unfinished c 0 :=
    Machine.exists_run_of_drive ([0, 1, 2, 0, 1, 0, 1, 0, 1, 0].map (·, 0)) ⟨_, _, rfl,
      ⟨by decide, _, _, _, rfl, _, rfl, rfl⟩, ⟨by decide, _, _, _, rfl, rfl⟩, _, rfl, .commit⟩
  obtain ⟨acyclic, progress⟩ := no_deadlock plainEngine queueJobs smallTables 1 run
  obtain ⟨i, unfinished, goes, -⟩ := progress ⟨0, opened⟩
  exact ⟨ls, c, run, first, second, acyclic 2, i, unfinished, goes⟩

end

end Postgres

end VehicleRentals
