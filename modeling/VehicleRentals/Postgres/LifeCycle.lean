import VehicleRentals.Postgres.Overbooking

/-!
# The life of a booking on the database

A committed row keeps everything but its status and stamp, and those change once,
at the commit of one `cancel` call that held the row's lock when it found the
booking active.
-/

namespace VehicleRentals

open Concurrent

namespace ReservationRow

/-- The same booking: what never changes in a row. -/
structure SameBooking (a b : ReservationRow) : Prop where
  id : a.id = b.id
  carTypeId : a.carTypeId = b.carTypeId
  userId : a.userId = b.userId
  startAt : a.startAt = b.startAt
  endAt : a.endAt = b.endAt
  idempotencyKey : a.idempotencyKey = b.idempotencyKey

/-- The row before it was cancelled. -/
def uncancelled (row : ReservationRow) : ReservationRow :=
  { row with status := BookingStatus.active.value, cancelledAt := none }

end ReservationRow

theorem sameBooking_encode (fleetId : CarType → Int) {a b : Booking} (h : a.SameOrigin b) :
    (encode fleetId a).SameBooking (encode fleetId b) where
  id := h.id
  carTypeId := congrArg fleetId h.carType
  userId := h.customerId
  startAt := congrArg RentalPeriod.start h.period
  endAt := congrArg RentalPeriod.stop h.period
  idempotencyKey := congrArg IdempotencyKey.value h.idempotencyKey

namespace Postgres

theorem single_postgres (engine : Engine) (ι : Type) [DecidableEq ι] : (postgres engine ι).Single := by
  intro β i e db x y hx hy
  have one : ∃ o, (postgres engine ι).exec i e db = [o] := by
    cases e <;> simp only [postgres] <;> repeat' split
    all_goals exact ⟨_, rfl⟩
  obtain ⟨o, e⟩ := one
  rw [e] at hx hy
  rw [List.mem_singleton.1 hx, List.mem_singleton.1 hy]

section

variable {ι : Type} [DecidableEq ι] {engine : Engine} {jobs : ι → Job} {users : List Int} {fleetId : CarType → Int}

/-- Over a whole run, bookings are only added and cancelled. -/
theorem later_of_run {c c' : Jobs ι} {s : State ι} {ls : List (Label Sql ι)}
    (stands : Stands engine jobs users fleetId c s) (run : Run (Step (postgres engine ι) (code jobs)) c ls c') :
    ∃ s', Stands engine jobs users fleetId c' s' ∧ s.store.table.Later s'.store.table := by
  obtain ⟨s', moves, stands'⟩ := run_stands stands run
  refine ⟨s', stands', moves.relates (I := Inv engine jobs) (fun _ _ _ inv hs => inv_moves hs inv)
    (R := fun a b => a.store.table.Later b.store.table) (fun _ => .refl _) (fun _ _ _ => .trans) ?_ stands.inv⟩
  exact fun _ _ _ inv hs => (hs.step inv).later inv.store

/-- A committed row stays, with everything but its status and stamp; a cancelled one as it is. -/
theorem row_kept {c c' : Jobs ι} {s : State ι} {ls : List (Label Sql ι)}
    (stands : Stands engine jobs users fleetId c s) (run : Run (Step (postgres engine ι) (code jobs)) c ls c')
    {row : ReservationRow} (hrow : row ∈ c.shared.tables.reservations) :
    ∃ row' ∈ c'.shared.tables.reservations, row.SameBooking row' ∧
      (row.status = BookingStatus.cancelled.value → row' = row) := by
  obtain ⟨s', stands', later⟩ := later_of_run stands run
  rw [stands.mirrors.rows] at hrow
  obtain ⟨b, hb, rfl⟩ := List.mem_map.1 hrow
  obtain ⟨b', hb', origin, kept⟩ := later b hb
  refine ⟨encode fleetId b', ?_, sameBooking_encode fleetId origin, ?_⟩
  · rw [stands'.mirrors.rows]
    exact List.mem_map_of_mem hb'
  · intro gone
    rw [kept (value_inj_status.1 gone)]

omit [DecidableEq ι] in
theorem ids_nodup {c : Jobs ι} {s : State ι} (stands : Stands engine jobs users fleetId c s) :
    (c.shared.tables.reservations.map (·.id)).Nodup := by
  rw [stands.mirrors.rows, List.map_map]
  exact stands.inv.store.stored.ids

/-- A row cancelled by a step was active before it, and the step is the commit of
the `cancel` call it was cancelled by. -/
theorem cancelled_by_step {c c' : Jobs ι} {s s' : State ι} {l : Label Sql ι}
    (stands : Stands engine jobs users fleetId c s) (stands' : Stands engine jobs users fleetId c' s')
    (moved : Moves engine jobs users s (l.thread, waitOf l) s') {row : ReservationRow}
    (gone : row.status = BookingStatus.cancelled.value) (before : row ∉ c.shared.tables.reservations)
    (after : row ∈ c'.shared.tables.reservations) :
    row.uncancelled ∈ c.shared.tables.reservations ∧ ∃ actor now, jobs l.thread = .call (.cancel row.id actor now) ∧
      row.cancelledAt = some now ∧ (actor.isStaff = true ∨ actor.id = row.userId) := by
  rw [stands.mirrors.rows] at before ⊢
  rw [stands'.mirrors.rows] at after
  obtain ⟨b', hb', rfl⟩ := List.mem_map.1 after
  have gone' : b'.status = .cancelled := value_inj_status.1 gone
  have fresh : b' ∉ s.store.table.bookings := fun old => before (List.mem_map_of_mem old)
  rcases (moved.step stands.inv).effect stands.inv.store with ⟨same, -, -⟩ | ⟨c₀, pending, ok, committed⟩
  · exact absurd (same ▸ hb') fresh
  · have owner := stands.inv.owner pending
    rw [committed] at hb'
    cases c₀ with
    | book b =>
      rcases List.mem_append.1 hb' with old | last
      · exact absurd old fresh
      · obtain rfl := List.mem_singleton.1 last
        rw [ok.active] at gone'
        cases gone'
    | resize T n => exact absurd hb' fresh
    | cancel id now =>
      obtain ⟨-, b, hb, rfl, active, -⟩ := ok
      obtain ⟨a, ha, rfl⟩ := List.mem_map.1 hb'
      obtain ⟨actor, isCancel, b₁, hb₁, same, managed⟩ := owner
      by_cases e : a.id = b.id
      · obtain rfl := List.inj_on_of_nodup_map stands.inv.store.stored.ids ha hb e
        obtain rfl := List.inj_on_of_nodup_map stands.inv.store.stored.ids hb₁ ha same
        have unstamped : b₁.cancelledAt = none := by
          have stamps := stands.inv.store.stored.stamps b₁ ha
          rw [active] at stamps
          simpa using stamps
        have cancelled : Table.cancelAt b₁.id now b₁ = cancelledCopy b₁ now := if_pos rfl
        rw [cancelled]
        refine ⟨List.mem_map.2 ⟨b₁, ha, ?_⟩, actor, now, isCancel, rfl, ?_⟩
        · simp only [encode, ReservationRow.uncancelled, cancelledCopy, active, unstamped]
        · show actor.isStaff = true ∨ actor.id = b₁.customerId
          simpa [Booking.mayBeManagedBy] using managed
      · exact absurd (by rwa [show Table.cancelAt b.id now a = a from if_neg e]) fresh

/-- Job `i` cancelled `row` in a run from `start` to `c`. -/
def Cancelled (engine : Engine) (jobs : ι → Job) (start : Jobs ι) (ls : List (Label Sql ι)) (c : Jobs ι)
    (row : ReservationRow) (i : ι) : Prop :=
  ∃ ls₁ a l b ls₂, ls = ls₁ ++ l :: ls₂ ∧ Run (Step (postgres engine ι) (code jobs)) start ls₁ a ∧
    Step (postgres engine ι) (code jobs) a l b ∧ Run (Step (postgres engine ι) (code jobs)) b ls₂ c ∧ l.thread = i ∧
    row.uncancelled ∈ a.shared.tables.reservations ∧ row ∈ b.shared.tables.reservations

/-- No step after a cancellation finds the booking active again. -/
theorem not_active_after {c c' : Jobs ι} {s : State ι} {ls : List (Label Sql ι)}
    (stands : Stands engine jobs users fleetId c s) (run : Run (Step (postgres engine ι) (code jobs)) c ls c')
    {row : ReservationRow} (gone : row.status = BookingStatus.cancelled.value)
    (here : row ∈ c.shared.tables.reservations) : row.uncancelled ∉ c'.shared.tables.reservations := by
  intro active
  obtain ⟨s', -, stands'⟩ := run_stands stands run
  obtain ⟨row', there, -, kept⟩ := row_kept stands run here
  obtain rfl := kept gone
  have same := List.inj_on_of_nodup_map (ids_nodup stands') active there rfl
  rw [← same] at gone
  exact absurd gone (by simp [ReservationRow.uncancelled])

end

/-- Over any interleaving from tables with no bookings yet: a committed booking is
active and unstamped, or was cancelled before its end by exactly one call, of
staff or its customer, whose clock reading it carries; and in every later state
it is still there, the same booking, and if it was cancelled, the same row. -/
theorem life_cycle {ι : Type} [DecidableEq ι] (engine : Engine) (jobs : ι → Job) {t : Tables} (fresh : NoBookings t)
    (drawn : Int) {ls : List (Label Sql ι)} {c : Jobs ι}
    (run : Run (Step (postgres engine ι) (code jobs)) (Pool.start (Db.quiet t drawn)) ls c) :
    (∀ row ∈ c.shared.tables.reservations,
      (row.status = BookingStatus.active.value ∧ row.cancelledAt = none) ∨
      (row.status = BookingStatus.cancelled.value ∧ ∃ i actor now,
        (∀ j, Cancelled engine jobs (Pool.start (Db.quiet t drawn)) ls c row j ↔ j = i) ∧
        jobs i = .call (.cancel row.id actor now) ∧ row.cancelledAt = some now ∧ now < row.endAt ∧
        (actor.isStaff = true ∨ actor.id = row.userId))) ∧
    (c.shared.tables.reservations.map (·.id)).Nodup ∧
    (∀ ls' c', Run (Step (postgres engine ι) (code jobs)) c ls' c' → ∀ row ∈ c.shared.tables.reservations,
      ∃ row' ∈ c'.shared.tables.reservations, row.SameBooking row' ∧
        (row.status = BookingStatus.cancelled.value → row' = row)) := by
  have start := stands_start (ι := ι) fresh engine jobs drawn
  obtain ⟨s, -, stands⟩ := run_stands start run
  refine ⟨?_, ids_nodup stands, fun ls' c' run' row hrow => row_kept stands run' hrow⟩
  intro row hrow
  have det : ∀ a l b b', Step (postgres engine ι) (code jobs) a l b → Step (postgres engine ι) (code jobs) a l b' →
      b = b' := fun _ _ _ _ => Step.deterministic (single_postgres engine ι)
  have there := hrow
  rw [stands.mirrors.rows] at there
  obtain ⟨b, hb, rfl⟩ := List.mem_map.1 there
  have stamps := stands.inv.store.stored.stamps b hb
  cases status : b.status with
  | active =>
    rw [status] at stamps
    have unstamped : b.cancelledAt = none := by simpa using stamps
    exact .inl ⟨congrArg BookingStatus.value status, unstamped⟩
  | cancelled =>
    have gone : (encode (fleetIdOf t) b).status = BookingStatus.cancelled.value := congrArg BookingStatus.value status
    -- the step that brought the row about is the one that cancelled it
    have empty : encode (fleetIdOf t) b ∉ (Pool.start (Db.quiet t drawn) : Jobs ι).shared.tables.reservations := by
      show _ ∉ t.reservations
      rw [fresh.empty]
      exact List.not_mem_nil
    obtain ⟨a, b', ls₁, l, ls₂, split, first, step, last, before, after⟩ := run.exists_change
      (P := fun c => encode (fleetIdOf t) b ∈ c.shared.tables.reservations) empty hrow
    obtain ⟨sa, -, standsA⟩ := run_stands start first
    obtain ⟨sb, moved, standsB⟩ := step_moves standsA step
    obtain ⟨active, actor, now, isCancel, stamp, who⟩ := cancelled_by_step standsA standsB moved gone before after
    refine .inr ⟨gone, l.thread, actor, now, fun j => ⟨?_, ?_⟩, isCancel, stamp,
      stands.inv.store.stored.ended b hb now stamp, who⟩
    · rintro ⟨ls₁', a', l', b'', ls₂', split', first', step', -, rfl, active', after'⟩
      obtain ⟨sa', -, standsA'⟩ := run_stands start first'
      obtain ⟨sb', -, standsB'⟩ := step_moves standsA' step'
      rcases Run.steps_cases det (split.symm.trans split') first step first' step' with same | ⟨m, later⟩ | ⟨m, later⟩
      · rw [same]
      · exact absurd active' (not_active_after standsB later gone after)
      · exact absurd active (not_active_after standsB' later gone after')
    · rintro rfl
      exact ⟨ls₁, a, l, b', ls₂, split, first, step, last, rfl, active, after⟩

/-- The customer and a member of staff race to cancel the customer's booking. -/
def raceToCancel : Fin 3 → Job
  | 0 => .call (.reserve (springReserve .sedan))
  | 1 => .call (.cancel 1 { id := 7 } 10)
  | 2 => .call (.cancel 1 { id := 8, isStaff := true } 20)

theorem life_cycle_race : ∃ ls c row,
    Run (Step (postgres plainEngine (Fin 3)) (code raceToCancel)) (Pool.start (Db.quiet smallTables 1)) ls c ∧
    c.shared.tables.reservations = [row] ∧ row.cancelledAt = some 10 ∧
    ∃ i, ∀ j, Cancelled plainEngine raceToCancel (Pool.start (Db.quiet smallTables 1)) ls c row j ↔ j = i := by
  obtain ⟨ls, c, run, one, stamps⟩ : ∃ ls c,
      Run (Step (postgres plainEngine (Fin 3)) (code raceToCancel)) (Pool.start (Db.quiet smallTables 1)) ls c ∧
      c.shared.tables.reservations.length = 1 ∧ (∀ row ∈ c.shared.tables.reservations, row.cancelledAt = some 10) :=
    Machine.exists_run_of_schedule ([0, 0, 0, 0, 0, 0, 1, 2, 1, 1, 1, 2, 2].map (·, 0)) (by decide +kernel)
  obtain ⟨row, only⟩ := List.length_eq_one_iff.1 one
  have there : row ∈ c.shared.tables.reservations := by simp [only]
  refine ⟨ls, c, row, run, only, stamps row there, ?_⟩
  rcases (life_cycle plainEngine raceToCancel noBookings_smallTables 1 run).1 row there with
    ⟨-, unstamped⟩ | ⟨-, i, actor, now, once, -⟩
  · rw [stamps row there] at unstamped
    cases unstamped
  · exact ⟨i, once⟩

end Postgres

end VehicleRentals
