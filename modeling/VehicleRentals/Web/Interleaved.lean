import VehicleRentals.Postgres.LifeCycle
import VehicleRentals.Postgres.Bookings
import VehicleRentals.Web.Reports

/-!
# Visits that interleave

Any number of people use the site at once: their visits interleave statement by statement,
and each may make several calls. Whatever holds of the calls, each in a job of its own,
holds of the visits that make them (`Concurrent.Exchange.exists_calls`), by what a visit
asks and answers (`Goes`, `Reports`).
-/

namespace VehicleRentals

open Concurrent

/-- What a visit is told that has booked. -/
def bookedFor (carType : CarType) : Reaction := .redirect (.success ("Booked: " ++ carType.label ++ "."))

/-- The visit is the submission of a valid form, for this row. -/
def Visit.Wants (fleetId : CarType → Int) (visit : Visit) (row : ReservationRow) : Prop :=
  ∃ user submission form period, visit.Submits user submission form period ∧ form.check = false ∧ row.userId = user.pk ∧
    row.carTypeId = fleetId form.carType ∧ row.startAt = period.start ∧ row.endAt = period.stop ∧
    row.idempotencyKey = form.idempotencyKey

namespace Postgres

theorem label_bookedFor (carType : CarType) : "Booked: " ++ carType.label ++ "." ≠ "Reservation cancelled." := by
  cases carType <;> decide

variable {policy : BookingPolicy}

/-- A booking is told as new where it was returned as new. -/
theorem Reports.of_bookedFor {visit : Visit} {Happened : Call → Result → Prop} {carType : CarType}
    (told : Reports policy visit Happened (.ok (bookedFor carType))) :
    ∃ r b, Happened (.reserve r) (.ok (some (.booked ⟨b, false⟩))) := by
  generalize said : (.ok (bookedFor carType) : Except Exn Reaction) = x at told
  cases told with
  | @booked _ _ form period result submits book happened =>
    obtain ⟨b, replayed⟩ := result
    cases replayed with
    | false => exact ⟨_, b, happened⟩
    | true =>
      simp only [bookedFor, flash, Except.ok.injEq, Reaction.redirect.injEq] at said
      split at said <;> cases said
  | cancelled => exact absurd (by simpa [bookedFor] using said) (label_bookedFor carType)
  | _ => simp [bookedFor] at said

/-! ## Every row is some visit's -/

variable {ι : Type} [DecidableEq ι] {engine : Engine} {visits : ι → Visit} {t : Tables} {drawn : Int}

/-- The pool of visits. -/
abbrev Site (ι : Type) := Pool Sql ι (Db ι) (Except Exn Reaction)

/-- The code of each visit. -/
abbrev siteCode (policy : BookingPolicy) (visits : ι → Visit) (i : ι) : Prog Sql (Except Exn Reaction) :=
  ((postgresDesk policy).serve (visits i)).run

/-- The database of `d` is that of `c`, and each visit of `c` has made its calls in `d`. -/
abbrev MadeBy (policy : BookingPolicy) (visits : ι → Visit) (calls : ι × ℕ → Call) (n : ι → ℕ) (c : Site ι)
    (d : Jobs (ι × ℕ)) : Prop :=
  Carried callCode (fun n db db' => Relabelled (fun i => (i, n i)) db db') (fun i => client policy (visits i)) calls n
    (fun _ => True) c d

/-- The step of its visit at which a call takes the step `l` from `d`. -/
abbrev OfVisit (engine : Engine) (policy : BookingPolicy) (visits : ι → Visit) (t : Tables) (drawn : Int) (ls : List (Label Sql ι))
    (c : Site ι) : Jobs (ι × ℕ) → Label Sql (ι × ℕ) → Prop :=
  TakenAt (postgres engine ι) (siteCode policy visits) (fun n db db' => Relabelled (fun i => (i, n i)) db db')
    (Pool.start (Db.quiet t drawn)) ls c

/-- A wait of a call that ran out is its visit's. -/
theorem OfVisit.waited {ls : List (Label Sql ι)} {c : Site ι} {d : Jobs (ι × ℕ)} {l : Label Sql (ι × ℕ)}
    (h : OfVisit engine policy visits t drawn ls c d l) {i : ι} {k : ℕ} (own : l.thread = (i, k)) {w : Wait}
    (ranOut : waitOf l = some w) : ∃ l' ∈ ls, l'.thread = i ∧ waitOf l' = some w := by
  obtain ⟨ls₁, l', ls₂, -, -, rfl, -, -, -, thread, event, -⟩ := h
  have executes : l.event ≠ none := by
    intro none
    rw [waitOf, none] at ranOut
    cases ranOut
  refine ⟨l', List.mem_append_right _ List.mem_cons_self, by rw [thread, own], ?_⟩
  rw [← ranOut, waitOf, waitOf, event executes]

/-- Visits that interleave do what their calls do, each in a job of its own, step at step. -/
theorem madeBy_along (fresh : NoBookings t) {ls : List (Label Sql ι)} {c : Site ι}
    (run : Run (Step (postgres engine ι) (siteCode policy visits)) (Pool.start (Db.quiet t drawn)) ls c) :
    ∃ calls n ls' d, Run (fun a l b => Step (postgres engine (ι × ℕ)) (code fun k => .call (calls k)) a l b ∧
        OfVisit engine policy visits t drawn ls c a l) (Pool.start (Db.quiet t drawn)) ls' d ∧
      MadeBy policy visits calls n c d := by
  have start : Relabelled (fun i : ι => (i, 0)) (Db.quiet t drawn) (Db.quiet t drawn) :=
    ⟨rfl, rfl, fun _ => rfl, fun _ => rfl, fun _ => rfl, fun _ => rfl⟩
  have clients : Run (Step (postgres engine ι) fun i => (client policy (visits i)).code callCode)
      (Pool.start (Db.quiet t drawn)) ls c := by
    simpa only [code_client] using run
  have : Nonempty Call := ⟨.reservationsFor { id := 0 }⟩
  have reached := (exchange_postgres engine fresh drawn).exists_calls start clients
  simp only [code_client] at reached
  exact reached

theorem madeBy_of_run (fresh : NoBookings t) {ls : List (Label Sql ι)} {c : Site ι}
    (run : Run (Step (postgres engine ι) (siteCode policy visits)) (Pool.start (Db.quiet t drawn)) ls c) :
    ∃ calls n ls' d, Run (Step (postgres engine (ι × ℕ)) (code fun k => .call (calls k))) (Pool.start (Db.quiet t drawn)) ls' d ∧
      MadeBy policy visits calls n c d := by
  obtain ⟨calls, n, ls', d, along, madeBy⟩ := madeBy_along fresh run
  exact ⟨calls, n, ls', d, along.mono fun _ _ _ h => h.1, madeBy⟩

variable {calls : ι × ℕ → Call} {n : ι → ℕ} {c : Site ι} {d : Jobs (ι × ℕ)}

omit [DecidableEq ι] in
/-- A visit's call, with how the visit goes on. -/
theorem MadeBy.goes (h : MadeBy policy visits calls n c d) {i : ι} {k : ℕ} (invoked : d.thread (i, k) ≠ .idle) :
    ∃ f, (client policy (visits i)).After (fun k => calls (i, k)) (fun k => (d.thread (i, k)).result) k (.ask (calls (i, k)) f) ∧
      Goes policy (visits i) (calls (i, k)) f := by
  obtain ⟨f, asked⟩ := h.asked invoked
  exact ⟨f, asked, (asked.every (every_client policy (visits i))).1⟩

/-- A call of the visit came to this. -/
abbrev CameTo (calls : ι × ℕ → Call) (d : Jobs (ι × ℕ)) (i : ι) (call : Call) (o : Result) : Prop :=
  ∃ k, calls (i, k) = call ∧ (d.thread (i, k)).result = some o

omit [DecidableEq ι] in
/-- What a visit comes to follows from what its calls came to. -/
theorem MadeBy.reports (h : MadeBy policy visits calls n c d) {i : ι} {x : Except Exn Reaction}
    (result : (c.thread i).result = some x) : Reports policy (visits i) (CameTo calls d i) x :=
  h.leads result (leads_client policy (visits i) _)

omit [DecidableEq ι] in
/-- A visit whose call has made a booking has been told of it, and that was its last call. -/
theorem MadeBy.told (h : MadeBy policy visits calls n c d) {i : ι} {k : ℕ} {b : Booking} (made : Made d (i, k) b)
    {r : Reserve} (reserves : calls (i, k) = .reserve r) :
    n i = k + 1 ∧ (c.thread i).result = some (.ok (bookedFor r.carType)) := by
  have invoked : d.thread (i, k) ≠ .idle := by
    intro idle
    rw [Made, idle] at made
    cases made
  obtain ⟨f, asked, goes⟩ := h.goes invoked
  obtain ⟨last, ended⟩ := h.ended asked made (goes.books r ⟨b, false⟩ reserves)
  exact ⟨last, by rw [ended]; rfl⟩

omit [DecidableEq ι] in
/-- The booking that a visit's call has returned is stored, as the visit wanted it. -/
theorem MadeBy.returned (h : MadeBy policy visits calls n c d) {s : State (ι × ℕ)}
    (accounted : Accounted engine (fun k => .call (calls k)) s)
    (stands : Stands engine (fun k => .call (calls k)) t.users (fleetIdOf t) d s) {i : ι} {k : ℕ} {x : BookingResult}
    (returned : (d.thread (i, k)).result = some (.ok (some (.booked x)))) :
    ∃ r, calls (i, k) = .reserve r ∧ ∃ b ∈ s.store.table.bookings, x.booking.SameOrigin b ∧
      (x.booking.status = .cancelled → b.status = .cancelled) ∧ b.carType = r.carType ∧ b.period = r.period ∧
      encode (fleetIdOf t) b ∈ c.shared.tables.reservations ∧ (visits i).Wants (fleetIdOf t) (encode (fleetIdOf t) b) := by
  have done := (phase_of_result stands).1 returned
  have vouches := accounted.vouches (i, k)
  rw [done] at vouches
  obtain ⟨r, -, isJob, -⟩ := vouches
  obtain ⟨type, period, key, b, parsed, hb, origin, hasKey, gone⟩ := accounted.returned isJob done
  have reserves := Job.call.inj isJob
  have invoked : d.thread (i, k) ≠ .idle := by
    intro idle
    rw [idle] at returned
    cases returned
  obtain ⟨f, -, goes⟩ := h.goes invoked
  have makes := goes.makes
  have row := row_of_request (fleetIdOf t) parsed hasKey (origin.carType.symm.trans type) (origin.period.symm.trans period)
  refine ⟨r, reserves, b, hb, origin, gone, origin.carType.symm.trans type, origin.period.symm.trans period, ?_, ?_⟩
  · rw [← h.rel.tables, stands.mirrors.rows]
    exact List.mem_map_of_mem hb
  · rw [reserves] at makes
    cases makes with
    | reserve submits book => exact ⟨_, _, _, _, submits, book, row⟩

/-- A cancelled row was cancelled by a call of staff or its user, before its end. -/
theorem cancelled_by {κ : Type} [DecidableEq κ] {jobs : κ → Job} (fresh : NoBookings t) {ls : List (Label Sql κ)} {d : Jobs κ}
    (run : Run (Step (postgres engine κ) (code jobs)) (Pool.start (Db.quiet t drawn)) ls d) {row : ReservationRow}
    (hrow : row ∈ d.shared.tables.reservations) (gone : row.status = BookingStatus.cancelled.value) :
    ∃ k actor now, d.thread k ≠ .idle ∧ jobs k = .call (.cancel row.id actor now) ∧ row.cancelledAt = some now ∧
      (actor.isStaff = true ∨ actor.id = row.userId) := by
  have start := stands_start (ι := κ) fresh engine jobs drawn
  have empty : row ∉ (Pool.start (Db.quiet t drawn) : Jobs κ).shared.tables.reservations := by
    show _ ∉ t.reservations
    rw [fresh.empty]
    exact List.not_mem_nil
  obtain ⟨a, b, ls₁, l, ls₂, -, first, step, last, before, after⟩ :=
    run.exists_change (P := fun d => row ∈ d.shared.tables.reservations) empty hrow
  obtain ⟨sa, -, standsA⟩ := run_stands start first
  obtain ⟨sb, moved, standsB⟩ := step_moves standsA step
  obtain ⟨-, actor, now, isCancel, stamp, who⟩ := cancelled_by_step standsA standsB moved gone before after
  refine ⟨l.thread, actor, now, ?_, isCancel, stamp, who⟩
  exact last.invariant (I := fun d => d.thread l.thread ≠ .idle) (fun _ _ _ h hs => hs.invoked_stays h) step.invoked

/-- What has become of a row, and by which visit. -/
theorem MadeBy.life (h : MadeBy policy visits calls n c d) (fresh : NoBookings t) {ls : List (Label Sql (ι × ℕ))}
    (run : Run (Step (postgres engine (ι × ℕ)) (code fun k => .call (calls k))) (Pool.start (Db.quiet t drawn)) ls d)
    {row : ReservationRow} (hrow : row ∈ d.shared.tables.reservations) :
    (row.status = BookingStatus.active.value ∧ row.cancelledAt = none) ∨
    (row.status = BookingStatus.cancelled.value ∧ ∃ i user now, (visits i).CancelsAs user row.id now ∧
      (user.isStaff = true ∨ user.pk = row.userId) ∧ row.cancelledAt = some now ∧ now < row.endAt) := by
  obtain ⟨s, -, stands⟩ := run_stands (stands_start fresh engine _ drawn) run
  have stored := stands.inv.store.stored
  have there := hrow
  rw [stands.mirrors.rows] at there
  obtain ⟨b, hb, rfl⟩ := List.mem_map.1 there
  have stamps := stored.stamps b hb
  cases status : b.status with
  | active =>
    rw [status] at stamps
    have unstamped : b.cancelledAt = none := by simpa using stamps
    exact .inl ⟨congrArg BookingStatus.value status, unstamped⟩
  | cancelled =>
    have gone : (encode (fleetIdOf t) b).status = BookingStatus.cancelled.value := congrArg BookingStatus.value status
    obtain ⟨⟨i, m⟩, actor, now, invoked, isCancel, stamp, who⟩ := cancelled_by fresh run hrow gone
    obtain ⟨f, -, goes⟩ := h.goes invoked
    have makes := goes.makes
    rw [Job.call.inj isCancel] at makes
    cases makes with
    | cancel cancels => exact .inr ⟨gone, i, _, _, cancels, who, stamp, stored.ended b hb _ stamp⟩

/-- Whatever visits interleave, finished or not and whichever waits run out: the rows are
those of the visits that were told 'Booked', one for one and as these wanted them; and
a row is active, or a visit of its user or of staff who may has cancelled it, at a clock
reading of that visit and before its end. -/
theorem site_accounted (engine : Engine) (policy : BookingPolicy) (visits : ι → Visit) {t : Tables} (fresh : NoBookings t)
    (drawn : Int) {ls : List (Label Sql ι)} {c : Site ι}
    (run : Run (Step (postgres engine ι) (siteCode policy visits)) (Pool.start (Db.quiet t drawn)) ls c) :
    ∃ booker : {row // row ∈ c.shared.tables.reservations} → ι,
      Function.Injective booker ∧
      Set.range booker = {i | ∃ carType, (c.thread i).result = some (.ok (bookedFor carType))} ∧
      ∀ row, (visits (booker row)).Wants (fleetIdOf t) row ∧
        ((row.1.status = BookingStatus.active.value ∧ row.1.cancelledAt = none) ∨
        (row.1.status = BookingStatus.cancelled.value ∧ ∃ i user now, (visits i).CancelsAs user row.1.id now ∧
          (user.isStaff = true ∨ user.pk = row.1.userId) ∧ row.1.cancelledAt = some now ∧ now < row.1.endAt)) := by
  obtain ⟨calls, n, ls', d, run', madeBy⟩ := madeBy_of_run fresh run
  obtain ⟨s, accounted, stands⟩ := accounted_of_run fresh run'
  have acc := accounted.accounts
  have stored := accounted.inv.store.stored
  have tables : c.shared.tables = d.shared.tables := madeBy.rel.tables.symm
  -- who has made a row, and with which of its calls
  have maker : ∀ row : {row // row ∈ c.shared.tables.reservations}, ∃ i k b, Made d (i, k) b ∧ b.id = row.1.id ∧
      n i = k + 1 ∧ (visits i).Wants (fleetIdOf t) row ∧ ∃ carType, (c.thread i).result = some (.ok (bookedFor carType)) := by
    rintro ⟨row, hrow⟩
    rw [tables, stands.mirrors.rows] at hrow
    obtain ⟨b, hb, rfl⟩ := List.mem_map.1 hrow
    obtain ⟨⟨i, k⟩, a, made, origin⟩ := acc.maker b hb
    have returned := (made_iff stands).2 made
    obtain ⟨r, reserves, b', hb', origin', -, -, -, -, wants⟩ := madeBy.returned accounted stands returned
    obtain rfl := List.inj_on_of_nodup_map stored.ids hb hb' (origin.id.symm.trans origin'.id)
    obtain ⟨last, told⟩ := madeBy.told returned reserves
    exact ⟨i, k, a, returned, origin.id, last, wants, _, told⟩
  choose booker k b made id last wants told using maker
  refine ⟨booker, ?_, ?_, fun row => ⟨wants row, ?_⟩⟩
  · rintro row row' same
    have sameCall : k row = k row' := by
      have count := last row
      rw [same, last row'] at count
      omega
    have sameMade : Made d (booker row, k row) (b row') := by
      rw [same, sameCall]
      exact made row'
    have sameBooking : b row = b row' := by simpa [Made] using (made row).symm.trans sameMade
    refine Subtype.ext (List.inj_on_of_nodup_map (ids_nodup stands) (tables ▸ row.2) (tables ▸ row'.2) ?_)
    rw [← id row, ← id row', sameBooking]
  · refine Set.Subset.antisymm (Set.range_subset_iff.2 told) ?_
    rintro i ⟨carType, result⟩
    obtain ⟨-, a, m, -, returned⟩ := (madeBy.reports result).of_bookedFor
    obtain ⟨-, -, b', -, origin, -, -, -, hrow, -⟩ := madeBy.returned accounted stands returned
    have own := acc.once _ _ _ _ ((made_iff stands).1 (made ⟨_, hrow⟩)) ((made_iff stands).1 returned)
      ((id ⟨_, hrow⟩).trans origin.id.symm)
    exact ⟨⟨_, hrow⟩, (Prod.mk.inj own).1⟩
  · exact madeBy.life fresh run' (tables ▸ row.2)

/-- Where only calls are made, no fleet changes its size, so none is exceeded. -/
theorem fits_of_calls {κ : Type} [DecidableEq κ] {calls : κ → Call} (fresh : NoBookings t) {ls : List (Label Sql κ)} {d : Jobs κ}
    (run : Run (Step (postgres engine κ) (code fun k => .call (calls k))) (Pool.start (Db.quiet t drawn)) ls d) :
    ∃ s, Stands engine (fun k => .call (calls k)) t.users (fleetIdOf t) d s ∧ Fits s.store := by
  refine run.invariant (I := fun d => ∃ s, Stands engine (fun k => .call (calls k)) t.users (fleetIdOf t) d s ∧ Fits s.store)
    ?_ ⟨_, stands_start fresh engine _ drawn, fun T n x _ => Nat.zero_le _⟩
  rintro d l d' ⟨s, stands, fits⟩ hs
  obtain ⟨s', moved, stands'⟩ := step_moves stands hs
  refine ⟨s', stands', fits_step (moved.step stands.inv) stands.inv.store ?_ fits⟩
  intro T size size' before after
  rw [moved.sizes_kept stands.inv (fun _ _ e => by cases e), before] at after
  exact (Option.some.inj after).le

/-- Whatever visits interleave: at no instant does a fleet have more cars out than it has. -/
theorem site_within_fleets (engine : Engine) (policy : BookingPolicy) (visits : ι → Visit) {t : Tables} (fresh : NoBookings t)
    (drawn : Int) {ls : List (Label Sql ι)} {c : Site ι}
    (run : Run (Step (postgres engine ι) (siteCode policy visits)) (Pool.start (Db.quiet t drawn)) ls c)
    {fleet : CarTypeRow} (hfleet : fleet ∈ c.shared.tables.carTypes) (x : Instant) :
    c.shared.tables.usage fleet.id x ≤ fleet.fleetSize := by
  obtain ⟨calls, n, ls', d, run', madeBy⟩ := madeBy_of_run fresh run
  obtain ⟨s, stands, fits⟩ := fits_of_calls fresh run'
  have tables : c.shared.tables = d.shared.tables := madeBy.rel.tables.symm
  rw [tables] at hfleet ⊢
  exact usage_le_of_fits stands fits hfleet x

/-- The customers 7 and 8 want the one sedan, and 7 then cancels. -/
def rush : Fin 3 → Visit
  | 0 => Memory.visitOf (.submit Memory.submitTwoDays)
  | 1 => { Memory.visitOf (.submit Memory.submitTwoDays) with user := some { pk := 8 } }
  | 2 => Memory.visitOf (.cancel 1)

/-- The second waits for the first, finds no car, and is shown the page. -/
theorem run_rush : ∃ ls c, Run (Step (postgres plainEngine (Fin 3)) (siteCode {} rush)) (Pool.start (Db.quiet smallTables 1)) ls c ∧
    (∀ i, ((c.thread i).result).isSome = true) ∧ (c.thread 0).result = some (.ok (bookedFor .sedan)) ∧
    c.shared.tables.reservations.map (·.status) = [BookingStatus.cancelled.value] ∧
    { id := 1, name := "sedan", fleetSize := 1 } ∈ c.shared.tables.carTypes := by
  refine Machine.exists_run_of_schedule ([0, 0, 1, 0, 0, 0, 0, 1, 1, 1, 1, 1, 2, 2, 2, 2].map (·, 0)) ?_
  decide +kernel

theorem site_accounted_rush : ∃ ls c, Run (Step (postgres plainEngine (Fin 3)) (siteCode {} rush))
      (Pool.start (Db.quiet smallTables 1)) ls c ∧
    ∃ row ∈ c.shared.tables.reservations, (rush 0).Wants (fleetIdOf smallTables) row ∧
      ∃ i user now, (rush i).CancelsAs user row.id now ∧ row.cancelledAt = some now ∧ now < row.endAt := by
  obtain ⟨ls, c, run, -, booked, gone, -⟩ := run_rush
  obtain ⟨booker, -, range, rows⟩ := site_accounted plainEngine {} rush noBookings_smallTables 1 run
  obtain ⟨row, own⟩ : 0 ∈ Set.range booker := by
    rw [range]
    exact ⟨.sedan, booked⟩
  obtain ⟨wants, life⟩ := rows row
  rw [own] at wants
  have cancelled : row.1.status = BookingStatus.cancelled.value := by
    have listed := List.mem_map_of_mem (f := fun row : ReservationRow => row.status) row.2
    rwa [gone, List.mem_singleton] at listed
  rcases life with ⟨active, -⟩ | ⟨-, i, user, now, cancels, -, stamp, before⟩
  · rw [cancelled] at active
    cases value_inj_status.1 active
  · exact ⟨ls, c, run, row, row.2, wants, i, user, now, cancels, stamp, before⟩

theorem site_within_fleets_rush : ∃ ls c, Run (Step (postgres plainEngine (Fin 3)) (siteCode {} rush))
      (Pool.start (Db.quiet smallTables 1)) ls c ∧ (∀ i, ((c.thread i).result).isSome = true) ∧
    ∀ x, c.shared.tables.usage 1 x ≤ 1 := by
  obtain ⟨ls, c, run, complete, -, -, sedans⟩ := run_rush
  exact ⟨ls, c, run, complete, site_within_fleets plainEngine {} rush noBookings_smallTables 1 run sedans⟩

end Postgres

end VehicleRentals
