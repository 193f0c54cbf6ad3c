import VehicleRentals.Postgres.History
import VehicleRentals.Web.Interleaved

/-!
# What visits are told

A message is composed from what a call returned, after the call's transaction has ended and
while others go on. Still it says what the tables have, then and in every later state
(`site_told`): no job takes back what it has returned (`Vouches`). With the unique keys,
one form books once however often it is sent (`form_books_once`).
-/

namespace VehicleRentals

open Concurrent

/-- What a message tells a visit is so in the tables. -/
inductive Visit.IsSo (fleetId : CarType → Int) (t : Tables) (visit : Visit) : Flash → Prop where
  | booked {row : ReservationRow} {carType : CarType} : row ∈ t.reservations → visit.Wants fleetId row →
      row.carTypeId = fleetId carType → IsSo fleetId t visit (.success ("Booked: " ++ carType.label ++ "."))
  | already {row : ReservationRow} : row ∈ t.reservations → visit.Wants fleetId row →
      IsSo fleetId t visit (.info "That booking was already made. Nothing was added.")
  | gone {row : ReservationRow} : row ∈ t.reservations → visit.Wants fleetId row →
      row.status = BookingStatus.cancelled.value → IsSo fleetId t visit
        (.warning "That booking was cancelled, so nothing is booked. Submit the form again to make a new booking.")
  | cancelled {user : User} {row : ReservationRow} : row ∈ t.reservations → visit.user = some user →
      visit.request = .cancel row.id → (user.isStaff = true ∨ user.pk = row.userId) →
      row.status = BookingStatus.cancelled.value → IsSo fleetId t visit (.success "Reservation cancelled.")
  | ended {user : User} {row : ReservationRow} : row ∈ t.reservations → visit.user = some user →
      visit.request = .cancel row.id → (user.isStaff = true ∨ user.pk = row.userId) → row.endAt ≤ visit.now →
      IsSo fleetId t visit (.error "Cannot cancel: the rental period has already ended.")
  -- the reservation may have been made since
  | notFound {user : User} {id : Int} : visit.user = some user → visit.request = .cancel id →
      IsSo fleetId t visit (.error "Reservation not found.")

/-- A row of the page says what the table's row has; it may have been cancelled since. -/
structure Row.Shows (fleetId : CarType → Int) (shown : Row) (row : ReservationRow) : Prop where
  carType : ∃ T : CarType, shown.carType = T.label ∧ row.carTypeId = fleetId T
  pickUp : row.startAt = shown.pickUp
  back : row.endAt = shown.back
  pill : shown.pill = .cancelled → row.status = BookingStatus.cancelled.value
  cancel : ∀ id, shown.cancel = some id → row.id = id

theorem shows_encode (fleetId : CarType → Int) (now : Instant) {b b' : Booking} (origin : b.SameOrigin b')
    (gone : b.status = .cancelled → b'.status = .cancelled) : Row.Shows fleetId (b.row now) (encode fleetId b') where
  carType := ⟨b.carType, rfl, congrArg fleetId origin.carType.symm⟩
  pickUp := congrArg RentalPeriod.start origin.period.symm
  back := congrArg RentalPeriod.stop origin.period.symm
  pill shown := by
    simp only [Booking.row] at shown
    split_ifs at shown with cancelled
    exact value_inj_status.2 (gone (Booking.isCancelled_eq_true.1 cancelled))
  cancel id shown := by
    simp only [Booking.row] at shown
    split_ifs at shown
    exact origin.id.symm.trans (Option.some.inj shown)

namespace Postgres

variable {ι : Type} [DecidableEq ι] {engine : Engine} {policy : BookingPolicy} {visits : ι → Visit} {t : Tables} {drawn : Int}
  {calls : ι × ℕ → Call} {n : ι → ℕ} {c : Site ι} {d : Jobs (ι × ℕ)}

omit [DecidableEq ι] in
/-- The message of a `reserve` call that has returned a booking. -/
theorem MadeBy.isSo_booked (h : MadeBy policy visits calls n c d) {s : State (ι × ℕ)}
    (accounted : Accounted engine (fun k => .call (calls k)) s)
    (stands : Stands engine (fun k => .call (calls k)) t.users (fleetIdOf t) d s) {i : ι} {k : ℕ} {r : Reserve}
    (reserves : calls (i, k) = .reserve r) {x : BookingResult}
    (returned : (d.thread (i, k)).result = some (.ok (some (.booked x)))) :
    (visits i).IsSo (fleetIdOf t) c.shared.tables (flash r.carType x) := by
  obtain ⟨r', reserves', b, -, -, gone, type, -, hrow, wants⟩ := h.returned accounted stands returned
  cases reserves.symm.trans reserves'
  obtain ⟨a, replayed⟩ := x
  cases replayed with
  | false => exact .booked hrow wants (congrArg (fleetIdOf t) type)
  | true =>
    unfold flash
    by_cases cancelled : a.isCancelled = true
    · rw [if_pos (by simpa using cancelled)]
      exact .gone hrow wants (value_inj_status.2 (gone (Booking.isCancelled_eq_true.1 cancelled)))
    · rw [if_neg (by simpa using cancelled), if_pos rfl]
      exact .already hrow wants

/-- A refusal of a `cancel` call that its rental has ended. -/
theorem ended_of_raised {κ : Type} [DecidableEq κ] {jobs : κ → Job} (fresh : NoBookings t) {ls : List (Label Sql κ)} {d : Jobs κ}
    (run : Run (Step (postgres engine κ) (code jobs)) (Pool.start (Db.quiet t drawn)) ls d) {k : κ} {id : Int}
    {actor : Customer} {now : Instant} {m : String} (isJob : jobs k = .call (.cancel id actor now))
    (raised : (d.thread k).result = some (.error (.domain (.reservationNotCancellable m)))) :
    m = "the rental period has already ended" ∧ ∃ row ∈ d.shared.tables.reservations, row.id = id ∧
      (actor.isStaff = true ∨ actor.id = row.userId) ∧ row.endAt ≤ now := by
  obtain ⟨ls₁, l, ls₂, a, b, -, first, ⟨step, -⟩, rest, -, ⟨ranOut, -, e⟩ | ⟨e, -⟩ | ⟨grounds, -⟩⟩ :=
    exists_reason (P := fun _ _ => True) fresh (run.mono fun _ _ _ h => ⟨h, trivial⟩) raised
  · rw [isJob] at e
    cases ranOut <;> cases e
  · cases e
  · rw [isJob] at grounds
    generalize refused : Exn.domain (.reservationNotCancellable m) = e at grounds
    cases grounds with
    | @ended _ _ row there may active past =>
      cases refused
      obtain ⟨s, -, stands⟩ := run_stands (stands_start fresh engine jobs drawn) (first.mono fun _ _ _ h => h.1)
      obtain ⟨row', there', same, -⟩ := row_kept stands (.cons step (rest.mono fun _ _ _ h => h.1)) there
      exact ⟨rfl, row', there', same.id.symm, same.userId ▸ may, same.endAt ▸ past⟩
    | notTheirs => cases refused

/-- Whatever visits interleave: what a message says is so in the tables when its visit has
ended, and so in every later state; and a page shows reservations of the visit's
own user only, latest pick-up first, as the tables have them. -/
theorem site_told (engine : Engine) (policy : BookingPolicy) (visits : ι → Visit) {t : Tables} (fresh : NoBookings t)
    (drawn : Int) {ls : List (Label Sql ι)} {c : Site ι}
    (run : Run (Step (postgres engine ι) (siteCode policy visits)) (Pool.start (Db.quiet t drawn)) ls c) (i : ι) :
    (∀ message, (c.thread i).result = some (.ok (.redirect message)) →
      (visits i).IsSo (fleetIdOf t) c.shared.tables message) ∧
    ∀ page, (c.thread i).result = some (.ok (.page page)) → ∃ user, (visits i).user = some user ∧
      (page.rows.Pairwise fun a b => b.pickUp ≤ a.pickUp) ∧
      ∀ shown ∈ page.rows, ∃ row ∈ c.shared.tables.reservations, row.userId = user.pk ∧ shown.Shows (fleetIdOf t) row := by
  obtain ⟨calls, n, ls', d, run', madeBy⟩ := madeBy_of_run fresh run
  obtain ⟨s, accounted, stands⟩ := accounted_of_run fresh run'
  have rows : c.shared.tables.reservations = s.store.table.bookings.map (encode (fleetIdOf t)) := by
    rw [← madeBy.rel.tables, stands.mirrors.rows]
  have stored : ∀ b ∈ s.store.table.bookings, encode (fleetIdOf t) b ∈ c.shared.tables.reservations := by
    intro b hb
    rw [rows]
    exact List.mem_map_of_mem hb
  constructor
  · intro message result
    have reported := madeBy.reports result
    generalize said : (.ok (.redirect message) : Except Exn Reaction) = x at reported
    cases reported with
    | booked submits book happened =>
      cases said
      obtain ⟨k, asked, returned⟩ := happened
      exact madeBy.isSo_booked accounted stands asked returned
    | cancelled signedIn request happened =>
      cases said
      obtain ⟨k, asked, returned⟩ := happened
      have vouches := accounted.vouches (i, k)
      rw [(phase_of_result stands).1 returned, asked] at vouches
      obtain ⟨_, _, isJob, b, hb, same, managed, gone⟩ := vouches
      cases isJob
      rw [Booking.mayBeManagedBy, Bool.or_eq_true, beq_iff_eq] at managed
      rw [← same] at request
      exact .cancelled (stored b hb) signedIn request managed (value_inj_status.2 gone)
    | notFound signedIn request _ =>
      cases said
      exact .notFound signedIn request
    | notCancellable signedIn request happened =>
      cases said
      obtain ⟨k, asked, returned⟩ := happened
      obtain ⟨rfl, row, hrow, rfl, may, past⟩ := ended_of_raised fresh run' (congrArg Job.call asked) returned
      exact .ended (by rwa [← madeBy.rel.tables]) signedIn request may past
    | _ => cases said
  · intro page result
    have reported := madeBy.reports result
    generalize said : (.ok (.page page) : Except Exn Reaction) = x at reported
    cases reported with
    | @page user bs _ signedIn happened rows _ =>
      cases said
      obtain ⟨k, asked, returned⟩ := happened
      have vouches := accounted.vouches (i, k)
      rw [(phase_of_result stands).1 returned, asked] at vouches
      obtain ⟨customer, isJob, sorted, listed⟩ := vouches
      cases isJob
      rw [rows]
      refine ⟨user, signedIn, List.pairwise_map.2 sorted, fun shown hshown => ?_⟩
      obtain ⟨b, hb, rfl⟩ := List.mem_map.1 hshown
      obtain ⟨own, b', hb', origin, gone⟩ := listed b hb
      exact ⟨_, stored b' hb', origin.customerId.symm.trans own, shows_encode _ _ origin gone⟩
    | _ => cases said

omit [DecidableEq ι] in
/-- The booking that a redirected submission is about. -/
theorem MadeBy.booking (h : MadeBy policy visits calls n c d) {s : State (ι × ℕ)}
    (accounted : Accounted engine (fun k => .call (calls k)) s)
    (stands : Stands engine (fun k => .call (calls k)) t.users (fleetIdOf t) d s) {i : ι} {user : User}
    {submission : Submission} {form : BookingForm} {period : RentalPeriod}
    (submits : (visits i).Submits user submission form period) {message : Flash}
    (told : (c.thread i).result = some (.ok (.redirect message))) :
    ∃ k x b, (d.thread (i, k)).result = some (.ok (some (.booked x))) ∧ message = flash form.carType x ∧
      b ∈ s.store.table.bookings ∧ x.booking.SameOrigin b ∧ b.carType = form.carType ∧ b.period = period ∧
      encode (fleetIdOf t) b ∈ c.shared.tables.reservations ∧ (visits i).Wants (fleetIdOf t) (encode (fleetIdOf t) b) := by
  have reported := h.reports told
  generalize said : (.ok (.redirect message) : Except Exn Reaction) = y at reported
  cases reported with
  | @booked _ _ _ _ x submits' book happened =>
    cases said
    obtain ⟨k, asked, returned⟩ := happened
    obtain ⟨rfl, rfl, rfl, rfl⟩ := submits.unique submits'
    obtain ⟨r, reserves, b, hb, origin, -, type, span, hrow, wants⟩ := h.returned accounted stands returned
    cases asked.symm.trans reserves
    exact ⟨k, x, b, returned, rfl, hb, origin, type, span, hrow, wants⟩
  | cancelled _ request | notFound _ request | notCancellable _ request => cases submits.request.symm.trans request
  | _ => cases said

/-- The message about a booking is 'Booked' only if it is new. -/
theorem new_of_bookedFor {carType T : CarType} {x : BookingResult}
    (booked : Reaction.redirect (flash carType x) = bookedFor T) : x.replayed = false := by
  obtain ⟨b, replayed⟩ := x
  cases replayed with
  | false => rfl
  | true =>
    simp only [bookedFor, flash, Reaction.redirect.injEq] at booked
    split at booked <;> cases booked

/-- Whatever visits interleave: two submissions of one user under one key that were both
told of a booking were told of the same, for the same car type and period; and at most
one of them was told 'Booked'. -/
theorem form_books_once (engine : Engine) (policy : BookingPolicy) (visits : ι → Visit) {t : Tables} (fresh : NoBookings t)
    (drawn : Int) {ls : List (Label Sql ι)} {c : Site ι}
    (run : Run (Step (postgres engine ι) (siteCode policy visits)) (Pool.start (Db.quiet t drawn)) ls c) {i j : ι}
    {user user' : User} {submission submission' : Submission} {form form' : BookingForm} {period period' : RentalPeriod}
    (submits : (visits i).Submits user submission form period) (submits' : (visits j).Submits user' submission' form' period')
    (sameUser : user'.pk = user.pk) (sameKey : form'.idempotencyKey = form.idempotencyKey) {message message' : Flash}
    (told : (c.thread i).result = some (.ok (.redirect message)))
    (told' : (c.thread j).result = some (.ok (.redirect message'))) :
    form'.carType = form.carType ∧ period' = period ∧
    (∃ row ∈ c.shared.tables.reservations, (visits i).Wants (fleetIdOf t) row ∧ (visits j).Wants (fleetIdOf t) row) ∧
    (j ≠ i → (∀ T, Reaction.redirect message ≠ bookedFor T) ∨ ∀ T, Reaction.redirect message' ≠ bookedFor T) := by
  obtain ⟨calls, n, ls', d, run', madeBy⟩ := madeBy_of_run fresh run
  obtain ⟨s, accounted, stands⟩ := accounted_of_run fresh run'
  obtain ⟨k, x, b, returned, rfl, hb, origin, type, span, hrow, wants⟩ := madeBy.booking accounted stands submits told
  obtain ⟨k', x', b', returned', rfl, hb', origin', type', span', hrow', wants'⟩ :=
    madeBy.booking accounted stands submits' told'
  -- both rows have the one user and key
  have sameRow : encode (fleetIdOf t) b' = encode (fleetIdOf t) b := by
    obtain ⟨_, _, _, _, submits₁, -, userId, -, -, -, key⟩ := wants
    obtain ⟨_, _, _, _, submits₂, -, userId', -, -, -, key'⟩ := wants'
    obtain ⟨rfl, rfl, rfl, rfl⟩ := submits.unique submits₁
    obtain ⟨rfl, rfl, rfl, rfl⟩ := submits'.unique submits₂
    have keys := keys_nodup stands
    rw [madeBy.rel.tables] at keys
    exact List.inj_on_of_nodup_map keys hrow' hrow
      (Prod.ext (userId'.trans (sameUser.trans userId.symm)) (key'.trans (sameKey.trans key.symm)))
  obtain rfl : b' = b :=
    List.inj_on_of_nodup_map accounted.inv.store.stored.ids hb' hb (congrArg ReservationRow.id sameRow)
  refine ⟨type'.symm.trans type, span'.symm.trans span, ⟨_, hrow, wants, wants'⟩, fun ne => ?_⟩
  by_contra both
  simp only [not_or, not_forall, not_not] at both
  obtain ⟨⟨T, booked⟩, T', booked'⟩ := both
  obtain ⟨a, replayed⟩ := x
  obtain ⟨a', replayed'⟩ := x'
  obtain rfl : replayed = false := new_of_bookedFor booked
  obtain rfl : replayed' = false := new_of_bookedFor booked'
  have once := accounted.accounts.once _ _ _ _ ((made_iff stands).1 returned') ((made_iff stands).1 returned)
    (origin'.id.trans origin.id.symm)
  exact ne (Prod.mk.inj once).1

/-- The customer 7 presses the button twice. -/
def doubleClick : Fin 2 → Visit := fun _ => Memory.visitOf (.submit Memory.submitTwoDays)

/-- The second submission waits for the first, and finds its booking. -/
theorem run_doubleClick : ∃ ls c, Run (Step (postgres plainEngine (Fin 2)) (siteCode {} doubleClick))
      (Pool.start (Db.quiet smallTables 1)) ls c ∧
    (c.thread 0).result = some (.ok (.redirect (.success "Booked: Sedan."))) ∧
    (c.thread 1).result = some (.ok (.redirect (.info "That booking was already made. Nothing was added."))) :=
  Machine.exists_run_of_schedule ([0, 0, 1, 0, 0, 0, 0, 1, 1, 1].map (·, 0)) (by decide +kernel)

theorem site_told_doubleClick : ∃ ls c, Run (Step (postgres plainEngine (Fin 2)) (siteCode {} doubleClick))
      (Pool.start (Db.quiet smallTables 1)) ls c ∧
    (doubleClick 1).IsSo (fleetIdOf smallTables) c.shared.tables (.info "That booking was already made. Nothing was added.") := by
  obtain ⟨ls, c, run, -, again⟩ := run_doubleClick
  exact ⟨ls, c, run, (site_told plainEngine {} doubleClick noBookings_smallTables 1 run 1).1 _ again⟩

theorem form_books_once_doubleClick : ∃ ls c, Run (Step (postgres plainEngine (Fin 2)) (siteCode {} doubleClick))
      (Pool.start (Db.quiet smallTables 1)) ls c ∧
    ∃ row ∈ c.shared.tables.reservations, ∀ i, (doubleClick i).Wants (fleetIdOf smallTables) row := by
  obtain ⟨ls, c, run, first, again⟩ := run_doubleClick
  obtain ⟨-, -, ⟨row, hrow, wants, -⟩, -⟩ := form_books_once plainEngine {} doubleClick noBookings_smallTables 1 run
    (i := 0) (j := 1) Memory.submits_twoDays Memory.submits_twoDays rfl rfl first again
  exact ⟨ls, c, run, row, hrow, fun _ => wants⟩

end Postgres

end VehicleRentals
