import VehicleRentals.Postgres.History
import VehicleRentals.Web.Interleaved

/-!
# What was so when it was shown

What a page or a message says besides the visit's own bookings is not kept true: other
visits go on. But it was true: a count of free cars, a refusal and a 'not found' have their
grounds in the tables at one of the visit's own steps (`site_shows`, `site_selected`).
-/

namespace VehicleRentals

open Concurrent

namespace Postgres

variable {ι : Type} [DecidableEq ι] {engine : Engine} {policy : BookingPolicy} {visits : ι → Visit} {t : Tables} {drawn : Int}

/-- Some step of the visit `i` starts from tables that have `P`. -/
abbrev Meets (engine : Engine) (policy : BookingPolicy) (visits : ι → Visit) (t : Tables) (drawn : Int) (ls : List (Label Sql ι))
    (c : Site ι) (i : ι) (P : Tables → Prop) : Prop :=
  Run.Takes (Step (postgres engine ι) (siteCode policy visits)) (Pool.start (Db.quiet t drawn)) ls c fun a l _ =>
    l.thread = i ∧ P a.shared.tables

/-- What a statement of a call has met its visit has. -/
theorem OfVisit.meets {ls : List (Label Sql ι)} {c : Site ι} {d : Jobs (ι × ℕ)} {l : Label Sql (ι × ℕ)}
    (h : OfVisit engine policy visits t drawn ls c d l) {i : ι} {k : ℕ} (own : l.thread = (i, k)) {P : Tables → Prop}
    (here : P d.shared.tables) (invoked : l.event = none → ∀ tables, P tables) :
    Meets engine policy visits t drawn ls c i P := by
  refine Run.Takes.mono h fun a l' b _ taken => ?_
  obtain ⟨thread, -, n, rel⟩ := taken
  refine ⟨by rw [thread, own], ?_⟩
  rcases rel with rel | ⟨none, -⟩
  · rwa [← rel.tables]
  · exact invoked none _

/-- A domain error that a call of a visit has raised: its wait for a fleet ran out, or
some step of the visit has met the grounds. -/
theorem meets_grounds {calls : ι × ℕ → Call} {ls : List (Label Sql ι)} {c : Site ι} {ls' : List (Label Sql (ι × ℕ))}
    {d : Jobs (ι × ℕ)} (fresh : NoBookings t)
    (along : Run (fun a l b => Step (postgres engine (ι × ℕ)) (code fun k => .call (calls k)) a l b ∧
      OfVisit engine policy visits t drawn ls c a l) (Pool.start (Db.quiet t drawn)) ls' d) {i : ι} {k : ℕ} {e : DomainError}
    (raised : (d.thread (i, k)).result = some (.error (.domain e))) :
    (.domain e = fleetBusy ∧ (∃ r, calls (i, k) = .reserve r) ∧ ∃ l ∈ ls, l.thread = i ∧ waitOf l = some .fleet) ∨
      Meets engine policy visits t drawn ls c i fun tables => Grounds tables (.call (calls (i, k))) (.domain e) := by
  obtain ⟨_, l', _, a, _, -, -, ⟨-, taken⟩, -, own, ⟨ranOut, waits, raises⟩ | ⟨missing, -⟩ | ⟨grounds, invoked⟩⟩ :=
    exists_reason fresh along raised
  · obtain ⟨l, hl, thread, same⟩ := OfVisit.waited taken own waits
    generalize asked : calls (i, k) = call at raises
    -- only `_lock` turns a wait into an error of the domain
    cases ranOut with
    | fleet =>
      cases call with
      | reserve r => exact .inl ⟨(Option.some.inj raises).symm, ⟨r, rfl⟩, l, hl, thread, same⟩
      | _ => cases raises
    | key | booking => cases call <;> cases raises
  · cases missing
  · exact .inr (OfVisit.meets taken own grounds invoked)

theorem cannotCancel_ne (m : String) : "Cannot cancel: " ++ m ++ "." ≠ "Reservation not found." := by
  intro same
  have first := congrArg (fun s => s.toList.head?) same
  simp [String.toList_append] at first

/-- Whatever visits interleave: a count of free cars on a page was right at a step of its
visit; an error on it is that the dates make no period, or a lock on the fleet not had in
time, or was grounded in the tables at a step of the visit; and so was a 'not found'. -/
theorem site_shows (engine : Engine) (policy : BookingPolicy) (visits : ι → Visit) {t : Tables} (fresh : NoBookings t)
    (drawn : Int) {ls : List (Label Sql ι)} {c : Site ι}
    (run : Run (Step (postgres engine ι) (siteCode policy visits)) (Pool.start (Db.quiet t drawn)) ls c) (i : ι) :
    (∀ page n, (c.thread i).result = some (.ok (.page page)) → page.available = some n →
      ∃ user submission form period, (visits i).Submits user submission form period ∧ form.check = true ∧
        Meets engine policy visits t drawn ls c i fun tables =>
          ∃ fleet ∈ tables.carTypes, fleet.name = form.carType.value ∧ tables.Free fleet period n) ∧
    (∀ page text, (c.thread i).result = some (.ok (.page page)) → page.error = some text → ∃ e, text = formError e ∧
      ((visits i).NoPeriod (.domain e) ∨
        (.domain e = fleetBusy ∧ ∃ l ∈ ls, l.thread = i ∧ waitOf l = some .fleet) ∨
        ∃ call, (visits i).Makes policy call ∧
          Meets engine policy visits t drawn ls c i fun tables => Grounds tables (.call call) (.domain e))) ∧
    ((c.thread i).result = some (.ok (.redirect (.error "Reservation not found."))) →
      ∃ user id, (visits i).user = some user ∧ (visits i).request = .cancel id ∧
        Meets engine policy visits t drawn ls c i fun tables =>
          ∀ row ∈ tables.reservations, row.id = id → row.userId ≠ user.pk ∧ user.isStaff = false) := by
  obtain ⟨calls, n, ls', d, along, madeBy⟩ := madeBy_along fresh run
  have follows : ∀ {page}, (c.thread i).result = some (.ok (.page page)) → page.Follows policy (visits i) (CameTo calls d i) := by
    intro page shown
    have reported := madeBy.reports shown
    cases reported with
    | page _ _ _ follows => exact follows
  refine ⟨fun page n shown available => ?_, fun page text shown error => ?_, fun told => ?_⟩
  · cases follows shown with
    | plain _ none | noPeriod _ _ none | refused _ _ _ none =>
      rw [none] at available
      cases available
    | @counted user submission form period m submits check happened _ count =>
      obtain ⟨k, asked, returned⟩ := happened
      cases count.symm.trans available
      obtain ⟨_, _, _, l', _, _, b, fleet, -, -, own, executes, -, -, last, -, name, free, there⟩ :=
        exists_count fresh along (congrArg Job.call asked) returned
      cases last with
      | cons hs _ =>
        refine ⟨user, submission, form, period, submits, check, OfVisit.meets hs.2 own ?_ fun none => absurd none executes⟩
        exact ⟨fleet, there (fun _ _ e => by cases e), name, free⟩
  · cases follows shown with
    | plain none _ | counted _ _ _ none _ =>
      rw [none] at error
      cases error
    | @noPeriod e none said _ =>
      cases said.symm.trans error
      exact ⟨e, rfl, .inl none⟩
    | @refused call e makes happened said _ =>
      cases said.symm.trans error
      obtain ⟨k, rfl, raised⟩ := happened
      refine ⟨e, rfl, .inr ?_⟩
      rcases meets_grounds fresh along raised with ⟨busy, -, waited⟩ | grounds
      · exact .inl ⟨busy, waited⟩
      · exact .inr ⟨_, makes, grounds⟩
  · have reported := madeBy.reports told
    generalize said : (.ok (.redirect (.error "Reservation not found.")) : Except Exn Reaction) = x at reported
    cases reported with
    | @notFound user id m signedIn request happened =>
      obtain ⟨k, asked, raised⟩ := happened
      refine ⟨user, id, signedIn, request, ?_⟩
      rcases meets_grounds fresh along raised with ⟨-, ⟨r, reserves⟩, -⟩ | grounds
      · cases asked.symm.trans reserves
      · refine grounds.mono fun a l b _ ⟨own, grounds⟩ => ⟨own, ?_⟩
        rw [asked] at grounds
        cases grounds with
        | notTheirs others => exact others
    | booked =>
      simp only [flash] at said
      split_ifs at said <;> cases said
    | notCancellable => exact absurd (by simpa using said.symm) (cannotCancel_ne _)
    | _ => cases said

/-- What the list action says of an id is so: the reservation is cancelled, or there were
grounds for the error at its reading of the clock. -/
def Bears (engine : Engine) (policy : BookingPolicy) (visits : ι → Visit) (t : Tables) (drawn : Int) (ls : List (Label Sql ι))
    (c : Site ι) (i : ι) (user : User) : Int × Instant → Int × Option DomainError → Prop
  | (id, _), (id', none) => id' = id ∧ ∃ row ∈ c.shared.tables.reservations, row.id = id ∧
      row.status = BookingStatus.cancelled.value
  | (id, now), (id', some e) => id' = id ∧ Meets engine policy visits t drawn ls c i fun tables =>
      Grounds tables (.call (.cancel id (customerFrom user) now)) (.domain e)

/-- What the list action has noted bears scrutiny. -/
theorem Noted.bears {calls : ι × ℕ → Call} {n : ι → ℕ} {ls : List (Label Sql ι)} {c : Site ι} {ls' : List (Label Sql (ι × ℕ))}
    {d : Jobs (ι × ℕ)} (fresh : NoBookings t)
    (along : Run (fun a l b => Step (postgres engine (ι × ℕ)) (code fun k => .call (calls k)) a l b ∧
      OfVisit engine policy visits t drawn ls c a l) (Pool.start (Db.quiet t drawn)) ls' d)
    (madeBy : MadeBy policy visits calls n c d) {i : ι} {user : User} {one : Int × Instant} {note : Int × Option DomainError}
    (noted : Noted (CameTo calls d i) (customerFrom user) one note) :
    Bears engine policy visits t drawn ls c i user one note := by
  obtain ⟨id, now⟩ := one
  obtain ⟨id', _ | e⟩ := note
  · obtain ⟨rfl, b, k, asked, returned⟩ := noted
    obtain ⟨s, accounted, stands⟩ := accounted_of_run fresh (along.mono fun _ _ _ h => h.1)
    have vouches := accounted.vouches (i, k)
    rw [(phase_of_result stands).1 returned, asked] at vouches
    obtain ⟨_, _, isJob, b, hb, same, -, gone⟩ := vouches
    cases isJob
    refine ⟨rfl, encode (fleetIdOf t) b, ?_, same, value_inj_status.2 gone⟩
    rw [← madeBy.rel.tables, stands.mirrors.rows]
    exact List.mem_map_of_mem hb
  · obtain ⟨rfl, k, asked, raised⟩ := noted
    refine ⟨rfl, ?_⟩
    rcases meets_grounds fresh along raised with ⟨-, ⟨r, reserves⟩, -⟩ | grounds
    · cases asked.symm.trans reserves
    · rwa [asked] at grounds

/-- Whatever visits interleave: the list action says how many of its reservations it has
cancelled, and they are cancelled then and in every later state; and each error that it
shows was grounded in the tables at one of its steps, at the reading of the clock in the
call for that reservation. -/
theorem site_selected (engine : Engine) (policy : BookingPolicy) (visits : ι → Visit) {t : Tables} (fresh : NoBookings t)
    (drawn : Int) {ls : List (Label Sql ι)} {c : Site ι}
    (run : Run (Step (postgres engine ι) (siteCode policy visits)) (Pool.start (Db.quiet t drawn)) ls c) {i : ι}
    {messages : List AdminMessage} (told : (c.thread i).result = some (.ok (.admin messages))) :
    ∃ user selected, (visits i).user = some user ∧ (visits i).request = .cancelSelected selected ∧
      ((user.isStaff && user.mayChange) = false ∧ messages = [] ∨
      (user.isStaff && user.mayChange) = true ∧ ∃ notes : List (Int × Option DomainError),
        List.Forall₂ (Bears engine policy visits t drawn ls c i user) selected notes ∧
        messages = (notes.foldl Selection.note {}).messages) := by
  obtain ⟨calls, n, ls', d, along, madeBy⟩ := madeBy_along fresh run
  have reported := madeBy.reports told
  generalize said : (.ok (.admin messages) : Except Exn Reaction) = x at reported
  cases reported with
  | mayNotSelect signedIn request may =>
    cases said
    exact ⟨_, _, signedIn, request, .inl ⟨may, rfl⟩⟩
  | selected signedIn request may all =>
    cases said
    refine ⟨_, _, signedIn, request, .inr ⟨may, _, all.imp fun one note noted => ?_, rfl⟩⟩
    exact noted.bears fresh along madeBy
  | _ => cases said

/-- The customer 7 books while 8 asks how many are free, and then 8 books a van for the
same days; staff cancel both, the clock reading for the second the end of its rental. -/
def frontDesk : Fin 4 → Visit
  | 0 => Memory.visitOf (.submit Memory.submitTwoDays)
  | 1 => { Memory.visitOf (.submit { Memory.submitTwoDays with cleaned := some { Memory.twoDays with check := true } }) with
      user := some { pk := 8 } }
  | 2 => { Memory.visitOf (.submit { Memory.submitTwoDays with cleaned := some { Memory.twoDays with carType := .van } }) with
      user := some { pk := 8 } }
  | 3 => { Memory.visitOf (.cancelSelected [(1, Memory.twoDaysOfJune.stop - 1), (2, Memory.twoDaysOfJune.stop)]) with
      user := some { pk := 9, isStaff := true, mayChange := true } }

theorem run_frontDesk : ∃ ls c, Run (Step (postgres plainEngine (Fin 4)) (siteCode {} frontDesk))
      (Pool.start (Db.quiet smallTables 1)) ls c ∧
    (c.thread 1).result = some (.ok (.page { idempotencyKey := "june-2026", available := some 0, rows := [] })) ∧
    (c.thread 3).result = some (.ok (.admin
      [.error "#2: the rental period has already ended", .success "Cancelled: 1."])) := by
  refine Machine.exists_run_of_schedule
    ([0, 0, 0, 0, 1, 1, 0, 0, 1, 1, 2, 2, 2, 2, 2, 2, 3, 3, 3, 3, 3, 3].map (·, 0)) ?_
  decide +kernel

theorem site_shows_frontDesk : ∃ ls c, Run (Step (postgres plainEngine (Fin 4)) (siteCode {} frontDesk))
      (Pool.start (Db.quiet smallTables 1)) ls c ∧
    Meets plainEngine {} frontDesk smallTables 1 ls c 1 fun tables =>
      ∃ fleet ∈ tables.carTypes, fleet.name = CarType.sedan.value ∧ tables.Free fleet Memory.twoDaysOfJune 0 := by
  obtain ⟨ls, c, run, shown, -⟩ := run_frontDesk
  obtain ⟨user, submission, form, period, submits, -, meets⟩ :=
    (site_shows plainEngine {} frontDesk noBookings_smallTables 1 run 1).1 _ 0 shown rfl
  have asked : (frontDesk 1).Submits { pk := 8 }
      { Memory.submitTwoDays with cleaned := some { Memory.twoDays with check := true } }
      { Memory.twoDays with check := true } Memory.twoDaysOfJune := ⟨rfl, rfl, rfl, Memory.submits_twoDays.period⟩
  obtain ⟨rfl, rfl, rfl, rfl⟩ := asked.unique submits
  exact ⟨ls, c, run, meets⟩

theorem site_selected_frontDesk : ∃ ls c, Run (Step (postgres plainEngine (Fin 4)) (siteCode {} frontDesk))
      (Pool.start (Db.quiet smallTables 1)) ls c ∧
    ∃ notes : List (Int × Option DomainError),
      List.Forall₂ (Bears plainEngine {} frontDesk smallTables 1 ls c 3 { pk := 9, isStaff := true, mayChange := true })
        [(1, Memory.twoDaysOfJune.stop - 1), (2, Memory.twoDaysOfJune.stop)] notes ∧
      [.error "#2: the rental period has already ended", .success "Cancelled: 1."] =
        (notes.foldl Selection.note {}).messages := by
  obtain ⟨ls, c, run, -, told⟩ := run_frontDesk
  obtain ⟨user, selected, signedIn, request, ⟨mayNot, -⟩ | ⟨-, notes, bear, said⟩⟩ :=
    site_selected plainEngine {} frontDesk noBookings_smallTables 1 run told
  · cases signedIn
    cases mayNot
  · cases signedIn
    cases request
    exact ⟨ls, c, run, notes, bear, said⟩

end Postgres

end VehicleRentals
