import VehicleRentals.Web.Answered

/-!
# Valid forms

A form may pass its validation with any number of days from 1 on. The views answer what the
domain refuses, so such a form is answered unless `for_days` overflows on its way to the
period (`forDays_answers`): on either ledger, and whatever visits interleave.
-/

namespace VehicleRentals

open Concurrent

/-- The user submits this form, and it has passed its validation. -/
structure Visit.Posts (visit : Visit) (user : User) (submission : Submission) (form : BookingForm) : Prop where
  signedIn : visit.user = some user
  request : visit.request = .submit submission
  cleaned : submission.cleaned = some form

variable {visit : Visit} {user : User} {submission : Submission} {form : BookingForm} {policy : BookingPolicy}

theorem Visit.Posts.unique (posts : visit.Posts user submission form) {user' : User} {submission' : Submission}
    {form' : BookingForm} (posts' : visit.Posts user' submission' form') : form' = form := by
  obtain rfl := Request.submit.inj (posts.request.symm.trans posts'.request)
  exact Option.some.inj (posts'.cleaned.symm.trans posts.cleaned)

universe v

/-- On any ledger, dates that overflow end the visit before its first call. -/
theorem Visit.Posts.overflows {E : Type → Type} {B : Type → Type v} [Monad B] (posts : visit.Posts user submission form)
    (overflows : RentalPeriod.forDays (.datetime form.start) (.int form.days) = .error .overflowError)
    (desk : ReservationDesk (Prog E) B) : (desk.serve visit).run = .ret (.error .overflowError) := by
  simp only [ReservationDesk.serve, posts.signedIn, posts.request, ReservationDesk.post, posts.cleaned]
  show Prog.bind _ _ = _
  rw [ReservationDesk.submit_error _ _ _ overflows]
  rfl

/-- The views answer a valid form whose dates are in range. -/
theorem Visited.answers {sizes : FleetSizes} {t t' : Table} {x : Except Exn Reaction} (h : Visited sizes policy visit t x t')
    (posts : visit.Posts user submission form) (inRange : policy.InRange visit.now)
    (inYears : RentalPeriod.forDays (.datetime form.start) (.int form.days) ≠ .error .overflowError) :
    ∃ reaction, x = .ok reaction := by
  cases x with
  | ok reaction => exact ⟨reaction, rfl⟩
  | error e =>
    cases h with
    | crashed signedIn request cleaned raised other =>
      obtain rfl := posts.unique ⟨signedIn, request, cleaned⟩
      rcases Memory.forDays_error raised with ⟨m, rfl⟩ | rfl
      · cases other
      · exact absurd raised inYears
    | overflowed _ out => exact absurd inRange out

namespace Memory

/-- Alone on the ledger, a valid form is answered exactly when its dates do not overflow. -/
theorem solo_answers {ι : Type} {sizes : FleetSizes} {t : Table} (sound : t.Sound sizes) (i : ι)
    (posts : visit.Posts user submission form) (inRange : policy.InRange visit.now) :
    (∃ reaction m, (memory ι).solo i ((memoryDesk sizes policy).serve visit).run (.at ι t) = some (.ok reaction, m)) ↔
      RentalPeriod.forDays (.datetime form.start) (.int form.days) ≠ .error .overflowError := by
  constructor
  · rintro ⟨reaction, m, run⟩ overflows
    rw [posts.overflows overflows, Machine.solo_ret] at run
    cases run
  · intro inYears
    obtain ⟨x, t', run, visited⟩ := solo_serve policy sound i visit
    obtain ⟨reaction, rfl⟩ := visited.answers posts inRange inYears
    exact ⟨reaction, _, run⟩

end Memory

namespace Postgres

variable {ι : Type} [DecidableEq ι] {engine : Engine} {visits : ι → Visit} {t : Tables} {drawn : Int} {ls : List (Label Sql ι)}
  {c : Site ι} {i : ι}

/-- No wait of the visit for a key or a reservation has run out. -/
def InTime (ls : List (Label Sql ι)) (i : ι) : Prop :=
  ∀ l ∈ ls, l.thread = i → waitOf l ≠ some .key ∧ waitOf l ≠ some .booking

/-- Among other visits, a valid form is answered exactly when its dates do not overflow. -/
theorem answers_of_run (fresh : NoBookings t)
    (run : Run (Step (postgres engine ι) (siteCode policy visits)) (Pool.start (Db.quiet t drawn)) ls c) (inTime : InTime ls i)
    (posts : (visits i).Posts user submission form) (known : user.pk ∈ t.users) (inRange : policy.InRange (visits i).now)
    {x : Except Exn Reaction} (result : (c.thread i).result = some x) :
    (∃ reaction, x = .ok reaction) ↔
      RentalPeriod.forDays (.datetime form.start) (.int form.days) ≠ .error .overflowError := by
  constructor
  · rintro ⟨reaction, rfl⟩ overflows
    cases run.result_of_ret (posts.overflows overflows (postgresDesk policy)) result
  · intro inYears
    cases x with
    | ok reaction => exact ⟨reaction, rfl⟩
    | error e =>
      obtain ⟨calls, n, ls', d, along, madeBy⟩ := madeBy_along fresh run
      rcases madeBy.raised fresh along result with ⟨-, l, hl, own, waited⟩ |
        ⟨-, _, _, _, _, submits, missing⟩ | ⟨-, _, _, _, signedIn, request, cleaned, out⟩
      · obtain ⟨key, booking⟩ := inTime l hl own
        exact (waited.elim key booking).elim
      · obtain rfl := Option.some.inj (posts.signedIn.symm.trans submits.signedIn)
        exact absurd known missing
      · obtain rfl := posts.unique ⟨signedIn, request, cleaned⟩
        exact (out.elim inYears (absurd inRange)).elim

end Postgres

/-- `for_days` on an aware start either returns a period or raises
`InvalidRentalPeriod`, exactly when the days are fewer than one or no date on the
way is out of range; and exactly then a form that passed its validation is answered:
over any table a desk has left behind, and whatever visits interleave, once the visit
has ended, as it can. -/
theorem forDays_answers {d : Datetime} {before : Timedelta} (aware : d.utcoffset = some before) (n : Int) :
    (((∃ p, RentalPeriod.forDays (.datetime d) (.int n) = .ok p) ∨
        ∃ m, RentalPeriod.forDays (.datetime d) (.int n) = .error (.domain (.invalidRentalPeriod m))) ↔
      n < 1 ∨ RentalPeriod.InYears d before n) ∧
    ∀ (policy : BookingPolicy) (user : User) (submission : Submission) (form : BookingForm), form.start = d → form.days = n →
      (∀ visit : Visit, visit.Posts user submission form → policy.InRange visit.now →
        ∀ (sizes : FleetSizes) (t : Table), Memory.Reached sizes t →
          ((∃ reaction m, (memory Unit).solo () ((Memory.memoryDesk sizes policy).serve visit).run (.at Unit t) =
              some (.ok reaction, m)) ↔ n < 1 ∨ RentalPeriod.InYears d before n)) ∧
      ∀ {ι : Type} [DecidableEq ι] [Fintype ι] (engine : Engine) (visits : ι → Visit) (t : Tables)
        (drawn : Int) (ls : List (Label Sql ι)) (c : Postgres.Site ι) (i : ι), Postgres.NoBookings t →
        Run (Step (postgres engine ι) (Postgres.siteCode policy visits)) (Pool.start (Db.quiet t drawn)) ls c →
        (visits i).Posts user submission form → user.pk ∈ t.users → policy.InRange (visits i).now → Postgres.InTime ls i →
          (∀ x, (c.thread i).result = some x →
            ((∃ reaction, x = .ok reaction) ↔ n < 1 ∨ RentalPeriod.InYears d before n)) ∧
          ∃ ls' c', Run (fun a l b => Step (postgres engine ι) (Postgres.siteCode policy visits) a l b ∧
            Postgres.waitOf l = none) c ls' c' ∧ ((c'.thread i).result).isSome = true := by
  have inRange_iff : RentalPeriod.forDays (.datetime d) (.int n) ≠ .error .overflowError ↔
      n < 1 ∨ RentalPeriod.InYears d before n := by
    rw [Ne, RentalPeriod.forDays_eq_overflow aware n, not_not]
  refine ⟨?_, ?_⟩
  · rw [← inRange_iff]
    constructor
    · rintro (⟨p, made⟩ | ⟨m, refused⟩) overflows
      · cases made.symm.trans overflows
      · cases refused.symm.trans overflows
    · intro inYears
      cases result : RentalPeriod.forDays (.datetime d) (.int n) with
      | ok p => exact .inl ⟨p, rfl⟩
      | error e =>
        rcases RentalPeriod.forDays_error aware result with ⟨m, rfl⟩ | rfl
        · exact .inr ⟨m, rfl⟩
        · exact absurd result inYears
  · rintro policy user submission form rfl rfl
    simp only [← inRange_iff]
    refine ⟨fun visit posts inRange sizes t reached => Memory.solo_answers reached.sound () posts inRange, ?_⟩
    intro ι _ _ engine visits t drawn ls c i fresh run posts known inRange inTime
    refine ⟨fun x result => Postgres.answers_of_run fresh run inTime posts known inRange result, ?_⟩
    obtain ⟨ls', c', goes, complete⟩ :=
      run.exists_run_complete (Postgres.within_site policy visits) (Postgres.site_goes_on fresh)
    exact ⟨ls', c', goes, complete i⟩

def submitHalloween : Submission where
  idempotencyKey := "halloween-2026"
  cleaned := some halloweenForm

/-- The customer 7 submits a form over the end of daylight saving, a day before. -/
def halloweenVisit : Visit where
  user := some { pk := 7 }
  request := .submit submitHalloween
  now := RentalPeriod.halloween.reading - Timedelta.days 1
  shown := RentalPeriod.halloween.reading - Timedelta.days 1
  fresh := "november-2026"

/-- The customer presses the button twice: the second submission waits for the first. -/
theorem forDays_answers_newYork :
    ((∃ p, RentalPeriod.forDays (.datetime RentalPeriod.halloween) (.int 2) = .ok p) ∨
      ∃ m, RentalPeriod.forDays (.datetime RentalPeriod.halloween) (.int 2) = .error (.domain (.invalidRentalPeriod m))) ∧
    (∃ reaction m, (memory Unit).solo () ((Memory.memoryDesk Memory.oneEach {}).serve halloweenVisit).run (.at Unit .empty) =
      some (.ok reaction, m)) ∧
    ∃ ls c, Run (Step (postgres Postgres.plainEngine (Fin 2)) (Postgres.siteCode {} fun _ => halloweenVisit))
        (Pool.start (Db.quiet Postgres.smallTables 1)) ls c ∧
      ∃ x, (c.thread 1).result = some x ∧ ∃ reaction, x = .ok reaction := by
  obtain ⟨period, answers⟩ := forDays_answers
    (show RentalPeriod.halloween.utcoffset =
      some (RentalPeriod.newYorkTable.lookup RentalPeriod.halloween.fold RentalPeriod.halloween.reading) from rfl) 2
  have inYears := RentalPeriod.inYears_halloween
  have posts : halloweenVisit.Posts { pk := 7 } submitHalloween halloweenForm := ⟨rfl, rfl, rfl⟩
  have inRange : ({} : BookingPolicy).InRange halloweenVisit.now := by decide
  obtain ⟨alone, among⟩ := answers {} { pk := 7 } submitHalloween halloweenForm rfl rfl
  refine ⟨period.2 (.inr inYears), (alone _ posts inRange _ _ (Memory.reached_empty Memory.oneEach)).2 (.inr inYears), ?_⟩
  obtain ⟨ls, c, run, unwaited, ended⟩ : ∃ ls c,
      Run (Step (postgres Postgres.plainEngine (Fin 2)) (Postgres.siteCode {} fun _ => halloweenVisit))
        (Pool.start (Db.quiet Postgres.smallTables 1)) ls c ∧
      (∀ l ∈ ls, Postgres.waitOf l = none) ∧ ((c.thread 1).result).isSome = true :=
    Machine.exists_run_of_schedule ([0, 0, 1, 0, 0, 0, 0, 1, 1, 1].map (·, 0)) (by decide +kernel)
  obtain ⟨x, result⟩ := Option.isSome_iff_exists.1 ended
  have inTime : Postgres.InTime ls (1 : Fin 2) := by
    intro l hl _
    simp [unwaited l hl]
  obtain ⟨answered, -⟩ :=
    among Postgres.plainEngine _ _ 1 ls c 1 Postgres.noBookings_smallTables run posts (by decide) inRange inTime
  exact ⟨ls, c, run, x, result, (answered x result).2 (.inr inYears)⟩

/-- A valid form that `for_days` and the dashboard do not answer. -/
theorem forDays_overflows : juneForm.start.utcoffset = some 0 ∧
    RentalPeriod.forDays (.datetime juneForm.start) (.int juneForm.days) = .error .overflowError ∧
    (memory Unit).solo () ((Memory.memoryDesk Memory.oneEach {}).serve
        (Memory.visitOf (.submit { idempotencyKey := "june-2026", cleaned := some juneForm }))).run (.at Unit .empty) =
      some (.error .overflowError, .at Unit .empty) := by
  have overflows : RentalPeriod.forDays (.datetime juneForm.start) (.int juneForm.days) = .error .overflowError := by
    decide +kernel
  refine ⟨rfl, overflows, ?_⟩
  rfl

end VehicleRentals
