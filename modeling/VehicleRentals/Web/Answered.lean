import VehicleRentals.Concurrent.Bounds
import VehicleRentals.Postgres.History
import VehicleRentals.Web.Interleaved

/-!
# Every visit is answered

A visit issues a bounded number of the ledger's statements, whatever the database responds
(`within_client`), and among visits that have not ended one can go on: so every run of
visits ends (`site_ends`). What leaves a view as an exception is a wait for a key or a
reservation that ran out, or comes from dates out of range or a user who does not exist
(`site_raises`).
-/

namespace VehicleRentals

open Concurrent

/-- The statements of the ledger that a call issues at most. -/
def Call.statements : Call → ℕ
  | .reserve _ => 6
  | .cancel .. => 3
  | .availability .. => 2
  | .reservationsFor _ => 1

/-- The statements a visit issues at most. -/
def Visit.statements (visit : Visit) : ℕ :=
  match visit.request with
  | .dashboard => 1
  | .submit _ => 7
  | .cancel _ => 3
  | .cancelSelected selected => 3 * selected.length
  | .otherMethod => 0

namespace Postgres

/-! ## The statements of a call -/

theorem within_failCode (block : Block) (e : Exn) : (failCode block e).Within 1 := by
  by_cases lost : e = .duplicateIdempotencyKey
  · subst lost
    cases block with
    | reserve r key => exact .step fun _ => .ret _
    | _ => exact .ret _
  · rw [failCode_of_ne block lost]
    exact .ret _

theorem within_endCode (block : Block) (x : Result) : (endCode block x).Within 2 := by
  cases x with
  | ok reply =>
    refine .step fun c => ?_
    cases c with
    | ok _ => exact .ret _
    | error e => exact within_failCode block e
  | error e => exact .step fun _ => within_failCode block e

/-- Only `reserve` looks again after its block. -/
theorem within_endCode_cancel (bookingId : Int) (actor : Customer) (now : Instant) (x : Result) :
    (endCode (.cancel bookingId actor now) x).Within 1 := by
  have fails : ∀ e, failCode (.cancel bookingId actor now) e = .ret (.error e) := by
    intro e
    cases e <;> rfl
  cases x with
  | ok reply =>
    refine .step fun c => ?_
    cases c with
    | ok _ => exact .ret _
    | error e =>
      dsimp only
      rw [fails]
      exact .ret _
  | error e =>
    refine .step fun _ => ?_
    rw [fails]
    exact .ret _

theorem within_scheduleCode (r : Reserve) (key : IdempotencyKey) (fleet : CarTypeRow) :
    (scheduleCode r key fleet).Within 4 := by
  refine .step fun rows => ?_
  split
  · exact (within_endCode ..).mono (by omega)
  · split
    · exact .step fun _ => within_endCode ..
    · exact (within_endCode ..).mono (by omega)

theorem within_lookCode (r : Reserve) (key : IdempotencyKey) (fleet : CarTypeRow) : (lookCode r key fleet).Within 5 := by
  refine .step fun row => ?_
  split
  · exact (within_endCode ..).mono (by omega)
  · exact (within_endCode ..).mono (by omega)
  · split
    · exact (within_endCode ..).mono (by omega)
    · exact within_scheduleCode ..

theorem within_cancelCode (bookingId : Int) (actor : Customer) (now : Instant) (found : Option Booking) :
    (cancelCode bookingId actor now found).Within 2 := by
  unfold cancelCode
  split
  · exact (within_endCode_cancel ..).mono one_le_two
  · split_ifs
    · exact (within_endCode_cancel ..).mono one_le_two
    · exact (within_endCode_cancel ..).mono one_le_two
    · exact .step fun _ => within_endCode_cancel ..
    · exact (within_endCode_cancel ..).mono one_le_two

/-- The code at the phase in which a call begins. -/
theorem within_call (call : Call) : (callCode call).Within call.statements := by
  have begins : ∀ {p : Code}, (invoked (.call call)).thread (fun _ => 0) = .running p → p.Within call.statements →
      (callCode call).Within call.statements := by
    intro p here within
    rw [thread_invoked] at here
    cases here
    exact within
  cases call with
  | reserve r =>
    cases parsed : IdempotencyKey.new r.idempotencyKey with
    | error e => exact begins (by simp only [invoked, parsed]; rfl) (.ret (.error e))
    | ok key =>
      refine begins (p := openCode (.reserve r key)) (by simp only [invoked, parsed]; rfl) (.step fun x => ?_)
      split
      · exact (within_endCode ..).mono (by omega)
      · exact within_lookCode ..
  | cancel bookingId actor now =>
    refine begins (p := openCode (.cancel bookingId actor now)) rfl (.step fun x => ?_)
    split
    · exact (within_endCode_cancel ..).mono one_le_two
    · split
      · exact (within_endCode_cancel ..).mono one_le_two
      · exact within_cancelCode ..
  | availability policy T P now =>
    cases valid : policy.validate P now with
    | error e => exact begins (by simp only [invoked, valid]; rfl) (.ret (.error e))
    | ok _ =>
      refine begins (p := findCode T P) (by simp only [invoked, valid]; rfl) (.step fun fleet => ?_)
      cases fleet with
      | none => exact .ret _
      | some fleet => exact .step fun _ => .ret _
  | reservationsFor customer => exact begins rfl (.step fun _ => .ret _)

/-! ## The statements of a visit -/

variable {α : Type}

theorem within_calling {call : Call} {kind : Reply → Option α} {k : Except Exn α → DbClient (Except Exn Reaction)} {n m : ℕ}
    (rest : ∀ x, ((k x).code callCode).Within n) (le : call.statements + n ≤ m) :
    ((calling call kind k).code callCode).Within m := by
  refine ((within_call call).bind fun o => ?_).mono le
  rcases o with e | reply
  · exact rest _
  · dsimp only
    split
    · exact rest _
    · exact rest _

theorem within_rendering (customer : Customer) (shown : Instant) (key : String) (error : Option String)
    (available : Option Int) : ((rendering customer shown key error available).code callCode).Within 1 :=
  within_calling (n := 0) (fun _ => .ret _) (le_refl 1)

theorem within_answering (customer : Customer) (submission : Submission) (shown : Instant) (fresh : String)
    (x : Except Exn (Int ⊕ Flash)) : ((answering customer submission shown fresh x).code callCode).Within 1 := by
  rcases x with (_ | _ | _ | _ | _ | _) | (available | message) <;> first | exact .ret _ | exact within_rendering ..

theorem within_posting (policy : BookingPolicy) (customer : Customer) (submission : Submission) (now shown : Instant)
    (fresh : String) : ((posting policy customer submission now shown fresh).code callCode).Within 7 := by
  unfold posting
  split
  · exact (within_rendering ..).mono (by omega)
  · split
    · exact (within_answering ..).mono (by omega)
    · split
      · exact within_calling (n := 1) (fun _ => within_answering ..) (by simp [Call.statements])
      · exact within_calling (n := 1) (fun _ => within_answering ..) (le_refl 7)

theorem within_selecting (actor : Customer) (selected : List (Int × Instant)) (selection : Selection) :
    ((selecting actor selection selected).code callCode).Within (3 * selected.length) := by
  induction selected generalizing selection with
  | nil => exact .ret _
  | cons _ selected ih =>
    refine within_calling (n := 3 * selected.length) (fun x => ?_) (by simp only [Call.statements, List.length_cons]; omega)
    split
    · exact ih _
    · exact ih _
    · exact .ret _

theorem within_client (policy : BookingPolicy) (visit : Visit) :
    ((client policy visit).code callCode).Within visit.statements := by
  unfold client Visit.statements
  cases visit.user with
  | none => exact .ret _
  | some user =>
    cases visit.request with
    | dashboard => exact within_rendering ..
    | submit submission => exact within_posting ..
    | cancel id =>
      refine within_calling (n := 0) (fun x => ?_) (le_refl 3)
      split <;> exact .ret _
    | cancelSelected selected =>
      dsimp only
      split
      · exact within_selecting ..
      · exact .ret _
    | otherMethod => exact .ret _

theorem within_site {ι : Type} (policy : BookingPolicy) (visits : ι → Visit) (i : ι) :
    (siteCode policy visits i).Within (visits i).statements := by
  rw [siteCode, ← code_client]
  exact within_client policy (visits i)

/-! ## Runs of visits end -/

variable {ι : Type} [DecidableEq ι] {engine : Engine} {policy : BookingPolicy} {visits : ι → Visit} {t : Tables} {drawn : Int}

/-- As long as some visit has not ended, some visit can go on without a wait running out. -/
theorem site_goes_on (fresh : NoBookings t) {ls : List (Label Sql ι)} {c : Site ι}
    (run : Run (Step (postgres engine ι) (siteCode policy visits)) (Pool.start (Db.quiet t drawn)) ls c)
    (unfinished : ¬ c.Complete) :
    ∃ l c', Step (postgres engine ι) (siteCode policy visits) c l c' ∧ waitOf l = none := by
  obtain ⟨calls, n, ls', d, run', madeBy⟩ := madeBy_of_run fresh run
  obtain ⟨s, running⟩ := running_of_run fresh run'
  have inj : Function.Injective fun i => (i, n i) := fun _ _ e => (Prod.mk.inj e).1
  obtain ⟨i, here⟩ := not_forall.1 unfinished
  have stage := madeBy.stage i trivial
  generalize thread : c.thread i = ahead at here stage
  cases stage with
  | idle => exact ⟨_, _, .invoke thread, rfl⟩
  | done => exact absurd rfl here
  | calling _ there =>
    -- the call that needs nobody else's lock is the current one of its visit
    obtain ⟨⟨j, k⟩, β, e, f, running', free⟩ := exists_free running.placed there
    obtain ⟨rfl, rest, current⟩ := madeBy.current running'
    obtain ⟨x, db', hx, unwaited⟩ := exec_free (i := j) engine fun j' ne blocks =>
      free (j', n j') (fun e => ne (inj e)) ((madeBy.rel.blocks inj j j' e).2 blocks)
    exact ⟨_, _, .act current hx, unwaited⟩

/-- However finitely many visits interleave and whichever waits run out: they issue a
bounded number of the ledger's statements; from any state they can go on to the end
without a wait running out; and a visit that has ended has neither a lock nor a change it
has not committed. -/
theorem site_ends [Fintype ι] (engine : Engine) (policy : BookingPolicy) (visits : ι → Visit) {t : Tables}
    (fresh : NoBookings t) (drawn : Int) {ls : List (Label Sql ι)} {c : Site ι}
    (run : Run (Step (postgres engine ι) (siteCode policy visits)) (Pool.start (Db.quiet t drawn)) ls c) :
    ls.length ≤ ∑ i, ((visits i).statements + 1) ∧
    (∃ ls' c', Run (fun a l b => Step (postgres engine ι) (siteCode policy visits) a l b ∧ waitOf l = none) c ls' c' ∧
      c'.Complete) ∧
    ∀ i x, (c.thread i).result = some x → Unlocked c.shared i ∧ c.shared.writes i = [] := by
  have bounded := within_site policy visits
  refine ⟨run.length_le_of_within bounded, run.exists_run_complete bounded (site_goes_on fresh), fun i x result => ?_⟩
  obtain ⟨calls, n, ls', d, run', madeBy⟩ := madeBy_of_run fresh run
  obtain ⟨s, running⟩ := running_of_run fresh run'
  have inj : Function.Injective fun i => (i, n i) := fun _ _ e => (Prod.mk.inj e).1
  refine madeBy.rel.free inj (running.rests fun under => under.1 ?_)
  have stage := madeBy.stage i trivial
  rw [Thread.result_eq_some result] at stage
  generalize ended : Thread.running (Prog.ret x) = thread at stage
  cases stage with
  | idle => cases ended
  | done _ idle => exact idle
  | calling => cases ended

/-- The first has the lock that the second asks for. -/
theorem site_ends_rush : ∃ ls c, Run (Step (postgres plainEngine (Fin 3)) (siteCode {} rush)) (Pool.start (Db.quiet smallTables 1)) ls c ∧
    c.shared.fleetLock 1 = some 0 ∧ ls.length ≤ 20 ∧
    ∃ ls' c', Run (fun a l b => Step (postgres plainEngine (Fin 3)) (siteCode {} rush) a l b ∧ waitOf l = none) c ls' c' ∧
      c'.Complete := by
  obtain ⟨ls, c, run, locked⟩ : ∃ ls c, Run (Step (postgres plainEngine (Fin 3)) (siteCode {} rush))
      (Pool.start (Db.quiet smallTables 1)) ls c ∧ c.shared.fleetLock 1 = some 0 :=
    Machine.exists_run_of_schedule ([0, 0, 1, 0, 0].map (·, 0)) (by decide +kernel)
  obtain ⟨bounded, goes, -⟩ := site_ends plainEngine {} rush noBookings_smallTables 1 run
  exact ⟨ls, c, run, locked, bounded, goes⟩

/-! ## What leaves a view -/

omit [DecidableEq ι] in
theorem Vouches.replies {table : Table} {call : Call} {reply : Option Reply}
    (h : Vouches table (.call call) (.ok reply)) : call.Replies reply := by
  rcases reply with _ | (_ | _ | _ | _)
  · obtain ⟨_, _, isJob⟩ := h
    cases isJob
  · obtain ⟨_, _, isJob, -⟩ := h
    cases isJob
    trivial
  · obtain ⟨_, _, isJob, -⟩ := h
    cases isJob
    trivial
  · obtain ⟨_, _, _, _, isJob⟩ := h
    cases isJob
    trivial
  · obtain ⟨_, isJob, -⟩ := h
    cases isJob
    trivial

omit [DecidableEq ι] in
/-- The tables give no grounds for an exception that a view has no answer to, but that a
date is out of range. -/
theorem overflows_of_grounds {visit : Visit} {call : Call} {e : Exn} {tables : Tables} (makes : visit.Makes policy call)
    (grounds : Grounds tables (.call call) e) (out : call.LetsOut e) :
    e = .overflowError ∧ ¬ policy.InRange visit.now ∧ ∃ user submission form period, visit.Submits user submission form period := by
  have validates : ∀ {policy : BookingPolicy} {period now}, policy.validate period now = .error e → e.isDomain = false →
      e = .overflowError ∧ ¬ policy.InRange now := by
    intro policy period now refused other
    rcases BookingPolicy.validate_error refused with ⟨m, rfl⟩ | overflows
    · cases other
    · exact overflows
  cases grounds with
  | malformed malformed =>
    unfold IdempotencyKey.new at malformed
    split at malformed
    · cases malformed
    · cases malformed
      cases out
  | policy _ refused =>
    cases makes with
    | reserve submits book =>
      obtain ⟨overflow, range⟩ := validates refused out
      exact ⟨overflow, range, _, _, _, _, submits⟩
  | refused refused =>
    cases makes with
    | check submits check =>
      obtain ⟨overflow, range⟩ := validates refused out
      exact ⟨overflow, range, _, _, _, _, submits⟩
  | notTheirs => exact absurd rfl (out.1 _)
  | ended => exact absurd rfl (out.2 _)
  | _ => cases out

/-- An exception that leaves a view comes from a call of the visit, or from the dates of its form. -/
theorem MadeBy.raised {calls : ι × ℕ → Call} {n : ι → ℕ} {ls : List (Label Sql ι)} {c : Site ι} {ls' : List (Label Sql (ι × ℕ))}
    {d : Jobs (ι × ℕ)} (madeBy : MadeBy policy visits calls n c d) (fresh : NoBookings t)
    (along : Run (fun a l b => Step (postgres engine (ι × ℕ)) (code fun k => .call (calls k)) a l b ∧
      OfVisit engine policy visits t drawn ls c a l) (Pool.start (Db.quiet t drawn)) ls' d) {i : ι} {e : Exn}
    (raised : (c.thread i).result = some (.error e)) :
    (e = timedOut ∧ ∃ l ∈ ls, l.thread = i ∧ (waitOf l = some .key ∨ waitOf l = some .booking)) ∨
    (e = userMissing ∧ ∃ user submission form period, (visits i).Submits user submission form period ∧ user.pk ∉ t.users) ∨
    (e = .overflowError ∧ ∃ user submission form, (visits i).user = some user ∧ (visits i).request = .submit submission ∧
      submission.cleaned = some form ∧
      (RentalPeriod.forDays (.datetime form.start) (.int form.days) = .error .overflowError ∨
        ¬ policy.InRange (visits i).now)) := by
  have reported := madeBy.reports raised
  generalize said : (.error e : Except Exn Reaction) = x at reported
  cases reported with
  | noPeriod none other =>
    cases said
    obtain ⟨user, submission, form, signedIn, request, cleaned, noPeriod⟩ := none
    rcases Memory.forDays_error noPeriod with ⟨m, rfl⟩ | rfl
    · cases other
    · exact .inr (.inr ⟨rfl, user, submission, form, signedIn, request, cleaned, .inl noPeriod⟩)
  | mistyped happened mistyped =>
    obtain ⟨k, rfl, returned⟩ := happened
    obtain ⟨s, accounted, stands⟩ := accounted_of_run fresh (along.mono fun _ _ _ h => h.1)
    have vouches := accounted.vouches (i, k)
    rw [(phase_of_result stands).1 returned] at vouches
    exact absurd (Vouches.replies vouches) mistyped
  | @raised call _ makes happened out =>
    cases said
    obtain ⟨k, asked, returned⟩ := happened
    have isJob : Job.call (calls (i, k)) = .call call := congrArg Job.call asked
    obtain ⟨-, l', -, a, -, -, -, ⟨-, at'⟩, -, own, ⟨ranOut, waits, raises⟩ | ⟨rfl, r, reserves, missing⟩ | ⟨grounds, -⟩⟩ :=
      exists_reason fresh along returned
    · obtain ⟨l, hl, thread, waits⟩ := OfVisit.waited at' own waits
      rw [isJob] at raises
      -- `_lock` turns its wait into an error the view answers
      cases ranOut with
      | fleet =>
        cases call <;> cases raises
        cases out
      | key =>
        cases call <;> cases raises
        exact .inl ⟨rfl, l, hl, thread, .inl waits⟩
      | booking =>
        cases call <;> cases raises
        exact .inl ⟨rfl, l, hl, thread, .inr waits⟩
    · obtain rfl := Job.call.inj (isJob.symm.trans reserves)
      cases makes with
      | reserve submits book => exact .inr (.inl ⟨rfl, _, _, _, _, submits, missing⟩)
    · rw [isJob] at grounds
      obtain ⟨rfl, range, user, submission, form, period, submits⟩ := overflows_of_grounds makes grounds out
      exact .inr (.inr ⟨rfl, user, submission, form, submits.signedIn, submits.request, submits.cleaned, .inr range⟩)
  | _ => cases said

/-- Whatever visits interleave: an exception that leaves a view comes from a wait of its
visit that ran out, for an uncommitted booking under its key or for a reservation; or
its user is not in the table; or a date on the way is out of range. -/
theorem site_raises (engine : Engine) (policy : BookingPolicy) (visits : ι → Visit) {t : Tables} (fresh : NoBookings t)
    (drawn : Int) {ls : List (Label Sql ι)} {c : Site ι}
    (run : Run (Step (postgres engine ι) (siteCode policy visits)) (Pool.start (Db.quiet t drawn)) ls c) {i : ι} {e : Exn}
    (raised : (c.thread i).result = some (.error e)) :
    (e = timedOut ∧ ∃ l ∈ ls, l.thread = i ∧ (waitOf l = some .key ∨ waitOf l = some .booking)) ∨
    (e = userMissing ∧ ∃ user submission form period, (visits i).Submits user submission form period ∧ user.pk ∉ t.users) ∨
    (e = .overflowError ∧ ∃ user submission form, (visits i).user = some user ∧ (visits i).request = .submit submission ∧
      submission.cleaned = some form ∧
      (RentalPeriod.forDays (.datetime form.start) (.int form.days) = .error .overflowError ∨
        ¬ policy.InRange (visits i).now)) := by
  obtain ⟨calls, n, ls', d, along, madeBy⟩ := madeBy_along fresh run
  exact madeBy.raised fresh along raised

/-- The customer 7 submits the form for a sedan, and again for a van. -/
def switched : Fin 2 → Visit
  | 0 => Memory.visitOf (.submit Memory.submitTwoDays)
  | 1 => Memory.visitOf (.submit { Memory.submitTwoDays with cleaned := some { Memory.twoDays with carType := .van } })

theorem site_raises_switched : ∃ ls c, Run (Step (postgres plainEngine (Fin 2)) (siteCode {} switched))
      (Pool.start (Db.quiet smallTables 1)) ls c ∧ (c.thread 1).result = some (.error timedOut) ∧
    ∃ l ∈ ls, l.thread = 1 ∧ (waitOf l = some .key ∨ waitOf l = some .booking) := by
  obtain ⟨ls, c, run, raised⟩ : ∃ ls c, Run (Step (postgres plainEngine (Fin 2)) (siteCode {} switched))
      (Pool.start (Db.quiet smallTables 1)) ls c ∧ (c.thread 1).result = some (.error timedOut) :=
    Machine.exists_run_of_schedule ([0, 1, 0, 1, 0, 1, 0, 1, 0, 1, 1].map (·, 0)) (by decide +kernel)
  rcases site_raises plainEngine {} switched noBookings_smallTables 1 run raised with ⟨-, waited⟩ | ⟨missing, -⟩ | ⟨overflow, -⟩
  · exact ⟨ls, c, run, raised, waited⟩
  · cases missing
  · cases overflow

end Postgres

end VehicleRentals
