import VehicleRentals.Postgres.Sessions
import VehicleRentals.Web.Equivalence

/-!
# The calls a visit makes

A view calls the desk once or several times, each call in a transaction of its own, and
what it answers depends on what they returned. `Visit.client` spells the views out as
clients of the database; `code_client` says that these are the views.
-/

namespace VehicleRentals

open Concurrent

namespace Postgres

variable {α β : Type}

/-- A call whose replies are of the kind `kind`, and what to do with what it returned or raised. -/
def calling (call : Call) (kind : Reply → Option α) (k : Except Exn α → DbClient β) : DbClient β :=
  .ask call fun
    | .error e => k (.error e)
    | .ok reply =>
      match reply.bind kind with
      | some a => k (.ok a)
      -- the call has no such reply
      | none => k (.error .valueError)

def Reply.result? : Reply → Option BookingResult
  | .booked result => some result
  | _ => none

def Reply.booking? : Reply → Option Booking
  | .cancelled b => some b
  | _ => none

def Reply.count? : Reply → Option Int
  | .free count => some count
  | _ => none

def Reply.list? : Reply → Option (List Booking)
  | .listed bs => some bs
  | _ => none

theorem code_calling {call : Call} {f : α → Reply} {kind : Reply → Option α} (inverse : ∀ a, kind (f a) = some a)
    {x : ExceptT Exn (Prog Sql) α} (program : call.program PostgresBookingLedger = (x >>= fun a => return f a).run)
    (k : Except Exn α → DbClient β) :
    (calling call kind k).code callCode =
      x.run.bind fun y => (k y).code fun call => Job.program (.call call) := by
  have job : callCode call = (x.run.bind fun y => .ret (y.map f)).bind fun o => .ret (o.map some) := by
    rw [← run_map, ← program]
    rfl
  rw [calling, Client.code, job, Prog.bind_assoc, Prog.bind_assoc]
  refine Prog.bind_congr fun y => ?_
  cases y with
  | error e => rfl
  | ok a =>
    show Client.code _ (match (some (f a)).bind kind with | some a => k (.ok a) | none => k (.error .valueError)) = _
    rw [Option.bind_some, inverse]

/-! ## The views as clients -/

/-- `ReservationDesk.render`. -/
def rendering (customer : Customer) (shown : Instant) (key : String) (error : Option String) (available : Option Int) :
    DbClient (Except Exn Reaction) :=
  calling (.reservationsFor customer) Reply.list? fun x => .done (x.map fun reservations =>
    .page { idempotencyKey := key, error, available, rows := reservations.map (Booking.row shown) })

/-- What `ReservationDesk.post` makes of the body of its `try`. -/
def answering (customer : Customer) (submission : Submission) (shown : Instant) (fresh : String) :
    Except Exn (Int ⊕ Flash) → DbClient (Except Exn Reaction)
  | .ok (.inr message) => .done (.ok (.redirect message))
  | .ok (.inl available) => rendering customer shown submission.idempotencyKey none (some available)
  | .error (.domain e) =>
    rendering customer shown (if e.spendsKey then fresh else submission.idempotencyKey) (some (formError e)) none
  | .error e => .done (.error e)

/-- `ReservationDesk.post`. -/
def posting (policy : BookingPolicy) (customer : Customer) (submission : Submission) (now shown : Instant) (fresh : String) :
    DbClient (Except Exn Reaction) :=
  match submission.cleaned with
  | none => rendering customer shown submission.idempotencyKey none none
  | some form =>
    match RentalPeriod.forDays (.datetime form.start) (.int form.days) with
    | .error e => answering customer submission shown fresh (.error e)
    | .ok period =>
      if form.check then
        calling (.availability policy form.carType period now) Reply.count? fun x =>
          answering customer submission shown fresh (x.map .inl)
      else
        calling (.reserve (form.request policy customer now period)) Reply.result? fun x =>
          answering customer submission shown fresh (x.map fun result => .inr (flash form.carType result))

/-- `ReservationDesk.cancelReservation`. -/
def cancelling (customer : Customer) (reservationId : Int) (now : Instant) : DbClient (Except Exn Reaction) :=
  calling (.cancel reservationId customer now) Reply.booking? fun
    | .ok _ => .done (.ok (.redirect (.success "Reservation cancelled.")))
    | .error (.domain (.reservationNotFound _)) => .done (.ok (.redirect (.error "Reservation not found.")))
    | .error (.domain (.reservationNotCancellable m)) => .done (.ok (.redirect (.error ("Cannot cancel: " ++ m ++ "."))))
    | .error e => .done (.error e)

/-- The loop of `ReservationDesk.cancelSelected`, and the messages after it. -/
def selecting (actor : Customer) (selection : Selection) : List (Int × Instant) → DbClient (Except Exn Reaction)
  | [] => .done (.ok (.admin selection.messages))
  | (id, now) :: rest =>
    calling (.cancel id actor now) Reply.booking? fun
      | .ok _ => selecting actor { selection with cancelled := selection.cancelled + 1 } rest
      | .error (.domain e) => selecting actor { selection with errors := selection.errors ++ [(id, e)] } rest
      | .error e => .done (.error e)

/-- `ReservationDesk.serve`. -/
def client (policy : BookingPolicy) (visit : Visit) : DbClient (Except Exn Reaction) :=
  match visit.user with
  | none => .done (.ok .signIn)
  | some user =>
    match visit.request with
    | .dashboard => rendering (customerFrom user) visit.shown visit.fresh none none
    | .submit submission => posting policy (customerFrom user) submission visit.now visit.shown visit.fresh
    | .cancel reservationId => cancelling (customerFrom user) reservationId visit.now
    | .cancelSelected selected =>
      if user.isStaff && user.mayChange then selecting (customerFrom user) {} selected
      else .done (.ok (.admin []))
    | .otherMethod => .done (.ok .notAllowed)

theorem code_rendering (policy : BookingPolicy) (customer : Customer) (shown : Instant) (key : String) (error : Option String)
    (available : Option Int) :
    (rendering customer shown key error available).code callCode =
      ((postgresDesk policy).render customer shown key error available).run := by
  rw [rendering, code_calling (f := .listed) (x := (postgresDesk policy).reservationsFor customer) (fun _ => rfl) rfl]
  exact (run_map ..).symm

theorem code_posting (policy : BookingPolicy) (customer : Customer) (submission : Submission) (now shown : Instant)
    (fresh : String) :
    (posting policy customer submission now shown fresh).code callCode =
      ((postgresDesk policy).post customer submission now shown fresh).run := by
  unfold posting ReservationDesk.post
  cases submission.cleaned with
  | none => exact code_rendering ..
  | some form =>
    dsimp only
    -- the client answers what the view answers
    have answer : (((postgresDesk policy).submit customer form now).run.bind fun x =>
        (answering customer submission shown fresh x).code callCode) =
          ((postgresDesk policy).post customer { submission with cleaned := some form } now shown fresh).run := by
      refine Prog.bind_congr fun x => ?_
      rcases x with (_ | _ | _ | _ | _ | _) | (available | message) <;> first | rfl | exact code_rendering ..
    refine Eq.trans ?_ answer
    cases made : RentalPeriod.forDays (.datetime form.start) (.int form.days) with
    | error e => rw [ReservationDesk.submit_error _ _ _ made, Prog.ret_bind]
    | ok period =>
      rw [ReservationDesk.submit_ok _ _ _ made]
      dsimp only
      split
      · rw [code_calling (f := .free) (x := (postgresDesk policy).availability form.carType period now) (fun _ => rfl) rfl,
          Prog.bind_assoc]
        rfl
      · rw [code_calling (f := .booked)
          (x := (postgresDesk policy).reserve customer form.carType period form.idempotencyKey now) (fun _ => rfl) rfl,
          Prog.bind_assoc]
        rfl

theorem code_cancelling (policy : BookingPolicy) (customer : Customer) (reservationId : Int) (now : Instant) :
    (cancelling customer reservationId now).code callCode =
      ((postgresDesk policy).cancelReservation customer reservationId now).run := by
  rw [cancelling, code_calling (f := .cancelled) (x := (postgresDesk policy).cancel reservationId customer now)
    (fun _ => rfl) rfl]
  refine Prog.bind_congr fun x => ?_
  rcases x with (e | _ | _ | _ | _ | _) | b
  · cases e <;> rfl
  all_goals rfl

theorem code_selecting (policy : BookingPolicy) (actor : Customer) (selection : Selection) (selected : List (Int × Instant)) :
    (selecting actor selection selected).code callCode =
      (selected.foldlM ((postgresDesk policy).cancelRound actor) selection).run.bind fun x =>
        .ret (x.map fun selection => .admin selection.messages) := by
  induction selected generalizing selection with
  | nil => rfl
  | cons one rest ih =>
    obtain ⟨id, now⟩ := one
    rw [selecting, code_calling (f := .cancelled) (x := (postgresDesk policy).cancel id actor now) (fun _ => rfl) rfl,
      List.foldlM_cons, run_bind, Prog.bind_assoc]
    show Prog.bind _ _ = Prog.bind (Prog.bind _ _) _
    rw [Prog.bind_assoc]
    refine Prog.bind_congr fun x => ?_
    rcases x with (e | _ | _ | _ | _ | _) | b
    · exact ih _
    · rfl
    · rfl
    · rfl
    · rfl
    · rfl
    · exact ih _

/-- The view of a visit is its client's program. -/
theorem code_client (policy : BookingPolicy) (visit : Visit) :
    (client policy visit).code callCode = ((postgresDesk policy).serve visit).run := by
  unfold client ReservationDesk.serve
  cases visit.user with
  | none => rfl
  | some user =>
    cases visit.request with
    | dashboard => exact code_rendering ..
    | submit submission => exact code_posting ..
    | cancel id => exact code_cancelling ..
    | cancelSelected selected =>
      dsimp only
      split
      · rw [code_selecting policy, run_map]
        rfl
      · rfl
    | otherMethod => rfl

end Postgres

/-! ## The calls of a visit -/

/-- The calls of a visit. -/
inductive Visit.Makes (policy : BookingPolicy) (visit : Visit) : Call → Prop where
  | reserve {user : User} {submission : Submission} {form : BookingForm} {period : RentalPeriod} :
      visit.Submits user submission form period → form.check = false →
      Makes policy visit (.reserve (form.request policy (customerFrom user) visit.now period))
  | check {user : User} {submission : Submission} {form : BookingForm} {period : RentalPeriod} :
      visit.Submits user submission form period → form.check = true →
      Makes policy visit (.availability policy form.carType period visit.now)
  | cancel {user : User} {id : Int} {now : Instant} : visit.CancelsAs user id now →
      Makes policy visit (.cancel id (customerFrom user) now)
  | list {user : User} : visit.user = some user → Makes policy visit (.reservationsFor (customerFrom user))

namespace Postgres

/-- A call of a visit, and that a booking ends the visit. -/
structure Goes (policy : BookingPolicy) (visit : Visit) (call : Call) (f : Result → DbClient (Except Exn Reaction)) :
    Prop where
  makes : visit.Makes policy call
  books : ∀ r result, call = .reserve r →
    f (.ok (some (.booked result))) = .done (.ok (.redirect (flash r.carType result)))

variable {policy : BookingPolicy} {visit : Visit}

theorem every_calling {call : Call} {kind : Reply → Option α} {k : Except Exn α → DbClient (Except Exn Reaction)}
    (makes : visit.Makes policy call) (rest : ∀ x, (k x).Every (Goes policy visit))
    (books : ∀ r result, call = .reserve r →
      ∃ a, kind (.booked result) = some a ∧ k (.ok a) = .done (.ok (.redirect (flash r.carType result)))) :
    (calling call kind k).Every (Goes policy visit) := by
  refine ⟨⟨makes, fun r result reserves => ?_⟩, ?_⟩
  · obtain ⟨a, found, done⟩ := books r result reserves
    simp only [Option.bind_some, found]
    exact done
  · rintro (e | reply)
    · exact rest _
    · dsimp only
      split
      · exact rest _
      · exact rest _

variable {user : User}

theorem every_rendering (signedIn : visit.user = some user) (key : String) (error : Option String)
    (available : Option Int) :
    (rendering (customerFrom user) visit.shown key error available).Every (Goes policy visit) :=
  every_calling (.list signedIn) (fun _ => trivial) fun r result e => by cases e

theorem every_answering (signedIn : visit.user = some user) (submission : Submission)
    (x : Except Exn (Int ⊕ Flash)) :
    (answering (customerFrom user) submission visit.shown visit.fresh x).Every (Goes policy visit) := by
  rcases x with (_ | _ | _ | _ | _ | _) | (available | message) <;> first | trivial | exact every_rendering signedIn ..

theorem every_posting {submission : Submission} (signedIn : visit.user = some user)
    (request : visit.request = .submit submission) :
    (posting policy (customerFrom user) submission visit.now visit.shown visit.fresh).Every (Goes policy visit) := by
  unfold posting
  cases cleaned : submission.cleaned with
  | none => exact every_rendering signedIn ..
  | some form =>
    dsimp only
    cases made : RentalPeriod.forDays (.datetime form.start) (.int form.days) with
    | error e => exact every_answering signedIn ..
    | ok period =>
      have submits : visit.Submits user submission form period := ⟨signedIn, request, cleaned, made⟩
      dsimp only
      split_ifs with check
      · exact every_calling (.check submits check) (fun _ => every_answering signedIn ..) fun r result e => by cases e
      · refine every_calling (.reserve submits (Bool.eq_false_of_not_eq_true check)) (fun _ => every_answering signedIn ..) ?_
        rintro r result e
        cases e
        exact ⟨result, rfl, rfl⟩

theorem every_cancelling {id : Int} {now : Instant} (cancels : visit.CancelsAs user id now) :
    (cancelling (customerFrom user) id now).Every (Goes policy visit) := by
  refine every_calling (.cancel cancels) (fun x => ?_) fun r result e => by cases e
  split <;> trivial

theorem every_selecting {selected : List (Int × Instant)} (cancels : ∀ one ∈ selected, visit.CancelsAs user one.1 one.2)
    (selection : Selection) : (selecting (customerFrom user) selection selected).Every (Goes policy visit) := by
  induction selected generalizing selection with
  | nil => trivial
  | cons one selected ih =>
    have rest := ih fun other hother => cancels other (List.mem_cons_of_mem _ hother)
    refine every_calling (.cancel (cancels one List.mem_cons_self)) (fun x => ?_) fun r result e => by cases e
    split
    · exact rest _
    · exact rest _
    · trivial

/-- What a visit asks of the desk. -/
theorem every_client (policy : BookingPolicy) (visit : Visit) : (client policy visit).Every (Goes policy visit) := by
  unfold client
  cases signedIn : visit.user with
  | none => trivial
  | some user =>
    cases request : visit.request with
    | dashboard => exact every_rendering signedIn ..
    | submit submission => exact every_posting signedIn request
    | cancel id => exact every_cancelling (.button signedIn request)
    | cancelSelected selected =>
      dsimp only
      split_ifs with may
      · rw [Bool.and_eq_true] at may
        exact every_selecting (fun one hone => .selected signedIn request hone may.1 may.2) {}
      · trivial
    | otherMethod => trivial

end Postgres

end VehicleRentals
