import VehicleRentals.Admin

/-!
# The site (`rentals/views.py`, `rentals/admin.py`, `dashboard.html`)

What a request does: who may make it, which calls of the desk it comes to, and what is
shown. A signed-in customer sees and books on the dashboard and cancels there; staff may
cancel a selection in the admin. Django's parts are data here: who is signed in, what
the form made of what was posted, and the fresh `uuid4` a new form would carry.
-/

namespace VehicleRentals

open Concurrent

/-- `request.user`, as far as the site looks at it. -/
structure User where
  pk : Int
  isStaff : Bool := false
  /-- `has_perm("rentals.change_reservation")`. -/
  mayChange : Bool := false
  deriving DecidableEq, Repr

def customerFrom (user : User) : Customer := { id := user.pk, isStaff := user.isStaff }

/-- The status a row shows. -/
inductive Pill where
  | cancelled
  | ended
  | active
  deriving DecidableEq, Repr

/-- A row of "Your reservations"; `cancel` is the reservation its button posts to. -/
structure Row where
  carType : String
  pickUp : Instant
  back : Instant
  pill : Pill
  cancel : Option Int
  deriving DecidableEq, Repr

/-- How the template shows a reservation at `now`. -/
def Booking.row (now : Instant) (b : Booking) : Row where
  carType := b.carType.label
  pickUp := b.period.start
  back := b.period.stop
  pill := if b.isCancelled then .cancelled else if b.period.stop ≤ now then .ended else .active
  cancel := if !b.isCancelled && decide (now < b.period.stop) then some b.id else none

/-- The dashboard: the key its form carries, its error or count, and the reservations. -/
structure Page where
  idempotencyKey : String
  error : Option String := none
  available : Option Int := none
  rows : List Row
  deriving DecidableEq, Repr

/-- What was posted: the key as sent, and the data of the form if it is valid. -/
structure Submission where
  idempotencyKey : String
  cleaned : Option BookingForm

inductive Request where
  /-- GET of the dashboard. -/
  | dashboard
  /-- POST of the dashboard. -/
  | submit (submission : Submission)
  /-- POST of `reservations/<id>/cancel/`. -/
  | cancel (reservationId : Int)
  /-- The action `cancel_selected` of the admin, with what the clock reads in the call for each id. -/
  | cancelSelected (selected : List (Int × Instant))
  /-- Any other method. -/
  | otherMethod

/-- What the site sends back; `redirect` is to the dashboard. -/
inductive Reaction where
  | signIn
  | notAllowed
  | page (page : Page)
  | redirect (flash : Flash)
  | admin (messages : List AdminMessage)
  deriving DecidableEq, Repr

/-- The errors for which `_with_fresh_key` issues a new key. -/
def DomainError.spendsKey : DomainError → Bool
  | .idempotencyConflict _ => true
  | .invalidIdempotencyKey _ => true
  | _ => false

/-- A request with its user, the desk's clock readings, for its one call and for the page,
and the key a new form would carry. -/
structure Visit where
  user : Option User
  request : Request
  now : Instant
  shown : Instant
  fresh : String

namespace ReservationDesk

universe u v

variable {M : Type → Type u} {B : Type → Type v} [Monad M] [Monad B]

/-- The page that `dashboard` renders. -/
def render (desk : ReservationDesk M B) (customer : Customer) (shown : Instant) (key : String) (error : Option String)
    (available : Option Int) : ExceptT Exn M Reaction := do
  let reservations ← desk.reservationsFor customer
  return .page { idempotencyKey := key, error, available, rows := reservations.map (Booking.row shown) }

/-- `dashboard`, for a POST. -/
def post (desk : ReservationDesk M B) (customer : Customer) (submission : Submission) (now shown : Instant)
    (fresh : String) : ExceptT Exn M Reaction :=
  match submission.cleaned with
  | none => desk.render customer shown submission.idempotencyKey none none
  | some form => ExceptT.mk do
    match ← (desk.submit customer form now).run with
    | .ok (.inr message) => return .ok (.redirect message)
    | .ok (.inl available) => (desk.render customer shown submission.idempotencyKey none (some available)).run
    | .error (.domain e) =>
      let key := if e.spendsKey then fresh else submission.idempotencyKey
      (desk.render customer shown key (some (formError e)) none).run
    | .error e => return .error e

/-- `cancel_reservation`. -/
def cancelReservation (desk : ReservationDesk M B) (customer : Customer) (reservationId : Int) (now : Instant) :
    ExceptT Exn M Reaction := ExceptT.mk do
  match ← (desk.cancel reservationId customer now).run with
  | .ok _ => return .ok (.redirect (.success "Reservation cancelled."))
  | .error (.domain (.reservationNotFound _)) => return .ok (.redirect (.error "Reservation not found."))
  | .error (.domain (.reservationNotCancellable m)) => return .ok (.redirect (.error ("Cannot cancel: " ++ m ++ ".")))
  | .error e => return .error e

/-- The view of a request, behind `login_required` and the admin's permissions. -/
def serve (desk : ReservationDesk M B) (visit : Visit) : ExceptT Exn M Reaction :=
  match visit.user with
  | none => return .signIn
  | some user =>
    match visit.request with
    | .dashboard => desk.render (customerFrom user) visit.shown visit.fresh none none
    | .submit submission => desk.post (customerFrom user) submission visit.now visit.shown visit.fresh
    | .cancel reservationId => desk.cancelReservation (customerFrom user) reservationId visit.now
    | .cancelSelected selected =>
      -- without the permission the action is not among those on offer
      if user.isStaff && user.mayChange then do
        let selection ← desk.cancelSelected (customerFrom user) selected
        return .admin selection.messages
      else return .admin []
    | .otherMethod => return .notAllowed

section

variable {E : Type → Type} (desk : ReservationDesk (Prog E) B) (customer : Customer) {form : BookingForm} (now : Instant)

omit [Monad B] in
/-- No call is made for dates that make no period. -/
theorem submit_error {e : Exn} (raised : RentalPeriod.forDays (.datetime form.start) (.int form.days) = .error e) :
    (desk.submit customer form now).run = .ret (.error e) := by
  unfold submit
  rw [run_bind, liftExcept_bind, raised]

omit [Monad B] in
/-- The body of the `try` makes one call. -/
theorem submit_ok {period : RentalPeriod} (made : RentalPeriod.forDays (.datetime form.start) (.int form.days) = .ok period) :
    (desk.submit customer form now).run =
      if form.check then (desk.availability form.carType period now).run.bind fun x => .ret (x.map Sum.inl)
      else (desk.reserve customer form.carType period form.idempotencyKey now).run.bind fun x =>
        .ret (x.map fun result => .inr (flash form.carType result)) := by
  unfold submit
  rw [run_bind, liftExcept_bind, made]
  dsimp only
  split
  · exact run_map ..
  · exact run_map ..

end

end ReservationDesk

/-! ## What a visit comes to -/

/-- The message about a booking that was made before. -/
def already (b : Booking) : Flash :=
  if b.isCancelled then
    .warning "That booking was cancelled, so nothing is booked. Submit the form again to make a new booking."
  else .info "That booking was already made. Nothing was added."

/-- The page of a customer whose bookings are in `t`. -/
def Table.page (t : Table) (visit : Visit) (user : User) (key : String) (error : Option String) (available : Option Int) :
    Reaction :=
  .page { idempotencyKey := key, error, available, rows := (t.bookingsOf user.pk).map (Booking.row visit.shown) }

/-- The user submits a valid form, for this period. -/
structure Visit.Submits (visit : Visit) (user : User) (submission : Submission) (form : BookingForm)
    (period : RentalPeriod) : Prop where
  signedIn : visit.user = some user
  request : visit.request = .submit submission
  cleaned : submission.cleaned = some form
  period : RentalPeriod.forDays (.datetime form.start) (.int form.days) = .ok period

/-- The visit asks to cancel this reservation, as this user, at this reading of the clock. -/
inductive Visit.CancelsAs (visit : Visit) (user : User) : Int → Instant → Prop where
  | button {id : Int} : visit.user = some user → visit.request = .cancel id → CancelsAs visit user id visit.now
  | selected {selected : List (Int × Instant)} {id : Int} {now : Instant} : visit.user = some user →
      visit.request = .cancelSelected selected → (id, now) ∈ selected → user.isStaff = true → user.mayChange = true →
      CancelsAs visit user id now

/-- What a visit comes to on a table, and the table after it. -/
inductive Visited (sizes : FleetSizes) (policy : BookingPolicy) (visit : Visit) (t : Table) :
    Except Exn Reaction → Table → Prop where
  | signIn : visit.user = none → Visited sizes policy visit t (.ok .signIn) t
  | notAllowed : visit.request = .otherMethod → Visited sizes policy visit t (.ok .notAllowed) t
  | looked {user : User} : visit.user = some user → visit.request = .dashboard →
      Visited sizes policy visit t (.ok (t.page visit user visit.fresh none none)) t
  | invalid {user : User} {submission : Submission} : visit.user = some user → visit.request = .submit submission →
      submission.cleaned = none →
      Visited sizes policy visit t (.ok (t.page visit user submission.idempotencyKey none none)) t
  | noPeriod {user : User} {submission : Submission} {form : BookingForm} {e : DomainError} : visit.user = some user →
      visit.request = .submit submission → submission.cleaned = some form →
      RentalPeriod.forDays (.datetime form.start) (.int form.days) = .error (.domain e) → e.spendsKey = false →
      Visited sizes policy visit t (.ok (t.page visit user submission.idempotencyKey (some e.message) none)) t
  | crashed {user : User} {submission : Submission} {form : BookingForm} {e : Exn} : visit.user = some user →
      visit.request = .submit submission → submission.cleaned = some form →
      RentalPeriod.forDays (.datetime form.start) (.int form.days) = .error e → e.isDomain = false →
      Visited sizes policy visit t (.error e) t
  | overflowed {user : User} {submission : Submission} {form : BookingForm} {period : RentalPeriod} :
      visit.Submits user submission form period → ¬ policy.InRange visit.now →
      (if form.check then Memory.answerAvailability sizes policy form.carType period visit.now t
        else (Memory.answerReserve sizes (form.request policy (customerFrom user) visit.now period) t).1) =
          .error .overflowError →
      Visited sizes policy visit t (.error .overflowError) t
  | checked {user : User} {submission : Submission} {form : BookingForm} {period : RentalPeriod} {available : Int} :
      visit.Submits user submission form period → form.check = true →
      Memory.answerAvailability sizes policy form.carType period visit.now t = .ok (.free available) →
      Visited sizes policy visit t (.ok (t.page visit user submission.idempotencyKey none (some available))) t
  | notChecked {user : User} {submission : Submission} {form : BookingForm} {period : RentalPeriod} {e : DomainError} :
      visit.Submits user submission form period → form.check = true →
      Memory.answerAvailability sizes policy form.carType period visit.now t = .error (.domain e) → e.spendsKey = false →
      Visited sizes policy visit t (.ok (t.page visit user submission.idempotencyKey (some e.message) none)) t
  | booked {user : User} {submission : Submission} {form : BookingForm} {period : RentalPeriod} {key : IdempotencyKey}
      {size : Nat} : visit.Submits user submission form period → form.check = false →
      IdempotencyKey.new form.idempotencyKey = .ok key → sizes form.carType = some size →
      (∀ b ∈ t.bookings, ¬ b.HasKey user.pk key) → policy.validate period visit.now = .ok () →
      (∀ x, period.Covers x → t.usage form.carType x < size) →
      Visited sizes policy visit t (.ok (.redirect (.success ("Booked: " ++ form.carType.label ++ "."))))
        (t.push (t.fresh form.carType user.pk period key))
  | replayed {user : User} {submission : Submission} {form : BookingForm} {period : RentalPeriod} {key : IdempotencyKey}
      {b : Booking} : visit.Submits user submission form period → form.check = false →
      IdempotencyKey.new form.idempotencyKey = .ok key → (sizes form.carType).isSome = true → b ∈ t.bookings →
      b.HasKey user.pk key → b.carType = form.carType → b.period = period →
      Visited sizes policy visit t (.ok (.redirect (already b))) t
  | spent {user : User} {submission : Submission} {form : BookingForm} {period : RentalPeriod} :
      visit.Submits user submission form period → form.check = false →
      (∀ key, IdempotencyKey.new form.idempotencyKey = .ok key → ∃ b ∈ t.bookings, b.HasKey user.pk key ∧
        ¬ (b.carType = form.carType ∧ b.period = period)) →
      Visited sizes policy visit t
        (.ok (t.page visit user visit.fresh (some "This form was already used. Please submit it again.") none)) t
  | refused {user : User} {submission : Submission} {form : BookingForm} {period : RentalPeriod} {e : DomainError} :
      visit.Submits user submission form period → form.check = false →
      (Memory.answerReserve sizes (form.request policy (customerFrom user) visit.now period) t).1 = .error (.domain e) →
      e.spendsKey = false →
      Visited sizes policy visit t (.ok (t.page visit user submission.idempotencyKey (some e.message) none)) t
  | cancelled {user : User} {b : Booking} : visit.user = some user → visit.request = .cancel b.id → b ∈ t.bookings →
      b.mayBeManagedBy (customerFrom user) = true → b.Cancellable visit.now →
      Visited sizes policy visit t (.ok (.redirect (.success "Reservation cancelled."))) (t.cancelled b.id visit.now)
  | alreadyCancelled {user : User} {b : Booking} : visit.user = some user → visit.request = .cancel b.id →
      b ∈ t.bookings → b.mayBeManagedBy (customerFrom user) = true → b.status = .cancelled →
      Visited sizes policy visit t (.ok (.redirect (.success "Reservation cancelled."))) t
  | ended {user : User} {b : Booking} : visit.user = some user → visit.request = .cancel b.id → b ∈ t.bookings →
      b.mayBeManagedBy (customerFrom user) = true → b.status = .active → b.period.stop ≤ visit.now →
      Visited sizes policy visit t (.ok (.redirect (.error "Cannot cancel: the rental period has already ended."))) t
  | notFound {user : User} {id : Int} : visit.user = some user → visit.request = .cancel id →
      (∀ b ∈ t.bookings, b.id = id → b.mayBeManagedBy (customerFrom user) = false) →
      Visited sizes policy visit t (.ok (.redirect (.error "Reservation not found."))) t
  | selected {user : User} {selected : List (Int × Instant)} : visit.user = some user →
      visit.request = .cancelSelected selected → user.isStaff = true → user.mayChange = true →
      Visited sizes policy visit t
        (.ok (.admin ((serial Table.cancelling selected t).1.foldl Selection.note {}).messages)) (t.cancelEach selected)
  | notOffered {user : User} {selected : List (Int × Instant)} : visit.user = some user →
      visit.request = .cancelSelected selected → ¬ (user.isStaff = true ∧ user.mayChange = true) →
      Visited sizes policy visit t (.ok (.admin [])) t

end VehicleRentals
