import VehicleRentals.Memory.Cancellations
import VehicleRentals.Memory.Replays
import VehicleRentals.Web.Views

/-!
# Visits to the site, one after another

`solo_serve` reads off the views what a visit can come to (`Visited`). From it: what a
series of visits may do to the bookings, and on whose behalf; what a customer sees who
submits a form again; and what the Cancel buttons promise.
-/

namespace VehicleRentals

open Concurrent

namespace Memory

variable {ι : Type} {sizes : FleetSizes} {policy : BookingPolicy} {t : Table} {i : ι} {now : Instant} {customer : Customer}

/-! ## The views alone on the ledger -/

theorem solo_render (customer : Customer) (shown : Instant) (key : String) (error : Option String) (available : Option Int) :
    (memory ι).solo i ((memoryDesk sizes policy).render customer shown key error available).run (.at ι t) =
      some (.ok (.page ⟨key, error, available, (t.bookingsOf customer.id).map (Booking.row shown)⟩), .at ι t) := rfl

/-- The body of the `try`: the check, or the booking. -/
theorem solo_submit_cases (sound : t.Sound sizes) (i : ι) (customer : Customer) (form : BookingForm) {period : RentalPeriod}
    (made : RentalPeriod.forDays (.datetime form.start) (.int form.days) = .ok period) :
    (form.check = true ∧ ∃ x : Except Exn Int, x.map Reply.free = answerAvailability sizes policy form.carType period now t ∧
      (memory ι).solo i ((memoryDesk sizes policy).submit customer form now).run (.at ι t) =
        some (x.map .inl, .at ι t)) ∨
    (form.check = false ∧ ∃ x : Except Exn BookingResult, x.map Reply.booked = (answerReserve sizes (form.request policy customer now period) t).1 ∧
      (memory ι).solo i ((memoryDesk sizes policy).submit customer form now).run (.at ι t) =
        some (x.map fun result => .inr (flash form.carType result),
          .at ι (answerReserve sizes (form.request policy customer now period) t).2)) := by
  rw [ReservationDesk.submit_ok _ _ _ made]
  cases form.check with
  | true =>
    obtain ⟨x, alone, replied⟩ := solo_availability sound i policy form.carType period now
    exact .inl ⟨rfl, x, replied, solo_map alone⟩
  | false =>
    obtain ⟨x, alone, replied⟩ := solo_reserve sound i (form.request policy customer now period)
    exact .inr ⟨rfl, x, replied, solo_map alone⟩

/-- Why a `reserve` call does not return: the key, or another domain error, or a policy out of range. -/
theorem answerReserve_error {r : Reserve} {e : Exn} (h : (answerReserve sizes r t).1 = .error e) :
    (∃ m, e = .domain (.invalidIdempotencyKey m) ∧ IdempotencyKey.new r.idempotencyKey = .error e) ∨
    (e = idempotencyConflict ∧ ∃ key b, IdempotencyKey.new r.idempotencyKey = .ok key ∧ b ∈ t.bookings ∧
      b.HasKey r.customer.id key ∧ ¬ (b.carType = r.carType ∧ b.period = r.period)) ∨
    (∃ d, e = .domain d ∧ d.spendsKey = false) ∨ (e = .overflowError ∧ ¬ r.policy.InRange r.now) := by
  unfold answerReserve at h
  cases parsed : IdempotencyKey.new r.idempotencyKey with
  | error e' =>
    rw [parsed] at h
    cases h
    unfold IdempotencyKey.new at parsed
    split at parsed
    · cases parsed
    · cases parsed
      exact .inl ⟨_, rfl, rfl⟩
  | ok key =>
    simp only [parsed] at h
    split at h
    · cases h
      exact .inr (.inr (.inl ⟨_, rfl, rfl⟩))
    · split at h
      · rename_i existing found
        obtain ⟨hb, hk⟩ := Table.findByKey_some found
        unfold replay at h
        split at h
        · cases h
        · rename_i other
          cases h
          exact .inr (.inl ⟨rfl, key, existing, rfl, hb, hk, fun same => other (Booking.isFor_iff.2 same)⟩)
      · split at h
        · rename_i invalid
          cases h
          rcases BookingPolicy.validate_error invalid with ⟨m, rfl⟩ | out
          · exact .inr (.inr (.inl ⟨_, rfl, rfl⟩))
          · exact .inr (.inr (.inr out))
        · split at h
          · cases h
          · cases h
            exact .inr (.inr (.inl ⟨_, rfl, rfl⟩))

theorem answerAvailability_error {carType : CarType} {period : RentalPeriod} {e : Exn}
    (h : answerAvailability sizes policy carType period now t = .error e) :
    (∃ d, e = .domain d ∧ d.spendsKey = false) ∨ (e = .overflowError ∧ ¬ policy.InRange now) := by
  unfold answerAvailability at h
  split at h
  · rename_i invalid
    cases h
    rcases BookingPolicy.validate_error invalid with ⟨m, rfl⟩ | out
    · exact .inl ⟨_, rfl, rfl⟩
    · exact .inr out
  · split at h
    · cases h
      exact .inl ⟨_, rfl, rfl⟩
    · cases h

/-- What a `reserve` call returns: its new booking, or the one that has its key. -/
theorem answerReserve_booked {r : Reserve} {result : BookingResult} (h : (answerReserve sizes r t).1 = .ok (.booked result)) :
    (∃ key size, IdempotencyKey.new r.idempotencyKey = .ok key ∧ sizes r.carType = some size ∧
      (∀ b ∈ t.bookings, ¬ b.HasKey r.customer.id key) ∧ r.policy.validate r.period r.now = .ok () ∧
      (∀ x, r.period.Covers x → t.usage r.carType x < size) ∧
      result = ⟨t.fresh r.carType r.customer.id r.period key, false⟩ ∧
      (answerReserve sizes r t).2 = t.push (t.fresh r.carType r.customer.id r.period key)) ∨
    (∃ key b, IdempotencyKey.new r.idempotencyKey = .ok key ∧ (sizes r.carType).isSome = true ∧ b ∈ t.bookings ∧
      b.HasKey r.customer.id key ∧ b.carType = r.carType ∧ b.period = r.period ∧ result = ⟨b, true⟩ ∧
      (answerReserve sizes r t).2 = t) := by
  rcases answerReserve_cases sizes r t with ⟨same, old⟩ | ⟨key, size, parsed, known, unused, valid, room, e⟩
  · refine .inr ?_
    rw [same]
    rw [h] at old
    unfold answerReserve at h
    cases parsed : IdempotencyKey.new r.idempotencyKey with
    | error e =>
      rw [parsed] at h
      cases h
    | ok key =>
      simp only [parsed] at h
      split at h
      · cases h
      · rename_i size known
        split at h
        · rename_i existing found
          obtain ⟨hb, hk⟩ := Table.findByKey_some found
          unfold replay at h
          split at h
          · rename_i made
            cases h
            obtain ⟨type, period⟩ := Booking.isFor_iff.1 made
            exact ⟨key, existing, rfl, Option.isSome_iff_exists.2 ⟨size, known⟩, hb, hk, type, period, rfl, rfl⟩
          · cases h
        · split at h
          · cases h
          · split at h
            · cases h
              cases old
            · cases h
  · rw [e] at h
    cases h
    exact .inl ⟨key, size, parsed, known, unused, valid, room, rfl, congrArg Prod.snd e⟩

theorem spendsKey_formError {e : DomainError} (kept : e.spendsKey = false) : formError e = e.message := by
  cases e <;> first | rfl | cases kept

/-- A valid form for a period, alone on the ledger. -/
theorem solo_post (sound : t.Sound sizes) (i : ι) {visit : Visit} {user : User} {submission : Submission} {form : BookingForm}
    {period : RentalPeriod} (submits : visit.Submits user submission form period) :
    ∃ x t', (memory ι).solo i ((memoryDesk sizes policy).post (customerFrom user) submission visit.now visit.shown
        visit.fresh).run (.at ι t) = some (x, .at ι t') ∧ Visited sizes policy visit t x t' := by
  simp only [ReservationDesk.post, submits.cleaned]
  show ∃ x t', (memory ι).solo i (Prog.bind _ _) _ = _ ∧ _
  rcases solo_submit_cases sound i (customerFrom user) form submits.period with
    ⟨check, x, replied, alone⟩ | ⟨check, x, replied, alone⟩
  · rw [Machine.solo_bind, alone]
    cases x with
    | ok available => exact ⟨_, t, rfl, .checked submits check replied.symm⟩
    | error e =>
      have raised : answerAvailability sizes policy form.carType period visit.now t = .error e := replied.symm
      rcases answerAvailability_error raised with ⟨d, rfl, kept⟩ | ⟨rfl, out⟩
      · refine ⟨_, t, rfl, ?_⟩
        simp only [kept, spendsKey_formError kept]
        exact .notChecked submits check raised kept
      · exact ⟨_, t, rfl, .overflowed submits out (by rw [if_pos check, raised])⟩
  · rw [Machine.solo_bind, alone]
    cases x with
    | ok result =>
      rcases answerReserve_booked replied.symm with
        ⟨key, size, parsed, known, unused, valid, room, rfl, e⟩ | ⟨key, b, parsed, known, hb, hk, type, span, rfl, e⟩
      · rw [e]
        exact ⟨_, _, rfl, .booked submits check parsed known unused valid room⟩
      · rw [e]
        have message : flash form.carType ⟨b, true⟩ = already b := by
          unfold flash already
          cases b.isCancelled <;> rfl
        refine ⟨_, t, rfl, ?_⟩
        rw [message]
        exact .replayed submits check parsed known hb hk type span
    | error e =>
      have unchanged : (answerReserve sizes (form.request policy (customerFrom user) visit.now period) t).2 = t := by
        rcases answerReserve_cases sizes (form.request policy (customerFrom user) visit.now period) t with
          ⟨same, -⟩ | ⟨_, _, -, -, -, -, -, e'⟩
        · exact same
        · rw [e'] at replied
          cases replied
      rw [unchanged]
      have raised := replied.symm
      rcases answerReserve_error raised with ⟨m, rfl, malformed⟩ | ⟨rfl, key, b, parsed, hb, hk, other⟩ |
        ⟨d, rfl, kept⟩ | ⟨rfl, out⟩
      · refine ⟨_, t, rfl, .spent submits check fun key parsed => ?_⟩
        cases malformed.symm.trans parsed
      · refine ⟨_, t, rfl, .spent submits check fun key' parsed' => ?_⟩
        cases parsed.symm.trans parsed'
        exact ⟨b, hb, hk, other⟩
      · refine ⟨_, t, rfl, ?_⟩
        simp only [kept, spendsKey_formError kept]
        exact .refused submits check raised kept
      · exact ⟨_, t, rfl, .overflowed submits out (by rw [check, if_neg Bool.false_ne_true]; exact raised)⟩

/-- What `for_days` raises of a form's data. -/
theorem forDays_error {form : BookingForm} {e : Exn}
    (raised : RentalPeriod.forDays (.datetime form.start) (.int form.days) = .error e) :
    (∃ m, e = .domain (.invalidRentalPeriod m)) ∨ e = .overflowError := by
  obtain ⟨before, aware⟩ := Option.isSome_iff_exists.1 form.aware
  exact RentalPeriod.forDays_error aware raised

/-- A form whose dates make no period, alone on the ledger. -/
theorem solo_post_error (i : ι) {visit : Visit} {user : User} {submission : Submission}
    {form : BookingForm} {e : Exn} (signedIn : visit.user = some user) (request : visit.request = .submit submission)
    (cleaned : submission.cleaned = some form)
    (raised : RentalPeriod.forDays (.datetime form.start) (.int form.days) = .error e) :
    ∃ x t', (memory ι).solo i ((memoryDesk sizes policy).post (customerFrom user) submission visit.now visit.shown
        visit.fresh).run (.at ι t) = some (x, .at ι t') ∧ Visited sizes policy visit t x t' := by
  simp only [ReservationDesk.post, cleaned]
  show ∃ x t', (memory ι).solo i (Prog.bind _ _) _ = _ ∧ _
  rw [ReservationDesk.submit_error _ _ _ raised]
  rcases forDays_error raised with ⟨m, rfl⟩ | rfl
  · exact ⟨_, t, rfl, .noPeriod signedIn request cleaned raised rfl⟩
  · exact ⟨_, t, rfl, .crashed signedIn request cleaned raised rfl⟩

/-- `cancel_reservation` alone on the ledger. -/
theorem solo_cancelReservation (sound : t.Sound sizes) (i : ι) {visit : Visit} {user : User} {id : Int}
    (signedIn : visit.user = some user) (request : visit.request = .cancel id) :
    ∃ x t', (memory ι).solo i ((memoryDesk sizes policy).cancelReservation (customerFrom user) id visit.now).run
        (.at ι t) = some (x, .at ι t') ∧ Visited sizes policy visit t x t' := by
  have alone : (memory ι).solo i ((memoryDesk sizes policy).cancel id (customerFrom user) visit.now).run (.at ι t) =
      some ((cancelStep t id (customerFrom user) visit.now).1, .at ι (cancelStep t id (customerFrom user) visit.now).2) :=
    solo_cancelBlock sizes i id (customerFrom user) visit.now .ret (.at ι t)
  show ∃ x t', (memory ι).solo i (Prog.bind _ _) _ = _ ∧ _
  rw [Machine.solo_bind, alone]
  rcases Table.cancelStep_cases sound.ids_nodup id (customerFrom user) visit.now with
    ⟨others, e⟩ | ⟨b, hb, rfl, managed, active, passed, e⟩ | ⟨b, hb, rfl, managed, gone, e⟩ |
    ⟨b, hb, rfl, managed, active, running, e⟩ <;> rw [e]
  · exact ⟨_, t, rfl, .notFound signedIn request others⟩
  · exact ⟨_, t, rfl, .ended signedIn request hb managed active passed⟩
  · exact ⟨_, t, rfl, .alreadyCancelled signedIn request hb managed gone⟩
  · exact ⟨_, _, rfl, .cancelled signedIn request hb managed ⟨active, running⟩⟩

/-- What a visit comes to, with nobody else on the ledger. -/
theorem solo_serve (policy : BookingPolicy) (sound : t.Sound sizes) (i : ι) (visit : Visit) :
    ∃ x t', (memory ι).solo i ((memoryDesk sizes policy).serve visit).run (.at ι t) = some (x, .at ι t') ∧
      Visited sizes policy visit t x t' := by
  unfold ReservationDesk.serve
  cases signedIn : visit.user with
  | none => exact ⟨_, t, rfl, .signIn signedIn⟩
  | some user =>
    cases request : visit.request with
    | dashboard => exact ⟨_, t, rfl, .looked signedIn request⟩
    | submit submission =>
      cases cleaned : submission.cleaned with
      | none =>
        refine ⟨_, t, ?_, .invalid signedIn request cleaned⟩
        simp only [ReservationDesk.post, cleaned]
        rfl
      | some form =>
        cases made : RentalPeriod.forDays (.datetime form.start) (.int form.days) with
        | ok period => exact solo_post sound i ⟨signedIn, request, cleaned, made⟩
        | error e => exact solo_post_error i signedIn request cleaned made
    | cancel id => exact solo_cancelReservation sound i signedIn request
    | cancelSelected selected =>
      dsimp only
      split_ifs with permitted
      · simp only [Bool.and_eq_true] at permitted
        have alone : (memory ι).solo i ((memoryDesk sizes policy).cancelSelected (customerFrom user) selected).run
            (.at ι t) = _ := solo_rounds permitted.1 sound.ids_nodup i selected {}
        rw [run_bind, Machine.solo_bind, alone]
        exact ⟨_, _, rfl, .selected signedIn request permitted.1 permitted.2⟩
      · simp only [Bool.and_eq_true] at permitted
        exact ⟨_, t, rfl, .notOffered signedIn request permitted⟩
    | otherMethod => exact ⟨_, t, rfl, .notAllowed request⟩

end Memory

/-! ## What a visit writes -/

/-- On whose behalf a visit may cancel a booking, and at which reading of the clock: its
customer's or a member of staff's, with the button; or that of staff who may change
reservations, in the admin. -/
def Visit.MayCancel (visit : Visit) (b : Booking) (now : Instant) : Prop :=
  ∃ user, visit.CancelsAs user b.id now ∧ (user.isStaff = true ∨ user.pk = b.customerId)

/-- The visit is the submission of a form that asks for this booking, and its policy admits it. -/
def Visit.AsksFor (policy : BookingPolicy) (visit : Visit) (b : Booking) : Prop :=
  ∃ user submission form, visit.Submits user submission form b.period ∧ form.check = false ∧ b.customerId = user.pk ∧
    b.carType = form.carType ∧ IdempotencyKey.new form.idempotencyKey = .ok b.idempotencyKey ∧
    policy.validate b.period visit.now = .ok ()

variable {sizes : FleetSizes} {policy : BookingPolicy} {visit : Visit} {t t' : Table} {x : Except Exn Reaction} {b : Booking}
  {now : Instant}

theorem Visit.MayCancel.cases (h : visit.MayCancel b now) : (∃ user, visit.user = some user ∧ visit.request = .cancel b.id ∧
      now = visit.now ∧ b.mayBeManagedBy (customerFrom user) = true) ∨
    ∃ user selected, visit.user = some user ∧ visit.request = .cancelSelected selected ∧ (b.id, now) ∈ selected ∧
      user.isStaff = true ∧ user.mayChange = true := by
  obtain ⟨user, cancels, may⟩ := h
  generalize named : b.id = id at cancels
  cases cancels with
  | button signedIn request =>
    refine .inl ⟨user, signedIn, request, rfl, ?_⟩
    simpa [Booking.mayBeManagedBy, customerFrom] using may
  | selected signedIn request listed staff change => exact .inr ⟨user, _, signedIn, request, listed, staff, change⟩

/-- Of the bookings it finds, a visit cancels those that it may, each at the first reading
in time; or it writes the booking it asks for. -/
theorem Visited.writes (h : Visited sizes policy visit t x t') (sound : t.Sound sizes) :
    ∃ selected, (∀ b ∈ t.bookings, ∀ now, b.Cancellable now → ((b.id, now) ∈ selected ↔ visit.MayCancel b now)) ∧
      (t' = t.cancelEach selected ∨
        selected = [] ∧ ∃ b, visit.AsksFor policy b ∧ b.status = .active ∧ t' = t.push b ∧ t'.Sound sizes) := by
  have none : (∀ b ∈ t.bookings, ∀ now, b.Cancellable now → ¬ visit.MayCancel b now) →
      ∀ b ∈ t.bookings, ∀ now, b.Cancellable now → ((b.id, now) ∈ [] ↔ visit.MayCancel b now) :=
    fun cannot b hb now can => iff_of_false List.not_mem_nil (cannot b hb now can)
  have other : (∀ id, visit.request ≠ .cancel id) → (∀ selected, visit.request ≠ .cancelSelected selected) →
      ∀ b ∈ t.bookings, ∀ now, b.Cancellable now → ((b.id, now) ∈ [] ↔ visit.MayCancel b now) := by
    intro button list
    refine none fun b _ now _ may => ?_
    rcases may.cases with ⟨_, -, request, -⟩ | ⟨_, selected, -, request, -⟩
    · exact button _ request
    · exact list _ request
  -- a request to cancel that changes nothing
  have button : ∀ {user id}, visit.user = some user → visit.request = .cancel id →
      (∀ a ∈ t.bookings, a.id = id → a.mayBeManagedBy (customerFrom user) = true → ¬ a.Cancellable visit.now) →
      ∀ b ∈ t.bookings, ∀ now, b.Cancellable now → ((b.id, now) ∈ [] ↔ visit.MayCancel b now) := by
    intro user id signedIn request cannot
    refine none fun a ha now can may => ?_
    rcases may.cases with ⟨_, signedIn', request', rfl, managed⟩ | ⟨_, selected, -, request', -⟩
    · obtain rfl := Option.some.inj (signedIn.symm.trans signedIn')
      exact cannot a ha (Request.cancel.inj (request'.symm.trans request)) managed can
    · cases request.symm.trans request'
  cases h with
  | @booked user submission form period key size submits check parsed known unused valid room =>
    refine ⟨[], other (by simp [submits.request]) (by simp [submits.request]), .inr ⟨rfl, _, ?_, rfl, rfl, ?_⟩⟩
    · exact ⟨user, submission, form, submits, check, rfl, rfl, parsed, valid⟩
    · exact sound.push unused known room
  | @cancelled user b signedIn request hb managed can =>
    refine ⟨[(b.id, visit.now)], fun a ha now _ => ?_, .inl (Table.cancelled_eq_cancelEach sound.ids_nodup hb can)⟩
    constructor
    · intro listed
      obtain ⟨same, rfl⟩ := Prod.mk.inj (List.mem_singleton.1 listed)
      obtain rfl := sound.eq_of_id ha hb same
      exact ⟨user, .button signedIn request, by simpa [Booking.mayBeManagedBy, customerFrom] using managed⟩
    · intro may
      rcases may.cases with ⟨_, -, request', rfl, -⟩ | ⟨_, selected, -, request', -⟩
      · rw [Request.cancel.inj (request'.symm.trans request)]
        exact List.mem_singleton_self _
      · cases request.symm.trans request'
  | @selected user selected signedIn request staff change =>
    refine ⟨selected, fun a ha now _ => ⟨fun listed => ?_, fun may => ?_⟩, .inl rfl⟩
    · exact ⟨user, .selected signedIn request listed staff change, .inl staff⟩
    · rcases may.cases with ⟨_, -, request', -⟩ | ⟨_, selected', -, request', listed, -⟩
      · cases request.symm.trans request'
      · rwa [Request.cancelSelected.inj (request.symm.trans request')]
  | signIn signedOut =>
    refine ⟨[], none fun a _ now _ may => ?_, .inl (Table.cancelEach_nil t).symm⟩
    rcases may.cases with ⟨_, signedIn, -⟩ | ⟨_, _, signedIn, -⟩ <;> cases signedOut.symm.trans signedIn
  | notOffered signedIn request lacks =>
    refine ⟨[], none fun a _ now _ may => ?_, .inl (Table.cancelEach_nil t).symm⟩
    rcases may.cases with ⟨_, -, request', -⟩ | ⟨_, selected, signedIn', -, -, staff, change⟩
    · cases request.symm.trans request'
    · obtain rfl := Option.some.inj (signedIn.symm.trans signedIn')
      exact lacks ⟨staff, change⟩
  | alreadyCancelled signedIn request hb managed gone =>
    refine ⟨[], button signedIn request fun a ha same _ can => ?_, .inl (Table.cancelEach_nil t).symm⟩
    obtain rfl := sound.eq_of_id ha hb same
    cases gone.symm.trans can.1
  | ended signedIn request hb managed active passed =>
    refine ⟨[], button signedIn request fun a ha same _ can => ?_, .inl (Table.cancelEach_nil t).symm⟩
    obtain rfl := sound.eq_of_id ha hb same
    exact absurd can.2 (not_lt.2 passed)
  | notFound signedIn request others =>
    refine ⟨[], button signedIn request fun a ha same managed _ => ?_, .inl (Table.cancelEach_nil t).symm⟩
    cases managed.symm.trans (others a ha same)
  | notAllowed request | looked _ request | invalid _ request | noPeriod _ request | crashed _ request =>
    exact ⟨[], other (by simp [request]) (by simp [request]), .inl (Table.cancelEach_nil t).symm⟩
  | overflowed submits | checked submits | notChecked submits | replayed submits | spent submits | refused submits =>
    exact ⟨[], other (by simp [submits.request]) (by simp [submits.request]), .inl (Table.cancelEach_nil t).symm⟩

namespace Table

theorem Sound.cancelEach (sound : t.Sound sizes) (selected : List (Int × Instant)) : (t.cancelEach selected).Sound sizes := by
  rw [← serial_cancelling]
  induction selected generalizing t with
  | nil => exact sound
  | cons x selected ih =>
    have clerk : (({ id := 0, isStaff := true } : Customer)).isStaff = true := rfl
    have step := Memory.answer_sound sound (.cancel x.1 { id := 0, isStaff := true } x.2)
    refine ih ?_
    rw [← (cancelStep_staff clerk sound.ids_nodup x.1 x.2).2.2]
    exact step

end Table

theorem Visited.sound (h : Visited sizes policy visit t x t') (sound : t.Sound sizes) : t'.Sound sizes := by
  obtain ⟨selected, -, rfl | ⟨-, b, -, -, -, kept⟩⟩ := h.writes sound
  · exact sound.cancelEach selected
  · exact kept

/-! ## Series of visits -/

/-- Visits, each with what it came to, lead from one table to another. -/
abbrev Series (sizes : FleetSizes) (policy : BookingPolicy) : Table → List (Visit × Except Exn Reaction) → Table → Prop :=
  Run fun t l t' => Visited sizes policy l.1 t l.2 t'

/-- What became of a booking over some visits: nothing, or one of them cancelled it. -/
def Booking.Became (visits : List Visit) (b b' : Booking) : Prop :=
  b' = b ∨ ∃ visit ∈ visits, ∃ now, visit.MayCancel b now ∧ b.Cancellable now ∧
    b' = { b with status := .cancelled, cancelledAt := some now }

theorem Booking.Became.later {visits : List Visit} {b b' : Booking} (h : b.Became visits b') (visit : Visit) :
    b.Became (visit :: visits) b' := by
  rcases h with same | ⟨v, hv, rest⟩
  · exact .inl same
  · exact .inr ⟨v, List.mem_cons_of_mem _ hv, rest⟩

/-- What one visit makes of the bookings there were, and which are new. -/
theorem Visited.became (h : Visited sizes policy visit t x t') (sound : t.Sound sizes) :
    (∀ b ∈ t.bookings, ∃ b' ∈ t'.bookings, b.Became [visit] b') ∧
    ∀ b' ∈ t'.bookings, (∃ b ∈ t.bookings, b.Became [visit] b') ∨ (visit.AsksFor policy b' ∧ b'.status = .active) := by
  obtain ⟨selected, may, rfl | ⟨-, b, asks, active, rfl, -⟩⟩ := h.writes sound
  · have one : ∀ b ∈ t.bookings, b.Became [visit] (Table.cancelInTime selected b) := by
      intro b hb
      rcases Table.cancelInTime_cases selected b with ⟨same, -⟩ | ⟨now, listed, can, e⟩
      · exact .inl same
      · exact .inr ⟨visit, List.mem_singleton_self _, now, (may b hb now can).1 listed, can, e⟩
    refine ⟨fun b hb => ⟨_, List.mem_map_of_mem hb, one b hb⟩, fun b' hb' => ?_⟩
    obtain ⟨b, hb, rfl⟩ := List.mem_map.1 hb'
    exact .inl ⟨b, hb, one b hb⟩
  · refine ⟨fun a ha => ⟨a, List.mem_append_left _ ha, .inl rfl⟩, fun a ha => ?_⟩
    rcases List.mem_append.1 ha with old | new
    · exact .inl ⟨a, old, .inl rfl⟩
    · rw [List.mem_singleton.1 new]
      exact .inr ⟨asks, active⟩

theorem Booking.Became.trans {visits : List Visit} {b b₁ b' : Booking} (h : b.Became [visit] b₁) (h' : b₁.Became visits b') :
    b.Became (visit :: visits) b' := by
  rcases h with rfl | ⟨v, hv, now, may, can, rfl⟩
  · exact h'.later visit
  · obtain rfl := List.mem_singleton.1 hv
    rcases h' with rfl | ⟨_, -, _, -, ⟨active, -⟩, -⟩
    · exact .inr ⟨v, List.mem_cons_self, now, may, can, rfl⟩
    · cases active

theorem Booking.Became.sameOrigin {visits : List Visit} {b b' : Booking} (h : b.Became visits b') : b.SameOrigin b' := by
  rcases h with rfl | ⟨_, -, _, -, -, rfl⟩
  · exact .refl b'
  · exact ⟨rfl, rfl, rfl, rfl, rfl⟩

theorem Series.sound {ls : List (Visit × Except Exn Reaction)} (h : Series sizes policy t ls t') (sound : t.Sound sizes) :
    t'.Sound sizes :=
  h.invariant (fun _ _ _ sound visited => visited.sound sound) sound

/-- What a series of visits makes of the bookings there were, and which are new. -/
theorem Series.became {ls : List (Visit × Except Exn Reaction)} (h : Series sizes policy t ls t') (sound : t.Sound sizes) :
    (∀ b ∈ t.bookings, ∃ b' ∈ t'.bookings, b.Became (ls.map (·.1)) b') ∧
    ∀ b' ∈ t'.bookings, (∃ b ∈ t.bookings, b.Became (ls.map (·.1)) b') ∨
      ∃ l ∈ ls, ∃ b, l.1.AsksFor policy b ∧ b.status = .active ∧ b.Became (ls.map (·.1)) b' := by
  induction h with
  | nil t => exact ⟨fun b hb => ⟨b, hb, .inl rfl⟩, fun b hb => .inl ⟨b, hb, .inl rfl⟩⟩
  | @cons t t₁ t' l ls visited _ ih =>
    obtain ⟨kept, made⟩ := visited.became sound
    obtain ⟨kept', made'⟩ := ih (visited.sound sound)
    constructor
    · intro b hb
      obtain ⟨b₁, hb₁, first⟩ := kept b hb
      obtain ⟨b', hb', rest⟩ := kept' b₁ hb₁
      exact ⟨b', hb', first.trans rest⟩
    · intro b' hb'
      rcases made' b' hb' with ⟨b₁, hb₁, rest⟩ | ⟨m, hm, b, asks, active, rest⟩
      · rcases made b₁ hb₁ with ⟨b, hb, first⟩ | ⟨asks, active⟩
        · exact .inl ⟨b, hb, first.trans rest⟩
        · exact .inr ⟨l, List.mem_cons_self, b₁, asks, active, rest.later l.1⟩
      · exact .inr ⟨m, List.mem_cons_of_mem _ hm, b, asks, active, rest.later l.1⟩

/-- Over a series of visits a booking is only cancelled, once. -/
theorem Series.keeps {ls : List (Visit × Except Exn Reaction)} (h : Series sizes policy t ls t') (sound : t.Sound sizes)
    (hb : b ∈ t.bookings) : ∃ b' ∈ t'.bookings, b.SameOrigin b' ∧ (b.status = .cancelled ∨ b'.status = .active → b' = b) := by
  obtain ⟨b', hb', became⟩ := (h.became sound).1 b hb
  refine ⟨b', hb', became.sameOrigin, fun not => ?_⟩
  rcases became with same | ⟨_, -, _, -, can, rfl⟩
  · exact same
  · rcases not with gone | active
    · cases gone.symm.trans can.1
    · cases active

/-- A visit leaves a booking as it is exactly if it may not cancel it in time. -/
theorem Visited.stays (h : Visited sizes policy visit t x t') (sound : t.Sound sizes) (hb : b ∈ t.bookings) :
    b ∈ t'.bookings ↔ ∀ now, visit.MayCancel b now → ¬ b.Cancellable now := by
  obtain ⟨selected, may, rfl | ⟨rfl, b', -, -, rfl, -⟩⟩ := h.writes sound
  · rcases Table.cancelInTime_cases selected b with ⟨same, not⟩ | ⟨now, listed, can, changed⟩
    · refine iff_of_true ?_ fun now cancels can => not now ((may b hb now can).2 cancels) can
      rw [← same]
      exact List.mem_map_of_mem hb
    · refine iff_of_false (fun there => ?_) fun cannot => cannot now ((may b hb now can).1 listed) can
      have stored : Table.cancelInTime selected b ∈ (t.cancelEach selected).bookings := List.mem_map_of_mem hb
      rw [changed] at stored
      have same := (sound.cancelEach selected).eq_of_id there stored rfl
      have active := can.1
      rw [same] at active
      cases active
  · exact iff_of_true (List.mem_append_left _ hb) fun now cancels can => List.not_mem_nil ((may b hb now can).2 cancels)

/-- Over a series of visits a booking stays as it is exactly if none of them may cancel it in time. -/
theorem Series.stays {ls : List (Visit × Except Exn Reaction)} (h : Series sizes policy t ls t') (sound : t.Sound sizes)
    (hb : b ∈ t.bookings) : b ∈ t'.bookings ↔ ∀ l ∈ ls, ∀ now, l.1.MayCancel b now → ¬ b.Cancellable now := by
  induction h with
  | nil => exact iff_of_true hb fun l hl => (List.not_mem_nil hl).elim
  | @cons t t₁ t' l ls visited rest ih =>
    rw [List.forall_mem_cons, ← visited.stays sound hb]
    by_cases there : b ∈ t₁.bookings
    · rw [ih (visited.sound sound) there]
      exact (and_iff_right there).symm
    · refine iff_of_false (fun later => ?_) fun both => there both.1
      -- the first visit has cancelled it, and so it has remained
      obtain ⟨b₁, hb₁, rfl | ⟨_, -, _, -, -, rfl⟩⟩ := (visited.became sound).1 b hb
      · exact there hb₁
      · obtain ⟨b', hb', origin, kept⟩ := Series.keeps rest (visited.sound sound) hb₁
        have unchanged := (Series.sound rest (visited.sound sound)).eq_of_id later hb' origin.id
        exact there (unchanged.trans (kept (.inl rfl)) ▸ hb₁)

/-- An active booking stays exactly if the visits that may cancel it come when it has ended. -/
theorem Series.stays_active {visits : List Visit} {reactions : List (Except Exn Reaction)}
    (h : Series sizes policy t (visits.zip reactions) t') (length : reactions.length = visits.length) (sound : t.Sound sizes)
    (hb : b ∈ t.bookings) (active : b.status = .active) :
    b ∈ t'.bookings ↔ ∀ visit ∈ visits, ∀ now, visit.MayCancel b now → b.period.stop ≤ now := by
  have firsts : (visits.zip reactions).map (·.1) = visits := List.map_fst_zip length.ge
  rw [Series.stays h sound hb, ← List.forall_mem_map (f := fun l : Visit × Except Exn Reaction => l.1)
    (P := fun visit => ∀ now, visit.MayCancel b now → ¬ b.Cancellable now), firsts]
  simp only [Booking.Cancellable, active, true_and, not_lt]

/-! ## Submitting a form again -/

theorem Visit.Submits.unique {visit : Visit} {user user' : User} {submission submission' : Submission} {form form' : BookingForm}
    {period period' : RentalPeriod} (h : visit.Submits user submission form period)
    (h' : visit.Submits user' submission' form' period') : user' = user ∧ submission' = submission ∧ form' = form ∧
      period' = period := by
  obtain rfl := Option.some.inj (h.signedIn.symm.trans h'.signedIn)
  obtain rfl := Request.submit.inj (h.request.symm.trans h'.request)
  obtain rfl := Option.some.inj (h.cleaned.symm.trans h'.cleaned)
  obtain rfl := Except.ok.inj (h.period.symm.trans h'.period)
  exact ⟨rfl, rfl, rfl, rfl⟩

/-- What the submission of a booking comes to. -/
theorem Visited.submitted (h : Visited sizes policy visit t x t') {user : User} {submission : Submission} {form : BookingForm}
    {period : RentalPeriod} (submits : visit.Submits user submission form period) (book : form.check = false) :
    (∃ key, IdempotencyKey.new form.idempotencyKey = .ok key ∧ (∀ b ∈ t.bookings, ¬ b.HasKey user.pk key) ∧
      x = .ok (.redirect (.success ("Booked: " ++ form.carType.label ++ "."))) ∧
      t' = t.push (t.fresh form.carType user.pk period key)) ∨
    (∃ key, ∃ b ∈ t.bookings, IdempotencyKey.new form.idempotencyKey = .ok key ∧ b.HasKey user.pk key ∧
      b.carType = form.carType ∧ b.period = period ∧ x = .ok (.redirect (already b)) ∧ t' = t) ∨
    ((∀ key, IdempotencyKey.new form.idempotencyKey = .ok key → ∃ b ∈ t.bookings, b.HasKey user.pk key ∧
        ¬ (b.carType = form.carType ∧ b.period = period)) ∧
      x = .ok (t.page visit user visit.fresh (some "This form was already used. Please submit it again.") none) ∧ t' = t) ∨
    ∃ e, (Memory.answerReserve sizes (form.request policy (customerFrom user) visit.now period) t).1 = .error e ∧
      e ≠ idempotencyConflict ∧ (∀ message, x ≠ .ok (.redirect message)) ∧ t' = t := by
  have not : ∀ {request}, visit.request = request → request ≠ .submit submission → False :=
    fun e ne => ne (e.symm.trans submits.request)
  have notRedirected : ∀ (key : String) (error : Option String) (available : Option Int) (message : Flash),
      (.ok (t.page visit user key error available) : Except Exn Reaction) ≠ .ok (.redirect message) := by
    intro key error available message e
    cases e
  cases h with
  | booked submits' check parsed known unused valid room =>
    obtain ⟨rfl, rfl, rfl, rfl⟩ := submits.unique submits'
    exact .inl ⟨_, parsed, unused, rfl, rfl⟩
  | replayed submits' check parsed known hb hk type span =>
    obtain ⟨rfl, rfl, rfl, rfl⟩ := submits.unique submits'
    exact .inr (.inl ⟨_, _, hb, parsed, hk, type, span, rfl, rfl⟩)
  | spent submits' check used =>
    obtain ⟨rfl, rfl, rfl, rfl⟩ := submits.unique submits'
    exact .inr (.inr (.inl ⟨used, rfl, rfl⟩))
  | refused submits' check raised kept =>
    obtain ⟨rfl, rfl, rfl, rfl⟩ := submits.unique submits'
    refine .inr (.inr (.inr ⟨_, raised, ?_, notRedirected _ _ _, rfl⟩))
    rintro e
    cases e
    cases kept
  | overflowed submits' out raised =>
    obtain ⟨rfl, rfl, rfl, rfl⟩ := submits.unique submits'
    rw [book, if_neg Bool.false_ne_true] at raised
    refine .inr (.inr (.inr ⟨_, raised, ?_, ?_, rfl⟩))
    · simp [idempotencyConflict]
    · simp
  | checked submits' check replied =>
    obtain ⟨rfl, rfl, rfl, rfl⟩ := submits.unique submits'
    cases book.symm.trans check
  | notChecked submits' check raised kept =>
    obtain ⟨rfl, rfl, rfl, rfl⟩ := submits.unique submits'
    cases book.symm.trans check
  | noPeriod signedIn request cleaned raised kept =>
    obtain rfl := Request.submit.inj (submits.request.symm.trans request)
    obtain rfl := Option.some.inj (submits.cleaned.symm.trans cleaned)
    cases submits.period.symm.trans raised
  | crashed signedIn request cleaned raised kept =>
    obtain rfl := Request.submit.inj (submits.request.symm.trans request)
    obtain rfl := Option.some.inj (submits.cleaned.symm.trans cleaned)
    cases submits.period.symm.trans raised
  | invalid signedIn request cleaned =>
    obtain rfl := Request.submit.inj (submits.request.symm.trans request)
    cases submits.cleaned.symm.trans cleaned
  | signIn signedIn => cases submits.signedIn.symm.trans signedIn
  | notAllowed request => exact (not request (by simp)).elim
  | looked _ request | cancelled _ request | alreadyCancelled _ request | ended _ request | notFound _ request
  | selected _ request | notOffered _ request => exact (not request (by simp)).elim

namespace Memory

variable {ι : Type}

/-- The site's visitors, one after another. -/
abbrev serveAll (sizes : FleetSizes) (policy : BookingPolicy) (visits : List Visit) :
    List (Prog MemOp (Except Exn Reaction)) :=
  visits.map fun visit => ((memoryDesk sizes policy).serve visit).run

/-- Visits made one after another are a series. -/
theorem solos_serve (policy : BookingPolicy) (sound : t.Sound sizes) (i : ι) (visits : List Visit) :
    ∃ reactions t', (memory ι).solos i (serveAll sizes policy visits) (.at ι t) = some (reactions, .at ι t') ∧
      reactions.length = visits.length ∧ Series sizes policy t (visits.zip reactions) t' := by
  induction visits generalizing t with
  | nil => exact ⟨[], t, rfl, rfl, .nil t⟩
  | cons visit visits ih =>
    obtain ⟨x, t₁, alone, visited⟩ := solo_serve policy sound i visit
    obtain ⟨reactions, t', rest, length, series⟩ := ih (visited.sound sound)
    exact ⟨x :: reactions, t', Machine.solos_cons alone rest, congrArg Nat.succ length, .cons visited series⟩

/-- Whatever visits are made to the site, by whomever: a booking stays, and is changed only
by being cancelled, once and before its end, by its customer, by staff or by the admin's
action of staff who may; and a new one was asked for by its customer in a valid form, for
that car type and period and under that key, when the policy admitted it. -/
theorem site_authority (sizes : FleetSizes) (policy : BookingPolicy) {t : Table} (reached : Reached sizes t) (i : ι)
    (visits : List Visit) :
    ∃ reactions t', (memory ι).solos i (serveAll sizes policy visits) (.at ι t) = some (reactions, .at ι t') ∧
      (∀ b ∈ t.bookings, ∃ b' ∈ t'.bookings, b.Became visits b') ∧
      ∀ b' ∈ t'.bookings, (∃ b ∈ t.bookings, b.Became visits b') ∨
        ∃ visit ∈ visits, ∃ b, visit.AsksFor policy b ∧ b.status = .active ∧ b.Became visits b' := by
  obtain ⟨reactions, t', run, length, series⟩ := solos_serve policy reached.sound i visits
  have firsts : (visits.zip reactions).map (·.1) = visits := List.map_fst_zip length.ge
  obtain ⟨kept, made⟩ := series.became reached.sound
  rw [firsts] at kept made
  refine ⟨reactions, t', run, kept, fun b' hb' => ?_⟩
  rcases made b' hb' with old | ⟨l, hl, asked⟩
  · exact .inl old
  · exact .inr ⟨l.1, (List.of_mem_zip hl).1, asked⟩

/-- Who submits a form again, after it has booked or found its booking and whatever else has
been visited since, is shown what became of the booking, and nothing is added; and who
sends the same key with another car type or period is told that the form was used, and
given a form with the fresh key; and the ledger stays as it was. -/
theorem submitted_again (sizes : FleetSizes) (policy : BookingPolicy) {t : Table} (reached : Reached sizes t) (i : ι)
    {first : Visit} {user : User} {submission : Submission} {form : BookingForm} {period : RentalPeriod}
    (submits : first.Submits user submission form period) (book : form.check = false) (between : List Visit)
    {message : Flash} {reactions : List (Except Exn Reaction)} {m : Memory ι}
    (run : (memory ι).solos i (serveAll sizes policy (first :: between)) (.at ι t) =
      some (.ok (.redirect message) :: reactions, m))
    {again : Visit} {submission' : Submission} {form' : BookingForm} {period' : RentalPeriod}
    (submits' : again.Submits user submission' form' period') (book' : form'.check = false)
    (sameKey : form'.idempotencyKey = form.idempotencyKey) (known : (sizes form'.carType).isSome = true) :
    ∃ b ∈ m.table.bookings, b.customerId = user.pk ∧ b.carType = form.carType ∧ b.period = period ∧
      (memory ι).solo i ((memoryDesk sizes policy).serve again).run m = some (.ok
        (if form'.carType = form.carType ∧ period' = period then .redirect (already b)
        else m.table.page again user again.fresh (some "This form was already used. Please submit it again.") none), m) := by
  obtain ⟨_, t₂, all, -, series⟩ := solos_serve policy reached.sound i (first :: between)
  cases run.symm.trans all
  cases series with
  | @cons _ t₁ _ _ _ visited rest =>
    have sound₁ := visited.sound reached.sound
    have sound₂ := Series.sound rest sound₁
    -- the booking of the key, as the first submission left it
    obtain ⟨key, b₁, hb₁, parsed, hk₁, type, span⟩ : ∃ key, ∃ b ∈ t₁.bookings,
        IdempotencyKey.new form.idempotencyKey = .ok key ∧ b.HasKey user.pk key ∧ b.carType = form.carType ∧
        b.period = period := by
      rcases visited.submitted submits book with ⟨key, parsed, -, -, rfl⟩ | ⟨key, b, hb, parsed, hk, type, span, -, rfl⟩ |
        ⟨-, x, -⟩ | ⟨_, -, -, other, -⟩
      · exact ⟨key, _, List.mem_append_right _ (List.mem_singleton_self _), parsed, ⟨rfl, rfl⟩, rfl, rfl⟩
      · exact ⟨key, b, hb, parsed, hk, type, span⟩
      · cases x
      · exact absurd rfl (other message)
    obtain ⟨b, hb, became⟩ := (Series.became rest sound₁).1 b₁ hb₁
    have origin := became.sameOrigin
    have hk : b.HasKey user.pk key := ⟨origin.customerId.symm.trans hk₁.1, origin.idempotencyKey.symm.trans hk₁.2⟩
    have type' := origin.carType.symm.trans type
    have span' := origin.period.symm.trans span
    refine ⟨b, hb, hk.1, type', span', ?_⟩
    obtain ⟨y, t₃, alone, visited'⟩ := solo_serve policy sound₂ i again
    have parsed' : IdempotencyKey.new form'.idempotencyKey = .ok key := sameKey ▸ parsed
    rw [alone]
    rcases visited'.submitted submits' book' with ⟨key', parsed'', unused, -, -⟩ |
      ⟨key', a, ha, parsed'', hka, asked, when, rfl, rfl⟩ | ⟨used, rfl, rfl⟩ | ⟨e, raised, other, -, -⟩
    · cases parsed'.symm.trans parsed''
      exact absurd hk (unused b hb)
    · cases parsed'.symm.trans parsed''
      obtain rfl := sound₂.eq_of_key ha hb hka hk
      rw [if_pos ⟨asked.symm.trans type', when.symm.trans span'⟩]
    · obtain ⟨a, ha, hka, different⟩ := used key parsed'
      obtain rfl := sound₂.eq_of_key ha hb hka hk
      have changed : ¬ (form'.carType = form.carType ∧ period' = period) := by
        rintro ⟨asked, when⟩
        exact different ⟨type'.trans asked.symm, span'.trans when.symm⟩
      rw [if_neg changed]
      rfl
    · have spent : IdempotencyKey.new (form'.request policy (customerFrom user) again.now period').idempotencyKey = .ok key :=
        parsed'
      rw [answerReserve_of_spent sound₂ hb hk spent known] at raised
      unfold replay at raised
      split at raised
      · cases raised
      · cases raised
        exact absurd rfl other

/-! ## The Cancel buttons -/

theorem mem_bookingsOf {t : Table} {b : Booking} {customerId : Int} :
    b ∈ t.bookingsOf customerId ↔ b ∈ t.bookings ∧ b.customerId = customerId := by
  simp [Table.bookingsOf]

/-- A page has buttons for the customer's bookings that are active and not over. -/
theorem mem_cancel_rows {t : Table} {customerId : Int} {shown : Instant} {id : Int} :
    some id ∈ ((t.bookingsOf customerId).map (Booking.row shown)).map (·.cancel) ↔
      ∃ b ∈ t.bookings, b.customerId = customerId ∧ b.id = id ∧ b.Cancellable shown := by
  simp only [List.map_map, List.mem_map, mem_bookingsOf, Function.comp_apply, Booking.row, Option.ite_none_right_eq_some,
    Bool.and_eq_true, Bool.not_eq_true', Booking.isCancelled_eq_false, decide_eq_true_eq, Option.some.injEq]
  constructor
  · rintro ⟨b, ⟨hb, owner⟩, can, id⟩
    exact ⟨b, hb, owner, id, can⟩
  · rintro ⟨b, hb, owner, id, can⟩
    exact ⟨b, ⟨hb, owner⟩, can, id⟩

/-- What a request to cancel comes to. -/
theorem pressed {visit : Visit} {x : Except Exn Reaction} {t' : Table} (h : Visited sizes policy visit t x t')
    (sound : t.Sound sizes) {user : User} (signedIn : visit.user = some user) {id : Int} (cancels : visit.request = .cancel id) :
    ∃ reaction, x = .ok reaction ∧
      ((∃ b ∈ t.bookings, b.id = id ∧ b.mayBeManagedBy (customerFrom user) = true ∧ b.Cancellable visit.now ∧
          reaction = .redirect (.success "Reservation cancelled.") ∧ t' = t.cancelled id visit.now) ∨
        (t' = t ∧ ∀ b ∈ t.bookings, b.id = id → b.mayBeManagedBy (customerFrom user) = true →
          ¬ b.Cancellable visit.now ∧
            (b.status = .cancelled → reaction = .redirect (.success "Reservation cancelled.")))) := by
  have not : ∀ {request}, visit.request = request → request ≠ .cancel id → False :=
    fun e ne => ne (e.symm.trans cancels)
  cases h with
  | cancelled signedIn' request hb managed can =>
    obtain rfl := Option.some.inj (signedIn.symm.trans signedIn')
    obtain rfl := Request.cancel.inj (cancels.symm.trans request)
    exact ⟨_, rfl, .inl ⟨_, hb, rfl, managed, can, rfl, rfl⟩⟩
  | alreadyCancelled _ request hb managed gone =>
    obtain rfl := Request.cancel.inj (cancels.symm.trans request)
    refine ⟨_, rfl, .inr ⟨rfl, fun a ha same _ => ⟨fun can => ?_, fun _ => rfl⟩⟩⟩
    obtain rfl := sound.eq_of_id ha hb same
    cases gone.symm.trans can.1
  | ended _ request hb managed active passed =>
    obtain rfl := Request.cancel.inj (cancels.symm.trans request)
    refine ⟨_, rfl, .inr ⟨rfl, fun a ha same _ => ?_⟩⟩
    obtain rfl := sound.eq_of_id ha hb same
    exact ⟨fun can => absurd can.2 (not_lt.2 passed), fun gone => by cases active.symm.trans gone⟩
  | notFound signedIn' request others =>
    obtain rfl := Option.some.inj (signedIn.symm.trans signedIn')
    obtain rfl := Request.cancel.inj (cancels.symm.trans request)
    refine ⟨_, rfl, .inr ⟨rfl, fun a ha same managed => ?_⟩⟩
    cases managed.symm.trans (others a ha same)
  | signIn signedOut => cases signedIn.symm.trans signedOut
  | notAllowed request => exact (not request (by simp)).elim
  | looked _ request | invalid _ request _ | noPeriod _ request _ _ _ | crashed _ request _ _ _ | selected _ request _ _
  | notOffered _ request _ => exact (not request (by simp)).elim
  | checked submits | notChecked submits | booked submits | replayed submits | spent submits | refused submits
  | overflowed submits => exact (not submits.request (by simp)).elim

/-- A request to cancel changes the bookings exactly if it names one that its user may
cancel and that is active and not over, which is then cancelled. -/
theorem pressed_iff {visit : Visit} {x : Except Exn Reaction} {t' : Table} (h : Visited sizes policy visit t x t')
    (sound : t.Sound sizes) {user : User} (signedIn : visit.user = some user) {id : Int} (cancels : visit.request = .cancel id) :
    (t' ≠ t ↔ ∃ b ∈ t.bookings, b.id = id ∧ b.mayBeManagedBy (customerFrom user) = true ∧ b.Cancellable visit.now) ∧
      (t' ≠ t → x = .ok (.redirect (.success "Reservation cancelled.")) ∧ t' = t.cancelled id visit.now) := by
  obtain ⟨reaction, rfl, ⟨b, hb, rfl, managed, can, rfl, rfl⟩ | ⟨rfl, cannot⟩⟩ := pressed h sound signedIn cancels
  · have changed : t.cancelled b.id visit.now ≠ t := by
      intro same
      have there : Table.cancelAt b.id visit.now b ∈ t.bookings := by
        rw [← same]
        exact List.mem_map_of_mem hb
      have asIs := sound.eq_of_id there hb (Table.cancelAt_id ..)
      rw [Table.cancelAt, if_pos rfl] at asIs
      have gone := congrArg Booking.status asIs
      rw [can.1] at gone
      cases gone
    exact ⟨iff_of_true changed ⟨b, hb, rfl, managed, can⟩, fun _ => ⟨rfl, rfl⟩⟩
  · refine ⟨iff_of_false (not_not.2 rfl) ?_, fun changed => absurd rfl changed⟩
    rintro ⟨b, hb, same, managed, can⟩
    exact (cannot b hb same managed).1 can

theorem mayBeManagedBy_customer {user : User} (customer : user.isStaff = false) (b : Booking) :
    b.mayBeManagedBy (customerFrom user) = true ↔ b.customerId = user.pk := by
  simp only [Booking.mayBeManagedBy, customerFrom, customer, Bool.false_or, beq_iff_eq]
  exact eq_comm

/-- A customer's request to cancel, after the customer has looked at the dashboard and
whoever has visited since: it changes the bookings exactly if the dashboard had a button
for the reservation, its rental has not ended and none of the visits since has cancelled
it, or it has been made since; and then the customer is told so. And a button keeps its
promise until the rental has ended: the reservation is cancelled, and the customer told,
whoever has cancelled it. -/
theorem cancel_buttons (sizes : FleetSizes) (policy : BookingPolicy) {t : Table} (reached : Reached sizes t) (i : ι)
    {user : User} (customer : user.isStaff = false) {look press : Visit} (looks : look.user = some user)
    (atDashboard : look.request = .dashboard) (between : List Visit) (presses : press.user = some user) {id : Int}
    (cancels : press.request = .cancel id) (after : look.shown ≤ press.now) :
    ∃ page reactions t₁ reaction t', (memory ι).solo i ((memoryDesk sizes policy).serve look).run (.at ι t) =
        some (.ok (.page page), .at ι t) ∧
      (memory ι).solos i (serveAll sizes policy between) (.at ι t) = some (reactions, .at ι t₁) ∧
      (memory ι).solo i ((memoryDesk sizes policy).serve press).run (.at ι t₁) = some (.ok reaction, .at ι t') ∧
      (t' ≠ t₁ ↔
        (some id ∈ page.rows.map (·.cancel) ∧ ∃ b ∈ t.bookings, b.id = id ∧ press.now < b.period.stop ∧
          ∀ visit ∈ between, ∀ now, visit.MayCancel b now → b.period.stop ≤ now) ∨
        ((∀ b ∈ t.bookings, b.id ≠ id) ∧
          ∃ b ∈ t₁.bookings, b.id = id ∧ b.customerId = user.pk ∧ b.Cancellable press.now)) ∧
      (t' ≠ t₁ → reaction = .redirect (.success "Reservation cancelled.")) ∧
      (some id ∈ page.rows.map (·.cancel) → (∀ b ∈ t.bookings, b.id = id → press.now < b.period.stop) →
        reaction = .redirect (.success "Reservation cancelled.") ∧
          ∃ b ∈ t'.bookings, b.id = id ∧ b.status = .cancelled) := by
  have sound := reached.sound
  have page : (memory ι).solo i ((memoryDesk sizes policy).serve look).run (.at ι t) =
      some (.ok (t.page look user look.fresh none none), .at ι t) := by
    simp only [ReservationDesk.serve, looks, atDashboard]
    exact solo_render ..
  obtain ⟨reactions, t₁, run, length, series⟩ := solos_serve policy sound i between
  have sound₁ := Series.sound series sound
  obtain ⟨x, t', alone, visited⟩ := solo_serve policy sound₁ i press
  obtain ⟨reaction, rfl, came⟩ := pressed visited sound₁ presses cancels
  obtain ⟨changes, tells⟩ := pressed_iff visited sound₁ presses cancels
  have own := mayBeManagedBy_customer customer
  refine ⟨_, reactions, t₁, reaction, t', page, run, alone, ?_, fun changed => Except.ok.inj (tells changed).1, ?_⟩
  · rw [changes, mem_cancel_rows]
    constructor
    · rintro ⟨b₁, hb₁, rfl, managed, can⟩
      by_cases old : ∃ b ∈ t.bookings, b.id = b₁.id
      · obtain ⟨b, hb, same⟩ := old
        obtain ⟨b', hb', origin, unchanged⟩ := Series.keeps series sound hb
        obtain rfl := sound₁.eq_of_id hb' hb₁ (origin.id.symm.trans same)
        obtain rfl := unchanged (.inr can.1)
        refine .inl ⟨⟨b', hb, (own b').1 managed, rfl, can.1, lt_of_le_of_lt after can.2⟩, b', hb, rfl, can.2, ?_⟩
        exact (Series.stays_active series length sound hb can.1).1 hb₁
      · exact .inr ⟨fun b hb same => old ⟨b, hb, same⟩, b₁, hb₁, rfl, (own b₁).1 managed, can⟩
    · rintro (⟨⟨b, hb, owner, same, button⟩, a, ha, same', running, none⟩ | ⟨-, b, hb, same, owner, can⟩)
      · obtain rfl := sound.eq_of_id ha hb (same'.trans same.symm)
        have there := (Series.stays_active series length sound ha button.1).2 none
        exact ⟨a, there, same, (own a).2 owner, button.1, running⟩
      · exact ⟨b, hb, same, (own b).2 owner, can⟩
  · rw [mem_cancel_rows]
    rintro ⟨b, hb, owner, rfl, button⟩ running
    obtain ⟨b₁, hb₁, origin, unchanged⟩ := Series.keeps series sound hb
    have managed : b₁.mayBeManagedBy (customerFrom user) = true := (own b₁).2 (origin.customerId ▸ owner)
    rcases came with ⟨a, ha, same, -, -, told, rfl⟩ | ⟨rfl, cannot⟩
    · refine ⟨told, _, List.mem_map_of_mem ha, ?_, ?_⟩
      · rw [Table.cancelAt_id, same]
      · rw [Table.cancelAt, if_pos same]
    · obtain ⟨not, told⟩ := cannot b₁ hb₁ origin.id.symm managed
      have gone : b₁.status = .cancelled := by
        cases status : b₁.status with
        | active =>
          have can : b₁.Cancellable press.now := ⟨status, by rw [unchanged (.inr status)]; exact running b hb rfl⟩
          exact absurd can not
        | cancelled => rfl
      exact ⟨told gone, b₁, hb₁, origin.id.symm, gone⟩

/-- A sedan for two days from 1 June. -/
def twoDays : BookingForm := { juneForm with days := 2, positive := halloweenForm.positive }

/-- The customer 7, a day before. -/
def visitOf (request : Request) : Visit where
  user := some { pk := 7 }
  request := request
  now := june.reading - Timedelta.days 1
  shown := june.reading - Timedelta.days 1
  fresh := "june-2027"

def submitTwoDays : Submission where
  idempotencyKey := "june-2026"
  cleaned := some twoDays

/-- The first two days of June. -/
def twoDaysOfJune : RentalPeriod where
  start := june.reading
  stop := june.reading + Timedelta.days 2
  startsBeforeStop := by decide

/-- The booking is made, and cancelled with a selection for which the clock is read twice, on the
last day and when the rental ends; before that a visitor who has not signed in comes by,
and after it the form is submitted again. -/
def juneVisits : List Visit :=
  [visitOf (.submit submitTwoDays), { visitOf (.cancel 1) with user := none },
    { visitOf (.cancelSelected [(1, june.reading + Timedelta.days 1), (2, june.reading + Timedelta.days 2)]) with
      user := some { pk := 8, isStaff := true, mayChange := true } },
    visitOf (.submit submitTwoDays)]

theorem site_authority_june : ∃ reactions t', (memory Unit).solos () (serveAll oneEach {} juneVisits) (.at Unit .empty) =
      some (reactions, .at Unit t') ∧ t'.bookings.map (·.id) = [1] ∧
    ∀ b' ∈ t'.bookings, ∃ visit ∈ juneVisits, ∃ b, visit.AsksFor {} b ∧ b.status = .active ∧ b.Became juneVisits b' := by
  obtain ⟨reactions, t', run, -, made⟩ := site_authority oneEach {} (reached_empty _) () juneVisits
  have ids : ((memory Unit).solos () (serveAll oneEach {} juneVisits) (.at Unit .empty)).map
      (fun x => x.2.table.bookings.map (·.id)) = some [1] := by decide +kernel
  rw [run] at ids
  refine ⟨reactions, t', run, Option.some.inj ids, fun b' hb' => ?_⟩
  rcases made b' hb' with ⟨b, hb, -⟩ | asked
  · cases hb
  · exact asked

theorem submits_twoDays : (visitOf (.submit submitTwoDays)).Submits { pk := 7 } submitTwoDays twoDays twoDaysOfJune where
  signedIn := rfl
  request := rfl
  cleaned := rfl
  period := by decide +kernel

theorem submitted_again_june : ∃ b, b.period = twoDaysOfJune ∧ b.isCancelled = true ∧ ∃ m : Memory Unit, b ∈ m.table.bookings ∧
    (memory Unit).solo () ((memoryDesk oneEach {}).serve (visitOf (.submit submitTwoDays))).run m =
      some (.ok (.redirect (already b)), m) := by
  obtain ⟨reactions, m, run, gone⟩ : ∃ reactions m, (memory Unit).solos ()
        (serveAll oneEach {} [visitOf (.submit submitTwoDays), visitOf (.cancel 1)]) (.at Unit .empty) =
          some (.ok (.redirect (.success "Booked: Sedan.")) :: reactions, m) ∧
      ∀ b ∈ m.table.bookings, b.isCancelled = true :=
    ⟨[.ok (.redirect (.success "Reservation cancelled."))], _, rfl, by decide +kernel⟩
  obtain ⟨b, hb, -, type, span, shown⟩ := submitted_again oneEach {} (reached_empty _) () submits_twoDays rfl
    [visitOf (.cancel 1)] run submits_twoDays rfl rfl rfl
  rw [if_pos ⟨rfl, rfl⟩] at shown
  exact ⟨b, span, gone b hb, m, hb, shown⟩

theorem reached_spring : Reached oneEach (Table.empty.push springBooking) := by
  obtain ⟨ls, c, run, shared, complete⟩ : ∃ ls c, Runs oneEach oneCall .empty ls c ∧
      c.shared = .at (Fin 1) (Table.empty.push springBooking) ∧ c.Complete :=
    Machine.exists_run_of_drive ([0, 0, 0, 0, 0, 0].map (·, 0)) ⟨_, _, rfl,
      Memory.ext rfl (funext fun T => by cases T <;> rfl), fun i => by fin_cases i; rfl⟩
  exact ⟨Fin 1, inferInstance, oneCall, ls, c, run, complete.quiet, congrArg Memory.table shared⟩

def lookAtOnce : Visit := { visitOf .dashboard with shown := 0 }

def pressAtOnce : Visit := { visitOf (.cancel 1) with now := 0 }

/-- Somebody else tries to cancel the booking between the look and the press. -/
def strangers : List Visit := [{ pressAtOnce with user := some { pk := 8 } }]

theorem cancel_buttons_spring : ∃ page t',
    (memory Unit).solo () ((memoryDesk oneEach {}).serve lookAtOnce).run (.at Unit (Table.empty.push springBooking)) =
      some (.ok (.page page), .at Unit (Table.empty.push springBooking)) ∧
    (memory Unit).solos () (serveAll oneEach {} strangers) (.at Unit (Table.empty.push springBooking)) =
      some ([.ok (.redirect (.error "Reservation not found."))], .at Unit (Table.empty.push springBooking)) ∧
    (memory Unit).solo () ((memoryDesk oneEach {}).serve pressAtOnce).run (.at Unit (Table.empty.push springBooking)) =
      some (.ok (.redirect (.success "Reservation cancelled.")), .at Unit t') ∧
    t' ≠ Table.empty.push springBooking ∧ some 1 ∈ page.rows.map (·.cancel) := by
  have looks : lookAtOnce.user = some { pk := 7 } := rfl
  have cancels : pressAtOnce.request = .cancel 1 := rfl
  have after : lookAtOnce.shown ≤ pressAtOnce.now := le_rfl
  obtain ⟨page, reactions, t₁, reaction, t', looked, visited, pressed, buttons, -⟩ :=
    cancel_buttons oneEach {} reached_spring () rfl looks rfl strangers rfl cancels after
  have between : (memory Unit).solos () (serveAll oneEach {} strangers) (.at Unit (Table.empty.push springBooking)) =
      some ([.ok (.redirect (.error "Reservation not found."))], .at Unit (Table.empty.push springBooking)) := rfl
  cases between.symm.trans visited
  have computed : (memory Unit).solo () ((memoryDesk oneEach {}).serve pressAtOnce).run
      (.at Unit (Table.empty.push springBooking)) = some (.ok (.redirect (.success "Reservation cancelled.")),
        .at Unit ((Table.empty.push springBooking).cancelled 1 0)) := rfl
  cases computed.symm.trans pressed
  have changed : (Table.empty.push springBooking).cancelled 1 0 ≠ Table.empty.push springBooking := by decide
  rcases buttons.1 changed with ⟨button, -⟩ | ⟨new, -⟩
  · exact ⟨page, _, looked, between, computed, changed, button⟩
  · exact absurd rfl (new springBooking (List.mem_singleton_self _))

end Memory

end VehicleRentals
