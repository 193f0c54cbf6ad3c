import VehicleRentals.Web.Calls

/-!
# What a visit answers

What a visit comes to follows from what its calls came to, whatever else happened: `Reports`
lists the cases, with the calls that account for each. It is read off the views once
(`leads_client`, by the rules of `Concurrent.Client.Leads`).
-/

namespace VehicleRentals

open Concurrent

/-- The kind of reply a call has. -/
def Call.Replies : Call → Option Reply → Prop
  | .reserve _, some (.booked _) => True
  | .cancel .., some (.cancelled _) => True
  | .availability .., some (.free _) => True
  | .reservationsFor _, some (.listed _) => True
  | _, _ => False

/-- The view that makes the call has no answer to the exception. -/
def Call.LetsOut : Call → Exn → Prop
  | .reserve _, e | .availability .., e => e.isDomain = false
  | .cancel .., e => (∀ m, e ≠ .domain (.reservationNotFound m)) ∧ ∀ m, e ≠ .domain (.reservationNotCancellable m)
  | .reservationsFor _, _ => True

/-- A form was submitted whose dates make no period. -/
def Visit.NoPeriod (visit : Visit) (e : Exn) : Prop :=
  ∃ user submission form, visit.user = some user ∧ visit.request = .submit submission ∧ submission.cleaned = some form ∧
    RentalPeriod.forDays (.datetime form.start) (.int form.days) = .error e

/-- The count and the error of a page follow from what the visit's calls came to. -/
inductive Page.Follows (policy : BookingPolicy) (visit : Visit) (Happened : Call → Postgres.Result → Prop) (page : Page) : Prop where
  | plain : page.error = none → page.available = none → Follows policy visit Happened page
  | counted {user : User} {submission : Submission} {form : BookingForm} {period : RentalPeriod} {n : Int} :
      visit.Submits user submission form period → form.check = true →
      Happened (.availability policy form.carType period visit.now) (.ok (some (.free n))) →
      page.error = none → page.available = some n → Follows policy visit Happened page
  | noPeriod {e : DomainError} : visit.NoPeriod (.domain e) →
      page.error = some (formError e) → page.available = none → Follows policy visit Happened page
  | refused {call : Call} {e : DomainError} : visit.Makes policy call → Happened call (.error (.domain e)) →
      page.error = some (formError e) → page.available = none → Follows policy visit Happened page

namespace Postgres

/-- What the list action has noted for an id, from the call at its reading of the clock. -/
def Noted (Happened : Call → Result → Prop) (actor : Customer) : Int × Instant → Int × Option DomainError → Prop
  | (id, now), (id', none) => id' = id ∧ ∃ b, Happened (.cancel id actor now) (.ok (some (.cancelled b)))
  | (id, now), (id', some e) => id' = id ∧ Happened (.cancel id actor now) (.error (.domain e))

/-- What a visit comes to follows from what its calls came to. -/
inductive Reports (policy : BookingPolicy) (visit : Visit) (Happened : Call → Result → Prop) : Except Exn Reaction → Prop where
  | signIn : Reports policy visit Happened (.ok .signIn)
  | notAllowed : Reports policy visit Happened (.ok .notAllowed)
  | booked {user : User} {submission : Submission} {form : BookingForm} {period : RentalPeriod} {result : BookingResult} :
      visit.Submits user submission form period → form.check = false →
      Happened (.reserve (form.request policy (customerFrom user) visit.now period)) (.ok (some (.booked result))) →
      Reports policy visit Happened (.ok (.redirect (flash form.carType result)))
  | cancelled {user : User} {id : Int} {b : Booking} : visit.user = some user → visit.request = .cancel id →
      Happened (.cancel id (customerFrom user) visit.now) (.ok (some (.cancelled b))) →
      Reports policy visit Happened (.ok (.redirect (.success "Reservation cancelled.")))
  | notFound {user : User} {id : Int} {m : String} : visit.user = some user → visit.request = .cancel id →
      Happened (.cancel id (customerFrom user) visit.now) (.error (.domain (.reservationNotFound m))) →
      Reports policy visit Happened (.ok (.redirect (.error "Reservation not found.")))
  | notCancellable {user : User} {id : Int} {m : String} : visit.user = some user → visit.request = .cancel id →
      Happened (.cancel id (customerFrom user) visit.now) (.error (.domain (.reservationNotCancellable m))) →
      Reports policy visit Happened (.ok (.redirect (.error ("Cannot cancel: " ++ m ++ "."))))
  | page {user : User} {bs : List Booking} {page : Page} : visit.user = some user →
      Happened (.reservationsFor (customerFrom user)) (.ok (some (.listed bs))) →
      page.rows = bs.map (Booking.row visit.shown) → page.Follows policy visit Happened →
      Reports policy visit Happened (.ok (.page page))
  | mayNotSelect {user : User} {selected : List (Int × Instant)} : visit.user = some user →
      visit.request = .cancelSelected selected → (user.isStaff && user.mayChange) = false →
      Reports policy visit Happened (.ok (.admin []))
  | selected {user : User} {selected : List (Int × Instant)} {notes : List (Int × Option DomainError)} :
      visit.user = some user → visit.request = .cancelSelected selected → (user.isStaff && user.mayChange) = true →
      List.Forall₂ (Noted Happened (customerFrom user)) selected notes →
      Reports policy visit Happened (.ok (.admin (notes.foldl Selection.note {}).messages))
  | noPeriod {e : Exn} : visit.NoPeriod e → e.isDomain = false → Reports policy visit Happened (.error e)
  | raised {call : Call} {e : Exn} : visit.Makes policy call → Happened call (.error e) → call.LetsOut e →
      Reports policy visit Happened (.error e)
  | mistyped {call : Call} {reply : Option Reply} : Happened call (.ok reply) → ¬ call.Replies reply →
      Reports policy visit Happened (.error .valueError)

variable {α β : Type} {policy : BookingPolicy} {visit : Visit} {user : User} {Happened : Call → Result → Prop}

theorem leads_calling {call : Call} {kind : Reply → Option α} {k : Except Exn α → DbClient β} {Q : β → Prop}
    (kinds : ∀ reply, call.Replies (some reply) → (kind reply).isSome = true)
    (replies : ∀ reply a, kind reply = some a → Happened call (.ok (some reply)) → (k (.ok a)).Leads Happened Q)
    (raises : ∀ e, Happened call (.error e) → (k (.error e)).Leads Happened Q)
    (mistyped : ∀ reply, Happened call (.ok reply) → ¬ call.Replies reply → (k (.error .valueError)).Leads Happened Q) :
    (calling call kind k).Leads Happened Q := by
  rintro (e | reply) happened
  · exact raises e happened
  · dsimp only
    split
    · rename_i a found
      obtain ⟨reply, rfl, found⟩ := Option.bind_eq_some_iff.1 found
      exact replies reply a found happened
    · rename_i none
      refine mistyped reply happened fun replies => ?_
      cases reply with
      | none => cases call <;> exact replies
      | some reply =>
        have found := kinds reply replies
        rw [Option.bind_some] at none
        rw [none] at found
        cases found

theorem leads_rendering (signedIn : visit.user = some user) {key : String} {error : Option String} {available : Option Int}
    (follows : ∀ rows, Page.Follows policy visit Happened { idempotencyKey := key, error, available, rows }) :
    (rendering (customerFrom user) visit.shown key error available).Leads Happened (Reports policy visit Happened) := by
  refine leads_calling ?_ (fun reply bs found happened => ?_) (fun e happened => .raised (.list signedIn) happened trivial)
    fun _ happened other => .mistyped happened other
  · rintro (_ | _ | _ | _) replies <;> first | rfl | exact replies.elim
  · cases reply with
    | listed bs =>
      cases found
      exact .page signedIn happened rfl (follows _)
    | _ => cases found

/-- An exception on the way to an answer is shown, or let out. -/
theorem leads_refused (signedIn : visit.user = some user) {submission : Submission} {e : Exn}
    (shown : ∀ d, e = .domain d → ∀ key rows,
      Page.Follows policy visit Happened { idempotencyKey := key, error := some (formError d), available := none, rows })
    (out : e.isDomain = false → Reports policy visit Happened (.error e)) :
    (answering (customerFrom user) submission visit.shown visit.fresh (.error e)).Leads Happened
      (Reports policy visit Happened) := by
  cases e with
  | domain d => exact leads_rendering signedIn (shown d rfl _)
  | _ => exact out rfl

theorem leads_posting {submission : Submission} (signedIn : visit.user = some user)
    (request : visit.request = .submit submission) :
    (posting policy (customerFrom user) submission visit.now visit.shown visit.fresh).Leads Happened
      (Reports policy visit Happened) := by
  unfold posting
  cases cleaned : submission.cleaned with
  | none => exact leads_rendering signedIn fun _ => .plain rfl rfl
  | some form =>
    dsimp only
    cases made : RentalPeriod.forDays (.datetime form.start) (.int form.days) with
    | error e =>
      have none : visit.NoPeriod e := ⟨user, submission, form, signedIn, request, cleaned, made⟩
      exact leads_refused signedIn (fun d domain _ _ => .noPeriod (domain ▸ none) rfl rfl) fun other => .noPeriod none other
    | ok period =>
      have submits : visit.Submits user submission form period := ⟨signedIn, request, cleaned, made⟩
      -- what either call may have raised
      have raises : ∀ {call : Call}, visit.Makes policy call → (∀ e, e.isDomain = false → call.LetsOut e) →
          ∀ e, Happened call (.error e) →
            (answering (customerFrom user) submission visit.shown visit.fresh (.error e)).Leads Happened
              (Reports policy visit Happened) := by
        intro call makes out e happened
        exact leads_refused signedIn (fun d domain _ _ => .refused makes (domain ▸ happened) rfl rfl)
          fun other => .raised makes happened (out e other)
      dsimp only
      split_ifs with check
      · refine leads_calling ?_ (fun reply n found happened => ?_) (raises (.check submits check) fun _ => id)
          fun _ happened other => .mistyped happened other
        · rintro (_ | _ | _ | _) replies <;> first | rfl | exact replies.elim
        · cases reply with
          | free n =>
            cases found
            exact leads_rendering signedIn fun _ => .counted submits check happened rfl rfl
          | _ => cases found
      · have book : form.check = false := Bool.eq_false_of_not_eq_true check
        refine leads_calling ?_ (fun reply result found happened => ?_) (raises (.reserve submits book) fun _ => id)
          fun _ happened other => .mistyped happened other
        · rintro (_ | _ | _ | _) replies <;> first | rfl | exact replies.elim
        · cases reply with
          | booked result =>
            cases found
            exact .booked submits book happened
          | _ => cases found

theorem leads_cancelling {id : Int} (signedIn : visit.user = some user) (request : visit.request = .cancel id) :
    (cancelling (customerFrom user) id visit.now).Leads Happened (Reports policy visit Happened) := by
  refine leads_calling ?_ (fun reply b found happened => ?_) (fun e happened => ?_) fun _ happened other => .mistyped happened other
  · rintro (_ | _ | _ | _) replies <;> first | rfl | exact replies.elim
  · cases reply with
    | cancelled b => exact .cancelled signedIn request happened
    | _ => cases found
  · have out : (Call.cancel id (customerFrom user) visit.now).LetsOut e → Reports policy visit Happened (.error e) :=
      fun other => .raised (.cancel (.button signedIn request)) happened other
    cases e with
    | domain e =>
      cases e with
      | reservationNotFound m => exact .notFound signedIn request happened
      | reservationNotCancellable m => exact .notCancellable signedIn request happened
      | _ => exact out ⟨by simp, by simp⟩
    | _ => exact out ⟨by simp, by simp⟩

/-- What the loop of the list action comes to, going on from `selection`. -/
def Selects (policy : BookingPolicy) (visit : Visit) (Happened : Call → Result → Prop) (user : User) (selection : Selection)
    (selected : List (Int × Instant)) (x : Except Exn Reaction) : Prop :=
  (∃ notes : List (Int × Option DomainError), List.Forall₂ (Noted Happened (customerFrom user)) selected notes ∧
    x = .ok (.admin (notes.foldl Selection.note selection).messages)) ∨
  ∃ e, x = .error e ∧ Reports policy visit Happened (.error e)

/-- A round adds a note. -/
theorem Selects.round {selection : Selection} {selected : List (Int × Instant)} {one : Int × Instant}
    {note : Int × Option DomainError} (noted : Noted Happened (customerFrom user) one note) {x : Except Exn Reaction}
    (rest : Selects policy visit Happened user (selection.note note) selected x) :
    Selects policy visit Happened user selection (one :: selected) x := by
  refine rest.imp_left fun ⟨notes, all, said⟩ => ?_
  exact ⟨note :: notes, .cons noted all, said⟩

theorem leads_selecting (policy : BookingPolicy) {selected : List (Int × Instant)}
    (cancels : ∀ one ∈ selected, visit.CancelsAs user one.1 one.2) (selection : Selection) :
    (selecting (customerFrom user) selection selected).Leads Happened
      (Selects policy visit Happened user selection selected) := by
  induction selected generalizing selection with
  | nil => exact .inl ⟨[], .nil, rfl⟩
  | cons one selected ih =>
    obtain ⟨id, now⟩ := one
    have rest := ih fun other hother => cancels other (List.mem_cons_of_mem _ hother)
    refine leads_calling ?_ (fun reply b found happened => ?_) (fun e happened => ?_)
      fun _ happened other => .inr ⟨_, rfl, .mistyped happened other⟩
    · rintro (_ | _ | _ | _) replies <;> first | rfl | exact replies.elim
    · cases reply with
      | cancelled b =>
        have noted : Noted Happened (customerFrom user) (id, now) (id, none) := ⟨rfl, b, happened⟩
        exact (rest (selection.note (id, none))).mono fun _ => .round noted
      | _ => cases found
    · cases e with
      | domain e =>
        have noted : Noted Happened (customerFrom user) (id, now) (id, some e) := ⟨rfl, happened⟩
        exact (rest (selection.note (id, some e))).mono fun _ => .round noted
      | _ => exact .inr ⟨_, rfl, .raised (.cancel (cancels _ List.mem_cons_self)) happened ⟨by simp, by simp⟩⟩

/-- The answers of the views. -/
theorem leads_client (policy : BookingPolicy) (visit : Visit) (Happened : Call → Result → Prop) :
    (client policy visit).Leads Happened (Reports policy visit Happened) := by
  unfold client
  cases signedIn : visit.user with
  | none => exact .signIn
  | some user =>
    cases request : visit.request with
    | dashboard => exact leads_rendering signedIn fun _ => .plain rfl rfl
    | submit submission => exact leads_posting signedIn request
    | cancel id => exact leads_cancelling signedIn request
    | cancelSelected selected =>
      dsimp only
      split_ifs with may
      · have rights := may
        rw [Bool.and_eq_true] at rights
        have cancels : ∀ one ∈ selected, visit.CancelsAs user one.1 one.2 :=
          fun one hone => .selected signedIn request hone rights.1 rights.2
        refine (leads_selecting policy cancels {}).mono fun x said => ?_
        rcases said with ⟨notes, all, rfl⟩ | ⟨e, rfl, reported⟩
        · exact .selected signedIn request may all
        · exact reported
      · exact .mayNotSelect signedIn request (Bool.eq_false_of_not_eq_true may)
    | otherMethod => exact .notAllowed

end Postgres

end VehicleRentals
