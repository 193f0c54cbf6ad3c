import VehicleRentals.Concurrent.Batch
import VehicleRentals.Dashboard
import VehicleRentals.Memory.Privacy

/-!
# Cancelling a selection (`rentals/admin.py`)

Staff cancel the bookings they have selected, one call of the desk after another; what
cannot be cancelled is reported, and the loop goes on. Each call reads the clock anew:
a booking is cancelled at the first reading for it that comes before its end
(`serial_cancelling`). To staff a call is refused only for a missing booking and for
one that is active and over (`Table.refusal`), and neither comes or goes by cancelling
at the same instant: so where the clock stands still, every id is answered from the
ledger as it was, wherever on the list it stands and however often.
-/

namespace VehicleRentals

open Concurrent

/-- What the loop of `cancel_selected` has counted, and the errors it has met, with their ids. -/
structure Selection where
  cancelled : Nat := 0
  errors : List (Int × DomainError) := []
  deriving DecidableEq, Repr

/-- What `message_user` is called with. -/
inductive AdminMessage where
  | error (message : String)
  | success (message : String)
  deriving DecidableEq, Repr

namespace Selection

/-- The messages shown after the loop. -/
def messages (selection : Selection) : List AdminMessage :=
  (selection.errors.map fun (id, e) => .error ("#" ++ toString id ++ ": " ++ e.message)) ++
    if selection.cancelled = 0 then [] else [.success ("Cancelled: " ++ toString selection.cancelled ++ ".")]

/-- The errors met for an id, in order. -/
def errorsOf (selection : Selection) (id : Int) : List DomainError :=
  (selection.errors.filter fun error => error.1 == id).map (·.2)

/-- One more id: counted, or refused with an error. -/
def note (selection : Selection) : Int × Option DomainError → Selection
  | (_, none) => { selection with cancelled := selection.cancelled + 1 }
  | (id, some e) => { selection with errors := selection.errors ++ [(id, e)] }

end Selection

namespace ReservationDesk

universe u v

variable {M : Type → Type u} {B : Type → Type v} [Monad M] [Monad B]

/-- One round of the loop: the `try` with its `except` and its `else`. -/
def cancelRound (desk : ReservationDesk M B) (actor : Customer) (selection : Selection) :
    Int × Instant → ExceptT Exn M Selection
  | (reservationId, now) => ExceptT.mk do
    match ← (desk.cancel reservationId actor now).run with
    | .ok _ => return .ok { selection with cancelled := selection.cancelled + 1 }
    | .error (.domain e) => return .ok { selection with errors := selection.errors ++ [(reservationId, e)] }
    | .error e => return .error e

/-- `cancel_selected`, for the ids of its queryset, each with what the clock reads in its call. -/
def cancelSelected (desk : ReservationDesk M B) (actor : Customer) (selected : List (Int × Instant)) :
    ExceptT Exn M Selection :=
  selected.foldlM (desk.cancelRound actor) {}

end ReservationDesk

/-! ## What a list of cancellations does -/

/-- Active, and not over: what a cancellation changes. -/
def Booking.Cancellable (b : Booking) (now : Instant) : Prop := b.status = .active ∧ now < b.period.stop

instance (b : Booking) (now : Instant) : Decidable (b.Cancellable now) := inferInstanceAs (Decidable (_ ∧ _))

namespace Table

/-- The booking cancelled at `now` if it is listed, active and not over; otherwise as it is. -/
def cancelIfListed (ids : List Int) (now : Instant) (b : Booking) : Booking :=
  if b.id ∈ ids ∧ b.Cancellable now then { b with status := .cancelled, cancelledAt := some now } else b

/-- Precisely the listed bookings that are active and not over are cancelled at `now`. -/
def cancelListed (ids : List Int) (now : Instant) (t : Table) : Table :=
  { t with bookings := t.bookings.map (cancelIfListed ids now) }

/-- Why `cancel` refuses a member of staff: the id is nobody's, or the rental has ended. -/
def refusal (t : Table) (now : Instant) (id : Int) : Option DomainError :=
  match t.get id with
  | none => some (.reservationNotFound ("reservation " ++ toString id ++ " does not exist"))
  | some b =>
    if b.status = .active ∧ b.period.stop ≤ now then
      some (.reservationNotCancellable "the rental period has already ended")
    else none

/-- A cancellation by staff: the id with its refusal, and the table after it. -/
def cancelling : Int × Instant → Table → (Int × Option DomainError) × Table
  | (id, now), t => ((id, t.refusal now id), t.cancelListed [id] now)

/-- The booking cancelled at the first reading listed for it that comes before its end, if it is active. -/
def cancelInTime (selected : List (Int × Instant)) (b : Booking) : Booking :=
  match selected.find? fun x => x.1 = b.id ∧ b.Cancellable x.2 with
  | some (_, now) => { b with status := .cancelled, cancelledAt := some now }
  | none => b

/-- The listed bookings are cancelled, each as soon as its turn comes in time. -/
def cancelEach (selected : List (Int × Instant)) (t : Table) : Table :=
  { t with bookings := t.bookings.map (cancelInTime selected) }

section

variable {ids : List Int} {selected : List (Int × Instant)} {id : Int} {now : Instant} {b : Booking} {t : Table}

@[simp] theorem cancelIfListed_id : (cancelIfListed ids now b).id = b.id := by
  unfold cancelIfListed
  split <;> rfl

theorem not_cancellable_cancelIfListed (listed : b.id ∈ ids) : ¬ (cancelIfListed ids now b).Cancellable now := by
  unfold cancelIfListed
  split
  · rintro ⟨active, -⟩
    cases active
  · rename_i unchanged
    exact fun still => unchanged ⟨listed, still⟩

/-- Going through a list is cancelling its first booking, and then the others. -/
theorem cancelIfListed_cons :
    cancelIfListed ids now (cancelIfListed [id] now b) = cancelIfListed (id :: ids) now b := by
  by_cases first : b.id ∈ [id] ∧ b.Cancellable now
  · have listed : b.id ∈ id :: ids := List.mem_cons.2 (.inl (List.mem_singleton.1 first.1))
    have gone : ¬ (cancelIfListed [id] now b).Cancellable now := not_cancellable_cancelIfListed first.1
    rw [cancelIfListed, if_neg fun h => gone h.2, cancelIfListed, if_pos first, cancelIfListed,
      if_pos ⟨listed, first.2⟩]
  · have same : b.id ∈ ids ∧ b.Cancellable now ↔ b.id ∈ id :: ids ∧ b.Cancellable now := by
      constructor
      · exact fun h => ⟨List.mem_cons_of_mem id h.1, h.2⟩
      · rintro ⟨listed, can⟩
        rcases List.mem_cons.1 listed with e | rest
        · exact absurd ⟨List.mem_singleton.2 e, can⟩ first
        · exact ⟨rest, can⟩
    have asIs : cancelIfListed [id] now b = b := if_neg first
    rw [asIs]
    simp only [cancelIfListed, same]

/-- Where the listed bookings have ended or are cancelled, nothing happens. -/
theorem cancelListed_of_none (h : ∀ b ∈ t.bookings, b.id ∈ ids → ¬ b.Cancellable now) :
    t.cancelListed ids now = t := by
  have asIs : t.bookings.map (cancelIfListed ids now) = t.bookings :=
    (List.map_congr_left fun b hb => if_neg fun both => h b hb both.1 both.2).trans (List.map_id _)
  rw [cancelListed, asIs]

theorem get_cancelListed (t : Table) (ids : List Int) (now : Instant) (id : Int) :
    (t.cancelListed ids now).get id = (t.get id).map (cancelIfListed ids now) := by
  have same : (fun b : Booking => b.id == id) ∘ cancelIfListed ids now = fun b => b.id == id := by
    funext b
    rw [Function.comp_apply, cancelIfListed_id]
  rw [get, cancelListed, List.find?_map, same, get]

/-- Cancelling changes no refusal: what it cancels was not over, and is not refused after it either. -/
theorem refusal_cancelListed (t : Table) (ids : List Int) (now : Instant) (id : Int) :
    (t.cancelListed ids now).refusal now id = t.refusal now id := by
  unfold refusal
  rw [get_cancelListed]
  cases t.get id with
  | none => rfl
  | some b =>
    dsimp only [Option.map_some]
    by_cases changed : b.id ∈ ids ∧ b.Cancellable now
    · have running : ¬ (b.status = .active ∧ b.period.stop ≤ now) := fun h => absurd changed.2.2 (not_lt.2 h.2)
      rw [cancelIfListed, if_pos changed, if_neg running]
      exact if_neg (by simp)
    · rw [cancelIfListed, if_neg changed]

/-- A list of cancellations by staff at one instant is decided by the table it starts from. -/
theorem steady_cancelling (now : Instant) :
    Steady (fun id => cancelling (id, now)) fun ids t => t.cancelListed ids now where
  outcome j k t := congrArg (Prod.mk j) (refusal_cancelListed t [k] now j)
  nil t := cancelListed_of_none (by simp)
  cons k ids t := by
    simp only [cancelling, cancelListed, List.map_map]
    congr 1
    exact List.map_congr_left fun b _ => cancelIfListed_cons
  congr same t := by
    simp only [cancelListed]
    congr 1
    refine List.map_congr_left fun b _ => ?_
    simp only [cancelIfListed, same]

theorem Keyed.cancelListed (keyed : t.Keyed) (ids : List Int) (now : Instant) : (t.cancelListed ids now).Keyed := by
  simpa [Keyed, Table.cancelListed, Function.comp_def] using keyed

/-- Cancelling the stored booking of an id is going through the list of this id. -/
theorem cancelled_eq_cancelListed (keyed : t.Keyed) (hb : b ∈ t.bookings) (can : b.Cancellable now) :
    t.cancelled b.id now = t.cancelListed [b.id] now := by
  rw [Table.cancelled, Table.cancelListed]
  congr 1
  refine List.map_congr_left fun a ha => ?_
  unfold cancelAt cancelIfListed
  by_cases same : a.id = b.id
  · obtain rfl := List.inj_on_of_nodup_map keyed ha hb same
    rw [if_pos rfl, if_pos ⟨List.mem_singleton_self _, can⟩]
  · rw [if_neg same, if_neg fun h => same (List.mem_singleton.1 h.1)]

/-- What a list of cancellations leaves of a booking. -/
theorem cancelInTime_cases (selected : List (Int × Instant)) (b : Booking) :
    (cancelInTime selected b = b ∧ ∀ now, (b.id, now) ∈ selected → ¬ b.Cancellable now) ∨
    ∃ now, (b.id, now) ∈ selected ∧ b.Cancellable now ∧
      cancelInTime selected b = { b with status := .cancelled, cancelledAt := some now } := by
  unfold cancelInTime
  cases found : selected.find? fun x => decide (x.1 = b.id ∧ b.Cancellable x.2) with
  | none =>
    refine .inl ⟨rfl, fun now listed can => ?_⟩
    have passed := List.find?_eq_none.1 found _ listed
    exact passed (decide_eq_true ⟨rfl, can⟩)
  | some x =>
    have holds := List.find?_some found
    obtain ⟨named, can⟩ := of_decide_eq_true holds
    exact .inr ⟨x.2, named ▸ List.mem_of_find?_eq_some found, can, rfl⟩

theorem cancelInTime_of_not (not : ∀ now, (b.id, now) ∈ selected → ¬ b.Cancellable now) : cancelInTime selected b = b := by
  rcases cancelInTime_cases selected b with ⟨same, -⟩ | ⟨now, listed, can, -⟩
  · exact same
  · exact absurd can (not now listed)

/-- Going through a list is cancelling its first booking if it can be, and then the others. -/
theorem cancelInTime_cons : cancelInTime selected (cancelIfListed [id] now b) = cancelInTime ((id, now) :: selected) b := by
  by_cases first : id = b.id ∧ b.Cancellable now
  · have listed : b.id ∈ [id] := List.mem_singleton.2 first.1.symm
    have gone : ∀ x, ¬ (cancelIfListed [id] now b).Cancellable x := by
      rw [cancelIfListed, if_pos ⟨listed, first.2⟩]
      rintro x ⟨active, -⟩
      cases active
    have found : decide (id = b.id ∧ b.Cancellable now) = true := decide_eq_true first
    rw [cancelInTime_of_not fun x _ => gone x, cancelIfListed, if_pos ⟨listed, first.2⟩, cancelInTime, List.find?_cons]
    simp only [found]
  · have same : cancelIfListed [id] now b = b := if_neg fun h => first ⟨(List.mem_singleton.1 h.1).symm, h.2⟩
    rw [same, cancelInTime, cancelInTime, List.find?_cons_of_neg (by simpa using first)]

theorem cancelEach_nil (t : Table) : t.cancelEach [] = t := by
  have asIs : t.bookings.map (cancelInTime []) = t.bookings := List.map_id _
  rw [cancelEach, asIs]

/-- Cancellations by staff, one after another, each with its own reading of the clock. -/
theorem serial_cancelling (selected : List (Int × Instant)) (t : Table) :
    (serial cancelling selected t).2 = t.cancelEach selected := by
  induction selected generalizing t with
  | nil => exact (cancelEach_nil t).symm
  | cons x selected ih =>
    simp only [serial, ih, cancelling, cancelEach, cancelListed, List.map_map]
    congr 1
    exact List.map_congr_left fun b _ => cancelInTime_cons

/-- Cancelling the stored booking of an id is going through the list of this id. -/
theorem cancelled_eq_cancelEach (keyed : t.Keyed) (hb : b ∈ t.bookings) (can : b.Cancellable now) :
    t.cancelled b.id now = t.cancelEach [(b.id, now)] :=
  (cancelled_eq_cancelListed keyed hb can).trans (serial_cancelling [(b.id, now)] t)

theorem refusal_missing (missing : ∀ b ∈ t.bookings, b.id ≠ id) :
    t.refusal now id = some (.reservationNotFound ("reservation " ++ toString id ++ " does not exist")) := by
  simp only [refusal, get_none.2 missing]

theorem refusal_stored (keyed : t.Keyed) (hb : b ∈ t.bookings) :
    t.refusal now b.id = if b.status = .active ∧ b.period.stop ≤ now then
      some (.reservationNotCancellable "the rental period has already ended") else none := by
  simp only [refusal, get_of_mem keyed hb]

/-- To staff, the block of `cancel` raises its refusal or returns, and cancels what it can. -/
theorem cancelStep_staff {actor : Customer} (staff : actor.isStaff = true) (keyed : t.Keyed) (id : Int)
    (now : Instant) : (∀ e, t.refusal now id = some e → (Memory.cancelStep t id actor now).1 = .error (.domain e)) ∧
      (t.refusal now id = none → ∃ b, (Memory.cancelStep t id actor now).1 = .ok b) ∧
      (Memory.cancelStep t id actor now).2 = t.cancelListed [id] now := by
  by_cases stored : ∃ b ∈ t.bookings, b.id = id
  · obtain ⟨b, hb, rfl⟩ := stored
    have managed : b.mayBeManagedBy actor = true := by
      rw [Booking.mayBeManagedBy, staff, Bool.true_or]
    have table : (if b.Cancellable now then t.cancelled b.id now else t) = t.cancelListed [b.id] now := by
      split
      · exact cancelled_eq_cancelListed keyed hb ‹_›
      · rename_i cannot
        refine (cancelListed_of_none fun a ha listed => ?_).symm
        rwa [List.inj_on_of_nodup_map keyed ha hb (List.mem_singleton.1 listed)]
    rw [cancelStep_managed keyed hb managed, refusal_stored keyed hb]
    rcases b.cancel_cases now with ⟨status, e⟩ | ⟨status, ended, e⟩ | ⟨status, running, e⟩ <;> rw [e]
    · rw [if_neg (by simp [status])]
      exact ⟨by simp, fun _ => ⟨b, rfl⟩, table⟩
    · rw [if_pos ⟨status, ended⟩]
      refine ⟨?_, by simp, table⟩
      intro e he
      cases he
      rfl
    · rw [if_neg (by simp [running])]
      exact ⟨by simp, fun _ => ⟨_, rfl⟩, table⟩
  · have missing : ∀ b ∈ t.bookings, b.id ≠ id := fun b hb e => stored ⟨b, hb, e⟩
    rw [refusal_missing missing, cancelStep_refused fun b hb e => absurd e (missing b hb)]
    refine ⟨?_, by simp, ?_⟩
    · intro e he
      cases he
      rfl
    · refine (cancelListed_of_none fun b hb listed => ?_).symm
      exact absurd (List.mem_singleton.1 listed) (missing b hb)

end

end Table

/-! ## The loop -/

namespace Selection

/-- What a list of answers comes to. -/
theorem foldl_note (answers : List (Int × Option DomainError)) (selection : Selection) :
    answers.foldl note selection =
      { cancelled := selection.cancelled + answers.countP (·.2.isNone)
        errors := selection.errors ++ answers.filterMap fun answer => answer.2.map (answer.1, ·) } := by
  induction answers generalizing selection with
  | nil => simp
  | cons answer answers ih =>
    obtain ⟨id, refusal⟩ := answer
    rw [List.foldl_cons, ih]
    cases refusal with
    | none => simp [note, Nat.add_assoc, Nat.add_comm]
    | some e => simp [note]

/-- An id is counted or reported. -/
theorem length_note (selection : Selection) (answer : Int × Option DomainError) :
    (selection.note answer).cancelled + (selection.note answer).errors.length =
      selection.cancelled + selection.errors.length + 1 := by
  obtain ⟨id, refusal⟩ := answer
  cases refusal with
  | none => simp only [note]; omega
  | some e => simp only [note, List.length_append, List.length_singleton]; omega

theorem length_foldl_note (answers : List (Int × Option DomainError)) (selection : Selection) :
    (answers.foldl note selection).cancelled + (answers.foldl note selection).errors.length =
      selection.cancelled + selection.errors.length + answers.length := by
  induction answers generalizing selection with
  | nil => rfl
  | cons answer answers ih =>
    have one := length_note selection answer
    rw [List.foldl_cons, ih, List.length_cons]
    omega

/-- In another order the count is the same, and so are the errors but for their order. -/
theorem foldl_note_perm {answers answers' : List (Int × Option DomainError)} (perm : answers.Perm answers') :
    (answers.foldl note {}).cancelled = (answers'.foldl note {}).cancelled ∧
      (answers.foldl note {}).errors.Perm (answers'.foldl note {}).errors := by
  simp only [foldl_note]
  exact ⟨congrArg _ (perm.countP_eq _), (perm.filterMap _).append_left _⟩

/-- An id that is refused is so as often as it is listed. -/
theorem errorsOf_foldl_note (refusal : Int → Option DomainError) (ids : List Int) (id : Int) :
    ((ids.map fun id => (id, refusal id)).foldl note {}).errorsOf id =
      (refusal id).elim [] (List.replicate (ids.count id)) := by
  rw [foldl_note, errorsOf]
  simp only [List.nil_append, List.filterMap_map, Function.comp_def]
  induction ids with
  | nil => cases refusal id <;> rfl
  | cons other ids ih =>
    by_cases same : other = id
    · subst same
      cases refused : refusal other with
      | none =>
        rw [refused] at ih
        simpa [refused] using ih
      | some e =>
        rw [refused] at ih
        simpa [refused, List.replicate_succ] using ih
    · cases refused : refusal other with
      | none => simpa [refused, same] using ih
      | some e => simpa [refused, same] using ih

end Selection

namespace Memory

variable {ι : Type} {sizes : FleetSizes} {policy : BookingPolicy} {actor : Customer} {now : Instant}

/-- One round, with nobody else in the way: a fleet lock that somebody holds is not. -/
theorem solo_cancelRound (staff : actor.isStaff = true) {m : Memory ι} (keyed : m.table.Keyed) (i : ι)
    (selection : Selection) (id : Int) :
    (memory ι).solo i ((memoryDesk sizes policy).cancelRound actor selection (id, now)).run m =
      some (.ok (selection.note (id, m.table.refusal now id)), ⟨m.table.cancelListed [id] now, m.holder⟩) := by
  have alone : (memory ι).solo i ((memoryDesk sizes policy).cancel id actor now).run m =
      some ((cancelStep m.table id actor now).1, ⟨(cancelStep m.table id actor now).2, m.holder⟩) :=
    solo_cancelBlock sizes i id actor now .ret m
  obtain ⟨refused, returned, table⟩ := Table.cancelStep_staff staff keyed id now
  show (memory ι).solo i (Prog.bind _ _) _ = _
  rw [Machine.solo_bind, alone, table]
  cases refusal : m.table.refusal now id with
  | none =>
    obtain ⟨b, e⟩ := returned refusal
    rw [e]
    rfl
  | some e =>
    rw [refused e refusal]
    rfl

/-- The loop is the cancellations one after another, whose answers are noted. -/
theorem solo_rounds (staff : actor.isStaff = true) {m : Memory ι} (keyed : m.table.Keyed) (i : ι)
    (selected : List (Int × Instant)) (selection : Selection) :
    (memory ι).solo i (selected.foldlM ((memoryDesk sizes policy).cancelRound actor) selection).run m =
      some (.ok ((serial Table.cancelling selected m.table).1.foldl Selection.note selection),
        ⟨m.table.cancelEach selected, m.holder⟩) := by
  rw [← Table.serial_cancelling]
  induction selected generalizing m selection with
  | nil => rfl
  | cons x selected ih =>
    rw [List.foldlM_cons, run_bind, Machine.solo_bind, solo_cancelRound staff keyed]
    exact ih (keyed.cancelListed [x.1] x.2) _

/-- Where the clock stands still, the whole loop is decided by the ledger as it was. -/
theorem solo_cancelSelected (staff : actor.isStaff = true) {m : Memory ι} (keyed : m.table.Keyed) (i : ι)
    (ids : List Int) :
    (memory ι).solo i ((memoryDesk sizes policy).cancelSelected actor (ids.map fun id => (id, now))).run m =
      some (.ok ((ids.map fun id => (id, m.table.refusal now id)).foldl Selection.note {}),
        ⟨m.table.cancelListed ids now, m.holder⟩) := by
  rw [ReservationDesk.cancelSelected, solo_rounds staff keyed, ← Table.serial_cancelling, serial_of_map,
    (Table.steady_cancelling now).serial_eq]
  rfl

/-- On any table, and whoever holds a fleet's lock: `cancel_selected` by a member of staff,
with the clock at `now` throughout, ends with precisely the listed bookings that were
active and not over cancelled, and every other booking as it was; every id on the list is
counted or reported; and in any other order of the list the table is the same, and so
are the count, the errors of each id and, but for their order, the messages. -/
theorem cancelSelected_exact (sizes : FleetSizes) (policy : BookingPolicy) {actor : Customer}
    (staff : actor.isStaff = true) (now : Instant) {m : Memory ι} (keyed : m.table.Keyed) (i : ι) (ids : List Int) :
    ∃ selection, (memory ι).solo i
          ((memoryDesk sizes policy).cancelSelected actor (ids.map fun id => (id, now))).run m =
        some (.ok selection, ⟨m.table.cancelListed ids now, m.holder⟩) ∧
      selection.cancelled + selection.errors.length = ids.length ∧
      ∀ ids', ids.Perm ids' → ∃ selection',
        (memory ι).solo i ((memoryDesk sizes policy).cancelSelected actor (ids'.map fun id => (id, now))).run m =
          some (.ok selection', ⟨m.table.cancelListed ids now, m.holder⟩) ∧
        selection'.cancelled = selection.cancelled ∧ (∀ id, selection'.errorsOf id = selection.errorsOf id) ∧
        selection'.messages.Perm selection.messages := by
  refine ⟨_, solo_cancelSelected staff keyed i ids, ?_, ?_⟩
  · rw [Selection.length_foldl_note, List.length_map]
    exact Nat.zero_add _
  · intro ids' perm
    have table : m.table.cancelListed ids' now = m.table.cancelListed ids now :=
      (Table.steady_cancelling now).effect_perm perm.symm m.table
    obtain ⟨count, errors⟩ := Selection.foldl_note_perm (perm.symm.map fun id => (id, m.table.refusal now id))
    refine ⟨_, by rw [← table]; exact solo_cancelSelected staff keyed i ids', count, ?_, ?_⟩
    · intro id
      rw [Selection.errorsOf_foldl_note, Selection.errorsOf_foldl_note, perm.count_eq]
    · rw [Selection.messages, Selection.messages, count]
      exact (errors.map _).append_right _

/-- The rental of day 1, and two of days 4 to 6, one of them cancelled. -/
def dayThree : Table where
  bookings :=
    [{ id := 1, customerId := 7, carType := .sedan, period := (springReserve .sedan).period,
       idempotencyKey := springKey },
     { id := 2, customerId := 8, carType := .van, period := ⟨Timedelta.days 4, Timedelta.days 6, by decide⟩,
       idempotencyKey := springKey },
     { id := 3, customerId := 9, carType := .van, period := ⟨Timedelta.days 4, Timedelta.days 6, by decide⟩,
       idempotencyKey := springKey, status := .cancelled, cancelledAt := some 0 }]
  ids := 4

def clerk : Customer := { id := 9, isStaff := true }

/-- The clerk selects all of them, one twice, and one that does not exist. -/
theorem cancelSelected_exact_dayThree : ∃ selection,
    (memory Unit).solo () ((memoryDesk oneEach {}).cancelSelected clerk
      ([2, 1, 3, 2, 9].map fun id => (id, Timedelta.days 3))).run (.at Unit dayThree) =
      some (.ok selection, .at Unit (dayThree.cancelListed [2, 1, 3, 2, 9] (Timedelta.days 3))) ∧
    selection.cancelled = 3 ∧ selection.errors.map (·.1) = [1, 9] ∧ selection.cancelled + selection.errors.length = 5 := by
  have staff : clerk.isStaff = true := rfl
  have keyed : (Memory.at Unit dayThree).table.Keyed := by decide
  obtain ⟨selection, run, all, -⟩ := cancelSelected_exact oneEach {} staff (Timedelta.days 3) keyed () [2, 1, 3, 2, 9]
  have computed : (memory Unit).solo () ((memoryDesk oneEach {}).cancelSelected clerk
      ([2, 1, 3, 2, 9].map fun id => (id, Timedelta.days 3))).run (.at Unit dayThree) = some (.ok
        { cancelled := 3
          errors := [(1, .reservationNotCancellable "the rental period has already ended"),
            (9, .reservationNotFound "reservation 9 does not exist")] },
        .at Unit (dayThree.cancelListed [2, 1, 3, 2, 9] (Timedelta.days 3))) := rfl
  rw [computed] at run
  cases run
  exact ⟨_, computed, rfl, rfl, all⟩

end Memory

end VehicleRentals
