import VehicleRentals.Postgres.Bookings
import VehicleRentals.Postgres.Overbooking

/-!
# What was true when

A call's answer speaks of the tables as they were at one of its own steps, and a
fleet's usage of the size the fleet had when the last booking was let in. So an
exception has its `Grounds` in the tables some step of the call has seen, a count of
free cars is that of tables it has seen (`counted`), and however fleets are edited no
instant has more cars out than the fleet once had.
-/

namespace VehicleRentals

open Concurrent

/-- There is no such fleet. -/
def Tables.NoFleet (t : Tables) (carType : CarType) : Prop := ∀ fleet ∈ t.carTypes, fleet.name ≠ carType.value

/-- The row was booked under the call's key. -/
def ReservationRow.UnderKey (row : ReservationRow) (r : Reserve) : Prop :=
  row.userId = r.customer.id ∧ row.idempotencyKey = r.idempotencyKey

/-- The row is for the car type and the period of the call. -/
def Tables.For (t : Tables) (row : ReservationRow) (r : Reserve) : Prop :=
  (t.carTypeOf row).map (·.name) = some r.carType.value ∧ row.startAt = r.period.start ∧ row.endAt = r.period.stop

/-- `n` cars of the fleet are free throughout the period, and at some instant of it no more. -/
def Tables.Free (t : Tables) (fleet : CarTypeRow) (P : RentalPeriod) (n : Int) : Prop :=
  IsLeast {k : Int | ∃ x, P.Covers x ∧ k = max 0 ((fleet.fleetSize : Int) - t.usage fleet.id x)} n

/-- What the tables have to be like for a call to raise an exception. -/
inductive Grounds (t : Tables) : Job → Exn → Prop where
  | malformed {r : Reserve} {e : Exn} : IdempotencyKey.new r.idempotencyKey = .error e → Grounds t (.call (.reserve r)) e
  | noFleet {r : Reserve} : t.NoFleet r.carType → Grounds t (.call (.reserve r)) (carTypeNotFound r.carType)
  | keyUsed {r : Reserve} {row : ReservationRow} : row ∈ t.reservations → row.UnderKey r → ¬ t.For row r →
      Grounds t (.call (.reserve r)) idempotencyConflict
  | policy {r : Reserve} {e : Exn} : (∀ row ∈ t.reservations, ¬ row.UnderKey r) →
      r.policy.validate r.period r.now = .error e → Grounds t (.call (.reserve r)) e
  | full {r : Reserve} {fleet : CarTypeRow} {x : Instant} : fleet ∈ t.carTypes → fleet.name = r.carType.value →
      r.period.Covers x → fleet.fleetSize ≤ t.usage fleet.id x →
      Grounds t (.call (.reserve r)) (noAvailability r.carType r.period)
  | notTheirs {id : Int} {actor : Customer} {now : Instant} :
      (∀ row ∈ t.reservations, row.id = id → row.userId ≠ actor.id ∧ actor.isStaff = false) →
      Grounds t (.call (.cancel id actor now)) (reservationNotFound id)
  | ended {actor : Customer} {now : Instant} {row : ReservationRow} : row ∈ t.reservations →
      (actor.isStaff = true ∨ actor.id = row.userId) → row.status = BookingStatus.active.value → row.endAt ≤ now →
      Grounds t (.call (.cancel row.id actor now))
        (.domain (.reservationNotCancellable "the rental period has already ended"))
  | refused {policy : BookingPolicy} {T : CarType} {P : RentalPeriod} {now : Instant} {e : Exn} :
      policy.validate P now = .error e → Grounds t (.call (.availability policy T P now)) e
  | noSchedule {policy : BookingPolicy} {T : CarType} {P : RentalPeriod} {now : Instant} : t.NoFleet T →
      Grounds t (.call (.availability policy T P now)) (carTypeNotFound T)

namespace Postgres

/-- The phase ends with this exception, or has. -/
def Phase.Fails (e : Exn) : Phase → Prop
  | .ending _ x _ => x = .error e
  | .done x => x = .error e
  | _ => False

variable {ι : Type} {engine : Engine} {jobs : ι → Job} {users : List Int} {fleetId : CarType → Int} {st : Store ι} {db : Db ι}
  {i : ι} {w : Option Wait} {ph ph' : Phase} {st' : Store ι} {job : Job} {e : Exn}

theorem underKey_iff (fleetId : CarType → Int) {r : Reserve} {key : IdempotencyKey} (parsed : IdempotencyKey.new r.idempotencyKey = .ok key)
    (b : Booking) : (encode fleetId b).UnderKey r ↔ b.HasKey r.customer.id key := by
  rw [ReservationRow.UnderKey, ← IdempotencyKey.value_of_new parsed]
  exact and_congr Iff.rfl key_inj

section Tables

variable (mirrors : Mirrors users fleetId st db)

include mirrors

theorem noFleet_of_sizes {T : CarType} (missing : st.sizes T = none) : db.tables.NoFleet T := by
  have found := mirrors.named T
  rw [missing] at found
  intro fleet hfleet name
  exact absurd (beq_iff_eq.2 name) (List.find?_eq_none.1 found fleet hfleet)

theorem mem_rows {b : Booking} (hb : b ∈ st.table.bookings) : encode fleetId b ∈ db.tables.reservations := by
  rw [mirrors.rows]
  exact List.mem_map_of_mem hb

theorem unused_of_findByKey {r : Reserve} {key : IdempotencyKey} (parsed : IdempotencyKey.new r.idempotencyKey = .ok key)
    (unused : ∀ b ∈ st.table.bookings, ¬ b.HasKey r.customer.id key) :
    ∀ row ∈ db.tables.reservations, ¬ row.UnderKey r := by
  intro row hrow
  rw [mirrors.rows] at hrow
  obtain ⟨b, hb, rfl⟩ := List.mem_map.1 hrow
  rw [underKey_iff fleetId parsed]
  exact unused b hb

theorem for_iff {b : Booking} (hb : b ∈ st.table.bookings) (r : Reserve) :
    db.tables.For (encode fleetId b) r ↔ b.isFor r.carType r.period = true := by
  obtain ⟨n, size⟩ := Option.isSome_iff_exists.1 (mirrors.known b hb)
  have row : db.tables.carTypeOf (encode fleetId b) = some (fleetRow fleetId b.carType n) := mirrors.withId _ n size
  rw [Tables.For, row, Booking.isFor_iff, RentalPeriod.ext_iff]
  refine and_congr ?_ Iff.rfl
  rw [Option.map_some, Option.some_inj]
  exact CarType.value_inj

/-- Another booking has the key. -/
theorem grounds_replay {r : Reserve} {key : IdempotencyKey} (isJob : (Block.reserve r key).Of job) {b : Booking}
    (hb : b ∈ st.table.bookings) (hk : b.HasKey r.customer.id key)
    (fails : reserved (replay b r.carType r.period) = .error e) : Grounds db.tables job e := by
  unfold replay at fails
  split at fails
  · cases fails
  · cases fails
    rw [isJob.1]
    refine .keyUsed (mem_rows mirrors hb) ((underKey_iff fleetId isJob.2 b).2 hk) ?_
    rwa [for_iff mirrors hb]

/-- There is no such booking, or it is somebody else's. -/
theorem notTheirs_of_get {id : Int} {actor : Customer}
    (others : ∀ b ∈ st.table.bookings, b.id = id → b.mayBeManagedBy actor = false) :
    ∀ row ∈ db.tables.reservations, row.id = id → row.userId ≠ actor.id ∧ actor.isStaff = false := by
  intro row hrow same
  rw [mirrors.rows] at hrow
  obtain ⟨b, hb, rfl⟩ := List.mem_map.1 hrow
  have refused := others b hb same
  simp only [Booking.mayBeManagedBy, Bool.or_eq_false_iff, beq_eq_false_iff_ne] at refused
  exact ⟨refused.2.symm, refused.1⟩

/-- At some instant of the period every car is out. -/
theorem grounds_full {r : Reserve} {key : IdempotencyKey} {size : Nat} (isJob : (Block.reserve r key).Of job)
    (hsize : st.sizes r.carType = some size)
    (full : ¬ FleetSchedule.canAccommodate { fleetSize := size, booked := st.table.bookedDuring r.carType r.period }
      r.period = true) : Grounds db.tables job (noAvailability r.carType r.period) := by
  rw [Table.canAccommodate_iff] at full
  push Not at full
  obtain ⟨x, hx, out⟩ := full
  rw [← mirrors.usage (Option.isSome_iff_exists.2 ⟨_, hsize⟩)] at out
  rw [isJob.1]
  exact .full (mirrors.fleet_mem hsize) rfl hx out

end Tables

/-! ## A step that raises -/

theorem grounds_invoked (t : Tables) (fails : (invoked job).Fails e) : Grounds t job e := by
  rcases job with (r | _ | ⟨policy, T, P, now⟩ | _) | _
  · simp only [invoked] at fails
    cases parsed : IdempotencyKey.new r.idempotencyKey with
    | error e' =>
      rw [parsed] at fails
      cases fails
      exact .malformed parsed
    | ok key =>
      rw [parsed] at fails
      cases fails
  · cases fails
  · simp only [invoked] at fails
    cases valid : policy.validate P now with
    | error e' =>
      rw [valid] at fails
      cases fails
      exact .refused valid
    | ok _ =>
      rw [valid] at fails
      cases fails
  · cases fails
  · cases fails

/-- What a wait that runs out raises in a job that has it: `_lock` tells the caller to try
again, the other waits are left as the database reports them. -/
def Wait.raises : Wait → Job → Option Exn
  | .fleet, .call (.reserve _) => some fleetBusy
  | .fleet, .edit .. => some timedOut
  | .key, .call (.reserve _) => some timedOut
  | .booking, .call (.cancel ..) => some timedOut
  | _, _ => none

/-- The user of a commit that is refused does not exist. -/
def NoUser (users : List Int) (job : Job) : Prop := ∃ r, job = .call (.reserve r) ∧ r.customer.id ∉ users

variable [DecidableEq ι]

/-- Why a step raises: a wait ran out in it, the user does not exist, or the
tables give grounds. -/
theorem Advance.reason (h : Advance engine users i w ph st ph' st') (mirrors : Mirrors users fleetId st db)
    (inv : Store.Inv engine st) (ok : PhaseOk i st job ph) (before : ¬ ph.Fails e) (fails : ph'.Fails e)
    (kept : e ≠ .duplicateIdempotencyKey) :
    (∃ ranOut, w = some ranOut ∧ ranOut.raises job = some e) ∨ (e = userMissing ∧ NoUser users job) ∨
      Grounds db.tables job e := by
  cases h with
  | noFleet missing =>
    cases fails
    rw [ok.1]
    exact .inr (.inr (.noFleet (noFleet_of_sizes mirrors missing)))
  | @look r key size st =>
    obtain ⟨isJob, -⟩ := ok
    refine .inr (.inr ?_)
    cases found : st.table.findByKey r.customer.id key with
    | some existing =>
      obtain ⟨hb, hk⟩ := Table.findByKey_some found
      rw [found] at fails
      exact grounds_replay mirrors isJob hb hk fails
    | none =>
      rw [found] at fails
      simp only [afterLook] at fails
      cases valid : r.policy.validate r.period r.now with
      | error e' =>
        rw [valid] at fails
        cases fails
        rw [isJob.1]
        exact .policy (unused_of_findByKey mirrors isJob.2 (Table.findByKey_none.1 found)) valid
      | ok _ =>
        rw [valid] at fails
        cases fails
  | @schedule r key size st =>
    obtain ⟨isJob, fleet, -⟩ := ok
    refine .inr (.inr ?_)
    unfold afterSchedule at fails
    split_ifs at fails with fits
    · cases fails
    · cases fails
      exact grounds_full mirrors isJob fleet.2 fits
  | addLost taken =>
    cases fails
    exact absurd rfl kept
  | @retry r key st =>
    obtain ⟨isJob, b, hb, hk⟩ := ok
    rw [Table.findByKey_of_mem inv.stored.keys hb hk] at fails
    exact .inr (.inr (grounds_replay mirrors isJob hb hk fails))
  | @lockBooking b actor now st found free =>
    obtain ⟨hb, -⟩ := Table.get_some found
    refine .inr (.inr ?_)
    rw [show job = _ from ok]
    simp only [afterFound] at fails
    split_ifs at fails with managed gone ended
    · cases fails
    · cases fails
      refine .ended (mem_rows mirrors hb) ?_ ?_ ended
      · show actor.isStaff = true ∨ actor.id = b.customerId
        simpa [Booking.mayBeManagedBy] using managed
      · exact value_inj_status.2 (Booking.isCancelled_eq_false.1 (Bool.eq_false_of_not_eq_true gone))
    · cases fails
    · cases fails
      refine .notTheirs (notTheirs_of_get mirrors fun a ha same => ?_)
      obtain rfl := List.inj_on_of_nodup_map inv.stored.ids ha hb same
      simpa using managed
  | noBooking missing =>
    cases fails
    rw [show job = _ from ok]
    refine .inr (.inr (.notTheirs (notTheirs_of_get mirrors fun a ha same => ?_)))
    exact absurd same (Table.get_none.1 missing a ha)
  | @refuse block reply c st refused =>
    cases fails
    obtain ⟨isJob, ended⟩ := ok
    cases c with
    | book b =>
      obtain ⟨r, key, rfl, -, hasKey, -⟩ := ended
      refine .inr (.inl ⟨rfl, r, isJob.1, ?_⟩)
      rw [← hasKey.1]
      exact refused
    | _ => exact absurd trivial refused
  | @rollback block e' change st =>
    by_cases lost : e' = .duplicateIdempotencyKey
    · subst lost
      cases block with
      | reserve r key => cases fails
      | _ =>
        cases fails
        exact absurd rfl kept
    · rw [afterFail_of_ne block lost] at fails
      exact absurd fails before
  | notFound missing =>
    obtain ⟨policy, now, isJob⟩ := ok
    cases fails
    rw [isJob]
    exact .inr (.inr (.noSchedule (noFleet_of_sizes mirrors missing)))
  | fleetBusy =>
    cases fails
    rw [ok.1]
    exact .inl ⟨_, rfl, rfl⟩
  | addBusy =>
    cases fails
    rw [ok.1.1]
    exact .inl ⟨_, rfl, rfl⟩
  | bookingBusy | resizeBusy =>
    cases fails
    rw [show job = _ from ok]
    exact .inl ⟨_, rfl, rfl⟩
  | _ => cases fails

/-- A run, with the state of the protocol beside it. -/
theorem exists_along {t : Tables} (fresh : NoBookings t) {drawn : Int} {P : Jobs ι → Label Sql ι → Prop} {ls : List (Label Sql ι)}
    {c : Jobs ι}
    (run : Run (fun a l b => Step (postgres engine ι) (code jobs) a l b ∧ P a l) (Pool.start (Db.quiet t drawn)) ls c) :
    ∃ s, Run (fun (a : Jobs ι × State ι) l (b : Jobs ι × State ι) =>
        (Step (postgres engine ι) (code jobs) a.1 l b.1 ∧ P a.1 l) ∧ Moves engine jobs t.users a.2 (l.thread, waitOf l) b.2 ∧
        Stands engine jobs t.users (fleetIdOf t) a.1 a.2) (Pool.start (Db.quiet t drawn), State.start ι t drawn) ls (c, s) ∧
      Stands engine jobs t.users (fleetIdOf t) c s := by
  refine run.beside (fun a l b => Moves engine jobs t.users a (Label.thread l, waitOf l) b)
    (Stands engine jobs t.users (fleetIdOf t)) ?_ (stands_start fresh engine jobs drawn)
  intro _ _ _ _ stands hs
  exact step_moves stands hs.1

/-- The step that raised the exception a job ends with. -/
theorem exists_reason {t : Tables} (fresh : NoBookings t) {drawn : Int} {P : Jobs ι → Label Sql ι → Prop} {ls : List (Label Sql ι)}
    {c : Jobs ι} (run : Run (fun a l b => Step (postgres engine ι) (code jobs) a l b ∧ P a l) (Pool.start (Db.quiet t drawn)) ls c)
    {i : ι} {e : Exn} (raised : (c.thread i).result = some (.error e)) :
    Run.Takes (fun a l b => Step (postgres engine ι) (code jobs) a l b ∧ P a l) (Pool.start (Db.quiet t drawn)) ls c
      fun a l _ => l.thread = i ∧ ((∃ ranOut, waitOf l = some ranOut ∧ ranOut.raises (jobs i) = some e) ∨
        (e = userMissing ∧ NoUser t.users (jobs i)) ∨
        Grounds a.shared.tables (jobs i) e ∧ (l.event = none → ∀ tables, Grounds tables (jobs i) e)) := by
  have kept : e ≠ .duplicateIdempotencyKey := by
    obtain ⟨s, accounted, stands⟩ := accounted_of_run fresh (run.mono fun _ _ _ h => h.1)
    have vouches := accounted.vouches i
    rw [(phase_of_result stands).1 raised] at vouches
    exact vouches
  obtain ⟨s, along, stands⟩ := exists_along fresh run
  have fails : (s.phase i).Fails e := by
    rw [(phase_of_result stands).1 raised]
    rfl
  -- the step that first raises it
  obtain ⟨⟨a, s₁⟩, ⟨b, s₂⟩, ls₁, l, ls₂, rfl, first, ⟨hs, moved, there⟩, last, before, after⟩ :=
    along.exists_change (P := fun a => (a.2.phase i).Fails e) (fun idle => idle.elim) fails
  have own : l.thread = i := by
    by_contra ne
    exact before (moved.frame (Ne.symm ne) ▸ after)
  subst own
  have inv := there.inv
  refine ⟨ls₁, l, ls₂, a, b, rfl, first.fst fun _ _ _ h => h.1, hs, last.fst fun _ _ _ h => h.1, rfl, ?_⟩
  rcases moved.own with ⟨-, -, phase⟩ | step
  · rw [phase] at after
    exact .inr (.inr ⟨grounds_invoked _ after, fun _ _ => grounds_invoked _ after⟩)
  · rcases step.reason there.mirrors inv.store (inv.phases _) before after kept with waited | missing | grounds
    · exact .inl waited
    · exact .inr (.inl missing)
    · refine .inr (.inr ⟨grounds, fun none => ?_⟩)
      cases hs.1 with
      | invoke idle =>
        rw [there.threads] at idle
        rw [Phase.thread_eq_idle idle] at step
        cases step
      | act => cases none

/-- Every exception a job ends with has a reason: one of its waits ran out and raised it,
its user does not exist, or the tables gave grounds for it at one of the job's own steps. -/
theorem raised_with_reason (engine : Engine) (jobs : ι → Job) {t : Tables} (fresh : NoBookings t) (drawn : Int)
    {ls : List (Label Sql ι)} {c : Jobs ι}
    (run : Run (Step (postgres engine ι) (code jobs)) (Pool.start (Db.quiet t drawn)) ls c) {i : ι} {e : Exn}
    (raised : (c.thread i).result = some (.error e)) :
    (∃ l ∈ ls, l.thread = i ∧ ∃ ranOut, waitOf l = some ranOut ∧ ranOut.raises (jobs i) = some e) ∨
      (e = userMissing ∧ NoUser t.users (jobs i)) ∨
      ∃ ls₁ l ls₂ a, ls = ls₁ ++ l :: ls₂ ∧ l.thread = i ∧
        Run (Step (postgres engine ι) (code jobs)) (Pool.start (Db.quiet t drawn)) ls₁ a ∧
        Grounds a.shared.tables (jobs i) e := by
  obtain ⟨ls₁, l, ls₂, a, b, rfl, first, -, -, own, waited | missing | ⟨grounds, -⟩⟩ :=
    exists_reason (P := fun _ _ => True) fresh (run.mono fun _ _ _ h => ⟨h, trivial⟩) raised
  · exact .inl ⟨l, List.mem_append_right _ List.mem_cons_self, own, waited⟩
  · exact .inr (.inl missing)
  · exact .inr (.inr ⟨ls₁, l, ls₂, a, rfl, own, first.mono fun _ _ _ h => h.1, grounds⟩)

/-! ## What a count of free cars counts -/

/-- The steps of `availability`: it reads the size of the fleet, and then its bookings. -/
theorem Advance.availability {policy : BookingPolicy} {T : CarType} {P : RentalPeriod} {now : Instant}
    (h : Advance engine users i w ph st ph' st') (ok : PhaseOk i st (.call (.availability policy T P now)) ph) :
    (∃ size, ph = .finding T P ∧ st.sizes T = some size ∧ ph' = .counting T P size) ∨
    (ph = .finding T P ∧ ph' = .done (.error (carTypeNotFound T))) ∨
    ∃ size, ph = .counting T P size ∧ (st.sizes T).isSome = true ∧ ph' = .done (.ok (some (.free
      (FleetSchedule.remaining { fleetSize := size, booked := st.table.bookedDuring T P } P)))) := by
  have noBlock : ∀ {block : Block}, ¬ block.Of (.call (.availability policy T P now)) := by
    intro block isJob
    cases block with
    | reserve r key => cases isJob.1
    | cancel id actor now => cases isJob
    | edit T n => cases isJob
  cases ph with
  | finding T' P' =>
    obtain ⟨_, _, isJob⟩ := ok
    cases isJob
    cases h with
    | find known => exact .inl ⟨_, rfl, known, rfl⟩
    | notFound => exact .inr (.inl ⟨rfl, rfl⟩)
  | counting T' P' size =>
    obtain ⟨⟨_, _, isJob⟩, known⟩ := ok
    cases isJob
    cases h with
    | count => exact .inr (.inr ⟨size, rfl, known, rfl⟩)
  | idle | done => cases h
  | listing => cases show Job.call _ = Job.call _ from ok
  | opening block => exact absurd ok noBlock
  | _ => exact absurd ok.1 noBlock

omit [DecidableEq ι] in
theorem free_of_remaining (mirrors : Mirrors users fleetId st db) {T : CarType} (known : (st.sizes T).isSome = true)
    (P : RentalPeriod) (size : Nat) :
    db.tables.Free (fleetRow fleetId T size) P
      (FleetSchedule.remaining { fleetSize := size, booked := st.table.bookedDuring T P } P) := by
  have least := st.table.remaining_isLeast T size P
  simp only [← mirrors.usage known] at least
  exact least

/-- The two steps in which `availability` comes to its count. -/
theorem exists_count {t : Tables} (fresh : NoBookings t) {drawn : Int} {Q : Jobs ι → Label Sql ι → Prop} {ls : List (Label Sql ι)}
    {c : Jobs ι} (run : Run (fun a l b => Step (postgres engine ι) (code jobs) a l b ∧ Q a l) (Pool.start (Db.quiet t drawn)) ls c)
    {i : ι} {policy : BookingPolicy} {T : CarType} {P : RentalPeriod} {now : Instant} {n : Int}
    (asked : jobs i = .call (.availability policy T P now)) (returned : (c.thread i).result = some (.ok (some (.free n)))) :
    ∃ ls₁ l ls₂ l' ls₃ a b fleet, ls = ls₁ ++ l :: ls₂ ++ l' :: ls₃ ∧ l.thread = i ∧ l'.thread = i ∧ l'.event ≠ none ∧
      Run (fun a l b => Step (postgres engine ι) (code jobs) a l b ∧ Q a l) (Pool.start (Db.quiet t drawn)) ls₁ a ∧
      Run (fun a l b => Step (postgres engine ι) (code jobs) a l b ∧ Q a l) a (l :: ls₂) b ∧
      Run (fun a l b => Step (postgres engine ι) (code jobs) a l b ∧ Q a l) b (l' :: ls₃) c ∧
      fleet ∈ a.shared.tables.carTypes ∧ fleet.name = T.value ∧ b.shared.tables.Free fleet P n ∧
      ((∀ j m, jobs j ≠ .edit T m) → fleet ∈ b.shared.tables.carTypes) := by
  obtain ⟨s, along, stands⟩ := exists_along fresh run
  obtain ⟨⟨b, s₁⟩, ⟨b', s₂⟩, ls', l', ls₃, rfl, first, ⟨hs', moved', there'⟩, last, before', after'⟩ :=
    along.exists_change (P := fun a => a.2.phase i = .done (.ok (some (.free n)))) (fun idle => by cases idle)
      ((phase_of_result stands).1 returned)
  have own' : l'.thread = i := by
    by_contra ne
    exact before' (moved'.frame (Ne.symm ne) ▸ after')
  subst own'
  have ok := there'.inv.phases l'.thread
  rw [asked] at ok
  -- the step that counts
  obtain ⟨size, counting, known, count⟩ : ∃ size, s₁.phase l'.thread = .counting T P size ∧ (s₁.store.sizes T).isSome = true ∧
      n = FleetSchedule.remaining { fleetSize := size, booked := s₁.store.table.bookedDuring T P } P := by
    rcases moved'.own with ⟨-, -, phase⟩ | step
    · rw [after', asked] at phase
      simp only [invoked] at phase
      split at phase <;> cases phase
    · rw [after'] at step
      rcases step.availability ok with ⟨_, -, -, e⟩ | ⟨-, e⟩ | ⟨size, here, known, e⟩
      · cases e
      · cases e
      · cases e
        exact ⟨size, here, known, rfl⟩
  -- the step that read the size
  obtain ⟨⟨a, s₀⟩, ⟨a', s₀'⟩, ls₁, l, ls₂, rfl, begun, ⟨hs, moved, there⟩, mid, before, after⟩ :=
    first.exists_change (P := fun a => a.2.phase l'.thread = .counting T P size) (fun idle => by cases idle) counting
  have own : l.thread = l'.thread := by
    by_contra ne
    exact before (moved.frame (Ne.symm ne) ▸ after)
  have read : s₀.store.sizes T = some size := by
    have ok := there.inv.phases l.thread
    rw [own, asked] at ok
    rw [← own] at after
    rcases moved.own with ⟨-, -, phase⟩ | step
    · rw [after, own, asked] at phase
      simp only [invoked] at phase
      split at phase <;> cases phase
    · rw [after, own] at step
      rcases step.availability ok with ⟨_, -, known, e⟩ | ⟨-, e⟩ | ⟨_, -, -, e⟩
      · cases e
        exact known
      · cases e
      · cases e
  have executes : l'.event ≠ none := by
    cases hs'.1 with
    | invoke idle =>
      rw [there'.threads, counting] at idle
      cases idle
    | act => simp
  refine ⟨ls₁, l, ls₂, l', ls₃, a, b, fleetRow (fleetIdOf t) T size, rfl, own, rfl, executes, begun.fst fun _ _ _ h => h.1,
    .cons hs (mid.fst fun _ _ _ h => h.1), .cons hs' (last.fst fun _ _ _ h => h.1), there.mirrors.fleet_mem read, rfl,
    count ▸ free_of_remaining there'.mirrors known P size, fun unedited => ?_⟩
  have kept : s₁.store.sizes T = some size := by
    refine mid.invariant (I := fun a => a.2.store.sizes T = some size) ?_ ((moved.sizes_kept there.inv unedited).trans read)
    intro _ _ _ same h
    exact (h.2.1.sizes_kept h.2.2.inv unedited).trans same
  exact there'.mirrors.fleet_mem kept

/-- What `availability` returns is right for the bookings at its second step and the size
its fleet had at its first; and if nobody edits the fleet, at its second. -/
theorem counted (engine : Engine) (jobs : ι → Job) {t : Tables} (fresh : NoBookings t) (drawn : Int)
    {ls : List (Label Sql ι)} {c : Jobs ι}
    (run : Run (Step (postgres engine ι) (code jobs)) (Pool.start (Db.quiet t drawn)) ls c)
    {i : ι} {policy : BookingPolicy} {T : CarType} {P : RentalPeriod} {now : Instant} {n : Int}
    (asked : jobs i = .call (.availability policy T P now)) (returned : (c.thread i).result = some (.ok (some (.free n)))) :
    ∃ ls₁ l ls₂ l' ls₃ a b fleet, ls = ls₁ ++ l :: ls₂ ++ l' :: ls₃ ∧ l.thread = i ∧ l'.thread = i ∧
      Run (Step (postgres engine ι) (code jobs)) (Pool.start (Db.quiet t drawn)) ls₁ a ∧
      Run (Step (postgres engine ι) (code jobs)) a (l :: ls₂) b ∧ Run (Step (postgres engine ι) (code jobs)) b (l' :: ls₃) c ∧
      fleet ∈ a.shared.tables.carTypes ∧ fleet.name = T.value ∧ b.shared.tables.Free fleet P n ∧
      ((∀ j m, jobs j ≠ .edit T m) → fleet ∈ b.shared.tables.carTypes) := by
  have plain : ∀ {a b : Jobs ι} {ls : List (Label Sql ι)},
      Run (fun a l b => Step (postgres engine ι) (code jobs) a l b ∧ True) a ls b →
        Run (Step (postgres engine ι) (code jobs)) a ls b := fun h => h.mono fun _ _ _ hs => hs.1
  obtain ⟨ls₁, l, ls₂, l', ls₃, a, b, fleet, split, own, own', -, first, mid, last, rest⟩ :=
    exists_count (Q := fun _ _ => True) fresh (run.mono fun _ _ _ h => ⟨h, trivial⟩) asked returned
  exact ⟨ls₁, l, ls₂, l', ls₃, a, b, fleet, split, own, own', plain first, plain mid, plain last, rest⟩

omit [DecidableEq ι] in
/-- The bookings of a type are rows of its fleet. -/
theorem usage_le_rows (mirrors : Mirrors users fleetId st db) (T : CarType) (x : Instant) :
    st.table.usage T x ≤ db.tables.usage (fleetId T) x := by
  unfold Tables.usage Table.usage
  rw [mirrors.rows, List.countP_map]
  refine List.countP_mono_left fun b _ out => ?_
  obtain ⟨type, active, covers⟩ := of_decide_eq_true out
  exact decide_eq_true ⟨congrArg fleetId type, value_inj_status.2 active, covers⟩

/-- A step after which more cars are out has let a booking in, and it fitted. -/
theorem fits_of_raised (h : Store.Step engine i st st') (inv : Store.Inv engine st) {T : CarType} {x : Instant}
    (raised : st.table.usage T x < st'.table.usage T x) :
    ∃ n, st'.sizes T = some n ∧ st'.table.usage T x ≤ n := by
  rcases h.effect inv with ⟨same, -, -⟩ | ⟨c, -, ok, rfl⟩
  · simp only [Table.usage, same, lt_irrefl] at raised
  · cases c with
    | book b =>
      have appended : (st.table.append b).usage T x = _ := st.table.usage_append b T x
      by_cases out : b.carType = T ∧ b.status = .active ∧ b.period.Covers x
      · obtain ⟨rfl, -, covers⟩ := out
        obtain ⟨n, size, room⟩ := usage_committed ok
        exact ⟨n, size, room x covers⟩
      · rw [if_neg out] at appended
        exact absurd raised (not_lt.2 appended.le)
    | cancel id now => exact absurd raised (not_lt.2 (st.table.usage_cancelled_le id now T x))
    | resize T' n => exact absurd raised (lt_irrefl _)

/-- However fleets are edited: at no instant does a type have more cars out than its
committed fleet once had, at some state of the run up to here. -/
theorem usage_le_some_size (engine : Engine) (jobs : ι → Job) {t : Tables} (fresh : NoBookings t) (drawn : Int)
    {ls : List (Label Sql ι)} {c : Jobs ι}
    (run : Run (Step (postgres engine ι) (code jobs)) (Pool.start (Db.quiet t drawn)) ls c) {fleet : CarTypeRow}
    (hfleet : fleet ∈ c.shared.tables.carTypes) (x : Instant) :
    ∃ ls₁ ls₂ a once, ls = ls₁ ++ ls₂ ∧ Run (Step (postgres engine ι) (code jobs)) (Pool.start (Db.quiet t drawn)) ls₁ a ∧
      Run (Step (postgres engine ι) (code jobs)) a ls₂ c ∧ once ∈ a.shared.tables.carTypes ∧ once.id = fleet.id ∧
      c.shared.tables.usage fleet.id x ≤ once.fleetSize := by
  by_cases unused : c.shared.tables.usage fleet.id x = 0
  · exact ⟨ls, [], c, fleet, (List.append_nil ls).symm, run, .nil c, hfleet, rfl, unused ▸ Nat.zero_le _⟩
  -- the step that last reached this usage let a booking in, which fitted
  obtain ⟨a, b, ls₁, l, ls₂, rfl, first, step, rest, before, after⟩ :=
    run.exists_change (P := fun a => c.shared.tables.usage fleet.id x ≤ a.shared.tables.usage fleet.id x)
      (by rw [show (Pool.start (Db.quiet t drawn)).shared.tables.usage fleet.id x = 0 from by
        simp [Tables.usage, Pool.start, Db.quiet, fresh.empty]]; omega) (le_refl _)
  obtain ⟨s, -, stands⟩ := run_stands (stands_start fresh engine jobs drawn) first
  obtain ⟨s', moved, stands'⟩ := step_moves stands step
  by_cases known : ∃ T, (s'.store.sizes T).isSome = true ∧ fleetIdOf t T = fleet.id
  · obtain ⟨T, hT, id⟩ := known
    rw [← id] at before after ⊢
    have raised : s.store.table.usage T x < s'.store.table.usage T x := by
      rw [← stands'.mirrors.usage hT x]
      exact lt_of_lt_of_le (lt_of_le_of_lt (usage_le_rows stands.mirrors T x) (not_le.1 before)) after
    obtain ⟨n, size, le⟩ := fits_of_raised (moved.step stands.inv) stands.inv.store raised
    rw [← stands'.mirrors.usage hT x] at le
    exact ⟨ls₁ ++ [l], ls₂, b, fleetRow (fleetIdOf t) T n, by simp, first.append (.single step), rest,
      stands'.mirrors.fleet_mem size, rfl, after.trans le⟩
  · rw [stands'.mirrors.usage_other (fun T hT e => known ⟨T, hT, e⟩) x] at after
    exact absurd (Nat.le_zero.1 after) unused

/-- The one sedan is booked, asked for by another customer, and then sold. -/
def soldSedan : Fin 3 → Job
  | 0 => .call (.reserve (springReserve .sedan))
  | 1 => .call (.reserve { springReserve .sedan with customer := { id := 8 } })
  | 2 => .edit .sedan 0

theorem raised_with_reason_soldSedan : ∃ ls c, Run (Step (postgres plainEngine (Fin 3)) (code soldSedan))
      (Pool.start (Db.quiet smallTables 1)) ls c ∧ ∃ ls₁ l ls₂ a, ls = ls₁ ++ l :: ls₂ ∧ l.thread = 1 ∧
    Run (Step (postgres plainEngine (Fin 3)) (code soldSedan)) (Pool.start (Db.quiet smallTables 1)) ls₁ a ∧
    Grounds a.shared.tables (soldSedan 1) (noAvailability .sedan (springReserve .sedan).period) := by
  obtain ⟨ls, c, run, refused, patient⟩ : ∃ ls c, Run (Step (postgres plainEngine (Fin 3)) (code soldSedan))
        (Pool.start (Db.quiet smallTables 1)) ls c ∧
      (c.thread 1).result = some (.error (noAvailability .sedan (springReserve .sedan).period)) ∧
      ∀ l ∈ ls, waitOf l = none :=
    Machine.exists_run_of_schedule ([0, 0, 0, 0, 0, 0, 1, 1, 1, 1, 1].map (·, 0)) (by decide +kernel)
  rcases raised_with_reason plainEngine soldSedan noBookings_smallTables 1 run refused with
    ⟨l, hl, -, _, ranOut, -⟩ | ⟨missing, -⟩ | grounds
  · cases (patient l hl).symm.trans ranOut
  · cases missing
  · exact ⟨ls, c, run, grounds⟩

/-- The one sedan is sold while somebody asks how many are free. -/
def soldMeanwhile : Fin 2 → Job
  | 0 => .call (.availability {} .sedan (springReserve .sedan).period 0)
  | 1 => .edit .sedan 0

theorem counted_soldMeanwhile : ∃ ls c, Run (Step (postgres plainEngine (Fin 2)) (code soldMeanwhile))
      (Pool.start (Db.quiet smallTables 1)) ls c ∧ { id := 1, name := "sedan", fleetSize := 0 } ∈ c.shared.tables.carTypes ∧
    ∃ a b, ∃ fleet ∈ a.shared.tables.carTypes, fleet.name = CarType.sedan.value ∧
      (∃ ls', Run (Step (postgres plainEngine (Fin 2)) (code soldMeanwhile)) a ls' b) ∧
      (∃ ls', Run (Step (postgres plainEngine (Fin 2)) (code soldMeanwhile)) b ls' c) ∧
      b.shared.tables.Free fleet (springReserve .sedan).period 1 := by
  obtain ⟨ls, c, run, returned, sold⟩ : ∃ ls c, Run (Step (postgres plainEngine (Fin 2)) (code soldMeanwhile))
        (Pool.start (Db.quiet smallTables 1)) ls c ∧ (c.thread 0).result = some (.ok (some (.free 1))) ∧
      { id := 1, name := "sedan", fleetSize := 0 } ∈ c.shared.tables.carTypes :=
    Machine.exists_run_of_schedule ([0, 0, 1, 1, 1, 0].map (·, 0)) (by decide +kernel)
  obtain ⟨-, l, ls₂, l', ls₃, a, b, fleet, -, -, -, -, mid, last, hfleet, name, free, -⟩ :=
    counted plainEngine soldMeanwhile noBookings_smallTables 1 run rfl returned
  exact ⟨ls, c, run, sold, a, b, fleet, hfleet, name, ⟨_, mid⟩, ⟨_, last⟩, free⟩

theorem usage_le_some_size_soldSedan : ∃ ls c, Run (Step (postgres plainEngine (Fin 3)) (code soldSedan))
      (Pool.start (Db.quiet smallTables 1)) ls c ∧ c.shared.tables.usage 1 (Timedelta.days 1) = 1 ∧
    ∃ fleet ∈ c.shared.tables.carTypes, fleet.id = 1 ∧ fleet.fleetSize = 0 ∧
    ∃ ls₁ ls₂ a once, ls = ls₁ ++ ls₂ ∧ Run (Step (postgres plainEngine (Fin 3)) (code soldSedan))
        (Pool.start (Db.quiet smallTables 1)) ls₁ a ∧ once ∈ a.shared.tables.carTypes ∧ once.id = 1 ∧
      1 ≤ once.fleetSize := by
  obtain ⟨ls, c, run, out, fleet, hfleet, id, sold⟩ : ∃ ls c, Run (Step (postgres plainEngine (Fin 3)) (code soldSedan))
        (Pool.start (Db.quiet smallTables 1)) ls c ∧ c.shared.tables.usage 1 (Timedelta.days 1) = 1 ∧
      ∃ fleet ∈ c.shared.tables.carTypes, fleet.id = 1 ∧ fleet.fleetSize = 0 :=
    Machine.exists_run_of_schedule ([0, 0, 0, 0, 0, 0, 2, 2, 2].map (·, 0)) (by decide +kernel)
  obtain ⟨ls₁, ls₂, a, once, e, first, -, honce, id', le⟩ :=
    usage_le_some_size plainEngine soldSedan noBookings_smallTables 1 run hfleet (Timedelta.days 1)
  rw [id, out] at le
  exact ⟨ls, c, run, out, fleet, hfleet, id, sold, ls₁, ls₂, a, once, e, first, honce, id'.trans id, le⟩

end Postgres

end VehicleRentals
