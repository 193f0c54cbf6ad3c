import VehicleRentals.Postgres.Serializable

/-!
# Who made which row

The commit is the last statement of a job that changes anything, so in every state,
finished or not, each row is the one that some `reserve` call has returned as new,
and each cancelled row one that some `cancel` call has returned (`Accounts`). What a
job has returned stays true of the rows (`Vouches`): with the unique keys this gives
one booking for each customer's key, however often and wherever it was tried.
-/

namespace VehicleRentals

open Concurrent

namespace Postgres

/-- What a job's result says of the bookings that are stored. -/
def Vouches (t : Table) (job : Job) : Result → Prop
  | .ok (some (.booked ⟨b, _⟩)) => ∃ r key, job = .call (.reserve r) ∧ IdempotencyKey.new r.idempotencyKey = .ok key ∧
      b.HasKey r.customer.id key ∧ b.carType = r.carType ∧ b.period = r.period ∧
      ∃ b' ∈ t.bookings, b.SameOrigin b' ∧ (b.status = .cancelled → b'.status = .cancelled)
  | .ok (some (.cancelled b)) => ∃ actor now, job = .call (.cancel b.id actor now) ∧
      ∃ b' ∈ t.bookings, b'.id = b.id ∧ b'.mayBeManagedBy actor = true ∧ b'.status = .cancelled
  | .ok (some (.free _)) => ∃ policy T P now, job = .call (.availability policy T P now)
  | .ok (some (.listed bs)) => ∃ customer, job = .call (.reservationsFor customer) ∧
      (bs.Pairwise fun a b => b.period.start ≤ a.period.start) ∧ ∀ b ∈ bs, b.customerId = customer.id ∧
        ∃ b' ∈ t.bookings, b.SameOrigin b' ∧ (b.status = .cancelled → b'.status = .cancelled)
  | .ok none => ∃ T n, job = .edit T n
  | .error e => e ≠ .duplicateIdempotencyKey

/-- The booking a result has that was made for it. -/
def made : Result → Option Booking
  | .ok (some (.booked ⟨b, false⟩)) => some b
  | _ => none

/-- The booking a job has made, once it is committed. -/
def Phase.made : Phase → Option Booking
  | .done x => Postgres.made x
  | _ => none

/-- What the result a phase carries says of the bookings that are stored. -/
def Phase.Vouches (t : Table) (job : Job) : Phase → Prop
  | .ending _ x none => Postgres.made x = none ∧ (x ≠ .error .duplicateIdempotencyKey → Postgres.Vouches t job x)
  | .done x => Postgres.Vouches t job x
  | _ => True

variable {ι : Type} {engine : Engine} {jobs : ι → Job} {users : List Int} {fleetId : CarType → Int} {i : ι}
  {w : Option Wait} {ph ph' : Phase} {st st' : Store ι} {job : Job}

theorem stored_later {t t' : Table} (later : t.Later t') {b : Booking}
    (stored : ∃ b' ∈ t.bookings, b.SameOrigin b' ∧ (b.status = .cancelled → b'.status = .cancelled)) :
    ∃ b' ∈ t'.bookings, b.SameOrigin b' ∧ (b.status = .cancelled → b'.status = .cancelled) := by
  obtain ⟨a, ha, origin, gone⟩ := stored
  obtain ⟨a', ha', origin', same⟩ := later a ha
  refine ⟨a', ha', origin.trans origin', fun cancelled => ?_⟩
  rw [same (gone cancelled)]
  exact gone cancelled

theorem Vouches.later {t t' : Table} {x : Result} (h : Vouches t job x) (later : t.Later t') : Vouches t' job x := by
  rcases x with e | (_ | (⟨b, replayed⟩ | b | count | bs))
  · exact h
  · exact h
  · obtain ⟨r, key, isJob, parsed, hasKey, type, period, stored⟩ := h
    exact ⟨r, key, isJob, parsed, hasKey, type, period, stored_later later stored⟩
  · obtain ⟨actor, now, isJob, a, ha, id, managed, gone⟩ := h
    obtain ⟨a', ha', -, same⟩ := later a ha
    obtain rfl := same gone
    exact ⟨actor, now, isJob, _, ha', id, managed, gone⟩
  · exact h
  · obtain ⟨customer, isJob, sorted, listed⟩ := h
    exact ⟨customer, isJob, sorted, fun b hb => ⟨(listed b hb).1, stored_later later (listed b hb).2⟩⟩

/-- A cancellation that returns has cancelled the booking, or found it so. -/
theorem Vouches.of_cancel {t : Table} {reply : Option Reply} (h : Vouches t job (.ok reply)) {id : Int} {actor : Customer}
    {now : Instant} (isJob : job = .call (.cancel id actor now)) :
    ∃ b ∈ t.bookings, b.id = id ∧ b.mayBeManagedBy actor = true ∧ b.status = .cancelled := by
  subst isJob
  rcases reply with _ | (⟨b, replayed⟩ | b | count | bs)
  · obtain ⟨_, _, isJob⟩ := h
    cases isJob
  · obtain ⟨r, key, isJob, -⟩ := h
    cases isJob
  · obtain ⟨_, _, isJob, stored⟩ := h
    cases isJob
    exact stored
  · obtain ⟨_, _, _, _, isJob⟩ := h
    cases isJob
  · obtain ⟨_, isJob, -⟩ := h
    cases isJob

theorem Phase.Vouches.later {t t' : Table} (h : ph.Vouches t job) (later : t.Later t') : ph.Vouches t' job := by
  cases ph with
  | ending block x change =>
    cases change with
    | none => exact ⟨h.1, fun kept => Postgres.Vouches.later (h.2 kept) later⟩
    | some c => trivial
  | done x => exact Postgres.Vouches.later h later
  | _ => trivial

/-! ## A job's own step -/

theorem vouches_replay {t : Table} {r : Reserve} {key : IdempotencyKey} {b : Booking}
    (isJob : (Block.reserve r key).Of job) (hb : b ∈ t.bookings) (hk : b.HasKey r.customer.id key) :
    made (reserved (replay b r.carType r.period)) = none ∧ Vouches t job (reserved (replay b r.carType r.period)) := by
  unfold replay
  split
  · rename_i same
    obtain ⟨type, period⟩ := Booking.isFor_iff.1 same
    exact ⟨rfl, r, key, isJob.1, isJob.2, hk, type, period, b, hb, .refl b, id⟩
  · refine ⟨rfl, ?_⟩
    show idempotencyConflict ≠ _
    simp [idempotencyConflict]

theorem vouches_refused {t : Table} {block : Block} {e : Exn} : Phase.Vouches t job (.ending block (.error e) none) := by
  refine ⟨rfl, fun kept => ?_⟩
  exact fun lost => kept (congrArg Except.error lost)

theorem vouches_afterLook {r : Reserve} {key : IdempotencyKey} (size : Nat) (isJob : (Block.reserve r key).Of job) :
    (afterLook r key size (st.table.findByKey r.customer.id key)).Vouches st.table job := by
  cases found : st.table.findByKey r.customer.id key with
  | some existing =>
    obtain ⟨hb, hk⟩ := Table.findByKey_some found
    obtain ⟨old, vouches⟩ := vouches_replay isJob hb hk
    exact ⟨old, fun _ => vouches⟩
  | none =>
    simp only [afterLook]
    split
    · exact vouches_refused
    · trivial

theorem vouches_afterFound {b : Booking} {actor : Customer} {now : Instant} (isJob : (Block.cancel b.id actor now).Of job)
    (hb : b ∈ st.table.bookings) : (afterFound b.id actor now (some b)).Vouches st.table job := by
  simp only [afterFound]
  split_ifs with managed gone ended
  · exact ⟨rfl, fun _ => ⟨actor, now, isJob, b, hb, rfl, managed, Booking.isCancelled_eq_true.1 gone⟩⟩
  · exact vouches_refused
  · trivial
  · exact vouches_refused

theorem vouches_invoked (t : Table) (job : Job) : (invoked job).Vouches t job := by
  rcases job with (r | _ | ⟨policy, T, P, now⟩ | _) | _
  · simp only [invoked]
    cases parsed : IdempotencyKey.new r.idempotencyKey with
    | error e =>
      unfold IdempotencyKey.new at parsed
      split at parsed
      · cases parsed
      · cases parsed
        show Exn.domain _ ≠ _
        simp
    | ok key => trivial
  · trivial
  · simp only [invoked]
    cases valid : policy.validate P now with
    | error e => exact Memory.validate_ne_duplicate valid
    | ok _ => trivial
  · trivial
  · trivial

theorem made_invoked (job : Job) : (invoked job).made = none := by
  rcases job with (r | _ | ⟨policy, T, P, now⟩ | _) | _
  · simp only [invoked]
    split <;> rfl
  · rfl
  · simp only [invoked]
    split <;> rfl
  · rfl
  · rfl

variable [DecidableEq ι]

/-- A job that has returned takes no step. -/
theorem Advance.not_done (h : Advance engine users i w ph st ph' st') (x : Result) : ph ≠ .done x := by
  rintro rfl
  cases h

/-- What a job's own step does to the bookings, and what it has made by then. -/
inductive Wrote (i : ι) (st : Store ι) (ph' : Phase) (st' : Store ι) : Prop where
  | nothing : st'.table.bookings = st.table.bookings → ph'.made = none → Wrote i st ph' st'
  | booked (b : Booking) : st.pending i = some (.book b) → ph' = .done (.ok (some (.booked ⟨b, false⟩))) →
      st'.table.bookings = st.table.bookings ++ [b] → Wrote i st ph' st'
  | cancelled (b : Booking) (now : Instant) : b ∈ st.table.bookings → b.status = .active →
      ph' = .done (.ok (some (.cancelled (cancelledCopy b now)))) →
      st'.table.bookings = (st.table.cancelled b.id now).bookings → Wrote i st ph' st'

theorem wrote_commit {block : Block} {reply : Option Reply} {c : Change} (inv : Store.Inv engine st)
    (pending : st.pending i = some c) (ok : PhaseOk i st job (.ending block (.ok reply) (some c))) :
    Wrote i st (.done (.ok reply)) (st.committed i) := by
  have committed : (st.committed i).table = (st.commit c).table := by
    rw [Store.committed, pending]
    rfl
  obtain ⟨-, ended⟩ := ok
  cases c with
  | book b =>
    obtain ⟨r, key, -, result, -⟩ := ended
    cases result
    exact .booked b pending rfl (by rw [committed]; rfl)
  | cancel id now =>
    obtain ⟨actor, -, -, b, hb, rfl, -, result⟩ := ended
    cases result
    obtain ⟨-, a, ha, same, active, -⟩ := inv.changes i _ pending
    obtain rfl := List.inj_on_of_nodup_map inv.stored.ids ha hb same
    exact .cancelled a now ha active rfl (by rw [committed]; rfl)
  | resize T n =>
    cases ended.2
    exact .nothing (by rw [committed]; rfl) rfl

theorem Advance.wrote (h : Advance engine users i w ph st ph' st') (inv : Store.Inv engine st)
    (tied : st.pending i = ph.pending) (ok : PhaseOk i st job ph) (vouches : ph.Vouches st.table job) :
    Wrote i st ph' st' := by
  cases h with
  | look =>
    refine .nothing rfl ?_
    unfold afterLook
    split
    · rfl
    · split <;> rfl
  | schedule =>
    refine .nothing rfl ?_
    unfold afterSchedule
    split <;> rfl
  | @retry r key st =>
    obtain ⟨isJob, b, hb, hk⟩ := ok
    refine .nothing rfl ?_
    rw [Table.findByKey_of_mem inv.stored.keys hb hk]
    exact (vouches_replay isJob hb hk).1
  | lockBooking found free =>
    refine .nothing rfl ?_
    simp only [afterFound]
    split_ifs <;> rfl
  | @commit block reply change st accepted =>
    cases change with
    | none =>
      refine .nothing ?_ vouches.1
      rw [Store.committed, tied]
      rfl
    | some c => exact wrote_commit inv tied ok
  | @rollback block e change st =>
    refine .nothing rfl ?_
    by_cases lost : e = .duplicateIdempotencyKey
    · subst lost
      cases block <;> rfl
    · rw [afterFail_of_ne block lost]
      rfl
  | _ => exact .nothing rfl rfl

theorem Advance.vouches (h : Advance engine users i w ph st ph' st') (inv : Store.Inv engine st)
    (tied : st.pending i = ph.pending) (ok : PhaseOk i st job ph) (vouches : ph.Vouches st.table job) :
    ph'.Vouches st'.table job := by
  cases h with
  | noFleet missing => exact vouches_refused
  | fleetBusy => exact vouches_refused
  | look => exact vouches_afterLook _ ok.1
  | schedule =>
    unfold afterSchedule
    split
    · trivial
    · exact vouches_refused
  | addLost taken => exact vouches_refused
  | addBusy => exact vouches_refused
  | @retry r key st =>
    obtain ⟨isJob, b, hb, hk⟩ := ok
    rw [Table.findByKey_of_mem inv.stored.keys hb hk]
    exact (vouches_replay isJob hb hk).2
  | lockBooking found free => exact vouches_afterFound ok (Table.get_some found).1
  | noBooking missing => exact vouches_refused
  | bookingBusy => exact vouches_refused
  | noResize => exact ⟨rfl, fun _ => ⟨_, _, ok⟩⟩
  | resizeBusy => exact vouches_refused
  | @commit block reply change st accepted =>
    cases change with
    | none =>
      have same : (st.committed i).table = st.table := by
        rw [Store.committed, tied]
        rfl
      rw [same]
      exact vouches.2 (by simp)
    | some c =>
      obtain ⟨isJob, ended⟩ := ok
      have committed : (st.committed i).table = (st.commit c).table := by
        rw [Store.committed, tied]
        rfl
      rw [committed]
      cases c with
      | book b =>
        obtain ⟨r, key, rfl, result, hasKey, type, period⟩ := ended
        cases result
        exact ⟨r, key, isJob.1, isJob.2, hasKey, type, period, b, List.mem_append_right _ (List.mem_singleton_self b),
          .refl b, id⟩
      | cancel id now =>
        obtain ⟨actor, rfl, -, b, hb, rfl, managed, result⟩ := ended
        cases result
        refine ⟨actor, now, isJob, Table.cancelAt b.id now b, List.mem_map_of_mem hb, Table.cancelAt_id .., ?_⟩
        rw [Table.cancelAt, if_pos rfl]
        exact ⟨managed, rfl⟩
      | resize T n =>
        obtain ⟨rfl, result⟩ := ended
        cases result
        exact ⟨T, n, isJob⟩
  | refuse missing =>
    show userMissing ≠ _
    simp [userMissing]
  | @rollback block e change st =>
    by_cases lost : e = .duplicateIdempotencyKey
    · obtain rfl := ok.2.unchanged
      obtain ⟨r, key, rfl, -⟩ := ok.2 (congrArg Except.error lost)
      subst lost
      trivial
    · rw [afterFail_of_ne block lost]
      exact lost
  | notFound missing =>
    show carTypeNotFound _ ≠ _
    simp [carTypeNotFound]
  | count =>
    obtain ⟨⟨policy, now, isJob⟩, -⟩ := ok
    exact ⟨policy, _, _, now, isJob⟩
  | list perm sorted =>
    refine ⟨_, ok, sorted, fun b hb => ?_⟩
    obtain ⟨there, own⟩ := List.mem_filter.1 (perm.mem_iff.1 hb)
    exact ⟨beq_iff_eq.1 own, b, there, .refl b, id⟩
  | _ => trivial

/-! ## Runs -/

omit [DecidableEq ι] in
/-- Every stored booking was made by one job, which has returned it, and every
cancelled one was cancelled by a job that has returned. -/
structure Accounts (s : State ι) : Prop where
  maker : ∀ b ∈ s.store.table.bookings, ∃ i a, (s.phase i).made = some a ∧ a.SameOrigin b
  once : ∀ i j a b, (s.phase i).made = some a → (s.phase j).made = some b → a.id = b.id → i = j
  canceller : ∀ b ∈ s.store.table.bookings, b.status = .cancelled →
    ∃ i a, s.phase i = .done (.ok (some (.cancelled a))) ∧ a.id = b.id

omit [DecidableEq ι] in
theorem accounts_start (t : Tables) (drawn : Int) : Accounts (State.start ι t drawn) where
  maker b hb := by cases hb
  once i j a b made := by cases made
  canceller b hb := by cases hb

/-- The invariant of a pool, with what its jobs vouch for. -/
structure Accounted (engine : Engine) (jobs : ι → Job) (s : State ι) : Prop where
  inv : Inv engine jobs s
  vouches : ∀ i, (s.phase i).Vouches s.store.table (jobs i)
  accounts : Accounts s

omit [DecidableEq ι] in
/-- A booking that was made is stored. -/
theorem Accounted.stored {s : State ι} (h : Accounted engine jobs s) {i : ι} {b : Booking}
    (made : (s.phase i).made = some b) : ∃ b' ∈ s.store.table.bookings, b.SameOrigin b' := by
  have vouches := h.vouches i
  cases phase : s.phase i with
  | done x =>
    rw [phase] at made vouches
    have new : Postgres.made x = some b := made
    unfold Postgres.made at new
    split at new
    · cases new
      obtain ⟨-, -, -, -, -, -, -, b', hb', origin, -⟩ := vouches
      exact ⟨b', hb', origin⟩
    · cases new
  | _ =>
    rw [phase] at made
    cases made

/-- How a move changes the bookings, and what the job that moved has made. -/
theorem Moves.wrote {s s' : State ι} {m : ι × Option Wait} (h : Moves engine jobs users s m s')
    (accounted : Accounted engine jobs s) : (s.phase m.1).made = none ∧ Wrote m.1 s.store (s'.phase m.1) s'.store := by
  have inv := accounted.inv
  cases h with
  | @invoke i idle =>
    refine ⟨by rw [idle]; rfl, .nothing rfl ?_⟩
    simp only [Function.update_self]
    exact made_invoked (jobs i)
  | @advance i w ph' st' step =>
    refine ⟨?_, ?_⟩
    · cases here : s.phase i with
      | done x => exact absurd here (step.not_done x)
      | _ => rfl
    · simp only [Function.update_self]
      exact step.wrote inv.store (inv.tied i) (inv.phases i) (accounted.vouches i)

theorem accounts_moves {s s' : State ι} {m : ι × Option Wait} (accounted : Accounted engine jobs s)
    (h : Moves engine jobs users s m s') : Accounts s' := by
  obtain ⟨before, wrote⟩ := h.wrote accounted
  have acc := accounted.accounts
  -- what another job has made or returned it still has
  have kept : ∀ {i b}, (s.phase i).made = some b → (s'.phase i).made = some b := by
    intro i b made
    have ne : i ≠ m.1 := by
      rintro rfl
      rw [before] at made
      cases made
    rw [h.frame ne, made]
  have returned : ∀ {i x}, s.phase i = .done x → s'.phase i = .done x := by
    intro i x done
    have ne : i ≠ m.1 := by
      rintro rfl
      rcases h.own with ⟨idle, -, -⟩ | step
      · rw [idle] at done
        cases done
      · exact step.not_done x done
    rw [h.frame ne, done]
  have old : ∀ {i b}, i ≠ m.1 → (s'.phase i).made = some b → (s.phase i).made = some b := by
    intro i b ne made
    rwa [h.frame ne] at made
  cases wrote with
  | nothing bookings none =>
    refine ⟨?_, ?_, ?_⟩
    · intro b hb
      rw [bookings] at hb
      obtain ⟨i, a, made, origin⟩ := acc.maker b hb
      exact ⟨i, a, kept made, origin⟩
    · intro i j a b hi hj same
      have others : ∀ {k c}, (s'.phase k).made = some c → k ≠ m.1 := by
        rintro k c made rfl
        rw [none] at made
        cases made
      exact acc.once i j a b (old (others hi) hi) (old (others hj) hj) same
    · intro b hb gone
      rw [bookings] at hb
      obtain ⟨i, a, done, id⟩ := acc.canceller b hb gone
      exact ⟨i, a, returned done, id⟩
  | booked b pending phase bookings =>
    have ok := accounted.inv.store.changes _ _ pending
    have new : (s'.phase m.1).made = some b := by
      rw [phase]
      rfl
    have unseen : ∀ {k c}, k ≠ m.1 → (s'.phase k).made = some c → c.id ≠ b.id := by
      intro k c ne made
      obtain ⟨c', hc', origin⟩ := accounted.stored (old ne made)
      rw [origin.id]
      exact ok.newId c' hc'
    refine ⟨?_, ?_, ?_⟩
    · intro a ha
      rw [bookings] at ha
      rcases List.mem_append.1 ha with ha | ha
      · obtain ⟨i, c, made, origin⟩ := acc.maker a ha
        exact ⟨i, c, kept made, origin⟩
      · obtain rfl := List.mem_singleton.1 ha
        exact ⟨m.1, a, new, .refl a⟩
    · intro i j a c hi hj same
      by_cases ei : i = m.1
      · by_cases ej : j = m.1
        · exact ei.trans ej.symm
        · rw [ei, new] at hi
          cases hi
          exact absurd same.symm (unseen ej hj)
      · by_cases ej : j = m.1
        · rw [ej, new] at hj
          cases hj
          exact absurd same (unseen ei hi)
        · exact acc.once i j a c (old ei hi) (old ej hj) same
    · intro a ha gone
      rw [bookings] at ha
      rcases List.mem_append.1 ha with ha | ha
      · obtain ⟨i, c, done, id⟩ := acc.canceller a ha gone
        exact ⟨i, c, returned done, id⟩
      · obtain rfl := List.mem_singleton.1 ha
        rw [ok.active] at gone
        cases gone
  | cancelled b now hb active phase bookings =>
    have none : (s'.phase m.1).made = none := by
      rw [phase]
      rfl
    have others : ∀ {k c}, (s'.phase k).made = some c → k ≠ m.1 := by
      rintro k c made rfl
      rw [none] at made
      cases made
    refine ⟨?_, ?_, ?_⟩
    · intro a ha
      rw [bookings] at ha
      obtain ⟨a, there, rfl⟩ := List.mem_map.1 ha
      obtain ⟨i, c, made, origin⟩ := acc.maker a there
      exact ⟨i, c, kept made, origin.trans (Table.cancelAt_sameOrigin ..)⟩
    · intro i j a c hi hj same
      exact acc.once i j a c (old (others hi) hi) (old (others hj) hj) same
    · intro a ha gone
      rw [bookings] at ha
      obtain ⟨a, there, rfl⟩ := List.mem_map.1 ha
      by_cases same : a.id = b.id
      · exact ⟨m.1, _, phase, by rw [Table.cancelAt_id, same]; rfl⟩
      · rw [Table.cancelAt, if_neg same] at gone ⊢
        obtain ⟨i, c, done, id⟩ := acc.canceller a there gone
        exact ⟨i, c, returned done, id⟩

theorem accounted_moves {s s' : State ι} {m : ι × Option Wait} (accounted : Accounted engine jobs s)
    (h : Moves engine jobs users s m s') : Accounted engine jobs s' where
  inv := inv_moves h accounted.inv
  accounts := accounts_moves accounted h
  vouches i := by
    have inv := accounted.inv
    by_cases e : i = m.1
    · subst e
      rcases h.own with ⟨-, -, phase⟩ | step
      · rw [phase]
        exact vouches_invoked ..
      · exact step.vouches inv.store (inv.tied _) (inv.phases _) (accounted.vouches _)
    · rw [h.frame e]
      exact (accounted.vouches i).later ((h.step inv).later inv.store)

/-- Every state of a pool of jobs is accounted for. -/
theorem accounted_of_run {t : Tables} (fresh : NoBookings t) {drawn : Int} {ls : List (Label Sql ι)} {c : Jobs ι}
    (run : Run (Step (postgres engine ι) (code jobs)) (Pool.start (Db.quiet t drawn)) ls c) :
    ∃ s, Accounted engine jobs s ∧ Stands engine jobs t.users (fleetIdOf t) c s := by
  have start := stands_start (ι := ι) fresh engine jobs drawn
  obtain ⟨s, trace, stands⟩ := run_stands start run
  have accounted := trace.invariant (I := Accounted engine jobs)
    (fun _ _ _ accounted moved => accounted_moves accounted moved)
    { inv := start.inv
      vouches := fun _ => trivial
      accounts := accounts_start t drawn }
  exact ⟨s, accounted, stands⟩

/-- The job has returned `b` as a new booking. -/
def Made (c : Jobs ι) (i : ι) (b : Booking) : Prop := (c.thread i).result = some (.ok (some (.booked ⟨b, false⟩)))

omit [DecidableEq ι] in
theorem phase_of_result {c : Jobs ι} {s : State ι} (stands : Stands engine jobs users fleetId c s) {i : ι} {x : Result} :
    (c.thread i).result = some x ↔ s.phase i = .done x := by
  rw [stands.threads]
  constructor
  · exact Phase.done_of_result
  · intro done
    rw [done]
    rfl

omit [DecidableEq ι] in
theorem made_iff {c : Jobs ι} {s : State ι} (stands : Stands engine jobs users fleetId c s) {i : ι} {b : Booking} :
    Made c i b ↔ (s.phase i).made = some b := by
  rw [Made, phase_of_result stands]
  constructor
  · intro done
    rw [done]
    rfl
  · intro made
    cases phase : s.phase i with
    | done x =>
      rw [phase] at made
      have new : Postgres.made x = some b := made
      unfold Postgres.made at new
      split at new <;> cases new
      rfl
    | _ =>
      rw [phase] at made
      cases made

omit [DecidableEq ι] in
/-- A booking that a job has returned is stored, and stays cancelled if it was. -/
theorem Accounted.returned {s : State ι} (h : Accounted engine jobs s) {i : ι} {r : Reserve} {x : BookingResult}
    (isJob : jobs i = .call (.reserve r)) (done : s.phase i = .done (.ok (some (.booked x)))) :
    x.booking.carType = r.carType ∧ x.booking.period = r.period ∧
      ∃ key b, IdempotencyKey.new r.idempotencyKey = .ok key ∧ b ∈ s.store.table.bookings ∧ x.booking.SameOrigin b ∧
        b.HasKey r.customer.id key ∧ (x.booking.status = .cancelled → b.status = .cancelled) := by
  have vouches := h.vouches i
  rw [done] at vouches
  obtain ⟨r', key, isJob', parsed, hasKey, type, period, b, hb, origin, gone⟩ := vouches
  rw [isJob] at isJob'
  cases isJob'
  exact ⟨type, period, key, b, parsed, hb, origin,
    ⟨origin.customerId.symm.trans hasKey.1, origin.idempotencyKey.symm.trans hasKey.2⟩, gone⟩

/-- The row of a booking is as the call asked for that has its key. -/
theorem row_of_request (fleetId : CarType → Int) {r : Reserve} {key : IdempotencyKey} {b : Booking}
    (parsed : IdempotencyKey.new r.idempotencyKey = .ok key) (hasKey : b.HasKey r.customer.id key)
    (type : b.carType = r.carType) (period : b.period = r.period) :
    (encode fleetId b).userId = r.customer.id ∧ (encode fleetId b).carTypeId = fleetId r.carType ∧
      (encode fleetId b).startAt = r.period.start ∧ (encode fleetId b).endAt = r.period.stop ∧
      (encode fleetId b).idempotencyKey = r.idempotencyKey := by
  refine ⟨hasKey.1, congrArg fleetId type, congrArg RentalPeriod.start period, congrArg RentalPeriod.stop period, ?_⟩
  exact (congrArg IdempotencyKey.value hasKey.2).trans (IdempotencyKey.value_of_new parsed)

/-- In every state of every interleaving, finished or not and whichever waits run out:
the rows are those of the `reserve` calls that have returned a new booking, one for
one and as they asked; and a row is cancelled exactly if a cancellation of it has
returned. -/
theorem rows_accounted (engine : Engine) (jobs : ι → Job) {t : Tables} (fresh : NoBookings t) (drawn : Int)
    {ls : List (Label Sql ι)} {c : Jobs ι}
    (run : Run (Step (postgres engine ι) (code jobs)) (Pool.start (Db.quiet t drawn)) ls c) :
    (∀ row ∈ c.shared.tables.reservations, ∃! i, ∃ b, Made c i b ∧ b.id = row.id) ∧
    (∀ i b, Made c i b → ∃ r, jobs i = .call (.reserve r) ∧ ∃ row ∈ c.shared.tables.reservations, row.id = b.id ∧
      row.userId = r.customer.id ∧ row.carTypeId = fleetIdOf t r.carType ∧ row.startAt = r.period.start ∧
      row.endAt = r.period.stop ∧ row.idempotencyKey = r.idempotencyKey) ∧
    ∀ row ∈ c.shared.tables.reservations, row.status = BookingStatus.cancelled.value ↔
      ∃ i actor now reply, jobs i = .call (.cancel row.id actor now) ∧ (c.thread i).result = some (.ok reply) := by
  obtain ⟨s, accounted, stands⟩ := accounted_of_run fresh run
  have acc := accounted.accounts
  rw [stands.mirrors.rows]
  refine ⟨?_, ?_, ?_⟩
  · intro row hrow
    obtain ⟨b, hb, rfl⟩ := List.mem_map.1 hrow
    obtain ⟨i, a, made, origin⟩ := acc.maker b hb
    refine ⟨i, ⟨a, (made_iff stands).2 made, origin.id⟩, ?_⟩
    rintro j ⟨a', made', id⟩
    exact acc.once j i a' a ((made_iff stands).1 made') made (id.trans origin.id.symm)
  · intro i b made
    have vouches := accounted.vouches i
    rw [(phase_of_result stands).1 made] at vouches
    obtain ⟨r, -, isJob, -⟩ := vouches
    obtain ⟨type, period, key, b', parsed, hb', origin, hasKey, -⟩ := accounted.returned isJob ((phase_of_result stands).1 made)
    exact ⟨r, isJob, encode (fleetIdOf t) b', List.mem_map_of_mem hb', origin.id.symm,
      row_of_request _ parsed hasKey (origin.carType.symm.trans type) (origin.period.symm.trans period)⟩
  · intro row hrow
    obtain ⟨b, hb, rfl⟩ := List.mem_map.1 hrow
    have gone : (encode (fleetIdOf t) b).status = BookingStatus.cancelled.value ↔ b.status = .cancelled := value_inj_status
    rw [gone]
    constructor
    · intro cancelled
      obtain ⟨i, a, done, id⟩ := acc.canceller b hb cancelled
      have vouches := accounted.vouches i
      rw [done] at vouches
      obtain ⟨actor, now, isJob, -⟩ := vouches
      refine ⟨i, actor, now, _, ?_, (phase_of_result stands).2 done⟩
      rw [show (encode (fleetIdOf t) b).id = a.id from id.symm]
      exact isJob
    · rintro ⟨i, actor, now, reply, isJob, returned⟩
      have vouches := accounted.vouches i
      rw [(phase_of_result stands).1 returned] at vouches
      obtain ⟨b', hb', id, -, cancelled⟩ := vouches.of_cancel isJob
      obtain rfl := List.inj_on_of_nodup_map accounted.inv.store.stored.ids hb' hb id
      exact cancelled

omit [DecidableEq ι] in
/-- No two rows have the same user and key. -/
theorem keys_nodup {c : Jobs ι} {s : State ι} (stands : Stands engine jobs users fleetId c s) :
    (c.shared.tables.reservations.map fun row => (row.userId, row.idempotencyKey)).Nodup := by
  rw [stands.mirrors.rows, List.map_map]
  have injective : Function.Injective fun uk : Int × IdempotencyKey => (uk.1, uk.2.value) := by
    rintro ⟨u, k⟩ ⟨u', k'⟩ same
    obtain ⟨user, value⟩ := Prod.mk.inj same
    exact Prod.ext user (key_inj.1 value)
  have apart := stands.inv.store.stored.keys.map injective
  rwa [List.map_map] at apart

/-- In every state of every interleaving, finished or not and whichever waits run out,
no two rows have the same user and key; whoever asks under a key and gets a booking
gets the one booking of that key, with the car type and period asked for, and
one job alone has made it; and no job ends with the error of the insert that lost. -/
theorem once_per_key (engine : Engine) (jobs : ι → Job) {t : Tables} (fresh : NoBookings t) (drawn : Int)
    {ls : List (Label Sql ι)} {c : Jobs ι}
    (run : Run (Step (postgres engine ι) (code jobs)) (Pool.start (Db.quiet t drawn)) ls c) :
    (c.shared.tables.reservations.map fun row => (row.userId, row.idempotencyKey)).Nodup ∧
    (∀ i r x, jobs i = .call (.reserve r) → (c.thread i).result = some (.ok (some (.booked x))) →
      x.booking.carType = r.carType ∧ x.booking.period = r.period ∧ (∃! k, ∃ b, Made c k b ∧ b.id = x.booking.id) ∧
      ∀ j r' x', jobs j = .call (.reserve r') → (c.thread j).result = some (.ok (some (.booked x'))) →
        r'.customer.id = r.customer.id → r'.idempotencyKey = r.idempotencyKey →
          x'.booking.id = x.booking.id ∧ (j ≠ i → x.replayed = true ∨ x'.replayed = true)) ∧
    ∀ i, (c.thread i).result ≠ some (.error .duplicateIdempotencyKey) := by
  obtain ⟨s, accounted, stands⟩ := accounted_of_run fresh run
  have acc := accounted.accounts
  have stored := accounted.inv.store.stored
  refine ⟨keys_nodup stands, ?_, ?_⟩
  · intro i r x isJob returned
    have done := (phase_of_result stands).1 returned
    obtain ⟨type, period, key, b, parsed, hb, origin, hasKey, -⟩ := accounted.returned isJob done
    obtain ⟨k, a, made, same⟩ := acc.maker b hb
    have maker : ∃! k, ∃ b, Made c k b ∧ b.id = x.booking.id := by
      refine ⟨k, ⟨a, (made_iff stands).2 made, same.id.trans origin.id.symm⟩, ?_⟩
      rintro k' ⟨a', made', id⟩
      exact acc.once k' k a' a ((made_iff stands).1 made') made (id.trans (origin.id.trans same.id.symm))
    refine ⟨type, period, maker, ?_⟩
    intro j r' x' isJob' returned' customer sameKey
    have done' := (phase_of_result stands).1 returned'
    obtain ⟨-, -, key', b', parsed', hb', origin', hasKey', -⟩ := accounted.returned isJob' done'
    -- both keys are the same, so both bookings are the one stored under it
    obtain rfl : key' = key := by
      rw [sameKey, parsed] at parsed'
      cases parsed'
      rfl
    obtain rfl := List.inj_on_of_nodup_map stored.keys hb' hb
      (Prod.ext (hasKey'.1.trans (customer.trans hasKey.1.symm)) (hasKey'.2.trans hasKey.2.symm))
    have id : x'.booking.id = x.booking.id := origin'.id.trans origin.id.symm
    refine ⟨id, fun ne => ?_⟩
    by_contra new
    simp only [not_or, Bool.not_eq_true] at new
    obtain ⟨b, replayed⟩ := x
    obtain ⟨b', replayed'⟩ := x'
    obtain ⟨rfl, rfl⟩ : replayed = false ∧ replayed' = false := new
    exact ne (maker.unique ⟨b', returned', id⟩ ⟨b, returned, rfl⟩)
  · intro i lost
    have vouches := accounted.vouches i
    rw [(phase_of_result stands).1 lost] at vouches
    exact vouches rfl

/-- The sedan, booked by the customer 7. -/
def sedanBooking : Booking where
  id := 1
  customerId := 7
  carType := .sedan
  period := (springReserve .sedan).period
  idempotencyKey := springKey
  status := .active
  cancelledAt := none

/-- Both customers ask for the sedan, the first for the van as well and under the same
key; that booking is cancelled and asked for again. -/
def retries : Fin 5 → Job
  | 0 => .call (.reserve (springReserve .sedan))
  | 1 => .call (.reserve (springReserve .van))
  | 2 => .call (.reserve { springReserve .sedan with customer := { id := 8 } })
  | 3 => .call (.cancel 1 { id := 7 } 10)
  | 4 => .call (.reserve (springReserve .sedan))

/-- The insert of the second loses to the first's, and the third waits too long. -/
theorem run_retries : ∃ ls c, Run (Step (postgres plainEngine (Fin 5)) (code retries))
      (Pool.start (Db.quiet smallTables 1)) ls c ∧
    (c.thread 0).result = some (.ok (some (.booked ⟨sedanBooking, false⟩))) ∧
    (c.thread 1).result = some (.error idempotencyConflict) ∧ (c.thread 2).result = some (.error fleetBusy) ∧
    (c.thread 3).result = some (.ok (some (.cancelled (cancelledCopy sedanBooking 10)))) ∧
    (c.thread 4).result = some (.ok (some (.booked ⟨cancelledCopy sedanBooking 10, true⟩))) :=
  Machine.exists_run_of_schedule ([0, 1, 0, 1, 0, 1, 0, 1, 0, 2, 2, 2, 0, 1, 1, 1, 3, 3, 3, 3, 4, 4, 4, 4].map (·, 0))
    (by decide +kernel)

theorem rows_accounted_retries : ∃ ls c, Run (Step (postgres plainEngine (Fin 5)) (code retries))
      (Pool.start (Db.quiet smallTables 1)) ls c ∧ Made c 0 sedanBooking ∧
    (∃ row ∈ c.shared.tables.reservations, row.id = 1 ∧ row.status = BookingStatus.cancelled.value) ∧
    ∀ row ∈ c.shared.tables.reservations, ∃! i, ∃ b, Made c i b ∧ b.id = row.id := by
  obtain ⟨ls, c, run, made, -, -, cancelled, -⟩ := run_retries
  obtain ⟨rows, makers, cancellers⟩ := rows_accounted plainEngine retries noBookings_smallTables 1 run
  obtain ⟨r, -, row, hrow, id, -⟩ := makers 0 sedanBooking made
  have isJob : retries 3 = .call (.cancel row.id { id := 7 } 10) := by
    rw [id]
    rfl
  exact ⟨ls, c, run, made, ⟨row, hrow, id, (cancellers row hrow).2 ⟨3, _, _, _, isJob, cancelled⟩⟩, rows⟩

theorem once_per_key_retries : ∃ ls c, Run (Step (postgres plainEngine (Fin 5)) (code retries))
      (Pool.start (Db.quiet smallTables 1)) ls c ∧
    (c.thread 1).result = some (.error idempotencyConflict) ∧
    (c.thread 4).result = some (.ok (some (.booked ⟨cancelledCopy sedanBooking 10, true⟩))) ∧
    (∃! k, ∃ b, Made c k b ∧ b.id = 1) ∧ (c.thread 2).result ≠ some (.error .duplicateIdempotencyKey) := by
  obtain ⟨ls, c, run, -, conflict, -, -, again⟩ := run_retries
  obtain ⟨-, returned, never⟩ := once_per_key plainEngine retries noBookings_smallTables 1 run
  obtain ⟨-, -, maker, -⟩ := returned 4 (springReserve .sedan) _ rfl again
  exact ⟨ls, c, run, conflict, again, maker, never 2⟩

end Postgres

end VehicleRentals
