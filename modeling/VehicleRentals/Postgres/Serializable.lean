import VehicleRentals.Concurrent.Linearize
import VehicleRentals.Memory.Answers
import VehicleRentals.Postgres.Timeouts

/-!
# Serializability of the desk on the database

A job takes effect in one of its own statements: a booking, a cancellation and an
edit at their commit, and everything that changes nothing at the statement that
settles the answer. Which one that is for a refusal for want of a car is known
only later: the lookup, since under the fleet's lock cars only come free. A wait
that runs out, or a user that does not exist, leaves no effect at all. Only a
count of free cars is not read in one statement: it takes no lock, and reads the
size of the fleet before its bookings.
-/

namespace VehicleRentals

open Concurrent

/-- A wait that ran out, or what a statement of the database refused: the job was not served. -/
def Exn.unserved : Exn → Bool
  | .domain (.fleetBusy _) => true
  | e => e.isDatabase

/-- The bookings and the fleets, as everybody sees them. -/
abbrev Holdings := List Booking × FleetSizes

/-- A job carried out at once; a new booking takes the number `id`. -/
def Job.atOnce (id : Int) : Job → Holdings → Except Exn (Option Reply) × Holdings
  | .call c, (bookings, sizes) =>
    let (outcome, table) := Memory.answer sizes c { bookings, ids := id }
    (outcome.map some, table.bookings, sizes)
  | .edit carType fleetSize, (bookings, sizes) =>
    (.ok none, bookings,
      if (sizes carType).isSome then Function.update sizes carType (some fleetSize) else sizes)

namespace Postgres

/-- The job was carried out, whatever it returned or raised. -/
def Served : Result → Prop
  | .ok _ => True
  | .error e => e.unserved = false

theorem not_served {e : Exn} (h : e.unserved = true) : ¬ Served (.error e) := by
  rw [Served, h]
  exact Bool.noConfusion

/-- The job raised `NoAvailability`. -/
def noneFree : Result → Bool
  | .error e => e.isNoAvailability
  | .ok _ => false

/-- A replay returns the booking, or raises the conflict. -/
theorem reserved_replay (b : Booking) (carType : CarType) (period : RentalPeriod) :
    reserved (replay b carType period) = .ok (some (.booked ⟨b, true⟩)) ∨
      reserved (replay b carType period) = .error idempotencyConflict := by
  unfold replay
  split
  · exact .inl rfl
  · exact .inr rfl

/-! ## Results up to ties -/

/-- The same result, but for the order of bookings with the same pick-up time. -/
inductive UpToTies : Result → Result → Prop where
  | refl (x : Result) : UpToTies x x
  | listed {bs bs' : List Booking} : bs.Perm bs' → bs.map (·.period.start) = bs'.map (·.period.start) →
      UpToTies (.ok (some (.listed bs))) (.ok (some (.listed bs')))

theorem UpToTies.symm {x y : Result} (h : UpToTies x y) : UpToTies y x := by
  cases h with
  | refl => exact .refl x
  | listed perm starts => exact .listed perm.symm starts.symm

theorem UpToTies.trans {x y z : Result} (h : UpToTies x y) (h' : UpToTies y z) : UpToTies x z := by
  cases h with
  | refl => exact h'
  | listed perm starts =>
    cases h' with
    | refl => exact .listed perm starts
    | listed perm' starts' => exact .listed (perm.trans perm') (starts.trans starts')

instance ties : Setoid Result where
  r := UpToTies
  iseqv := ⟨.refl, .symm, .trans⟩

/-! ## What a job knows of the fleets and of its own request -/

section

variable {ι : Type} {engine : Engine} {jobs : ι → Job} {users : List Int} {fleetId : CarType → Int}

/-- Some job edits the size of this type's fleet. -/
def Edited (jobs : ι → Job) (T : CarType) : Prop := ∃ i n, jobs i = .edit T n

/-- The period was admitted by the policy of whoever asks. -/
def Admitted (job : Job) : Prop :=
  ∀ policy T P now, job = .call (.availability policy T P now) → policy.validate P now = .ok ()

/-- What a job knows at each phase beside its locks (`PhaseOk`). -/
def Knows (jobs : ι → Job) (sizes₀ : FleetSizes) (st : Store ι) (job : Job) : Phase → Prop
  | .ending (.reserve r _) x change =>
    (∀ b, change = some (.book b) → r.policy.validate r.period r.now = .ok ()) ∧
      (x = .error .duplicateIdempotencyKey → (st.sizes r.carType).isSome = true)
  | .retrying r _ => (st.sizes r.carType).isSome = true
  | .finding _ _ => Admitted job
  | .counting T _ size => Admitted job ∧ (¬ Edited jobs T → sizes₀ T = some size)
  | _ => True

/-- The fleets nobody edits have the sizes they had, and every job knows what it knows. -/
structure Informed (jobs : ι → Job) (sizes₀ : FleetSizes) (s : State ι) : Prop where
  sizes : ∀ T, ¬ Edited jobs T → s.store.sizes T = sizes₀ T
  knows : ∀ i, Knows jobs sizes₀ s.store (jobs i) (s.phase i)

theorem Knows.stable {sizes₀ : FleetSizes} {i : ι} {st st' : Store ι} {job : Job} {ph : Phase}
    (h : Knows jobs sizes₀ st job ph) (others : Store.Interferes i st st') : Knows jobs sizes₀ st' job ph := by
  cases ph with
  | ending block x change =>
    cases block with
    | reserve r key => exact ⟨h.1, fun lost => others.known _ (h.2 lost)⟩
    | _ => trivial
  | retrying r key => exact others.known _ h
  | _ => exact h

/-- A block that changes nothing and has lost no key. -/
theorem knows_ending {sizes₀ : FleetSizes} {st : Store ι} {job : Job} {r : Reserve} {key : IdempotencyKey} {x : Result}
    (h : x ≠ .error .duplicateIdempotencyKey) : Knows jobs sizes₀ st job (.ending (.reserve r key) x none) := by
  refine ⟨?_, fun lost => absurd lost h⟩
  intro b made
  cases made

theorem knows_afterLook {sizes₀ : FleetSizes} {st : Store ι} {job : Job} (r : Reserve) (key : IdempotencyKey)
    (size : Nat) (found : Option Booking) : Knows jobs sizes₀ st job (afterLook r key size found) := by
  cases found with
  | some existing =>
    refine knows_ending ?_
    rcases reserved_replay existing r.carType r.period with e | e <;> simp [e, idempotencyConflict]
  | none =>
    simp only [afterLook]
    cases valid : r.policy.validate r.period r.now with
    | error e =>
      refine knows_ending fun lost => ?_
      exact Memory.validate_ne_duplicate valid (Except.error.inj lost)
    | ok _ => trivial

variable [DecidableEq ι]

theorem Advance.knows {sizes₀ : FleetSizes} {i : ι} {w : Option Wait} {ph ph' : Phase} {st st' : Store ι} {job : Job}
    (h : Advance engine users i w ph st ph' st') (ok : PhaseOk i st job ph)
    (sizes : ∀ T, ¬ Edited jobs T → st.sizes T = sizes₀ T) (knows : Knows jobs sizes₀ st job ph) :
    Knows jobs sizes₀ st' job ph' := by
  cases h with
  | look => exact knows_afterLook ..
  | schedule =>
    unfold afterSchedule
    split
    · trivial
    · exact knows_ending (by simp [noAvailability])
  | add free unused =>
    refine ⟨fun _ _ => ok.2.2.1, ?_⟩
    intro lost
    cases lost
  | addLost taken =>
    refine ⟨?_, fun _ => Option.isSome_iff_exists.2 ⟨_, ok.2.1.2⟩⟩
    intro b made
    cases made
  | noFleet missing => exact knows_ending (by simp [carTypeNotFound])
  | fleetBusy => exact knows_ending (by simp [Postgres.fleetBusy])
  | addBusy => exact knows_ending (by simp [timedOut])
  | lockBooking found free =>
    simp only [afterFound]
    split_ifs <;> trivial
  | @rollback block e change st =>
    by_cases lost : e = .duplicateIdempotencyKey
    · subst lost
      cases block with
      | reserve r key => exact knows.2 rfl
      | _ => trivial
    · rw [afterFail_of_ne block lost]
      trivial
  | find size => exact ⟨knows, fun same => (sizes _ same).symm.trans size⟩
  | _ => trivial

omit [DecidableEq ι] in
theorem knows_invoked {sizes₀ : FleetSizes} {st : Store ι} (job : Job) : Knows jobs sizes₀ st job (invoked job) := by
  rcases job with (r | _ | ⟨policy, T, P, now⟩ | _) | _
  · simp only [invoked]
    split <;> trivial
  · trivial
  · simp only [invoked]
    cases valid : policy.validate P now with
    | error e => trivial
    | ok _ =>
      rintro policy' T' P' now' e
      cases e
      exact valid
  · trivial
  · trivial

/-- Only an edit of the type changes the size of a fleet. -/
theorem sizes_moves {s s' : State ι} {m : ι × Option Wait} (inv : Inv engine jobs s)
    (h : Moves engine jobs users s m s') {T : CarType} (same : ¬ Edited jobs T) :
    s'.store.sizes T = s.store.sizes T := by
  rcases (h.step inv).effect inv.store with ⟨-, -, sizes⟩ | ⟨c, pending, -, committed⟩
  · rw [sizes]
  · have owner := inv.owner pending
    rw [committed]
    cases c with
    | resize T' n =>
      refine Function.update_of_ne ?_ _ _
      rintro rfl
      exact same ⟨m.1, n, owner⟩
    | _ => rfl

theorem informed_moves {sizes₀ : FleetSizes} {s s' : State ι} {m : ι × Option Wait} (inv : Inv engine jobs s)
    (h : Moves engine jobs users s m s') (informed : Informed jobs sizes₀ s) : Informed jobs sizes₀ s' where
  sizes T same := (sizes_moves inv h same).trans (informed.sizes T same)
  knows i := by
    by_cases e : i = m.1
    · subst e
      rcases h.own with ⟨-, -, phase⟩ | step
      · rw [phase]
        exact knows_invoked _
      · exact step.knows (inv.phases _) informed.sizes (informed.knows _)
    · rw [h.frame e]
      exact (informed.knows i).stable ((h.step inv).interferes inv.store e)

/-! ## An edit that changes nothing -/

/-- A step of the phases that the statements take: an edit that changes nothing has found no fleet. -/
structure Faithful (engine : Engine) (jobs : ι → Job) (users : List Int) (s : State ι) (m : ι × Option Wait)
    (s' : State ι) : Prop where
  moved : Moves engine jobs users s m s'
  missing : ∀ T n, s.phase m.1 = .opening (.edit T n) → m.2 = none → s'.store.pending m.1 = none →
    s.store.sizes T = none

theorem missing_of_step {c c' : Jobs ι} {s s' : State ι} {l : Label Sql ι} (stands : Stands engine jobs users fleetId c s)
    (h : Step (postgres engine ι) (code jobs) c l c') (stands' : Stands engine jobs users fleetId c' s') {T : CarType}
    {n : Nat} (phase : s.phase l.thread = .opening (.edit T n)) (served : waitOf l = none)
    (idle' : s'.store.pending l.thread = none) : s.store.sizes T = none := by
  have thread := stands.threads l.thread
  rw [phase] at thread
  cases h with
  | invoke idle => cases idle.symm.trans thread
  | @act i β e k x db' running hx =>
    cases running.symm.trans thread
    have idle : s.store.pending i = none := by
      rw [stands.inv.tied, phase]
      rfl
    rcases stands.mirrors.exec_resize idle T n with ⟨missing, -⟩ | ⟨-, -, resp⟩ | ⟨-, resp⟩
    · exact missing
    · -- the fleet's row was changed, and the change would be pending
      have written := (resp.only hx).2.writes i
      rw [stands'.mirrors.writes i, idle'] at written
      simp [Store.change] at written
    · obtain ⟨rfl, -⟩ := resp.only hx
      cases served

/-- A run of the pool is a run of its phases, statement by statement. -/
theorem run_faithful {c c' : Jobs ι} {s : State ι} {ls : List (Label Sql ι)} (stands : Stands engine jobs users fleetId c s)
    (h : Run (Step (postgres engine ι) (code jobs)) c ls c') :
    ∃ s', Run (fun a l b => Faithful engine jobs users a (Label.thread l, waitOf l) b) s ls s' ∧
      Stands engine jobs users fleetId c' s' := by
  refine h.simulate (Stands engine jobs users fleetId) ?_ stands
  intro c l c' s stands hs
  obtain ⟨s', moved, stands'⟩ := step_moves stands hs
  exact ⟨s', ⟨moved, fun T n phase served idle => missing_of_step stands hs stands' phase served idle⟩, stands'⟩

/-! ## What the end of a job says about its phases -/

/-- Whether a job that ends with `o` has taken effect by this phase. -/
def Phase.Applied (o : Result) : Phase → Prop
  | .scheduling _ _ _ => noneFree o = true
  | .ending _ x none => x ≠ .error .duplicateIdempotencyKey ∧ Served x
  | .done _ => Served o
  | _ => False

/-- What it says about this phase that the job ends with `o`. -/
def Phase.Foretells (users : List Int) (t : Table) (o : Result) : Phase → Prop
  | .scheduling r _ size => noneFree o = true → o = .error (noAvailability r.carType r.period) ∧
      FleetSchedule.canAccommodate { fleetSize := size, booked := t.bookedDuring r.carType r.period } r.period = false
  | .adding _ _ _ => noneFree o = false
  | .retrying _ _ => noneFree o = false
  | .ending _ x none => (x = .error .duplicateIdempotencyKey → noneFree o = false) ∧
      (x ≠ .error .duplicateIdempotencyKey → o = x)
  | .ending _ x (some c) => (c.Accepted users → o = x) ∧ (¬ c.Accepted users → o = .error userMissing)
  | .done o' => o = o'
  | _ => True

variable {i : ι} {w : Option Wait} {ph ph' : Phase} {st st' : Store ι} {job : Job} {o : Result}

omit [DecidableEq ι] in
/-- Cars only come free under the steps of the others, so a window that has no
room later had none before. -/
theorem foretells_stable (ok : PhaseOk i st job ph) (others : Store.Interferes i st st')
    (h : ph.Foretells users st'.table o) : ph.Foretells users st.table o := by
  cases ph with
  | scheduling r key size =>
    intro refused
    obtain ⟨e, full⟩ := h refused
    refine ⟨e, ?_⟩
    rw [← Bool.not_eq_true, Table.canAccommodate_iff] at full ⊢
    intro room
    exact full fun x hx => lt_of_le_of_lt ((others.fleet _ ok.2.1.1).1.usage_le x) (room x hx)
  | ending block x change => cases change <;> exact h
  | _ => exact h

omit [DecidableEq ι] in
theorem noneFree_reserved_replay (b : Booking) (carType : CarType) (period : RentalPeriod) :
    noneFree (reserved (replay b carType period)) = false := by
  rcases reserved_replay b carType period with e | e <;> rw [e] <;> rfl

omit [DecidableEq ι] in
theorem noneFree_afterRetry (r : Reserve) (found : Option Booking) : noneFree (afterRetry r (.ok found)) = false := by
  cases found with
  | none => rfl
  | some winner => exact noneFree_reserved_replay ..

/-- A job's own step, read backwards. -/
theorem foretells_advance (step : Advance engine users i w ph st ph' st') (ok : PhaseOk i st job ph)
    (h : ph'.Foretells users st'.table o) : ph.Foretells users st.table o := by
  cases step with
  | @schedule r key size st =>
    intro refused
    simp only [afterSchedule] at h
    split at h
    · rw [show noneFree o = false from h] at refused
      cases refused
    · rename_i full
      have e := h.2 (by simp [noAvailability])
      exact ⟨e, by simpa using full⟩
  | @add r key size st free unused =>
    by_cases accepted : r.customer.id ∈ users
    · rw [Phase.Foretells, h.1 accepted]
      rfl
    · rw [Phase.Foretells, h.2 accepted]
      rfl
  | addLost taken => exact h.1 rfl
  | addBusy =>
    rw [Phase.Foretells, h.2 (by simp [timedOut])]
    rfl
  | retry =>
    rw [Phase.Foretells, show o = _ from h]
    exact noneFree_afterRetry ..
  | @commit block reply change st accepted =>
    cases change with
    | none => exact ⟨fun lost => (by cases lost), fun _ => h⟩
    | some c => exact ⟨fun _ => h, fun refused => absurd (accepted c rfl) refused⟩
  | refuse refused => exact ⟨fun accepted => absurd accepted refused, fun _ => h⟩
  | @rollback block e change st =>
    obtain rfl := ok.2.unchanged
    by_cases lost : e = .duplicateIdempotencyKey
    · obtain ⟨r, key, rfl, -⟩ := ok.2 (congrArg Except.error lost)
      subst lost
      exact ⟨fun _ => h, fun kept => absurd rfl kept⟩
    · rw [afterFail_of_ne block lost] at h
      exact ⟨fun e' => absurd (Except.error.inj e') lost, fun _ => h⟩
  | _ => trivial

/-! ## The statement that carries a job out -/

/-- The bookings and the fleets of a store. -/
abbrev holdings (st : Store ι) : Holdings := (st.table.bookings, st.sizes)

/-- The number of the booking a job has made. -/
def bookedId : Result → Int
  | .ok (some (.booked ⟨b, _⟩)) => b.id
  | _ => 0

/-- Carried out at once, the job turns the holdings before into those after, and ends with `o`. -/
def CarriedOut (job : Job) (o : Result) (before after : Holdings) : Prop :=
  ∃ y, UpToTies y o ∧ job.atOnce (bookedId o) before = (y, after)

omit [DecidableEq ι] in
theorem carriedOut_of_eq {before after : Holdings} (h : job.atOnce (bookedId o) before = (o, after)) :
    CarriedOut job o before after := ⟨o, .refl o, h⟩

omit [DecidableEq ι] in
theorem served_reserved_replay (b : Booking) (carType : CarType) (period : RentalPeriod) :
    Served (reserved (replay b carType period)) := by
  rcases reserved_replay b carType period with e | e <;> rw [e]
  · trivial
  · exact rfl

omit [DecidableEq ι] in
theorem served_of_validate {policy : BookingPolicy} {period : RentalPeriod} {now : Instant} {e : Exn}
    (h : policy.validate period now = .error e) : Served (.error e) := by
  rcases BookingPolicy.validate_error h with ⟨m, rfl⟩ | ⟨rfl, -⟩ <;> exact rfl

omit [DecidableEq ι] in
/-- The lookup carries out a replay, a conflict or a policy's refusal, and a request that
is to find no car free. -/
theorem carriedOut_look {r : Reserve} {key : IdempotencyKey} {size : Nat} (isJob : (Block.reserve r key).Of job)
    (known : st.sizes r.carType = some size)
    (h : (afterLook r key size (st.table.findByKey r.customer.id key)).Foretells users st.table o) :
    ¬ (afterLook r key size (st.table.findByKey r.customer.id key)).Applied o ∨
    ((afterLook r key size (st.table.findByKey r.customer.id key)).Applied o ∧
      CarriedOut job o (holdings st) (holdings st)) := by
  obtain ⟨rfl, parsed⟩ := isJob
  have lookup : ∀ n, Table.findByKey ⟨st.table.bookings, n⟩ r.customer.id key = st.table.findByKey r.customer.id key :=
    fun _ => rfl
  cases found : st.table.findByKey r.customer.id key with
  | some existing =>
    rw [found] at h
    have kept : reserved (replay existing r.carType r.period) ≠ .error .duplicateIdempotencyKey := by
      rcases reserved_replay existing r.carType r.period with e | e <;> simp [e, idempotencyConflict]
    refine .inr ⟨⟨kept, served_reserved_replay ..⟩, carriedOut_of_eq ?_⟩
    rw [h.2 kept]
    simp only [Job.atOnce, Memory.answer, Memory.answerReserve, parsed, known, lookup, found]
  | none =>
    rw [found] at h
    simp only [afterLook] at h ⊢
    cases valid : r.policy.validate r.period r.now with
    | error e =>
      simp only [valid] at h ⊢
      have kept : (.error e : Result) ≠ .error .duplicateIdempotencyKey := by
        intro lost
        exact Memory.validate_ne_duplicate valid (Except.error.inj lost)
      refine .inr ⟨⟨kept, served_of_validate valid⟩, carriedOut_of_eq ?_⟩
      rw [h.2 kept]
      simp only [Job.atOnce, Memory.answer, Memory.answerReserve, parsed, known, lookup, found, valid]
      rfl
    | ok _ =>
      simp only [valid] at h ⊢
      by_cases refused : noneFree o = true
      · obtain ⟨rfl, full⟩ := h refused
        refine .inr ⟨refused, carriedOut_of_eq ?_⟩
        have booked : ∀ n, Table.bookedDuring ⟨st.table.bookings, n⟩ r.carType r.period =
            st.table.bookedDuring r.carType r.period := fun _ => rfl
        simp only [Job.atOnce, Memory.answer, Memory.answerReserve, parsed, known, lookup, found, valid, booked, full]
        rfl
      · exact .inl refused

omit [DecidableEq ι] in
/-- The locking read carries out a cancellation that changes nothing. -/
theorem carriedOut_found {b : Booking} {actor : Customer} {now : Instant} (isJob : (Block.cancel b.id actor now).Of job)
    (found : st.table.get b.id = some b)
    (h : (afterFound b.id actor now (some b)).Foretells users st.table o) :
    ¬ (afterFound b.id actor now (some b)).Applied o ∨
    ((afterFound b.id actor now (some b)).Applied o ∧ CarriedOut job o (holdings st) (holdings st)) := by
  obtain rfl : job = .call (.cancel b.id actor now) := isJob
  have lookup : ∀ n, Table.get ⟨st.table.bookings, n⟩ b.id = some b := fun _ => found
  simp only [afterFound] at h ⊢
  by_cases managed : b.mayBeManagedBy actor = true
  · simp only [if_pos managed] at h ⊢
    cases gone : b.isCancelled with
    | true =>
      simp only [gone, if_true] at h ⊢
      refine .inr ⟨⟨by simp, trivial⟩, carriedOut_of_eq ?_⟩
      rw [h.2 (by simp)]
      simp only [Job.atOnce, Memory.answer, Memory.cancelStep, lookup, managed, if_true, Booking.cancel, gone]
      rfl
    | false =>
      by_cases ended : b.period.stop ≤ now
      · simp only [gone, ended, if_true, Bool.false_eq_true, if_false] at h ⊢
        refine .inr ⟨⟨by simp, rfl⟩, carriedOut_of_eq ?_⟩
        rw [h.2 (by simp)]
        simp only [Job.atOnce, Memory.answer, Memory.cancelStep, lookup, managed, if_true, Booking.cancel, gone, ended]
        rfl
      · simp only [ended, Bool.false_eq_true, if_false]
        exact .inl id
  · simp only [if_neg managed] at h ⊢
    refine .inr ⟨⟨by simp [reservationNotFound], rfl⟩, carriedOut_of_eq ?_⟩
    rw [h.2 (by simp [reservationNotFound])]
    simp only [Job.atOnce, Memory.answer, Memory.cancelStep, lookup, managed]
    rfl

omit [DecidableEq ι] in
/-- A commit carries out what the job has changed. -/
theorem carriedOut_change {sizes₀ : FleetSizes} {block : Block} {reply : Option Reply} {c : Change}
    (inv : Store.Inv engine st) (ok : Store.ChangeOk engine st i c)
    (ends : PhaseOk i st job (.ending block (.ok reply) (some c)))
    (knows : Knows jobs sizes₀ st job (.ending block (.ok reply) (some c))) :
    CarriedOut job (.ok reply) (holdings st) (holdings (st.commit c)) := by
  obtain ⟨isJob, ended⟩ := ends
  cases c with
  | book b =>
    obtain ⟨r, key, rfl, result, hasKey, type, period⟩ := ended
    obtain ⟨rfl, parsed⟩ := isJob
    cases result
    obtain ⟨size, known, room⟩ := ok.room
    have valid := knows.1 b rfl
    have fresh : Table.fresh ⟨st.table.bookings, b.id⟩ r.carType r.customer.id r.period key = b :=
      Booking.ext rfl hasKey.1.symm type.symm period.symm hasKey.2.symm ok.active.symm ok.unstamped.symm
    have unused : Table.findByKey ⟨st.table.bookings, b.id⟩ r.customer.id key = none := by
      refine Table.findByKey_none.2 fun a ha hk => ok.newKey a ha ?_
      rwa [hasKey.1, hasKey.2]
    have fits : FleetSchedule.canAccommodate
        { fleetSize := size, booked := Table.bookedDuring ⟨st.table.bookings, b.id⟩ r.carType r.period } r.period =
          true := by
      rw [Table.canAccommodate_iff, ← type, ← period]
      exact room
    rw [type] at known
    refine carriedOut_of_eq ?_
    simp only [Job.atOnce, bookedId, Memory.answer, Memory.answerReserve, parsed, known, unused, valid, fits, fresh, if_true]
    rfl
  | cancel id now =>
    obtain ⟨actor, rfl, -, b, hb, rfl, managed, result⟩ := ended
    obtain rfl : job = .call (.cancel b.id actor now) := isJob
    cases result
    obtain ⟨-, a, ha, same, active, running⟩ := ok
    obtain rfl := List.inj_on_of_nodup_map inv.stored.ids ha hb same
    have step := Table.cancelStep_managed (t := ⟨st.table.bookings, 0⟩) inv.stored.ids ha managed now
    have cancels : a.cancel now = .ok (true, cancelledCopy a now) := by
      rw [Booking.cancel, Booking.isCancelled_eq_false.2 active, if_neg (by simp), if_neg (not_le.2 running)]
      rfl
    rw [cancels, if_pos ⟨active, running⟩] at step
    refine carriedOut_of_eq ?_
    simp only [Job.atOnce, bookedId, Memory.answer, step]
    rfl
  | resize T n =>
    obtain ⟨rfl, result⟩ := ended
    obtain rfl : job = .edit T n := isJob
    cases result
    refine carriedOut_of_eq ?_
    simp only [Job.atOnce, ok.2, if_true]
    rfl

/-- A step of a job carries it out, or changes neither the holdings nor whether it has been. -/
theorem carriedOut_advance {sizes₀ : FleetSizes} (inv : Store.Inv engine st) (tied : st.pending i = ph.pending)
    (ok : PhaseOk i st job ph) (sizes : ∀ T, ¬ Edited jobs T → st.sizes T = sizes₀ T) (knows : Knows jobs sizes₀ st job ph)
    (apart : ∀ policy T P now, job = .call (.availability policy T P now) → ¬ Edited jobs T)
    (missing : ∀ T n, ph = .opening (.edit T n) → w = none → st'.pending i = none → st.sizes T = none)
    (step : Advance engine users i w ph st ph' st') (h : ph'.Foretells users st'.table o) :
    ((ph'.Applied o ↔ ph.Applied o) ∧ holdings st' = holdings st) ∨
    (¬ ph.Applied o ∧ ph'.Applied o ∧ CarriedOut job o (holdings st) (holdings st')) := by
  cases step with
  | lockFleet size free => exact .inl ⟨Iff.rfl, rfl⟩
  | @noFleet r key st unknown =>
    obtain ⟨rfl, parsed⟩ := ok
    refine .inr ⟨id, ⟨by simp [carTypeNotFound], rfl⟩, carriedOut_of_eq ?_⟩
    rw [h.2 (by simp [carTypeNotFound])]
    simp only [Job.atOnce, Memory.answer, Memory.answerReserve, parsed, unknown]
    rfl
  | fleetBusy => exact .inl ⟨⟨fun served => absurd served.2 (not_served rfl), False.elim⟩, rfl⟩
  | @look r key size st =>
    rcases carriedOut_look ok.1 ok.2.2 h with later | ⟨applied, carriedOut⟩
    · exact .inl ⟨⟨fun now => absurd now later, False.elim⟩, rfl⟩
    · exact .inr ⟨id, applied, carriedOut⟩
  | @schedule r key size st =>
    refine .inl ⟨?_, rfl⟩
    unfold afterSchedule at h ⊢
    by_cases fits : FleetSchedule.canAccommodate
        { fleetSize := size, booked := st.table.bookedDuring r.carType r.period } r.period = true
    · simp only [if_pos fits] at h ⊢
      simp only [Phase.Applied, show noneFree o = false from h, Bool.false_eq_true]
    · simp only [if_neg fits] at h ⊢
      have kept : (.error (noAvailability r.carType r.period) : Result) ≠ .error .duplicateIdempotencyKey := by
        simp [noAvailability]
      rw [h.2 kept]
      exact ⟨fun _ => rfl, fun _ => ⟨kept, rfl⟩⟩
  | add free unused => exact .inl ⟨Iff.rfl, rfl⟩
  | addLost taken => exact .inl ⟨⟨fun kept => kept.1 rfl, False.elim⟩, rfl⟩
  | addBusy => exact .inl ⟨⟨fun served => absurd served.2 (not_served rfl), False.elim⟩, rfl⟩
  | @retry r key st =>
    obtain ⟨⟨rfl, parsed⟩, b, hb, hk⟩ := ok
    obtain ⟨size, known⟩ := Option.isSome_iff_exists.1 knows
    have found : st.table.findByKey r.customer.id key = some b := Table.findByKey_of_mem inv.stored.keys hb hk
    have lookup : ∀ n, Table.findByKey ⟨st.table.bookings, n⟩ r.customer.id key = some b := fun _ => found
    rw [found] at h ⊢
    have e : o = reserved (replay b r.carType r.period) := h
    refine .inr ⟨id, ?_, carriedOut_of_eq ?_⟩
    · rw [e]
      exact served_reserved_replay ..
    · rw [e]
      simp only [Job.atOnce, Memory.answer, Memory.answerReserve, parsed, known, lookup]
  | lockBooking found free =>
    rcases carriedOut_found ok found h with later | ⟨applied, carriedOut⟩
    · exact .inl ⟨⟨fun now => absurd now later, False.elim⟩, rfl⟩
    · exact .inr ⟨id, applied, carriedOut⟩
  | @noBooking id' actor now st unknown =>
    obtain rfl : job = .call (.cancel id' actor now) := ok
    have lookup : ∀ n, Table.get ⟨st.table.bookings, n⟩ id' = none := fun _ => unknown
    refine .inr ⟨id, ⟨by simp [reservationNotFound], rfl⟩, carriedOut_of_eq ?_⟩
    rw [h.2 (by simp [reservationNotFound])]
    simp only [Job.atOnce, Memory.answer, Memory.cancelStep, lookup]
    rfl
  | bookingBusy => exact .inl ⟨⟨fun served => absurd served.2 (not_served rfl), False.elim⟩, rfl⟩
  | save => exact .inl ⟨Iff.rfl, rfl⟩
  | resize known free => exact .inl ⟨Iff.rfl, rfl⟩
  | @noResize T n st =>
    obtain rfl : job = .edit T n := ok
    have unknown := missing T n rfl rfl tied
    refine .inr ⟨id, ⟨by simp, trivial⟩, carriedOut_of_eq ?_⟩
    rw [h.2 (by simp)]
    simp only [Job.atOnce, unknown]
    rfl
  | resizeBusy => exact .inl ⟨⟨fun served => absurd served.2 (not_served rfl), False.elim⟩, rfl⟩
  | @commit block reply change st accepted =>
    have e : o = .ok reply := h
    subst e
    cases change with
    | none =>
      have same : st.committed i = st.finish i := by
        rw [Store.committed, tied]
        rfl
      rw [same]
      exact .inl ⟨⟨fun _ => ⟨by simp, trivial⟩, fun _ => trivial⟩, rfl⟩
    | some c =>
      have committed : holdings (st.committed i) = holdings (st.commit c) := by
        rw [Store.committed, tied]
        rfl
      rw [committed]
      exact .inr ⟨id, trivial, carriedOut_change inv (inv.changes i c tied) ok knows⟩
  | refuse refused =>
    have e : o = .error userMissing := h
    subst e
    exact .inl ⟨⟨fun served => absurd served (not_served rfl), False.elim⟩, rfl⟩
  | @rollback block e change st =>
    obtain rfl := ok.2.unchanged
    refine .inl ⟨?_, rfl⟩
    by_cases lost : e = .duplicateIdempotencyKey
    · obtain ⟨r, key, rfl, -⟩ := ok.2 (congrArg Except.error lost)
      subst lost
      exact ⟨False.elim, fun kept => kept.1 rfl⟩
    · rw [afterFail_of_ne block lost] at h ⊢
      have e' : o = .error e := h
      rw [e']
      exact ⟨fun served => ⟨fun dup => lost (Except.error.inj dup), served⟩, fun served => served.2⟩
  | find size => exact .inl ⟨Iff.rfl, rfl⟩
  | @notFound T P st unknown =>
    obtain ⟨policy, now, rfl⟩ := ok
    have valid := knows policy T P now rfl
    have e : o = .error (carTypeNotFound T) := h
    subst e
    refine .inr ⟨id, rfl, carriedOut_of_eq ?_⟩
    simp only [Job.atOnce, Memory.answer, Memory.answerAvailability, valid, unknown]
    rfl
  | @count T P size st =>
    obtain ⟨⟨policy, now, rfl⟩, -⟩ := ok
    obtain ⟨admitted, read⟩ := knows
    have same := apart policy T P now rfl
    have valid := admitted policy T P now rfl
    have known := (sizes T same).trans (read same)
    have e : o = _ := h
    rw [e]
    refine .inr ⟨id, trivial, carriedOut_of_eq ?_⟩
    simp only [Job.atOnce, Memory.answer, Memory.answerAvailability, valid, known]
    rfl
  | @list customer bookings st perm sorted =>
    obtain rfl : job = .call (.reservationsFor customer) := ok
    have e : o = _ := h
    rw [e]
    refine .inr ⟨id, trivial, _, ?_, rfl⟩
    have same : ((⟨st.table.bookings, 0⟩ : Table).bookingsOf customer.id).Perm bookings :=
      (List.perm_insertionSort _ _).trans perm.symm
    refine .listed same ?_
    have latestFirst : (bookings.map (·.period.start)).Pairwise fun a b => b ≤ a := List.pairwise_map.2 sorted
    have latestFirst' : (((⟨st.table.bookings, 0⟩ : Table).bookingsOf customer.id).map (·.period.start)).Pairwise
        fun a b => b ≤ a := List.pairwise_map.2 (Table.pairwise_latestFirst (fun b : Booking => b.period.start) _)
    exact (same.map _).eq_of_pairwise (fun _ _ _ _ h h' => le_antisymm h' h) latestFirst' latestFirst

omit [DecidableEq ι] in
/-- A request that is malformed or not admitted is answered when it is invoked. -/
theorem carriedOut_invoked (job : Job) (st : Store ι) (h : (invoked job).Foretells users st.table o) :
    ¬ (invoked job).Applied o ∨ ((invoked job).Applied o ∧ CarriedOut job o (holdings st) (holdings st)) := by
  rcases job with (r | ⟨bookingId, actor, now⟩ | ⟨policy, T, P, now⟩ | customer) | ⟨T, n⟩
  · simp only [invoked] at h ⊢
    cases parsed : IdempotencyKey.new r.idempotencyKey with
    | error e =>
      simp only [parsed] at h ⊢
      have e' : o = .error e := h
      subst e'
      refine .inr ⟨?_, carriedOut_of_eq ?_⟩
      · unfold IdempotencyKey.new at parsed
        split at parsed
        · cases parsed
        · cases parsed
          exact rfl
      · simp only [Job.atOnce, Memory.answer, Memory.answerReserve, parsed]
        rfl
    | ok key => exact .inl id
  · exact .inl id
  · simp only [invoked] at h ⊢
    cases valid : policy.validate P now with
    | error e =>
      simp only [valid] at h ⊢
      have e' : o = .error e := h
      subst e'
      refine .inr ⟨served_of_validate valid, carriedOut_of_eq ?_⟩
      simp only [Job.atOnce, Memory.answer, Memory.answerAvailability, valid]
      rfl
    | ok _ => exact .inl id
  · exact .inl id
  · exact .inl id

/-! ## Runs -/

/-- Every phase foretells how its job ends. -/
def State.Foretells (users : List Int) (outcome : ι → Result) (s : State ι) : Prop :=
  ∀ i, (s.phase i).Foretells users s.store.table (outcome i)

theorem foretells_moves {outcome : ι → Result} {s s' : State ι} {m : ι × Option Wait} (inv : Inv engine jobs s)
    (h : Moves engine jobs users s m s') (later : s'.Foretells users outcome) : s.Foretells users outcome := by
  intro j
  have foretold := later j
  by_cases e : j = m.1
  · subst e
    rcases h.own with ⟨idle, -, -⟩ | step
    · rw [idle]
      trivial
    · exact foretells_advance step (inv.phases _) foretold
  · rw [h.frame e] at foretold
    exact foretells_stable (inv.phases j) ((h.step inv).interferes inv.store e) foretold

/-- No availability is asked of a type whose fleet is edited. -/
def Apart (jobs : ι → Job) : Prop :=
  ∀ i policy T P now, jobs i = .call (.availability policy T P now) → ¬ Edited jobs T

/-- The jobs as they are carried out at once, with results up to ties. -/
def atOnceUpToTies (jobs : ι → Job) (outcome : ι → Result) (i : ι) (b : Holdings) : Quotient ties × Holdings :=
  (⟦((jobs i).atOnce (bookedId (outcome i)) b).1⟧, ((jobs i).atOnce (bookedId (outcome i)) b).2)

omit [DecidableEq ι] in
theorem forall₂_of_quotient {outcome : ι → Result} {order : List ι} {results : List Result}
    (same : results.map (fun x => (⟦x⟧ : Quotient ties)) = order.map fun i => ⟦outcome i⟧) :
    List.Forall₂ (fun i x => UpToTies x (outcome i)) order results := by
  induction order generalizing results with
  | nil =>
    rw [List.map_nil, List.map_eq_nil_iff] at same
    exact same ▸ .nil
  | cons i order ih =>
    obtain ⟨x, results, rfl, first, rest⟩ := List.map_eq_cons_iff.1 same
    exact .cons (Quotient.exact first) (ih rest)

/-- Every step of a pool of jobs carries its job out or carries nothing out. -/
theorem commits_moves {sizes₀ : FleetSizes} {outcome : ι → Result} (apart : Apart jobs) {s s' : State ι}
    {m : ι × Option Wait} (inv : Inv engine jobs s) (informed : Informed jobs sizes₀ s)
    (h : Faithful engine jobs users s m s') (later : s'.Foretells users outcome) :
    Commits (atOnceUpToTies jobs outcome) (fun i => ⟦outcome i⟧) (fun s : State ι => holdings s.store)
      (fun s i => (s.phase i).Applied (outcome i)) s m.1 s' where
  others j ne := by rw [h.moved.frame ne]
  own := by
    have one : ((s'.phase m.1).Applied (outcome m.1) ↔ (s.phase m.1).Applied (outcome m.1)) ∧
          holdings s'.store = holdings s.store ∨
        ¬ (s.phase m.1).Applied (outcome m.1) ∧ (s'.phase m.1).Applied (outcome m.1) ∧
          CarriedOut (jobs m.1) (outcome m.1) (holdings s.store) (holdings s'.store) := by
      have foretold := later m.1
      rcases h.moved.own with ⟨idle, served, phase⟩ | step
      · have same : holdings s'.store = holdings s.store := by
          cases h.moved with
          | invoke => rfl
          | advance step =>
            rw [idle] at step
            cases step
        rw [phase] at foretold
        rw [phase, idle, same]
        rcases carriedOut_invoked (jobs m.1) s'.store foretold with not | ⟨applied, carriedOut⟩
        · exact .inl ⟨⟨fun now => absurd now not, False.elim⟩, rfl⟩
        · exact .inr ⟨id, applied, same ▸ carriedOut⟩
      · exact carriedOut_advance inv.store (inv.tied _) (inv.phases _) informed.sizes (informed.knows _)
          (apart m.1) h.missing step foretold
    rcases one with same | ⟨before, after, y, tied, e⟩
    · exact .inl same
    · refine .inr ⟨before, after, ?_⟩
      simp only [atOnceUpToTies, e]
      exact congrArg (·, _) (Quotient.sound tied)

/-- Serializability: in a run to the end, the jobs that were served (whose waits did not run
out, and whose user exists) have the results they have when they are carried out at
once, one after another in some order that keeps the jobs that did not overlap in
their order, and the tables are those that are left then. -/
theorem serializable (engine : Engine) (jobs : ι → Job) {t : Tables} (fresh : NoBookings t) (drawn : Int)
    (apart : Apart jobs) {ls : List (Label Sql ι)} {c : Jobs ι}
    (run : Run (Step (postgres engine ι) (code jobs)) (Pool.start (Db.quiet t drawn)) ls c) (complete : c.Complete) :
    ∃ (order : List ι) (number : ι → Int) (results : List Result) (after : Holdings),
      order.Nodup ∧ (∀ i, i ∈ order ↔ ∃ x, (c.thread i).result = some x ∧ Served x) ∧
      (order.Pairwise fun a b => ¬ Precedes (ls.map (·.thread)) b a) ∧
      serial (fun i => (jobs i).atOnce (number i)) order ([], fleetSizes t) = (results, after) ∧
      List.Forall₂ (fun i x => ∃ y, (c.thread i).result = some y ∧ UpToTies x y) order results ∧
      c.shared.tables.reservations = after.1.map (encode (fleetIdOf t)) ∧
      ∀ T, c.shared.tables.fleetNamed T.value = (after.2 T).map (fleetRow (fleetIdOf t) T) := by
  have start := stands_start (ι := ι) fresh engine jobs drawn
  obtain ⟨s, trace, stands⟩ := run_faithful start run
  obtain ⟨outcome, finished⟩ : ∃ outcome : ι → Result, ∀ i, (c.thread i).result = some (outcome i) :=
    ⟨_, fun i => (Option.some_get (complete i)).symm⟩
  have done : ∀ i, s.phase i = .done (outcome i) := by
    intro i
    have result := finished i
    rw [stands.threads] at result
    exact Phase.done_of_result result
  obtain ⟨steps, -⟩ := trace.decorate
    (I := fun s : State ι => Inv engine jobs s ∧ Informed jobs (fleetSizes t) s) (P := State.Foretells t.users outcome)
    (fun a l b hI h => ⟨inv_moves h.moved hI.1, informed_moves hI.1 h.moved hI.2⟩)
    (fun a l b hI h => foretells_moves hI.1 h.moved)
    ⟨start.inv, fun T _ => rfl, fun i => trivial⟩ (fun i => by rw [done i]; rfl)
  obtain ⟨order, sub, nodup, mem, -, answers⟩ := exists_order (fun l : Label Sql ι => l.thread)
    (fun a l b h => commits_moves apart h.2.1.1 h.2.1.2 h.1 h.2.2) steps
  have mapped := serial_map (fun x => (⟦x⟧ : Quotient ties))
    (fun i => (jobs i).atOnce (bookedId (outcome i))) order ([], fleetSizes t)
  obtain ⟨same, after⟩ := Prod.mk.inj (mapped.symm.trans answers)
  refine ⟨order, fun i => bookedId (outcome i), _, holdings s.store, nodup, fun i => ?_, pairwise_of_sublist sub,
    Prod.ext rfl after, ?_, stands.mirrors.rows, stands.mirrors.named⟩
  · rw [mem, done i]
    constructor
    · exact fun applied => ⟨_, finished i, applied.1⟩
    · rintro ⟨x, result, served⟩
      cases (finished i).symm.trans result
      exact ⟨served, id⟩
  · exact (forall₂_of_quotient same).imp fun i x tied => ⟨_, finished i, tied⟩

/-- The one sedan is booked while another customer waits for the fleet and gives up,
a member of staff cancels, and the fleet of vans is enlarged. -/
def busyMorning : Fin 5 → Job
  | 0 => .call (.reserve (springReserve .sedan))
  | 1 => .call (.reserve { springReserve .sedan with idempotencyKey := "spring-2027" })
  | 2 => .call (.availability {} .sedan (springReserve .sedan).period 0)
  | 3 => .call (.cancel 1 { id := 8, isStaff := true } 20)
  | 4 => .edit .van 3

theorem apart_busyMorning : Apart busyMorning := by
  rintro i policy T P now h ⟨j, n, h'⟩
  have vans : ∀ j T n, busyMorning j = .edit T n → T = .van := by
    intro j T n e
    fin_cases j <;> simp [busyMorning] at e
    exact e.1.symm
  have sedans : ∀ i policy T P now, busyMorning i = .call (.availability policy T P now) → T = .sedan := by
    intro i policy T P now e
    fin_cases i <;> simp [busyMorning] at e
    exact e.2.1.symm
  have type := (sedans i policy T P now h).symm.trans (vans j T n h')
  cases type

theorem serializable_busyMorning : ∃ ls c, Run (Step (postgres plainEngine (Fin 5)) (code busyMorning))
      (Pool.start (Db.quiet smallTables 1)) ls c ∧ c.Complete ∧
    ∃ (order : List (Fin 5)) (number : Fin 5 → Int) (results : List Result) (after : Holdings),
      order.Nodup ∧ 1 ∉ order ∧
      serial (fun i => (busyMorning i).atOnce (number i)) order ([], fleetSizes smallTables) = (results, after) ∧
      c.shared.tables.reservations = after.1.map (encode (fleetIdOf smallTables)) := by
  obtain ⟨ls, c, run, complete, refused⟩ : ∃ ls c, Run (Step (postgres plainEngine (Fin 5)) (code busyMorning))
        (Pool.start (Db.quiet smallTables 1)) ls c ∧ (∀ i, ((c.thread i).result).isSome = true) ∧
      (c.thread 1).result = some (.error fleetBusy) :=
    Machine.exists_run_of_schedule
      ([0, 0, 0, 1, 1, 1, 0, 2, 2, 4, 0, 0, 2, 3, 3, 3, 3, 4, 4].map (·, 0)) (by decide +kernel)
  obtain ⟨order, number, results, after, nodup, served, -, answers, -, rows, -⟩ :=
    serializable plainEngine busyMorning noBookings_smallTables 1 apart_busyMorning run complete
  refine ⟨ls, c, run, complete, order, number, results, after, nodup, fun listed => ?_, answers, rows⟩
  obtain ⟨x, result, busy⟩ := (served 1).1 listed
  cases refused.symm.trans result
  exact not_served rfl busy

end

end Postgres

end VehicleRentals
