import VehicleRentals.Memory.Tables

/-!
# The invariant of the in-memory desk

`StageOk` says what a `reserve` call knows at each point between two of its
steps, `Inv` that the table is sound, that every call knows what its phase says
and that a lock is held only from inside a block. What the other calls can do to
it meanwhile is `Interferes`: while a call holds its fleet lock, the bookings of
that type can only be cancelled, and nobody else gets the lock.
-/

namespace VehicleRentals

open Concurrent

namespace Memory

/-- Nothing of the call's own car type is booked under its key. -/
def Absent (t : Table) (r : Reserve) (key : IdempotencyKey) : Prop :=
  ∀ b ∈ t.bookings, b.HasKey r.customer.id key → b.carType ≠ r.carType

/-- The key went to a booking of another car type. -/
def Lost (t : Table) (r : Reserve) (key : IdempotencyKey) : Prop :=
  ∃ b ∈ t.bookings, b.HasKey r.customer.id key ∧ b.carType ≠ r.carType

/-- The result is a booking of the table, possibly cancelled since, made with
the parameters of the call. -/
structure Grants (t : Table) (r : Reserve) (key : IdempotencyKey) (b : Booking) : Prop where
  hasKey : b.HasKey r.customer.id key
  isFor : b.carType = r.carType ∧ b.period = r.period
  stored : ∃ b' ∈ t.bookings, b.SameOrigin b' ∧ (b.status = .cancelled → b' = b)

/-- The stages inside the exclusive block. -/
def Stage.inside : Stage → Bool
  | .acquiring | .retrying => false
  | _ => true

section

variable {ι : Type}

/-- What a `reserve` call knows at each stage. -/
def StageOk (t : Table) (r : Reserve) (key : IdempotencyKey) (size : Nat) : Stage → Prop
  | .acquiring | .looking => True
  | .scheduling => Absent t r key ∧ r.policy.validate r.period r.now = .ok ()
  | .adding => Absent t r key ∧ r.policy.validate r.period r.now = .ok () ∧
      ∀ x, r.period.Covers x → t.usage r.carType x < size
  | .releasing x => (x = .error .duplicateIdempotencyKey → Lost t r key) ∧
      ∀ result, x = .ok result → Grants t r key result.booking
  | .retrying => Lost t r key

/-- What is known about a finished call. -/
def DoneOk (t : Table) (call : Call) : Outcome → Prop
  | .error e => e ≠ .duplicateIdempotencyKey
  | .ok (.booked result) => ∃ r key, call = .reserve r ∧ IdempotencyKey.new r.idempotencyKey = .ok key ∧
      Grants t r key result.booking
  | .ok (.cancelled b) => ∃ actor now, call = .cancel b.id actor now ∧ b ∈ t.bookings ∧ b.status = .cancelled
  | .ok (.free _) => ∃ policy carType period now, call = .availability policy carType period now
  | .ok (.listed _) => ∃ customer, call = .reservationsFor customer

/-- What is known about a call at each phase, its arguments included. -/
def PhaseOk (sizes : FleetSizes) (i : ι) (m : Memory ι) (call : Call) : Phase → Prop
  | .idle => True
  | .reserving r key size g => call = .reserve r ∧ IdempotencyKey.new r.idempotencyKey = .ok key ∧
      sizes r.carType = some size ∧ (g.inside = true → m.holder r.carType = some i) ∧
      StageOk m.table r key size g
  | .cancelling bookingId actor now => call = .cancel bookingId actor now
  | .checking carType period size => ∃ policy now, call = .availability policy carType period now ∧
      policy.validate period now = .ok () ∧ sizes carType = some size
  | .listing customer => call = .reservationsFor customer
  | .done o => DoneOk m.table call o

/-- The phase is inside the exclusive block of this car type. -/
def Phase.holds (carType : CarType) : Phase → Prop
  | .reserving r _ _ g => r.carType = carType ∧ g.inside = true
  | _ => False

/-- The invariant of a pool of calls. -/
structure Inv (sizes : FleetSizes) (calls : ι → Call) (s : State ι) : Prop where
  sound : s.memory.table.Sound sizes
  phases : ∀ i, PhaseOk sizes i s.memory (calls i) (s.phase i)
  held : ∀ carType i, s.memory.holder carType = some i → (s.phase i).holds carType

/-- What thread `j` can see another thread do in one step. -/
structure Interferes (j : ι) (m m' : Memory ι) : Prop where
  holds : ∀ carType, m.holder carType = some j ↔ m'.holder carType = some j
  later : m.table.Later m'.table
  onlyCancels : ∀ carType, m.holder carType = some j → m.table.OnlyCancels carType m'.table

/-! ## What a call knows stays true under the steps of the others -/

theorem Absent.stable {t t' : Table} {r : Reserve} {key : IdempotencyKey} (h : Absent t r key)
    (quiet : t.OnlyCancels r.carType t') : Absent t' r key := by
  intro b' hb' hk type
  obtain ⟨b, hb, origin⟩ := quiet.nothingNew b' hb' type
  exact h b hb ⟨origin.customerId.trans hk.1, origin.idempotencyKey.trans hk.2⟩ (origin.carType.trans type)

theorem Lost.later {t t' : Table} {r : Reserve} {key : IdempotencyKey} (h : Lost t r key) (l : t.Later t') :
    Lost t' r key := by
  obtain ⟨b, hb, hk, type⟩ := h
  obtain ⟨b', hb', origin, -⟩ := l b hb
  exact ⟨b', hb', ⟨origin.customerId ▸ hk.1, origin.idempotencyKey ▸ hk.2⟩, origin.carType ▸ type⟩

theorem Grants.later {t t' : Table} {r : Reserve} {key : IdempotencyKey} {b : Booking} (h : Grants t r key b)
    (l : t.Later t') : Grants t' r key b := by
  refine ⟨h.hasKey, h.isFor, ?_⟩
  obtain ⟨b', hb', origin, kept⟩ := h.stored
  obtain ⟨b'', hb'', origin', kept'⟩ := l b' hb'
  refine ⟨b'', hb'', origin.trans origin', fun cancelled => ?_⟩
  obtain rfl := kept cancelled
  exact kept' cancelled

theorem DoneOk.later {t t' : Table} {call : Call} {o : Outcome} (h : DoneOk t call o) (l : t.Later t') :
    DoneOk t' call o := by
  rcases o with e | (result | b | count | bookings)
  · exact h
  · obtain ⟨r, key, isCall, parsed, grants⟩ := h
    exact ⟨r, key, isCall, parsed, grants.later l⟩
  · obtain ⟨actor, now, isCall, hb, gone⟩ := h
    obtain ⟨b', hb', -, kept⟩ := l b hb
    exact ⟨actor, now, isCall, kept gone ▸ hb', gone⟩
  · exact h
  · exact h

theorem StageOk.stable {i : ι} {m m' : Memory ι} {r : Reserve} {key : IdempotencyKey} {size : Nat} {g : Stage}
    (h : StageOk m.table r key size g) (inside : g.inside = true → m.holder r.carType = some i)
    (others : Interferes i m m') : StageOk m'.table r key size g := by
  cases g with
  | acquiring => trivial
  | looking => trivial
  | scheduling => exact ⟨h.1.stable (others.onlyCancels _ (inside rfl)), h.2⟩
  | adding =>
    have quiet := others.onlyCancels _ (inside rfl)
    exact ⟨h.1.stable quiet, h.2.1, fun x hx => lt_of_le_of_lt (quiet.usage_le x) (h.2.2 x hx)⟩
  | releasing x => exact ⟨fun e => (h.1 e).later others.later, fun result e => (h.2 result e).later others.later⟩
  | retrying => exact Lost.later h others.later

theorem PhaseOk.stable {sizes : FleetSizes} {i : ι} {m m' : Memory ι} {call : Call} {ph : Phase}
    (h : PhaseOk sizes i m call ph) (others : Interferes i m m') : PhaseOk sizes i m' call ph := by
  cases ph with
  | reserving r key size g =>
    obtain ⟨isCall, parsed, known, inside, ok⟩ := h
    exact ⟨isCall, parsed, known, fun e => (others.holds _).1 (inside e), ok.stable inside others⟩
  | done o => exact DoneOk.later h others.later
  | idle => trivial
  | cancelling bookingId actor now => exact h
  | checking carType period size => exact h
  | listing customer => exact h

/-! ## What a step does -/

/-- The booking a call has created, from its insert on. -/
def Phase.made : Phase → Option Booking
  | .reserving _ _ _ (.releasing x) => (reserved x).created
  | .done o => o.created
  | _ => none

/-- What a step does to the table: nothing, the insert of its call's booking, or
the cancellation its call asks for. -/
inductive Effect (t : Table) : Phase → Phase → Table → Prop where
  | none {ph ph' : Phase} : ph'.made = ph.made → Effect t ph ph' t
  | inserted {r : Reserve} {key : IdempotencyKey} {size : Nat} :
      (∀ b ∈ t.bookings, ¬ b.HasKey r.customer.id key) →
      Effect t (.reserving r key size .adding)
        (.reserving r key size (.releasing (.ok ⟨t.fresh r.carType r.customer.id r.period key, false⟩)))
        (t.push (t.fresh r.carType r.customer.id r.period key))
  | cancelled {b : Booking} {actor : Customer} {now : Instant} : b ∈ t.bookings → b.mayBeManagedBy actor = true →
      b.status = .active → now < b.period.stop →
      Effect t (.cancelling b.id actor now) (.done (.ok (.cancelled (Table.cancelAt b.id now b))))
        (t.cancelled b.id now)

@[simp] theorem created_replay (b : Booking) (carType : CarType) (period : RentalPeriod) :
    (reserved (replay b carType period)).created = none := by
  unfold replay
  split <;> rfl

@[simp] theorem created_error (e : Exn) : Outcome.created (.error e) = none := rfl

theorem made_afterRelease (r : Reserve) (key : IdempotencyKey) (size : Nat) (x : Except Exn BookingResult) :
    (afterRelease r key size x).made = (reserved x).created := by
  cases x with
  | ok result => rfl
  | error e => cases e <;> rfl

theorem Advance.effect {sizes : FleetSizes} {i : ι} {ph ph' : Phase} {m m' : Memory ι}
    (h : Advance i ph m ph' m') (sound : m.table.Sound sizes) : Effect m.table ph ph' m'.table := by
  cases h with
  | acquire free => exact .none rfl
  | @look r key size =>
    refine .none ?_
    cases m.table.findByKey r.customer.id key with
    | some existing => exact created_replay ..
    | none =>
      simp only [afterLook]
      split <;> rfl
  | schedule =>
    refine .none ?_
    simp only [afterSchedule]
    split <;> rfl
  | @add r key size =>
    rcases Table.add_cases sound r.carType r.customer.id r.period key with ⟨b, hb, hk, e⟩ | ⟨unused, e⟩
    · simp only [e]
      exact .none rfl
    · simp only [e]
      exact .inserted unused
  | @release r key size x => exact .none (made_afterRelease r key size x)
  | @retry r key size =>
    refine .none ?_
    cases m.table.findByKey r.customer.id key with
    | none => rfl
    | some winner => exact created_replay ..
  | @cancel bookingId actor now =>
    rcases Table.cancelStep_cases sound.ids_nodup bookingId actor now with
      ⟨-, e⟩ | ⟨b, hb, rfl, managed, active, ended, e⟩ | ⟨b, hb, rfl, managed, gone, e⟩ |
      ⟨b, hb, rfl, managed, active, running, e⟩
    · simp only [e]; exact .none rfl
    · simp only [e]; exact .none rfl
    · simp only [e]; exact .none rfl
    · simp only [e]; exact .cancelled hb managed active running
  | check => exact .none rfl
  | list => exact .none rfl

/-- The table only gains bookings and cancellations. -/
theorem Effect.later {sizes : FleetSizes} {t t' : Table} {ph ph' : Phase} (h : Effect t ph ph' t')
    (sound : t.Sound sizes) : t.Later t' := by
  cases h with
  | none => exact .refl _
  | inserted => exact Table.later_append _ _
  | cancelled hb managed active running => exact Table.later_cancelled sound.ids_nodup hb active _

/-- Another call's step as thread `j` sees it. -/
theorem Advance.interferes {sizes : FleetSizes} {i j : ι} {ph ph' : Phase} {m m' : Memory ι} {call : Call}
    (h : Advance i ph m ph' m') (sound : m.table.Sound sizes) (ok : PhaseOk sizes i m call ph) (ne : j ≠ i) :
    Interferes j m m' := by
  refine ⟨?_, (h.effect sound).later sound, ?_⟩
  · intro carType
    cases h with
    | @acquire r key size _ free =>
      by_cases e : carType = r.carType
      · subst e
        simp [free, Ne.symm ne]
      · simp [Function.update_of_ne e]
    | @release r key size x =>
      by_cases e : carType = r.carType
      · subst e
        simp [ok.2.2.2.1 rfl, Ne.symm ne]
      · simp [Function.update_of_ne e]
    | _ => rfl
  · intro carType mine
    have effect := h.effect sound
    generalize m'.table = t' at effect
    cases effect with
    | none => exact .refl ..
    | cancelled hb managed active running => exact Table.onlyCancels_cancelled ..
    | @inserted r key size unused =>
      apply Table.onlyCancels_push
      intro e
      have his : m.holder carType = some i := e ▸ ok.2.2.2.1 rfl
      exact ne (Option.some.inj (mine.symm.trans his))

/-! ## What a call knows after its own step -/

theorem grants_replay {t : Table} {r : Reserve} {key : IdempotencyKey} {b : Booking} (hb : b ∈ t.bookings)
    (hk : b.HasKey r.customer.id key) {result : BookingResult}
    (e : replay b r.carType r.period = .ok result) : Grants t r key result.booking := by
  unfold replay at e
  split at e
  · cases e
    exact ⟨hk, Booking.isFor_iff.1 ‹_›, b, hb, .refl b, fun _ => rfl⟩
  · cases e

theorem replay_ne_duplicate (b : Booking) (carType : CarType) (period : RentalPeriod) :
    replay b carType period ≠ .error .duplicateIdempotencyKey := by
  unfold replay
  split <;> simp [idempotencyConflict]

theorem validate_ne_duplicate {policy : BookingPolicy} {period : RentalPeriod} {now : Instant} {e : Exn}
    (h : policy.validate period now = .error e) : e ≠ .duplicateIdempotencyKey := by
  rcases BookingPolicy.validate_error h with ⟨_, rfl⟩ | ⟨rfl, -⟩ <;> simp

/-- A lost insert race: the second lookup finds the winner, of another car type. -/
theorem retry_conflict {sizes : FleetSizes} {t : Table} (sound : t.Sound sizes) {r : Reserve}
    {key : IdempotencyKey} (lost : Lost t r key) :
    afterRetry r (t.findByKey r.customer.id key) = .error idempotencyConflict := by
  obtain ⟨b, hb, hk, type⟩ := lost
  have other : ¬ b.isFor r.carType r.period = true := fun same => type (Booking.isFor_iff.1 same).1
  rw [sound.findByKey_eq hb hk, afterRetry, replay, if_neg other]
  rfl

theorem stageOk_refused {t : Table} {r : Reserve} {key : IdempotencyKey} {size : Nat} {e : Exn}
    (h : e = .duplicateIdempotencyKey → Lost t r key) : StageOk t r key size (.releasing (.error e)) :=
  ⟨fun he => h (Except.error.inj he), by simp⟩

theorem stageOk_granted {t : Table} {r : Reserve} {key : IdempotencyKey} {size : Nat} {result : BookingResult}
    (h : Grants t r key result.booking) : StageOk t r key size (.releasing (.ok result)) := by
  refine ⟨by simp, fun result' e => ?_⟩
  cases e
  exact h

theorem stageOk_afterLook {t : Table} {r : Reserve} {key : IdempotencyKey} {size : Nat} :
    StageOk t r key size (afterLook r (t.findByKey r.customer.id key)) := by
  cases found : t.findByKey r.customer.id key with
  | some existing =>
    obtain ⟨hb, hk⟩ := Table.findByKey_some found
    exact ⟨fun e => absurd e (replay_ne_duplicate _ _ _), fun result e => grants_replay hb hk e⟩
  | none =>
    simp only [afterLook]
    cases valid : r.policy.validate r.period r.now with
    | error e =>
      exact stageOk_refused fun lost => absurd lost (validate_ne_duplicate valid)
    | ok _ => exact ⟨fun b hb hk => absurd hk (Table.findByKey_none.1 found b hb), valid⟩

theorem StageOk.afterSchedule {t : Table} {r : Reserve} {key : IdempotencyKey} {size : Nat}
    (h : StageOk t r key size .scheduling) :
    StageOk t r key size (afterSchedule r size (t.bookedDuring r.carType r.period)) := by
  unfold Memory.afterSchedule
  split
  · exact ⟨h.1, h.2, (t.canAccommodate_iff r.carType size r.period).1 ‹_›⟩
  · exact stageOk_refused fun lost => by simp [noAvailability] at lost

theorem StageOk.afterAdd {sizes : FleetSizes} {t : Table} {r : Reserve} {key : IdempotencyKey} {size : Nat}
    (h : StageOk t r key size .adding) (sound : t.Sound sizes) :
    StageOk (t.add r.carType r.customer.id r.period key).2 r key size
      (afterAdd (t.add r.carType r.customer.id r.period key).1) := by
  rcases Table.add_cases sound r.carType r.customer.id r.period key with ⟨b, hb, hk, e⟩ | ⟨-, e⟩
  · rw [e]
    exact stageOk_refused fun _ => ⟨b, hb, hk, h.1 b hb hk⟩
  · rw [e]
    refine stageOk_granted ⟨⟨rfl, rfl⟩, ⟨rfl, rfl⟩, _, List.mem_append_right _ (List.mem_singleton_self _), ?_⟩
    exact ⟨.refl _, fun _ => rfl⟩

theorem StageOk.afterRelease {i : ι} {sizes : FleetSizes} {m : Memory ι} {r : Reserve} {key : IdempotencyKey}
    {size : Nat} {x : Except Exn BookingResult} (h : StageOk m.table r key size (.releasing x))
    (parsed : IdempotencyKey.new r.idempotencyKey = .ok key) (known : sizes r.carType = some size) :
    PhaseOk sizes i m (.reserve r) (afterRelease r key size x) := by
  cases x with
  | ok result => exact ⟨r, key, rfl, parsed, h.2 result rfl⟩
  | error e =>
    by_cases lost : e = .duplicateIdempotencyKey
    · subst lost
      exact ⟨rfl, parsed, known, nofun, h.1 rfl⟩
    · have finished : Memory.afterRelease r key size (.error e) = .done (.error e) := by
        cases e <;> first | rfl | exact absurd rfl lost
      rw [finished]
      exact lost

theorem doneOk_cancelStep {sizes : FleetSizes} {t : Table} (sound : t.Sound sizes) (bookingId : Int)
    (actor : Customer) (now : Instant) :
    DoneOk (cancelStep t bookingId actor now).2 (.cancel bookingId actor now)
      ((cancelStep t bookingId actor now).1.map .cancelled) := by
  rcases Table.cancelStep_cases sound.ids_nodup bookingId actor now with
    ⟨-, e⟩ | ⟨b, hb, rfl, managed, active, ended, e⟩ | ⟨b, hb, rfl, managed, gone, e⟩ |
    ⟨b, hb, rfl, managed, active, running, e⟩ <;> rw [e]
  · simp [DoneOk, Except.map, reservationNotFound]
  · simp [DoneOk, Except.map]
  · exact ⟨actor, now, rfl, hb, gone⟩
  · refine ⟨actor, now, by rw [Table.cancelAt_id], List.mem_map_of_mem hb, ?_⟩
    simp [Table.cancelAt]

theorem Advance.phaseOk {sizes : FleetSizes} {i : ι} {ph ph' : Phase} {m m' : Memory ι} {call : Call}
    (h : Advance i ph m ph' m') (sound : m.table.Sound sizes) (ok : PhaseOk sizes i m call ph) :
    PhaseOk sizes i m' call ph' := by
  cases h with
  | acquire free =>
    obtain ⟨rfl, parsed, known, -, -⟩ := ok
    exact ⟨rfl, parsed, known, fun _ => Function.update_self .., trivial⟩
  | look =>
    obtain ⟨rfl, parsed, known, inside, -⟩ := ok
    exact ⟨rfl, parsed, known, fun _ => inside rfl, stageOk_afterLook⟩
  | schedule =>
    obtain ⟨rfl, parsed, known, inside, now⟩ := ok
    exact ⟨rfl, parsed, known, fun _ => inside rfl, now.afterSchedule⟩
  | add =>
    obtain ⟨rfl, parsed, known, inside, now⟩ := ok
    exact ⟨rfl, parsed, known, fun _ => inside rfl, now.afterAdd sound⟩
  | @release r key size x m =>
    obtain ⟨rfl, parsed, known, inside, now⟩ := ok
    exact StageOk.afterRelease now parsed known
  | retry =>
    obtain ⟨rfl, parsed, known, inside, lost⟩ := ok
    rw [retry_conflict sound lost]
    simp [PhaseOk, DoneOk, idempotencyConflict]
  | cancel =>
    cases ok
    exact doneOk_cancelStep sound ..
  | check =>
    obtain ⟨policy, now, isCall, -, -⟩ := ok
    exact ⟨policy, _, _, now, isCall⟩
  | list => exact ⟨_, ok⟩

/-- The insert's room was found under the lock, so the table stays sound. -/
theorem Effect.sound {sizes : FleetSizes} {i : ι} {ph ph' : Phase} {m : Memory ι} {t' : Table} {call : Call}
    (h : Effect m.table ph ph' t') (sound : m.table.Sound sizes) (ok : PhaseOk sizes i m call ph) :
    t'.Sound sizes := by
  cases h with
  | none => exact sound
  | inserted unused =>
    obtain ⟨-, -, known, -, -, -, room⟩ := ok
    exact sound.push unused known room
  | cancelled => exact sound.cancelled ..

@[simp] theorem inside_afterLook (r : Reserve) (found : Option Booking) : (afterLook r found).inside = true := by
  unfold afterLook
  cases found with
  | some existing => rfl
  | none => dsimp only; split <;> rfl

@[simp] theorem inside_afterSchedule (r : Reserve) (size : Nat) (booked : List RentalPeriod) :
    (afterSchedule r size booked).inside = true := by
  unfold afterSchedule
  split <;> rfl

/-- A lock held after the step is held from inside the block. -/
theorem Advance.holds {i : ι} {ph ph' : Phase} {m m' : Memory ι} (h : Advance i ph m ph' m')
    (held : ∀ carType, m.holder carType = some i → ph.holds carType) (carType : CarType)
    (mine : m'.holder carType = some i) : ph'.holds carType := by
  cases h with
  | @acquire r key size m free =>
    by_cases e : carType = r.carType
    · exact ⟨e.symm, rfl⟩
    · simp only [Function.update_of_ne e] at mine
      exact absurd (held _ mine).2 (by simp [Stage.inside])
  | look => exact ⟨(held _ mine).1, inside_afterLook ..⟩
  | schedule => exact ⟨(held _ mine).1, inside_afterSchedule ..⟩
  | add => exact ⟨(held _ mine).1, rfl⟩
  | @release r key size x m =>
    by_cases e : carType = r.carType
    · simp [e] at mine
    · simp only [Function.update_of_ne e] at mine
      exact absurd (held _ mine).1.symm e
  | retry => exact absurd (held _ mine).2 (by simp [Stage.inside])
  | cancel => exact (held _ mine).elim
  | check => exact (held _ mine).elim
  | list => exact (held _ mine).elim

/-! ## The invariant holds in every run -/

/-- What a call is once invoked: already refused, or about to take its first step. -/
theorem invoked_cases (sizes : FleetSizes) (call : Call) :
    (∃ e, e ≠ .duplicateIdempotencyKey ∧ invoked sizes call = .done (.error e)) ∨
    (∃ r key size, call = .reserve r ∧ IdempotencyKey.new r.idempotencyKey = .ok key ∧
      sizes r.carType = some size ∧ invoked sizes call = .reserving r key size .acquiring) ∨
    (∃ bookingId actor now, call = .cancel bookingId actor now ∧
      invoked sizes call = .cancelling bookingId actor now) ∨
    (∃ policy carType period now size, call = .availability policy carType period now ∧
      policy.validate period now = .ok () ∧ sizes carType = some size ∧
      invoked sizes call = .checking carType period size) ∨
    ∃ customer, call = .reservationsFor customer ∧ invoked sizes call = .listing customer := by
  cases call with
  | reserve r =>
    cases parsed : IdempotencyKey.new r.idempotencyKey with
    | error e =>
      refine .inl ⟨e, ?_, by simp [invoked, parsed]⟩
      unfold IdempotencyKey.new at parsed
      split at parsed <;> cases parsed
      simp
    | ok key =>
      cases known : sizes r.carType with
      | none => exact .inl ⟨carTypeNotFound r.carType, by simp [carTypeNotFound], by simp [invoked, parsed, known]⟩
      | some size => exact .inr (.inl ⟨r, key, size, rfl, parsed, known, by simp [invoked, parsed, known]⟩)
  | cancel bookingId actor now => exact .inr (.inr (.inl ⟨bookingId, actor, now, rfl, rfl⟩))
  | availability policy carType period now =>
    cases valid : policy.validate period now with
    | error e => exact .inl ⟨e, validate_ne_duplicate valid, by simp [invoked, valid]⟩
    | ok _ =>
      cases known : sizes carType with
      | none => exact .inl ⟨carTypeNotFound carType, by simp [carTypeNotFound], by simp [invoked, valid, known]⟩
      | some size =>
        exact .inr (.inr (.inr (.inl ⟨policy, carType, period, now, size, rfl, valid, known,
          by simp [invoked, valid, known]⟩)))
  | reservationsFor customer => exact .inr (.inr (.inr (.inr ⟨customer, rfl, rfl⟩)))

theorem phaseOk_invoked (sizes : FleetSizes) (i : ι) (m : Memory ι) (call : Call) :
    PhaseOk sizes i m call (invoked sizes call) := by
  rcases invoked_cases sizes call with
    ⟨e, ne, h⟩ | ⟨r, key, size, rfl, parsed, known, h⟩ | ⟨bookingId, actor, now, rfl, h⟩ |
    ⟨policy, carType, period, now, size, rfl, valid, known, h⟩ | ⟨customer, rfl, h⟩ <;> rw [h]
  · exact ne
  · exact ⟨rfl, parsed, known, nofun, trivial⟩
  · exact rfl
  · exact ⟨policy, now, rfl, valid, known⟩
  · exact rfl

theorem inv_start {sizes : FleetSizes} (calls : ι → Call) {t : Table} (sound : t.Sound sizes) :
    Inv sizes calls (State.start ι t) where
  sound := sound
  phases _ := trivial
  held _ _ h := nomatch h

variable [DecidableEq ι]

/-- One step of a pool of calls keeps the invariant. -/
theorem inv_moves {sizes : FleetSizes} {calls : ι → Call} {s s' : State ι} {i : ι} (inv : Inv sizes calls s)
    (h : Moves sizes calls s i s') : Inv sizes calls s' := by
  cases h with
  | invoke idle =>
    refine ⟨inv.sound, ?_, ?_⟩
    · intro j
      by_cases e : j = i
      · subst e
        simp only [Function.update_self]
        exact phaseOk_invoked ..
      · simp only [Function.update_of_ne e]
        exact inv.phases j
    · intro carType j mine
      by_cases e : j = i
      · subst e
        have := inv.held _ _ mine
        rw [idle] at this
        exact this.elim
      · simp only [Function.update_of_ne e]
        exact inv.held _ _ mine
  | advance hs =>
    have mine := inv.phases i
    refine ⟨(hs.effect inv.sound).sound inv.sound mine, ?_, ?_⟩
    · intro j
      by_cases e : j = i
      · subst e
        simp only [Function.update_self]
        exact hs.phaseOk inv.sound mine
      · simp only [Function.update_of_ne e]
        exact (inv.phases j).stable (hs.interferes inv.sound mine e)
    · intro carType j held
      by_cases e : j = i
      · subst e
        simp only [Function.update_self]
        exact hs.holds (inv.held · j) carType held
      · simp only [Function.update_of_ne e]
        exact inv.held _ _ (((hs.interferes inv.sound mine e).holds carType).2 held)

/-- A run of the phases, labelled as the pool's. -/
abbrev Trace (sizes : FleetSizes) (calls : ι → Call) : State ι → List (Label MemOp ι) → State ι → Prop :=
  Run fun a l b => Moves sizes calls a l.thread b

theorem inv_trace {sizes : FleetSizes} {calls : ι → Call} {s s' : State ι} {ls : List (Label MemOp ι)}
    (h : Trace sizes calls s ls s') (inv : Inv sizes calls s) : Inv sizes calls s' :=
  h.invariant (fun _ _ _ => inv_moves) inv

/-- Calls running over one ledger, from a moment when nobody used it. -/
abbrev Runs (sizes : FleetSizes) (calls : ι → Call) (t : Table) :
    List (Label MemOp ι) → Pool MemOp ι (Memory ι) Outcome → Prop :=
  Run (Step (memory ι) (code sizes calls)) (.start (.at ι t))

/-- Every state of a pool of calls over a sound table is one of phases, with the invariant. -/
theorem inv_of_runs {sizes : FleetSizes} {calls : ι → Call} {t : Table} {ls : List (Label MemOp ι)}
    {c : Pool MemOp ι (Memory ι) Outcome} (sound : t.Sound sizes) (h : Runs sizes calls t ls c) :
    ∃ s, Trace sizes calls (.start ι t) ls s ∧ Inv sizes calls s ∧ c = s.pool sizes := by
  obtain ⟨s, trace, e⟩ := run_moves (s := State.start ι t) h
  exact ⟨s, trace, inv_trace trace (inv_start calls sound), e⟩

omit [DecidableEq ι] in
/-- With no call in progress every lock is free. -/
theorem Inv.memory_of_quiet {sizes : FleetSizes} {calls : ι → Call} {s : State ι} (inv : Inv sizes calls s)
    (quiet : (s.pool sizes).Quiet) : s.memory = .at ι s.memory.table := by
  refine Memory.ext rfl (funext fun carType => ?_)
  cases held : s.memory.holder carType with
  | none => rfl
  | some i =>
    have inside := inv.held carType i held
    refine absurd (⟨?_, ?_⟩ : (s.pool sizes).InProgress i) (quiet i) <;> simp only [State.pool]
    all_goals
      cases here : s.phase i with
      | reserving r key size g => cases g <;> simp [Phase.thread, Stage.code] <;> rfl
      | _ => rw [here] at inside; exact inside.elim

/-- The tables a desk over a newly made ledger can leave behind with no call in progress. -/
def Reached (sizes : FleetSizes) (t : Table) : Prop :=
  ∃ (ι : Type) (_ : DecidableEq ι) (calls : ι → Call) (ls : List (Label MemOp ι))
    (c : Pool MemOp ι (Memory ι) Outcome), Runs sizes calls .empty ls c ∧ c.Quiet ∧ c.shared.table = t

theorem Reached.sound {sizes : FleetSizes} {t : Table} (h : Reached sizes t) : t.Sound sizes := by
  obtain ⟨ι, _, calls, ls, c, run, -, rfl⟩ := h
  obtain ⟨s, -, inv, rfl⟩ := inv_of_runs (Table.sound_empty sizes) run
  exact inv.sound

theorem reached_empty (sizes : FleetSizes) : Reached sizes .empty :=
  ⟨Empty, inferInstance, Empty.elim, [], _, .nil _, fun i => i.elim, rfl⟩

end

end Memory

end VehicleRentals
