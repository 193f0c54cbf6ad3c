import VehicleRentals.Memory.Answers

/-!
# Linearizability of the in-memory desk

Each call takes effect at one of its own steps: an acceptance at the insert, a
replay, a conflict or a policy refusal at the lookup that finds it, a lost race
at the second lookup, and a refusal for want of a car back at the first lookup,
since while the fleet lock is held cars only come free. The last is settled only
later, so `Foretells` carries what the end of a call says about its phases
backwards along the run.
-/

namespace VehicleRentals

open Concurrent

/-- The call raised `NoAvailability`. -/
def Outcome.noneFree : Outcome → Bool
  | .error e => e.isNoAvailability
  | .ok _ => false

namespace Memory

/-- Whether a call that ends with `o` has taken effect by this phase. -/
def Phase.Applied (o : Outcome) : Phase → Prop
  | .reserving _ _ _ .scheduling => o.noneFree = true
  | .reserving _ _ _ (.releasing x) => x ≠ .error .duplicateIdempotencyKey
  | .done _ => True
  | _ => False

/-- What it says about this phase that the call ends with `o`. -/
def Phase.Foretells (t : Table) (o : Outcome) : Phase → Prop
  | .reserving r _ size .scheduling => o.noneFree = true →
      o = .error (noAvailability r.carType r.period) ∧
      FleetSchedule.canAccommodate { fleetSize := size, booked := t.bookedDuring r.carType r.period } r.period = false
  | .reserving _ _ _ .adding => o.noneFree = false
  | .reserving _ _ _ .retrying => o.noneFree = false
  | .reserving _ _ _ (.releasing x) =>
      (x = .error .duplicateIdempotencyKey → o.noneFree = false) ∧
      (x ≠ .error .duplicateIdempotencyKey → o = reserved x)
  | .done o' => o = o'
  | _ => True

variable {ι : Type}

/-- Cars only come free under the steps of the others, so a window that has no
room later had none before. -/
theorem foretells_stable {sizes : FleetSizes} {i : ι} {m m' : Memory ι} {call : Call} {ph : Phase} {o : Outcome}
    (ok : PhaseOk sizes i m call ph) (others : Interferes i m m') (h : ph.Foretells m'.table o) :
    ph.Foretells m.table o := by
  cases ph with
  | reserving r key size g =>
    cases g with
    | scheduling =>
      intro refused
      obtain ⟨e, full⟩ := h refused
      refine ⟨e, ?_⟩
      rw [← Bool.not_eq_true, Table.canAccommodate_iff] at full ⊢
      exact fun room => full fun x hx =>
        lt_of_le_of_lt ((others.onlyCancels _ (ok.2.2.2.1 rfl)).usage_le x) (room x hx)
    | _ => exact h
  | _ => exact h

/-- The thread's own step, read backwards. -/
theorem foretells_advance {sizes : FleetSizes} {i : ι} {m m' : Memory ι} {call : Call} {ph ph' : Phase} {o : Outcome}
    (sound : m.table.Sound sizes) (ok : PhaseOk sizes i m call ph) (step : Advance i ph m ph' m')
    (h : ph'.Foretells m'.table o) : ph.Foretells m.table o := by
  cases step with
  | acquire => trivial
  | look => trivial
  | @schedule r key size m =>
    intro refused
    simp only [afterSchedule] at h
    split at h
    · exact absurd refused (by rw [show o.noneFree = false from h]; simp)
    · rename_i full
      have e := h.2 (by simp [noAvailability])
      exact ⟨e, by simpa using full⟩
  | @add r key size m =>
    rcases Table.add_cases sound r.carType r.customer.id r.period key with ⟨b, -, -, e⟩ | ⟨-, e⟩
    · rw [e] at h
      exact h.1 rfl
    · rw [e] at h
      rw [show o = _ from h.2 fun lost => by cases lost]
      rfl
  | @release r key size x m =>
    constructor
    · intro lost
      subst lost
      exact h
    · intro kept
      rcases x with (e | result)
      · cases e <;> first | exact h | exact absurd rfl kept
      · exact h
  | @retry r key size m =>
    rw [retry_conflict sound ok.2.2.2.2] at h
    rw [show o = _ from h]
    rfl
  | cancel => trivial
  | check => trivial
  | list => trivial

theorem answer_of_invoked {sizes : FleetSizes} {call : Call} {o : Outcome} (h : invoked sizes call = .done o)
    (t : Table) : answer sizes call t = (o, t) := by
  cases call with
  | reserve r =>
    simp only [invoked] at h
    simp only [answer, answerReserve]
    cases parsed : IdempotencyKey.new r.idempotencyKey with
    | error e =>
      simp only [parsed] at h
      cases h
      rfl
    | ok key =>
      cases known : sizes r.carType with
      | none =>
        simp only [parsed, known] at h
        cases h
        rfl
      | some size => simp [parsed, known] at h
  | cancel bookingId actor now => cases h
  | availability policy carType period now =>
    simp only [invoked] at h
    simp only [answer, answerAvailability]
    cases valid : policy.validate period now with
    | error e =>
      simp only [valid] at h
      cases h
      rfl
    | ok _ =>
      cases known : sizes carType with
      | none =>
        simp only [valid, known] at h
        cases h
        rfl
      | some size => simp [valid, known] at h
  | reservationsFor customer => cases h

/-- The lookup commits a replay, a conflict or a policy's refusal; a request that
is to find no car free commits here too, where the table is as it will find it. -/
theorem commits_look {sizes : FleetSizes} {t : Table} {r : Reserve} {key : IdempotencyKey} {size : Nat} {o : Outcome}
    (parsed : IdempotencyKey.new r.idempotencyKey = .ok key) (known : sizes r.carType = some size)
    (h : (Phase.reserving r key size (afterLook r (t.findByKey r.customer.id key))).Foretells t o) :
    ¬ (Phase.reserving r key size (afterLook r (t.findByKey r.customer.id key))).Applied o ∨
    ((Phase.reserving r key size (afterLook r (t.findByKey r.customer.id key))).Applied o ∧
      answer sizes (.reserve r) t = (o, t)) := by
  simp only [answer, answerReserve, parsed, known]
  cases found : t.findByKey r.customer.id key with
  | some existing =>
    have settled := replay_ne_duplicate existing r.carType r.period
    rw [found] at h
    exact .inr ⟨settled, by rw [h.2 settled]⟩
  | none =>
    rw [found] at h
    cases valid : r.policy.validate r.period r.now with
    | error e =>
      simp only [afterLook, valid] at h ⊢
      have settled : (.error e : Except Exn BookingResult) ≠ .error .duplicateIdempotencyKey := by
        intro he
        exact validate_ne_duplicate valid (Except.error.inj he)
      exact .inr ⟨settled, by rw [h.2 settled]; rfl⟩
    | ok _ =>
      simp only [afterLook, valid] at h ⊢
      by_cases refused : o.noneFree = true
      · obtain ⟨e, full⟩ := h refused
        exact .inr ⟨refused, by simp [full, e]⟩
      · exact .inl refused

/-- A step of a call on the ledger commits it, or changes neither the table nor
whether it has taken effect. -/
theorem commits_advance {sizes : FleetSizes} {i : ι} {m m' : Memory ι} {call : Call} {ph ph' : Phase} {o : Outcome}
    (sound : m.table.Sound sizes) (ok : PhaseOk sizes i m call ph) (step : Advance i ph m ph' m')
    (h : ph'.Foretells m'.table o) :
    ((ph'.Applied o ↔ ph.Applied o) ∧ m'.table = m.table) ∨
    (¬ ph.Applied o ∧ ph'.Applied o ∧ answer sizes call m.table = (o, m'.table)) := by
  cases step with
  | acquire => exact .inl ⟨Iff.rfl, rfl⟩
  | @look r key size m =>
    obtain ⟨rfl, parsed, known, -, -⟩ := ok
    rcases commits_look parsed known h with later | ⟨applied, answered⟩
    · exact .inl ⟨⟨fun now => absurd now later, False.elim⟩, rfl⟩
    · exact .inr ⟨id, applied, answered⟩
  | @schedule r key size m =>
    refine .inl ⟨?_, rfl⟩
    unfold afterSchedule at h ⊢
    by_cases fits : FleetSchedule.canAccommodate
        { fleetSize := size, booked := m.table.bookedDuring r.carType r.period } r.period = true
    · simp only [if_pos fits] at h ⊢
      simp only [Phase.Applied, show o.noneFree = false from h, Bool.false_eq_true]
    · simp only [if_neg fits] at h ⊢
      have settled : (.error (noAvailability r.carType r.period) : Except Exn BookingResult) ≠
          .error .duplicateIdempotencyKey := by simp [noAvailability]
      rw [h.2 settled]
      exact ⟨fun _ => rfl, fun _ => settled⟩
  | @add r key size m =>
    obtain ⟨rfl, parsed, known, -, -, valid, room⟩ := ok
    rcases Table.add_cases sound r.carType r.customer.id r.period key with ⟨b, -, -, e⟩ | ⟨unused, e⟩
    · rw [e]
      exact .inl ⟨⟨fun lost => lost rfl, False.elim⟩, rfl⟩
    · rw [e] at h ⊢
      have kept : ∀ booking : BookingResult,
          (.ok booking : Except Exn BookingResult) ≠ .error .duplicateIdempotencyKey := by simp
      refine .inr ⟨id, kept _, ?_⟩
      rw [show o = _ from h.2 (kept _)]
      simp only [answer, answerReserve, parsed, known, Table.findByKey_none.2 unused, valid,
        (m.table.canAccommodate_iff r.carType size r.period).2 room, if_true]
      rfl
  | @release r key size x m =>
    refine .inl ⟨?_, rfl⟩
    rcases x with (e | result)
    · cases e <;> simp [afterRelease, Phase.Applied]
    · simp [afterRelease, Phase.Applied]
  | @retry r key size m =>
    obtain ⟨rfl, parsed, known, -, b, hb, hk, type⟩ := ok
    refine .inr ⟨id, trivial, ?_⟩
    rw [show o = _ from h]
    simp only [answer, answerReserve, parsed, known, sound.findByKey_eq hb hk, afterRetry]
  | cancel =>
    cases ok
    exact .inr ⟨id, trivial, by rw [show o = _ from h]; rfl⟩
  | check =>
    obtain ⟨policy, now, rfl, valid, known⟩ := ok
    refine .inr ⟨id, trivial, ?_⟩
    rw [show o = _ from h]
    simp only [answer, answerAvailability, valid, known]
  | list =>
    cases ok
    exact .inr ⟨id, trivial, by rw [show o = _ from h]; rfl⟩

variable [DecidableEq ι]

/-- Every phase foretells how its call ends. -/
def State.Foretells (outcome : ι → Outcome) (s : State ι) : Prop :=
  ∀ i, (s.phase i).Foretells s.memory.table (outcome i)

theorem foretells_moves {sizes : FleetSizes} {calls : ι → Call} {outcome : ι → Outcome} {s s' : State ι} {i : ι}
    (inv : Inv sizes calls s) (h : Moves sizes calls s i s') (later : s'.Foretells outcome) : s.Foretells outcome := by
  intro j
  have foretold := later j
  by_cases e : j = i
  · subst e
    cases h with
    | invoke idle => rw [idle]; trivial
    | advance hs =>
      simp only [Function.update_self] at foretold
      exact foretells_advance inv.sound (inv.phases j) hs foretold
  · rw [h.frame e] at foretold
    cases h with
    | invoke idle => exact foretold
    | advance hs => exact foretells_stable (inv.phases j) (hs.interferes inv.sound (inv.phases i) e) foretold

/-- Every step of a pool commits its call or commits nothing. -/
theorem commits_moves {sizes : FleetSizes} {calls : ι → Call} {outcome : ι → Outcome} {s s' : State ι} {i : ι}
    (inv : Inv sizes calls s) (h : Moves sizes calls s i s') (later : s'.Foretells outcome) :
    Commits (fun i => answer sizes (calls i)) outcome (fun s : State ι => s.memory.table)
      (fun s i => (s.phase i).Applied (outcome i)) s i s' where
  others j ne := by rw [h.frame ne]
  own := by
    have foretold := later i
    cases h with
    | invoke idle =>
      simp only [Function.update_self, idle] at foretold ⊢
      rcases invoked_cases sizes (calls i) with
        ⟨e, -, h⟩ | ⟨r, key, size, -, -, -, h⟩ | ⟨bookingId, actor, now, -, h⟩ |
        ⟨policy, carType, period, now, size, -, -, -, h⟩ | ⟨customer, -, h⟩ <;> rw [h] at foretold ⊢
      · exact .inr ⟨id, trivial, by rw [answer_of_invoked h, show outcome i = _ from foretold]⟩
      all_goals exact .inl ⟨Iff.rfl, trivial⟩
    | advance hs =>
      simp only [Function.update_self] at foretold ⊢
      exact commits_advance inv.sound (inv.phases i) hs foretold

/-- The calls of a finished pool in an order of commits: it respects the order of
calls that did not overlap, and made one after another in it the calls have the
same outcomes and leave the same table. -/
theorem commit_order {sizes : FleetSizes} {calls : ι → Call} {t : Table} (sound : t.Sound sizes)
    {ls : List (Label MemOp ι)} {c : Pool MemOp ι (Memory ι) Outcome} (h : Runs sizes calls t ls c)
    {outcome : ι → Outcome} (finished : ∀ i, (c.thread i).result = some (outcome i)) :
    ∃ order : List ι, order.Nodup ∧ (∀ i, i ∈ order) ∧
      (order.Pairwise fun a b => ¬ Precedes (ls.map (·.thread)) b a) ∧
      serial (fun i => answer sizes (calls i)) order t = (order.map outcome, c.shared.table) := by
  obtain ⟨s, trace, inv, rfl⟩ := inv_of_runs sound h
  have done : ∀ i, s.phase i = .done (outcome i) := fun i => result_eq_some.1 (finished i)
  obtain ⟨run, -⟩ := trace.decorate (I := Inv sizes calls) (P := State.Foretells outcome)
    (fun _ _ _ => inv_moves) (fun _ _ _ => foretells_moves) (inv_start calls sound)
    (fun i => by rw [done i]; rfl)
  obtain ⟨order, sub, nodup, mem, -, answers⟩ :=
    exists_order (fun l : Label MemOp ι => l.thread) (fun _ _ _ hs => commits_moves hs.2.1 hs.1 hs.2.2) run
  refine ⟨order, nodup, fun i => (mem i).2 ⟨?_, id⟩, pairwise_of_sublist sub, answers⟩
  rw [done i]
  trivial

/-- Linearizability: the calls of a finished pool have the outcomes they have when
made one at a time in some order that keeps the calls that did not overlap in
their order, and leave the same bookings and the same next id. -/
theorem linearizable (sizes : FleetSizes) (calls : ι → Call) {t : Table} (start : Reached sizes t)
    {ls : List (Label MemOp ι)} {c : Pool MemOp ι (Memory ι) Outcome} (h : Runs sizes calls t ls c)
    (complete : c.Complete) :
    ∃ order : List ι, order.Nodup ∧ (∀ i, i ∈ order) ∧
      (order.Pairwise fun a b => ¬ Precedes (ls.map (·.thread)) b a) ∧
      ∃ outcomes, (memory Unit).solos ()
          (order.map fun i => (calls i).program (InMemoryBookingLedger.new sizes)) (.at Unit t) =
        some (outcomes, .at Unit c.shared.table) ∧
        order.map (fun i => (c.thread i).result) = outcomes.map some := by
  obtain ⟨outcome, finished⟩ : ∃ outcome : ι → Outcome, ∀ i, (c.thread i).result = some (outcome i) :=
    ⟨_, fun i => (Option.some_get (complete i)).symm⟩
  obtain ⟨order, nodup, all, timely, answers⟩ := commit_order start.sound h finished
  refine ⟨order, nodup, all, timely, order.map outcome, ?_, ?_⟩
  · rw [solos_serial () calls start.sound order, answers]
  · rw [List.map_map]
    exact List.map_congr_left fun i _ => finished i

theorem linearizable_race : ∃ ls c, Runs oneEach raceCalls .empty ls c ∧ c.Complete ∧
    ∃ (order : List (Fin 3)) (outcomes : List Outcome), (memory Unit).solos ()
      (order.map fun i => (raceCalls i).program (InMemoryBookingLedger.new oneEach)) (.at Unit .empty) =
        some (outcomes, .at Unit c.shared.table) := by
  obtain ⟨ls, c, run, complete⟩ : ∃ ls c, Runs oneEach raceCalls .empty ls c ∧ c.Complete :=
    Machine.exists_run_of_drive raceTurns ⟨_, _, rfl, fun i => by fin_cases i <;> rfl⟩
  obtain ⟨order, -, -, -, outcomes, answers, -⟩ :=
    linearizable oneEach raceCalls (reached_empty oneEach) run complete
  exact ⟨ls, c, run, complete, order, outcomes, answers⟩

end Memory

end VehicleRentals
