import VehicleRentals.Memory.Answers

/-!
# A spent key

Once a `reserve` call has stored its booking, the booking keeps its key,
customer, type and period, whatever else happens; so every later `reserve` under
the key finds it, before any check of policy or availability.
-/

namespace VehicleRentals

open Concurrent

namespace Memory

/-- On a table that holds a booking under its key, `reserve` replays it or
refuses the key, and stores nothing. -/
theorem answerReserve_of_spent {sizes : FleetSizes} {t : Table} (sound : t.Sound sizes) {b : Booking}
    (hb : b ∈ t.bookings) {r : Reserve} {key : IdempotencyKey} (hk : b.HasKey r.customer.id key)
    (parsed : IdempotencyKey.new r.idempotencyKey = .ok key) (known : (sizes r.carType).isSome = true) :
    answerReserve sizes r t = (reserved (replay b r.carType r.period), t) := by
  obtain ⟨size, known⟩ := Option.isSome_iff_exists.1 known
  simp only [answerReserve, parsed, known, sound.findByKey_eq hb hk]

variable {ι : Type} [DecidableEq ι]

/-- The booking an insert stored is there in every later state, with its key,
customer, type and period. -/
theorem stored_of_runs {sizes : FleetSizes} {calls : ι → Call} {ls ls' : List (Label MemOp ι)}
    {c c' : Pool MemOp ι (Memory ι) Outcome} (h : Runs sizes calls .empty ls c) {i : ι} {carType : CarType}
    {customerId : Int} {period : RentalPeriod} {key : IdempotencyKey} {b : Booking}
    (created : ⟨i, some ⟨_, .add carType customerId period key, .ok b⟩⟩ ∈ ls)
    (later : Run (Step (memory ι) (code sizes calls)) c ls' c') :
    ∃ s, Inv sizes calls s ∧ c' = s.pool sizes ∧ (sizes carType).isSome = true ∧
      ∃ b' ∈ s.memory.table.bookings, b'.id = b.id ∧ b'.HasKey customerId key ∧ b'.carType = carType ∧
        b'.period = period := by
  obtain ⟨before, after, rfl⟩ := List.append_of_mem created
  have whole := h.append later
  rw [List.append_assoc, List.cons_append] at whole
  obtain ⟨c₁, first, rest⟩ := whole.split
  obtain ⟨s₁, -, inv₁, rfl⟩ := inv_of_runs (Table.sound_empty sizes) first
  cases rest with
  | cons hs rest =>
    obtain ⟨r, size, s₂, rfl, rfl, rfl, moved, here, rfl⟩ := step_add hs
    obtain ⟨s, trace, rfl⟩ := run_moves rest
    have inv₂ := inv_moves inv₁ moved
    obtain ⟨isCall, parsed, known, -, -⟩ := here ▸ inv₂.phases i
    have kept := trace.invariant (I := fun s => Inv sizes calls s ∧ (s.phase i).made = some b)
      (fun _ _ _ hI hs => ⟨inv_moves hI.1 hs, hs.made_stays hI.1 hI.2⟩) ⟨inv₂, by rw [here]; rfl⟩
    obtain ⟨r', key', isCall', parsed', granted⟩ := grants_of_made (kept.1.phases i) kept.2
    cases isCall.symm.trans isCall'
    cases parsed.symm.trans parsed'
    obtain ⟨b', hb', origin, -⟩ := granted.stored
    refine ⟨s, kept.1, rfl, by rw [known]; rfl, b', hb', origin.id.symm, ⟨?_, ?_⟩, ?_, ?_⟩
    · rw [← origin.customerId, granted.hasKey.1]
    · rw [← origin.idempotencyKey, granted.hasKey.2]
    · rw [← origin.carType, granted.isFor.1]
    · rw [← origin.period, granted.isFor.2]

/-- A key that was spent on a booking answers the same way for ever: the booking as
it now is when the type and the instants are the same, and `IdempotencyConflict`
otherwise; and the ledger is left as it was. -/
theorem spent_key (sizes : FleetSizes) (calls : ι → Call) {ls ls' : List (Label MemOp ι)}
    {c c' : Pool MemOp ι (Memory ι) Outcome} (h : Runs sizes calls .empty ls c) {i : ι} {carType : CarType}
    {customerId : Int} {period : RentalPeriod} {key : IdempotencyKey} {b : Booking}
    (created : ⟨i, some ⟨_, .add carType customerId period key, .ok b⟩⟩ ∈ ls)
    (later : Run (Step (memory ι) (code sizes calls)) c ls' c') (quiet : c'.Quiet) :
    ∃ b', c'.shared.table.get b.id = some b' ∧ b'.id = b.id ∧
      ∀ (r : Reserve) (j : ι), r.customer.id = customerId → r.idempotencyKey = key.value →
        (r.carType = carType → r.period.start = period.start → r.period.stop = period.stop →
          (memory ι).solo j (Call.program (InMemoryBookingLedger.new sizes) (.reserve r)) c'.shared =
            some (.ok (.booked { booking := b', replayed := true }), c'.shared)) ∧
        ((sizes r.carType).isSome = true →
          ¬ (r.carType = carType ∧ r.period.start = period.start ∧ r.period.stop = period.stop) →
          (memory ι).solo j (Call.program (InMemoryBookingLedger.new sizes) (.reserve r)) c'.shared =
            some (.error idempotencyConflict, c'.shared)) := by
  obtain ⟨s, inv, rfl, known, b', hb', id, hk, type, span⟩ := stored_of_runs h created later
  have free : s.memory = .at ι s.memory.table := inv.memory_of_quiet quiet
  refine ⟨b', by rw [← id]; exact inv.sound.get_eq hb', id, fun r j customer spent => ?_⟩
  have parsed : IdempotencyKey.new r.idempotencyKey = .ok key := by rw [spent, IdempotencyKey.new_value]
  have answered : (sizes r.carType).isSome = true →
      (memory ι).solo j (Call.program (InMemoryBookingLedger.new sizes) (.reserve r)) s.memory =
        some (reserved (replay b' r.carType r.period), s.memory) := by
    intro known
    rw [free, solo_answer inv.sound]
    simp only [answer, answerReserve_of_spent inv.sound hb' (customer ▸ hk) parsed known]
  have same_iff : b'.isFor r.carType r.period = true ↔
      r.carType = carType ∧ r.period.start = period.start ∧ r.period.stop = period.stop := by
    rw [Booking.isFor_iff, type, span, RentalPeriod.ext_iff]
    tauto
  constructor
  · intro sameType sameStart sameStop
    rw [show (s.pool sizes).shared = s.memory from rfl, answered (sameType ▸ known), replay,
      if_pos (same_iff.2 ⟨sameType, sameStart, sameStop⟩)]
    rfl
  · intro known different
    rw [show (s.pool sizes).shared = s.memory from rfl, answered known, replay,
      if_neg fun same => different (same_iff.1 same)]
    rfl

theorem spent_key_race : ∃ ls c b', Runs oneEach raceCalls .empty ls c ∧ c.Quiet ∧
    (memory (Fin 3)).solo 0 (Call.program (InMemoryBookingLedger.new oneEach) (.reserve (springReserve .sedan)))
      c.shared = some (.ok (.booked { booking := b', replayed := true }), c.shared) := by
  obtain ⟨ls, c, run, created, complete⟩ : ∃ ls c, Runs oneEach raceCalls .empty ls c ∧
      ls[8]? = some ⟨0, some ⟨_, .add .sedan 7 (springReserve .sedan).period ⟨"spring-2026", by decide⟩,
        .ok (Table.empty.fresh .sedan 7 (springReserve .sedan).period ⟨"spring-2026", by decide⟩)⟩⟩ ∧ c.Complete :=
    Machine.exists_run_of_drive raceTurns ⟨_, _, rfl, rfl, fun i => by fin_cases i <;> rfl⟩
  obtain ⟨b', -, -, answers⟩ :=
    spent_key oneEach raceCalls run (List.mem_of_getElem? created) (.nil c) complete.quiet
  exact ⟨ls, c, b', run, complete.quiet, (answers (springReserve .sedan) 0 rfl rfl).1 rfl rfl rfl⟩

end Memory

end VehicleRentals
