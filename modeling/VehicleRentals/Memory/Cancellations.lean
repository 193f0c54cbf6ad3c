import VehicleRentals.Memory.Availability

/-!
# A cancellation gives the car back

No instant was overbooked before it, and throughout the period of the booking
one car fewer is out after it; so a request inside that period finds room,
whatever other bookings cross it.
-/

namespace VehicleRentals

open Concurrent

namespace Memory

variable {ι : Type}

/-- No `reserve` call is in progress; a call of another kind may be. -/
def NoReserve (calls : ι → Call) (c : Pool MemOp ι (Memory ι) Outcome) : Prop :=
  ∀ i r, calls i = .reserve r → ¬ c.InProgress i

/-- Only a `reserve` call holds a lock. -/
theorem Inv.memory_of_noReserve {sizes : FleetSizes} {calls : ι → Call} {s : State ι} (inv : Inv sizes calls s)
    (none : NoReserve calls (s.pool sizes)) : s.memory = .at ι s.memory.table := by
  refine Memory.ext rfl (funext fun carType => ?_)
  cases held : s.memory.holder carType with
  | none => rfl
  | some i =>
    have inside := inv.held carType i held
    have known := inv.phases i
    cases here : s.phase i with
    | reserving r key size g =>
      rw [here] at known
      refine absurd (⟨?_, ?_⟩ : (s.pool sizes).InProgress i) (none i r known.1) <;> simp only [State.pool, here]
      · cases g <;> simp [Phase.thread]
      · cases g <;> rfl
    | _ =>
      rw [here] at inside
      exact inside.elim

/-- What `cancel` returning normally says about an active booking. -/
theorem cancelled_of_answer {sizes : FleetSizes} {t : Table} (sound : t.Sound sizes) {b b' : Booking}
    (hb : b ∈ t.bookings) (active : b.status = .active) {actor : Customer} {now : Instant}
    (h : (answer sizes (.cancel b.id actor now) t).1 = .ok (.cancelled b')) :
    (answer sizes (.cancel b.id actor now) t).2 = t.cancelled b.id now := by
  simp only [answer] at h ⊢
  rcases Table.cancelStep_cases sound.ids_nodup b.id actor now with
    ⟨-, e⟩ | ⟨a, -, -, -, -, -, e⟩ | ⟨a, ha, same, -, gone, e⟩ | ⟨a, -, -, -, -, -, e⟩ <;> rw [e] at h ⊢
  · cases h
  · cases h
  · rw [sound.eq_of_id ha hb same, active] at gone
    cases gone

/-- After the cancellation every instant of the booking's period has a car free. -/
theorem room_after_cancel {sizes : FleetSizes} {t : Table} (sound : t.Sound sizes) {b : Booking} (hb : b ∈ t.bookings)
    (active : b.status = .active) (now : Instant) :
    ∃ size, sizes b.carType = some size ∧
      ∀ x, b.period.Covers x → (t.cancelled b.id now).usage b.carType x < size := by
  have fewer : ∀ x, b.period.Covers x → (t.cancelled b.id now).usage b.carType x < (sizes b.carType).getD 0 := by
    intro x covers
    have one := Table.usage_cancelled sound.ids_nodup hb active now covers
    have fits := sound.fits b.carType x
    omega
  cases known : sizes b.carType with
  | none =>
    have := fewer _ b.period.covers_start
    rw [known] at this
    exact absurd this (Nat.not_lt_zero _)
  | some size =>
    rw [known] at fewer
    exact ⟨size, rfl, fewer⟩

variable [DecidableEq ι]

/-- In every state with no `reserve` call in progress: once a `cancel` of an active
booking has returned, a request for its car type inside its period, admitted by
the policy and under an unused key, gets a new booking. -/
theorem cancel_gives_back (sizes : FleetSizes) (calls : ι → Call) {ls : List (Label MemOp ι)}
    {c : Pool MemOp ι (Memory ι) Outcome} (h : Runs sizes calls .empty ls c) (none : NoReserve calls c) {b b' : Booking}
    (hb : b ∈ c.shared.table.bookings) (active : b.status = .active) {i : ι} {actor : Customer} {now : Instant}
    {m : Memory ι}
    (cancelled : (memory ι).solo i (Call.program (InMemoryBookingLedger.new sizes) (.cancel b.id actor now)) c.shared =
      some (.ok (.cancelled b'), m))
    {w : RentalPeriod} (inside : b.period.start ≤ w.start ∧ w.stop ≤ b.period.stop) {policy : BookingPolicy}
    {now' : Instant} (admitted : policy.validate w now' = .ok ()) (who : Customer × IdempotencyKey)
    (unused : ∀ a ∈ m.table.bookings, ¬ a.HasKey who.1.id who.2) (j : ι) :
    ∃ new m', (memory ι).solo j (Call.program (InMemoryBookingLedger.new sizes)
        (.reserve (asking policy b.carType w now' who))) m = some (.ok (.booked ⟨new, false⟩), m') ∧
      new.carType = b.carType ∧ new.period = w ∧ new.HasKey who.1.id who.2 ∧ new.status = .active := by
  obtain ⟨s, -, inv, rfl⟩ := inv_of_runs (Table.sound_empty sizes) h
  have free : (s.pool sizes).shared = .at ι s.memory.table := inv.memory_of_noReserve none
  rw [free, solo_answer inv.sound] at cancelled
  obtain ⟨reply, rfl⟩ := Prod.mk.inj (Option.some.inj cancelled)
  have after := cancelled_of_answer inv.sound hb active reply
  obtain ⟨size, known, room⟩ := room_after_cancel inv.sound hb active now
  have sound := answer_sound inv.sound (.cancel b.id actor now)
  rw [after] at sound unused ⊢
  have accepted : 0 < advertised (s.memory.table.cancelled b.id now) b.carType size w := by
    rw [advertised, ← FleetSchedule.canAccommodate_iff_remaining, Table.canAccommodate_iff]
    intro x hx
    exact room x ⟨inside.1.trans hx.1, hx.2.trans_le inside.2⟩
  have stored := answerReserve_asking (t := s.memory.table.cancelled b.id now) known admitted unused
  rw [if_pos accepted] at stored
  have replied := solo_answer sound j (.reserve (asking policy b.carType w now' who))
  rw [answer, stored] at replied
  exact ⟨_, _, replied, rfl, rfl, ⟨rfl, rfl⟩, rfl⟩

/-- One customer books the one sedan. -/
def oneCall : Fin 1 → Call := fun _ => .reserve (springReserve .sedan)

/-- The booking that leaves. -/
def springBooking : Booking :=
  Table.empty.fresh .sedan 7 (springReserve .sedan).period springKey

/-- Once it is cancelled, another customer gets the car for the same period. -/
theorem cancel_gives_back_sedan : ∃ ls c m new m', Runs oneEach oneCall .empty ls c ∧
    (memory (Fin 1)).solo 0 (Call.program (InMemoryBookingLedger.new oneEach) (.cancel 1 { id := 7 } 0)) c.shared =
      some (.ok (.cancelled (Table.cancelAt 1 0 springBooking)), m) ∧
    (memory (Fin 1)).solo 0 (Call.program (InMemoryBookingLedger.new oneEach)
      (.reserve (asking {} .sedan springBooking.period 0 (twoCustomers 1)))) m =
        some (.ok (.booked ⟨new, false⟩), m') := by
  obtain ⟨ls, c, run, shared, complete⟩ : ∃ ls c, Runs oneEach oneCall .empty ls c ∧
      c.shared = .at (Fin 1) (Table.empty.push springBooking) ∧ c.Complete :=
    Machine.exists_run_of_drive ([0, 0, 0, 0, 0, 0].map (·, 0)) ⟨_, _, rfl,
      Memory.ext rfl (funext fun T => by cases T <;> rfl), fun i => by fin_cases i; rfl⟩
  have cancelled : (memory (Fin 1)).solo 0
      (Call.program (InMemoryBookingLedger.new oneEach) (.cancel springBooking.id { id := 7 } 0)) c.shared =
      some (.ok (.cancelled (Table.cancelAt 1 0 springBooking)),
        .at (Fin 1) ((Table.empty.push springBooking).cancelled 1 0)) := by
    rw [shared]
    rfl
  have admitted : ({} : BookingPolicy).validate springBooking.period 0 = .ok () := rfl
  obtain ⟨new, m', again, -⟩ := cancel_gives_back oneEach oneCall run (fun i _ _ => complete.quiet i)
    (b := springBooking) (by rw [shared]; exact List.mem_singleton.2 rfl) rfl cancelled ⟨le_rfl, le_rfl⟩
    admitted (twoCustomers 1) (by decide) 0
  exact ⟨ls, c, _, new, m', run, cancelled, again⟩

end Memory

end VehicleRentals
