import Mathlib.Data.Rat.Floor
import VehicleRentals.Intervals
import VehicleRentals.Memory.Bookings

/-!
# The work of an availability check

Every stored booking lasts at least as long as the policies ask (`long_of_runs`), and
no instant has more cars out than the fleet has. So the bookings that overlap a
window are few, however many there ever were: on a grid of that length over the
window, each is out at some point.
-/

namespace VehicleRentals

open Concurrent

namespace Table

/-- Also outside the window, the periods collected for it are cars out. -/
theorem load_bookedDuring_le (t : Table) (carType : CarType) (window : RentalPeriod) (x : Instant) :
    RentalPeriod.load (t.bookedDuring carType window) x ≤ t.usage carType x := by
  simp only [RentalPeriod.load, Sweep.load, bookedDuring, usage, List.countP_map, List.countP_filter]
  apply List.countP_mono_left
  intro b _ out
  simp only [Function.comp_apply, decide_eq_true_eq, Bool.and_eq_true, beq_iff_eq, Bool.not_eq_true',
    Booking.isCancelled_eq_false] at out ⊢
  obtain ⟨covers, ⟨type, active⟩, -⟩ := out
  exact ⟨type, active, covers⟩

/-- Every booking lasts at least `m`. -/
def Lasting (m : Timedelta) (t : Table) : Prop := ∀ b ∈ t.bookings, m ≤ b.period.duration

theorem Lasting.push {m : Timedelta} {t : Table} (h : t.Lasting m) {b : Booking} (hb : m ≤ b.period.duration) :
    (t.push b).Lasting m := by
  intro a ha
  rcases List.mem_append.1 ha with ha | ha
  · exact h a ha
  · rw [List.mem_singleton.1 ha]
    exact hb

theorem Lasting.cancelled {m : Timedelta} {t : Table} (h : t.Lasting m) (id : Int) (now : Instant) :
    (t.cancelled id now).Lasting m := by
  intro a ha
  obtain ⟨b, hb, rfl⟩ := List.mem_map.1 ha
  rw [← (cancelAt_sameOrigin id now b).period]
  exact h b hb

/-- Of lasting bookings, no more overlap a window than the fleet and the number of
times `m` goes into the window allow. -/
theorem Lasting.length_bookedDuring {m : Timedelta} {t : Table} (h : t.Lasting m) {carType : CarType} {F : Nat}
    (fits : ∀ x, t.usage carType x ≤ F) {window : RentalPeriod} {k : Nat} (enough : window.duration ≤ k * m) :
    (t.bookedDuring carType window).length ≤ F * (k + 1) := by
  have stabbed : ∀ p ∈ t.bookedDuring carType window,
      ∃ x ∈ Intervals.grid window.start m k, p.start ≤ x ∧ x < p.stop := by
    intro p hp
    obtain ⟨b, hb, rfl⟩ := List.mem_map.1 hp
    obtain ⟨stored, kept⟩ := List.mem_filter.1 hb
    simp only [RentalPeriod.overlaps, Bool.and_eq_true, decide_eq_true_eq] at kept
    have long : m ≤ b.period.stop - b.period.start := h b stored
    apply Intervals.stabbed_of_grid ?_ ?_ kept.2.1 kept.2.2
    · have : window.stop - window.start ≤ k * m := enough
      rw [nsmul_eq_mul]
      linarith
    · linarith
  have few := Intervals.length_le_of_stabbed _ stabbed fun x _ =>
    (t.load_bookedDuring_le carType window x).trans (fits x)
  rwa [Intervals.length_grid] at few

end Table

namespace Memory

variable {ι : Type} [DecidableEq ι]

/-- Whoever is past the policy check asked for a period that its policy admits. -/
theorem long_moves {sizes : FleetSizes} {calls : ι → Call} {m : Timedelta}
    (same : ∀ i r, calls i = .reserve r → r.policy.minDuration = m) {s s' : State ι} {i : ι}
    (inv : Inv sizes calls s) (long : s.memory.table.Lasting m) (h : Moves sizes calls s i s') :
    s'.memory.table.Lasting m := by
  cases h with
  | invoke idle => exact long
  | advance hs =>
    rename_i ph' m'
    have effect := hs.effect inv.sound
    have known := inv.phases i
    generalize s.phase i = ph at effect known
    generalize m'.table = t' at effect ⊢
    cases effect with
    | none => exact long
    | @inserted r key size unused =>
      obtain ⟨isCall, -, -, -, -, valid, -⟩ := known
      have lasts := (BookingPolicy.lasts_of_validate valid).1
      rw [same i r isCall] at lasts
      exact long.push lasts
    | @cancelled b actor now hb managed active running => exact long.cancelled b.id now

theorem long_of_runs {sizes : FleetSizes} {calls : ι → Call} {m : Timedelta}
    (same : ∀ i r, calls i = .reserve r → r.policy.minDuration = m) {ls : List (Label MemOp ι)}
    {c : Pool MemOp ι (Memory ι) Outcome} (h : Runs sizes calls .empty ls c) :
    c.shared.table.Lasting m ∧ c.shared.table.Sound sizes := by
  obtain ⟨s, trace, inv, rfl⟩ := inv_of_runs (Table.sound_empty sizes) h
  have both := trace.invariant (I := fun s => Inv sizes calls s ∧ s.memory.table.Lasting m)
    (fun _ _ _ hI hs => ⟨inv_moves hI.1 hs, long_moves same hI.1 hI.2 hs⟩)
    ⟨inv_start calls (Table.sound_empty sizes), nofun⟩
  exact ⟨both.2, inv.sound⟩

/-- The least number of times `m` must be laid end to end to cover `d`. -/
theorem le_ceil_mul {m : Timedelta} (positive : 0 < m) (d : Timedelta) : d ≤ ⌈(d : ℚ) / m⌉₊ * m := by
  have positive' : (0 : ℚ) < m := Int.cast_pos.2 positive
  have := (div_le_iff₀ positive').1 (Nat.le_ceil ((d : ℚ) / m))
  exact_mod_cast this

/-- In every state of every interleaving of calls on desks whose policies ask for at
least `m > 0`, `booked_during` returns at most the fleet's size times one more than
the number of times `m` goes into the window, rounded up; for a period that a policy
admits that is a number the policy fixes. The sweep line sorts two events for each. -/
theorem workload (sizes : FleetSizes) (calls : ι → Call) {m : Timedelta} (positive : 0 < m)
    (same : ∀ i r, calls i = .reserve r → r.policy.minDuration = m) {ls : List (Label MemOp ι)}
    {c : Pool MemOp ι (Memory ι) Outcome} (h : Runs sizes calls .empty ls c) {carType : CarType} {F : Nat}
    (fleet : sizes carType = some F) (w : RentalPeriod) :
    (c.shared.table.bookedDuring carType w).length ≤ F * (⌈(w.duration : ℚ) / m⌉₊ + 1) ∧
      (∀ (policy : BookingPolicy) (now : Instant), policy.validate w now = .ok () →
        (c.shared.table.bookedDuring carType w).length ≤
          F * (⌈((policy.maxDuration + Timedelta.hours 1 : Timedelta) : ℚ) / m⌉₊ + 1)) ∧
      (FleetSchedule.events w (c.shared.table.bookedDuring carType w)).length =
        2 * (c.shared.table.bookedDuring carType w).length := by
  obtain ⟨long, sound⟩ := long_of_runs same h
  have fits : ∀ x, c.shared.table.usage carType x ≤ F := by
    intro x
    have := sound.fits carType x
    rwa [fleet] at this
  have few := long.length_bookedDuring fits (le_ceil_mul positive w.duration)
  refine ⟨few, fun policy now valid => few.trans ?_, FleetSchedule.length_events fun p hp => ?_⟩
  swap
  · obtain ⟨b, hb, rfl⟩ := List.mem_map.1 hp
    exact (Bool.and_eq_true_iff.1 (List.mem_filter.1 hb).2).2
  have capped : w.duration ≤ policy.maxDuration + Timedelta.hours 1 := (BookingPolicy.lasts_of_validate valid).2
  have positive' : (0 : ℚ) < m := Int.cast_pos.2 positive
  gcongr

theorem workload_race : ∃ ls c, Runs oneEach raceCalls .empty ls c ∧
    (c.shared.table.bookedDuring .sedan (springReserve .sedan).period).length = 1 ∧
    (c.shared.table.bookedDuring .sedan (springReserve .sedan).period).length ≤
      1 * (⌈((springReserve .sedan).period.duration : ℚ) / (Timedelta.hours 1 : Timedelta)⌉₊ + 1) := by
  obtain ⟨ls, c, run, one⟩ : ∃ ls c, Runs oneEach raceCalls .empty ls c ∧
      (c.shared.table.bookedDuring .sedan (springReserve .sedan).period).length = 1 :=
    Machine.exists_run_of_drive (raceTurns.take 10) ⟨_, _, rfl, rfl⟩
  have hour : (0 : Timedelta) < Timedelta.hours 1 := by decide
  have same : ∀ i r, raceCalls i = .reserve r → r.policy.minDuration = Timedelta.hours 1 := by
    intro i r e
    fin_cases i <;> cases e <;> rfl
  exact ⟨ls, c, run, one, (workload oneEach raceCalls hour same run rfl _).1⟩

end Memory

end VehicleRentals
