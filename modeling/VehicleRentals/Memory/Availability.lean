import VehicleRentals.Memory.Linearizable
import VehicleRentals.Memory.Progress

/-!
# What `availability` advertises

`availability` and `reserve` check in different orders and by different code,
and agree: one raises where the other does, and each acceptance of the whole
window lowers the advertised count by exactly one. For concurrent requests the
order of commits reduces the count to a sequence of answers (`serial_requests`).
-/

namespace VehicleRentals

open Concurrent

namespace Memory

/-- The count advertised for a window of a fleet. -/
def advertised (t : Table) (carType : CarType) (size : Nat) (window : RentalPeriod) : Int :=
  FleetSchedule.remaining { fleetSize := size, booked := t.bookedDuring carType window } window

theorem advertised_nonneg (t : Table) (carType : CarType) (size : Nat) (window : RentalPeriod) :
    0 ≤ advertised t carType size window :=
  le_max_left _ _

/-- An accepted request for the window takes one car off the advertised count. -/
theorem advertised_push {t : Table} {carType : CarType} {size : Nat} {window : RentalPeriod}
    (free : 0 < advertised t carType size window) (customerId : Int) (key : IdempotencyKey) :
    advertised (t.push (t.fresh carType customerId window key)) carType size window =
      advertised t carType size window - 1 := by
  have booked : (t.push (t.fresh carType customerId window key)).bookedDuring carType window =
      t.bookedDuring carType window ++ [window] := by
    have self : window.overlaps window = true :=
      RentalPeriod.overlaps_iff.2 ⟨window.start, window.covers_start, window.covers_start⟩
    simp [Table.bookedDuring, Table.push, Table.fresh, Booking.isCancelled, self]
  have peak := FleetSchedule.peakUsage_append_window size (t.bookedDuring carType window) window
  unfold advertised FleetSchedule.remaining at free ⊢
  rw [booked, peak]
  dsimp only at free ⊢
  omega

/-- A request for the window under a well-formed key. -/
abbrev asking (policy : BookingPolicy) (carType : CarType) (window : RentalPeriod) (now : Instant)
    (who : Customer × IdempotencyKey) : Reserve where
  policy := policy
  customer := who.1
  carType := carType
  period := window
  idempotencyKey := who.2.value
  now := now

/-- The answer to a request under an unused key is decided by the policy and the room. -/
theorem answerReserve_asking {sizes : FleetSizes} {policy : BookingPolicy} {carType : CarType}
    {window : RentalPeriod} {now : Instant} {who : Customer × IdempotencyKey} {size : Nat} {t : Table}
    (known : sizes carType = some size) (valid : policy.validate window now = .ok ())
    (unused : ∀ b ∈ t.bookings, ¬ b.HasKey who.1.id who.2) :
    answerReserve sizes (asking policy carType window now who) t =
      if 0 < advertised t carType size window then
        (.ok (.booked ⟨t.fresh carType who.1.id window who.2, false⟩), t.push (t.fresh carType who.1.id window who.2))
      else (.error (noAvailability carType window), t) := by
  simp only [answerReserve, IdempotencyKey.new_value, known, Table.findByKey_none.2 unused, valid,
    FleetSchedule.canAccommodate_iff_remaining, advertised]
  congr

/-- Requests for one window, made one after another under distinct unused keys:
as many are accepted as there are cars advertised, and the others are refused for
want of a car. -/
theorem serial_requests {κ : Type} {sizes : FleetSizes} {policy : BookingPolicy} {carType : CarType}
    {window : RentalPeriod} {now : Instant} {size : Nat} (known : sizes carType = some size)
    (valid : policy.validate window now = .ok ()) {who : κ → Customer × IdempotencyKey}
    (distinct : ∀ j k, (who j).1.id = (who k).1.id → (who j).2 = (who k).2 → j = k) {outcome : κ → Outcome}
    {order : List κ} (nodup : order.Nodup) {t t' : Table}
    (unused : ∀ k ∈ order, ∀ b ∈ t.bookings, ¬ b.HasKey (who k).1.id (who k).2)
    (run : serial (fun k => answer sizes (.reserve (asking policy carType window now (who k)))) order t =
      (order.map outcome, t')) :
    ((order.countP fun k => (outcome k).created.isSome : Nat) : Int) =
        min (order.length : Int) (advertised t carType size window) ∧
      (∀ k ∈ order, (outcome k).created = none → (outcome k).noneFree = true) ∧
      advertised t' carType size window =
        advertised t carType size window - min (order.length : Int) (advertised t carType size window) := by
  have nonneg := advertised_nonneg t carType size window
  induction order generalizing t with
  | nil =>
    cases run
    simp only [List.countP_nil, List.length_nil, Nat.cast_zero, List.not_mem_nil, false_implies, implies_true,
      true_and]
    omega
  | cons k order ih =>
    obtain ⟨notHead, nodup⟩ := List.nodup_cons.1 nodup
    have head := answerReserve_asking known valid (unused k List.mem_cons_self)
    simp only [serial, answer, head, List.map_cons] at run
    by_cases free : 0 < advertised t carType size window
    · simp only [if_pos free, Prod.mk.injEq, List.cons.injEq] at run
      obtain ⟨⟨accepted, rest⟩, last⟩ := run
      have lowered := advertised_push free (who k).1.id (who k).2
      have still : ∀ j ∈ order, ∀ b ∈ (t.push (t.fresh carType (who k).1.id window (who k).2)).bookings,
          ¬ b.HasKey (who j).1.id (who j).2 := by
        intro j hj b hb hk
        rcases List.mem_append.1 hb with hb | hb
        · exact unused j (List.mem_cons_of_mem _ hj) b hb hk
        · rw [List.mem_singleton.1 hb] at hk
          exact notHead (distinct k j hk.1 hk.2 ▸ hj)
      obtain ⟨count, refused, left⟩ := ih nodup still (Prod.ext rest last) (advertised_nonneg ..)
      refine ⟨?_, ?_, ?_⟩
      · have created : (outcome k).created.isSome = true := by rw [← accepted]; rfl
        rw [List.countP_cons, if_pos created, List.length_cons]
        omega
      · intro j hj none
        rcases List.mem_cons.1 hj with rfl | hj
        · rw [← accepted] at none
          cases none
        · exact refused j hj none
      · rw [left, lowered, List.length_cons]
        omega
    · simp only [if_neg free, Prod.mk.injEq, List.cons.injEq] at run
      obtain ⟨⟨full, rest⟩, last⟩ := run
      obtain ⟨count, refused, left⟩ := ih nodup (fun j hj => unused j (List.mem_cons_of_mem _ hj))
        (Prod.ext rest last) nonneg
      refine ⟨?_, ?_, ?_⟩
      · rw [List.countP_cons, ← full, List.length_cons]
        simp only [created_error, Option.isSome_none, Bool.false_eq_true, if_false]
        omega
      · intro j hj none
        rcases List.mem_cons.1 hj with rfl | hj
        · rw [← full]
          rfl
        · exact refused j hj none
      · rw [left, List.length_cons]
        omega

/-- What `availability` returning a count says. -/
theorem answerAvailability_eq_free {sizes : FleetSizes} {policy : BookingPolicy} {carType : CarType}
    {period : RentalPeriod} {now : Instant} {t : Table} {k : Int}
    (h : answerAvailability sizes policy carType period now t = .ok (.free k)) :
    ∃ size, sizes carType = some size ∧ policy.validate period now = .ok () ∧
      k = advertised t carType size period := by
  unfold answerAvailability at h
  cases valid : policy.validate period now with
  | error e => simp [valid] at h
  | ok _ =>
    cases known : sizes carType with
    | none => simp [valid, known] at h
    | some size =>
      simp only [valid, known, Except.ok.injEq, Reply.free.injEq] at h
      exact ⟨size, rfl, rfl, h.symm⟩

/-- The advice fails exactly where a request under an unused key fails for another
reason than the room. -/
theorem advice_error_iff {sizes : FleetSizes} (policy : BookingPolicy) (carType : CarType) (period : RentalPeriod)
    (now : Instant) {t : Table} {who : Customer × IdempotencyKey}
    (unused : ∀ b ∈ t.bookings, ¬ b.HasKey who.1.id who.2) :
    (∃ e, answerAvailability sizes policy carType period now t = .error e) ↔
      ∃ e, (answerReserve sizes (asking policy carType period now who) t).1 = .error e ∧ e.isNoAvailability = false := by
  simp only [answerAvailability, answerReserve, IdempotencyKey.new_value, Table.findByKey_none.2 unused]
  cases known : sizes carType with
  | none => cases policy.validate period now <;> simp [carTypeNotFound, Exn.isNoAvailability]
  | some size =>
    cases valid : policy.validate period now with
    | error e =>
      rcases BookingPolicy.validate_error valid with ⟨m, rfl⟩ | ⟨rfl, -⟩ <;> simp [Exn.isNoAvailability]
    | ok _ =>
      dsimp only
      split <;> simp [noAvailability, Exn.isNoAvailability]

theorem countP_of_order {ι : Type} [Fintype ι] [DecidableEq ι] {order : List ι} (nodup : order.Nodup)
    (all : ∀ i, i ∈ order) (p : ι → Bool) :
    (Finset.univ.filter fun i => p i = true).card = order.countP p := by
  rw [List.countP_eq_length_filter, ← List.toFinset_card_of_nodup (nodup.filter _)]
  congr 1
  ext i
  simp [all i]

/-- On a table left behind by a desk: `availability` raises exactly when a request
under an unused key raises anything but `NoAvailability`; and when it returns `k`,
any `n` concurrent requests under distinct unused keys are a bounded number of steps
and go on to the end from every state, and then exactly `min n k` have got a new
booking, the others have raised `NoAvailability`, and `availability` returns
`k - min n k`. -/
theorem availability_exact (sizes : FleetSizes) {t : Table} (reached : Reached sizes t) (policy : BookingPolicy)
    (carType : CarType) (period : RentalPeriod) (now : Instant) :
    (∀ who : Customer × IdempotencyKey, (∀ b ∈ t.bookings, ¬ b.HasKey who.1.id who.2) →
      ∃ advice reply m, (memory Unit).solo () (Call.program (InMemoryBookingLedger.new sizes)
          (.availability policy carType period now)) (.at Unit t) = some (advice, .at Unit t) ∧
        (memory Unit).solo () (Call.program (InMemoryBookingLedger.new sizes)
          (.reserve (asking policy carType period now who))) (.at Unit t) = some (reply, m) ∧
        ((∃ e, advice = .error e) ↔ ∃ e, reply = .error e ∧ e.isNoAvailability = false)) ∧
    ∀ k, (memory Unit).solo () (Call.program (InMemoryBookingLedger.new sizes)
        (.availability policy carType period now)) (.at Unit t) = some (.ok (.free k), .at Unit t) →
      ∀ (n : Nat) (who : Fin n → Customer × IdempotencyKey),
        (∀ i, ∀ b ∈ t.bookings, ¬ b.HasKey (who i).1.id (who i).2) →
        (∀ i j, (who i).1.id = (who j).1.id → (who i).2 = (who j).2 → i = j) →
        ∀ ls c, Runs sizes (fun i => .reserve (asking policy carType period now (who i))) t ls c →
          ls.length ≤ n * 7 ∧
          (∃ ls' c', Run (Step (memory (Fin n)) (code sizes fun i => .reserve (asking policy carType period now (who i))))
            c ls' c' ∧ c'.Complete) ∧
          (c.Complete →
            (((Finset.univ.filter fun i => (createdBy c i).isSome = true).card : Nat) : Int) = min (n : Int) k ∧
            (∀ i, createdBy c i = none → ∃ e, (c.thread i).result = some (.error e) ∧ e.isNoAvailability = true) ∧
            (memory Unit).solo () (Call.program (InMemoryBookingLedger.new sizes)
                (.availability policy carType period now)) (.at Unit c.shared.table) =
              some (.ok (.free (k - min (n : Int) k)), .at Unit c.shared.table)) := by
  have sound := reached.sound
  constructor
  · intro who unused
    refine ⟨_, _, _, solo_answer sound () _, solo_answer sound () _, ?_⟩
    exact advice_error_iff policy carType period now unused
  · intro k advice n who unused distinct ls c run
    have short := length_le sound run
    rw [Fintype.card_fin] at short
    refine ⟨short, completes sound run, fun complete => ?_⟩
    rw [solo_answer sound] at advice
    obtain ⟨advice, -⟩ := Prod.mk.inj (Option.some.inj advice)
    obtain ⟨size, known, valid, rfl⟩ := answerAvailability_eq_free advice
    obtain ⟨outcome, finished⟩ : ∃ outcome : Fin n → Outcome, ∀ i, (c.thread i).result = some (outcome i) :=
      ⟨_, fun i => (Option.some_get (complete i)).symm⟩
    have created : ∀ i, createdBy c i = (outcome i).created := by
      intro i
      rw [createdBy, finished i]
      rfl
    obtain ⟨order, nodup, all, -, answers⟩ := commit_order sound run finished
    obtain ⟨count, refused, left⟩ :=
      serial_requests known valid distinct nodup (fun i _ => unused i) answers
    have length : order.length = n := by
      have := countP_of_order nodup all fun _ => true
      simpa using this.symm
    have sound' : c.shared.table.Sound sizes := by
      obtain ⟨s, -, inv, rfl⟩ := inv_of_runs sound run
      exact inv.sound
    rw [length] at count left
    refine ⟨?_, ?_, ?_⟩
    · simp only [created]
      rw [countP_of_order nodup all fun i => (outcome i).created.isSome, count]
    · intro i none
      have none_free := refused i (all i) (by rw [← created, none])
      rw [finished i]
      cases h : outcome i with
      | error e =>
        rw [h] at none_free
        exact ⟨e, rfl, none_free⟩
      | ok reply =>
        rw [h] at none_free
        cases none_free
    · rw [solo_answer sound']
      simp only [answer, answerAvailability, valid, known]
      rw [← left]
      rfl

/-- Two customers ask for the one sedan. -/
def twoCustomers (i : Fin 2) : Customer × IdempotencyKey := ({ id := 7 + i }, springKey)

/-- One of them has the lock when the other asks for it. -/
theorem availability_exact_race : ∃ ls c ls' c',
    Runs oneEach (fun i => .reserve (asking {} .sedan (springReserve .sedan).period 0 (twoCustomers i))) .empty ls c ∧
    c.shared.holder .sedan = some 0 ∧
    Run (Step (memory (Fin 2)) (code oneEach fun i => .reserve (asking {} .sedan (springReserve .sedan).period 0
      (twoCustomers i)))) c ls' c' ∧
    c'.Complete ∧ (((Finset.univ.filter fun i => (createdBy c' i).isSome = true).card : Nat) : Int) = 1 := by
  obtain ⟨ls, c, run, locked⟩ : ∃ ls c, Runs oneEach
      (fun i => .reserve (asking {} .sedan (springReserve .sedan).period 0 (twoCustomers i))) .empty ls c ∧
      c.shared.holder .sedan = some 0 :=
    Machine.exists_run_of_drive ([0, 1, 0, 0].map (·, 0)) ⟨_, _, rfl, rfl⟩
  have counts := (availability_exact oneEach (reached_empty oneEach) {} .sedan (springReserve .sedan).period 0).2 1
    rfl 2 twoCustomers (fun _ _ h => nomatch h) (fun i j h _ => by simp [twoCustomers] at h; omega)
  obtain ⟨-, ⟨ls', c', rest, complete⟩, -⟩ := counts ls c run
  exact ⟨ls, c, ls', c', run, locked, rest, complete, ((counts _ c' (run.append rest)).2.2 complete).1⟩

end Memory

end VehicleRentals
