import VehicleRentals.Memory.Answers

/-!
# A customer sees no more than their own bookings

To somebody who is not staff a missing booking and another customer's look the
same, and the listing shows their own. So `cancel` and `reservations_for` act on
a table as they do on the customer's own part of it (`answer_only`), whatever
else is stored, and leave the rest alone.
-/

namespace VehicleRentals

open Concurrent

namespace Table

/-- The customer's own bookings, and everybody else's. -/
def ownedBy (t : Table) (a : Customer) : List Booking := t.bookings.filter fun b => b.customerId == a.id
def others (t : Table) (a : Customer) : List Booking := t.bookings.filter fun b => b.customerId != a.id

/-- The customer's own part of the table; the next id is not part of it. -/
def only (t : Table) (a : Customer) : Table := { bookings := t.ownedBy a, ids := 0 }

/-- `_bookings` is keyed by id. -/
abbrev Keyed (t : Table) : Prop := (t.bookings.map (·.id)).Nodup

theorem Keyed.cancelled {t : Table} (h : t.Keyed) (id : Int) (now : Instant) : (t.cancelled id now).Keyed := by
  simpa [Keyed, Table.cancelled, Function.comp_def] using h

theorem Keyed.only {t : Table} (h : t.Keyed) (a : Customer) : (t.only a).Keyed :=
  h.sublist (List.filter_sublist.map _)

theorem mem_ownedBy {t : Table} {a : Customer} {b : Booking} :
    b ∈ t.ownedBy a ↔ b ∈ t.bookings ∧ b.customerId = a.id := by
  simp [ownedBy]

theorem cancelled_only (t : Table) (a : Customer) (id : Int) (now : Instant) :
    (t.cancelled id now).only a = (t.only a).cancelled id now := by
  have same : (fun b : Booking => b.customerId == a.id) ∘ cancelAt id now = fun b => b.customerId == a.id := by
    funext b
    rw [Function.comp_apply, ← (cancelAt_sameOrigin id now b).customerId]
  simp only [only, ownedBy, Table.cancelled, List.filter_map, same]

/-- Cancelling one of the customer's bookings leaves everybody else's as they are. -/
theorem cancelled_others {t : Table} (keyed : t.Keyed) {a : Customer} {b : Booking} (hb : b ∈ t.ownedBy a)
    (now : Instant) : (t.cancelled b.id now).others a = t.others a := by
  have same : (fun c : Booking => c.customerId != a.id) ∘ cancelAt b.id now = fun c => c.customerId != a.id := by
    funext c
    rw [Function.comp_apply, ← (cancelAt_sameOrigin b.id now c).customerId]
  obtain ⟨stored, mine⟩ := mem_ownedBy.1 hb
  rw [others, Table.cancelled, List.filter_map, same]
  refine (List.map_congr_left fun c hc => ?_).trans (List.map_id _)
  obtain ⟨stored', notMine⟩ := List.mem_filter.1 hc
  refine if_neg fun sameId => ?_
  rw [List.inj_on_of_nodup_map keyed stored' stored sameId, mine, bne_self_eq_false] at notMine
  cases notMine

/-- For somebody who is not staff the block of `cancel` does to a table what it does to
their own part of it. -/
theorem cancelStep_only {a : Customer} (notStaff : a.isStaff = false) {t : Table} (keyed : t.Keyed) (id : Int)
    (now : Instant) :
    (Memory.cancelStep t id a now).1 = (Memory.cancelStep (t.only a) id a now).1 ∧
      (Memory.cancelStep t id a now).2.only a = (Memory.cancelStep (t.only a) id a now).2 ∧
      (Memory.cancelStep t id a now).2.others a = t.others a ∧ (Memory.cancelStep t id a now).2.Keyed := by
  by_cases mine : ∃ b ∈ t.ownedBy a, b.id = id
  · obtain ⟨b, hb, rfl⟩ := mine
    obtain ⟨stored, owner⟩ := mem_ownedBy.1 hb
    have managed : b.mayBeManagedBy a = true := by
      rw [Booking.mayBeManagedBy, owner, beq_self_eq_true, Bool.or_true]
    rw [cancelStep_managed keyed stored managed, cancelStep_managed (keyed.only a) hb managed]
    by_cases changed : b.status = .active ∧ now < b.period.stop
    · rw [if_pos changed, if_pos changed]
      exact ⟨rfl, t.cancelled_only a b.id now, cancelled_others keyed hb now, keyed.cancelled b.id now⟩
    · rw [if_neg changed, if_neg changed]
      exact ⟨rfl, rfl, rfl, keyed⟩
  · -- nothing of theirs has the id: missing, or somebody else's
    have foreign : ∀ b ∈ t.bookings, b.id = id → b.mayBeManagedBy a = false := by
      intro b hb e
      have stranger : b.customerId ≠ a.id := fun owner => mine ⟨b, mem_ownedBy.2 ⟨hb, owner⟩, e⟩
      simp only [Booking.mayBeManagedBy, notStaff, Bool.false_or, beq_eq_false_iff_ne]
      exact stranger.symm
    rw [cancelStep_refused foreign, cancelStep_refused fun b hb => foreign b (mem_ownedBy.1 hb).1]
    exact ⟨rfl, rfl, rfl, keyed⟩

end Table

namespace Memory

/-- A cancellation or a listing by this customer. -/
def ProbeBy (a : Customer) : Call → Prop
  | .cancel _ actor _ => actor = a
  | .reservationsFor customer => customer = a
  | _ => False

/-- Such a call takes no fleet lock; alone on any table it computes its answer. -/
theorem solo_probe {ι : Type} {a : Customer} {call : Call} (probe : ProbeBy a call) (sizes : FleetSizes) (i : ι)
    (m : Memory ι) : (memory ι).solo i (call.program (InMemoryBookingLedger.new sizes)) m =
      some ((answer sizes call m.table).1, ⟨(answer sizes call m.table).2, m.holder⟩) := by
  have thread := thread_invoked sizes call
  cases call with
  | cancel bookingId actor now =>
    rw [← Thread.running.inj thread]
    exact solo_cancelBlock ..
  | reservationsFor customer =>
    rw [← Thread.running.inj thread]
    rfl
  | _ => exact probe.elim

/-- What such a call answers and does is decided by the customer's own bookings. -/
theorem answer_only {a : Customer} (notStaff : a.isStaff = false) {call : Call} (probe : ProbeBy a call)
    (sizes : FleetSizes) {t : Table} (keyed : t.Keyed) :
    (answer sizes call t).1 = (answer sizes call (t.only a)).1 ∧
      (answer sizes call t).2.only a = (answer sizes call (t.only a)).2 ∧
      (answer sizes call t).2.others a = t.others a ∧ (answer sizes call t).2.Keyed := by
  cases call with
  | cancel bookingId actor now =>
    obtain rfl : actor = a := probe
    obtain ⟨same, own, rest, keyed'⟩ := Table.cancelStep_only notStaff keyed bookingId now
    exact ⟨congrArg (Except.map Reply.cancelled) same, own, rest, keyed'⟩
  | reservationsFor customer =>
    obtain rfl : customer = a := probe
    refine ⟨?_, rfl, rfl, keyed⟩
    simp only [answer, Table.bookingsOf, Table.only, Table.ownedBy, List.filter_filter, Bool.and_self]
  | _ => exact probe.elim

/-- The same for one such call after another. -/
theorem serial_only {a : Customer} (notStaff : a.isStaff = false) {calls : List Call}
    (probes : ∀ call ∈ calls, ProbeBy a call) (sizes : FleetSizes) {t : Table} (keyed : t.Keyed) :
    (serial (answer sizes) calls t).1 = (serial (answer sizes) calls (t.only a)).1 ∧
      (serial (answer sizes) calls t).2.only a = (serial (answer sizes) calls (t.only a)).2 ∧
      (serial (answer sizes) calls t).2.others a = t.others a := by
  induction calls generalizing t with
  | nil => exact ⟨rfl, rfl, rfl⟩
  | cons call calls ih =>
    obtain ⟨same, own, rest, keyed'⟩ := answer_only notStaff (probes call List.mem_cons_self) sizes keyed
    obtain ⟨same', own', rest'⟩ := ih (fun c hc => probes c (List.mem_cons_of_mem call hc)) keyed'
    simp only [serial]
    rw [← own]
    exact ⟨by rw [same, same'], own', rest'.trans rest⟩

theorem solos_probes {ι : Type} {a : Customer} {calls : List Call} (probes : ∀ call ∈ calls, ProbeBy a call)
    (sizes : FleetSizes) (i : ι) (m : Memory ι) :
    (memory ι).solos i (calls.map fun call => call.program (InMemoryBookingLedger.new sizes)) m =
      some ((serial (answer sizes) calls m.table).1, ⟨(serial (answer sizes) calls m.table).2, m.holder⟩) := by
  induction calls generalizing m with
  | nil => rfl
  | cons call calls ih =>
    have first := solo_probe (probes call List.mem_cons_self) sizes i m
    exact Machine.solos_cons first (ih (fun c hc => probes c (List.mem_cons_of_mem call hc)) _)

/-- From two states of the ledger with the same bookings of a customer who is not staff,
whatever else they hold: any sequence of that customer's `cancel` and `reservations_for`
calls has the same outcomes in both, one by one, keeps the customer's bookings equal,
and changes nobody else's. -/
theorem cannot_probe {ι : Type} (sizes : FleetSizes) {a : Customer} (notStaff : a.isStaff = false) {m₁ m₂ : Memory ι}
    (keyed₁ : m₁.table.Keyed) (keyed₂ : m₂.table.Keyed) (own : m₁.table.ownedBy a = m₂.table.ownedBy a) (i : ι)
    {calls : List Call} (probes : ∀ call ∈ calls, ProbeBy a call) :
    ∃ outcomes m₁' m₂',
      (memory ι).solos i (calls.map fun call => call.program (InMemoryBookingLedger.new sizes)) m₁ =
        some (outcomes, m₁') ∧
      (memory ι).solos i (calls.map fun call => call.program (InMemoryBookingLedger.new sizes)) m₂ =
        some (outcomes, m₂') ∧
      m₁'.table.ownedBy a = m₂'.table.ownedBy a ∧
      m₁'.table.others a = m₁.table.others a ∧ m₂'.table.others a = m₂.table.others a := by
  have same : m₁.table.only a = m₂.table.only a := by rw [Table.only, Table.only, own]
  obtain ⟨outcomes₁, own₁, others₁⟩ := serial_only notStaff probes sizes keyed₁
  obtain ⟨outcomes₂, own₂, others₂⟩ := serial_only notStaff probes sizes keyed₂
  rw [same] at outcomes₁ own₁
  have run₂ := solos_probes probes sizes i m₂
  rw [outcomes₂, ← outcomes₁] at run₂
  exact ⟨_, _, _, solos_probes probes sizes i m₁, run₂, congrArg Table.bookings (own₁.trans own₂.symm),
    others₁, others₂⟩

/-- Another customer probes for booking 1, which only one of two ledgers has. -/
def stranger : Customer := { id := 8 }
def probing : List Call := [.cancel 1 stranger 0, .cancel 2 stranger 0, .reservationsFor stranger]
def booked : Table :=
  Table.empty.push (Table.empty.fresh .sedan 7 (springReserve .sedan).period springKey)

theorem cannot_probe_stranger : ∃ outcomes m₁' m₂',
    (memory Unit).solos () (probing.map fun call => call.program (InMemoryBookingLedger.new fun _ => some 1))
      (.at Unit .empty) = some (outcomes, m₁') ∧
    (memory Unit).solos () (probing.map fun call => call.program (InMemoryBookingLedger.new fun _ => some 1))
      (.at Unit booked) = some (outcomes, m₂') := by
  have keyed₁ : (Memory.at Unit .empty).table.Keyed := by decide
  have keyed₂ : (Memory.at Unit booked).table.Keyed := by decide
  have probes : ∀ call ∈ probing, ProbeBy stranger call := by simp [probing, ProbeBy]
  obtain ⟨outcomes, m₁', m₂', run₁, run₂, -⟩ :=
    cannot_probe (fun _ => some 1) rfl keyed₁ keyed₂ (by decide) () probes
  exact ⟨outcomes, m₁', m₂', run₁, run₂⟩

end Memory

end VehicleRentals
