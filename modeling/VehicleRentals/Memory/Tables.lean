import VehicleRentals.Memory.Stages

/-!
# What the ledger's steps do to the table

`Table.Sound` is what every reachable table satisfies: ids count up from 1, no
two bookings under one customer's key, cancellation stamps where they belong,
and no instant with more cars of a type out than its fleet has. The two writes,
an insert and a cancellation, are described once: `add_cases`, `cancelStep_cases`.
-/

namespace VehicleRentals

namespace Table

/-- The booking an insert stores. -/
def fresh (t : Table) (carType : CarType) (customerId : Int) (period : RentalPeriod) (key : IdempotencyKey) :
    Booking :=
  { id := t.ids, customerId, carType, period, idempotencyKey := key }

/-- An unused id is stored at the end. -/
theorem set_new {t : Table} {x : Booking} (h : ∀ b ∈ t.bookings, b.id ≠ x.id) :
    t.set x = { t with bookings := t.bookings ++ [x] } := by
  rw [set, if_neg]
  simpa using h

/-- Saving the cancelled copy of a stored booking. -/
theorem set_cancelled {t : Table} (nodup : (t.bookings.map (·.id)).Nodup) {b : Booking} (hb : b ∈ t.bookings)
    (now : Instant) : t.set { b with status := .cancelled, cancelledAt := some now } = t.cancelled b.id now := by
  have there : (t.bookings.any fun a => a.id == b.id) = true := by
    simp only [List.any_eq_true, beq_iff_eq]
    exact ⟨b, hb, rfl⟩
  rw [set, if_pos there, cancelled]
  congr 1
  refine List.map_congr_left fun a ha => ?_
  unfold cancelAt
  split
  · rw [List.inj_on_of_nodup_map nodup ha hb ‹_›]
  · rfl

/-! ## Sound tables -/

/-- What holds of every table a desk leaves behind. -/
structure Sound (sizes : FleetSizes) (t : Table) : Prop where
  numbered : t.bookings.map (·.id) = (List.range t.bookings.length).map fun k : Nat => (k : Int) + 1
  next : t.ids = t.bookings.length + 1
  keys : (t.bookings.map fun b => (b.customerId, b.idempotencyKey)).Nodup
  stamps : ∀ b ∈ t.bookings, b.cancelledAt.isSome = true ↔ b.status = .cancelled
  fits : ∀ carType x, t.usage carType x ≤ (sizes carType).getD 0

theorem sound_empty (sizes : FleetSizes) : Sound sizes empty where
  numbered := rfl
  next := rfl
  keys := .nil
  stamps := by simp [empty]
  fits _ _ := Nat.zero_le _

namespace Sound

variable {sizes : FleetSizes} {t : Table}

theorem ids_nodup (h : t.Sound sizes) : (t.bookings.map (·.id)).Nodup := by
  rw [h.numbered]
  exact List.nodup_range.map fun a b e => by simpa using e

/-- An id names one booking. -/
theorem eq_of_id (h : t.Sound sizes) {a b : Booking} (ha : a ∈ t.bookings) (hb : b ∈ t.bookings)
    (e : a.id = b.id) : a = b :=
  List.inj_on_of_nodup_map h.ids_nodup ha hb e

/-- Ids in use lie between 1 and the next one. -/
theorem id_lt (h : t.Sound sizes) {b : Booking} (hb : b ∈ t.bookings) : 1 ≤ b.id ∧ b.id < t.ids := by
  have mem : b.id ∈ t.bookings.map (·.id) := List.mem_map_of_mem hb
  rw [h.numbered] at mem
  obtain ⟨k, hk, e⟩ := List.mem_map.1 mem
  have := List.mem_range.1 hk
  rw [h.next]
  omega

/-- A customer's key names one booking. -/
theorem eq_of_key (h : t.Sound sizes) {a b : Booking} {customerId : Int} {key : IdempotencyKey}
    (ha : a ∈ t.bookings) (hb : b ∈ t.bookings) (hka : a.HasKey customerId key) (hkb : b.HasKey customerId key) :
    a = b :=
  Table.eq_of_key h.keys ha hb hka hkb

/-- The lookup by key finds the one booking made under it. -/
theorem findByKey_eq (h : t.Sound sizes) {b : Booking} {customerId : Int} {key : IdempotencyKey}
    (hb : b ∈ t.bookings) (hk : b.HasKey customerId key) : t.findByKey customerId key = some b :=
  findByKey_of_mem h.keys hb hk

theorem get_eq (h : t.Sound sizes) {b : Booking} (hb : b ∈ t.bookings) : t.get b.id = some b :=
  get_of_mem h.ids_nodup hb

end Sound

/-! ## The two writes -/

/-- An insert under an unused key, with a car free throughout. -/
theorem Sound.push {sizes : FleetSizes} {t : Table} (h : t.Sound sizes) {carType : CarType} {customerId : Int}
    {period : RentalPeriod} {key : IdempotencyKey} {size : Nat}
    (unused : ∀ b ∈ t.bookings, ¬ b.HasKey customerId key) (known : sizes carType = some size)
    (room : ∀ x, period.Covers x → t.usage carType x < size) :
    (t.push (t.fresh carType customerId period key)).Sound sizes where
  numbered := by
    simp only [Table.push, List.map_append, h.numbered, List.length_append, List.length_singleton,
      List.range_succ, List.map_singleton, fresh, h.next]
  next := by
    simp only [Table.push, List.length_append, List.length_singleton, h.next]
    omega
  keys := by
    simp only [Table.push, List.map_append, List.map_singleton]
    refine h.keys.append (List.nodup_singleton _) ?_
    simp only [List.disjoint_singleton, List.mem_map, not_exists, not_and]
    intro b hb e
    exact unused b hb ⟨congrArg Prod.fst e, congrArg Prod.snd e⟩
  stamps b hb := by
    rcases List.mem_append.1 hb with hb | hb
    · exact h.stamps b hb
    · rw [List.mem_singleton.1 hb]
      simp [fresh]
  fits T x := by
    show ((t.append (t.fresh carType customerId period key)).usage T x) ≤ _
    rw [usage_append]
    split
    · rename_i out
      obtain rfl : carType = T := out.1
      rw [known]
      exact room x out.2.2
    · exact h.fits T x

theorem Sound.cancelled {sizes : FleetSizes} {t : Table} (h : t.Sound sizes) (id : Int) (now : Instant) :
    (t.cancelled id now).Sound sizes where
  numbered := by
    simpa [Table.cancelled, Function.comp_def] using h.numbered
  next := by simpa [Table.cancelled] using h.next
  keys := by
    have same : (fun b : Booking => (b.customerId, b.idempotencyKey)) ∘ cancelAt id now =
        fun b => (b.customerId, b.idempotencyKey) := by
      funext b
      have origin := cancelAt_sameOrigin id now b
      exact Prod.ext origin.customerId.symm origin.idempotencyKey.symm
    simpa only [Table.cancelled, List.map_map, same] using h.keys
  stamps b hb := by
    obtain ⟨a, ha, rfl⟩ := List.mem_map.1 hb
    unfold cancelAt
    split
    · simp
    · exact h.stamps a ha
  fits T x := (t.usage_cancelled_le id now T x).trans (h.fits T x)

/-- What `add` does: refuse a spent key, or store the new booking. -/
theorem add_cases {sizes : FleetSizes} {t : Table} (h : t.Sound sizes) (carType : CarType) (customerId : Int)
    (period : RentalPeriod) (key : IdempotencyKey) :
    (∃ b ∈ t.bookings, b.HasKey customerId key ∧
      t.add carType customerId period key = (.error .duplicateIdempotencyKey, t)) ∨
    ((∀ b ∈ t.bookings, ¬ b.HasKey customerId key) ∧
      t.add carType customerId period key =
        (.ok (t.fresh carType customerId period key), t.push (t.fresh carType customerId period key))) := by
  unfold add
  cases found : t.findByKey customerId key with
  | some b => exact .inl ⟨b, (findByKey_some found).1, (findByKey_some found).2, rfl⟩
  | none =>
    refine .inr ⟨findByKey_none.1 found, ?_⟩
    refine congrArg (Prod.mk _) (set_new fun b hb => ?_)
    exact ne_of_lt (h.id_lt hb).2

/-- What the block of `cancel` does for somebody who may manage the booking. -/
theorem cancelStep_managed {t : Table} (nodup : (t.bookings.map (·.id)).Nodup) {b : Booking} (hb : b ∈ t.bookings)
    {actor : Customer} (managed : b.mayBeManagedBy actor = true) (now : Instant) :
    Memory.cancelStep t b.id actor now = ((b.cancel now).map Prod.snd,
      if b.status = .active ∧ now < b.period.stop then t.cancelled b.id now else t) := by
  unfold Memory.cancelStep
  rw [get_of_mem nodup hb]
  simp only [managed, if_true]
  rcases b.cancel_cases now with ⟨status, e⟩ | ⟨status, ended, e⟩ | ⟨status, running, e⟩ <;> rw [e]
  · rw [if_neg (by simp [status])]
    rfl
  · rw [if_neg (by simp [ended])]
    rfl
  · rw [if_pos ⟨status, running⟩]
    simp only [set_cancelled nodup hb, if_true]
    rfl

/-- It refuses everybody else, as if the booking were missing. -/
theorem cancelStep_refused {t : Table} {id : Int} {actor : Customer}
    (foreign : ∀ b ∈ t.bookings, b.id = id → b.mayBeManagedBy actor = false) (now : Instant) :
    Memory.cancelStep t id actor now = (.error (reservationNotFound id), t) := by
  unfold Memory.cancelStep
  cases found : t.get id with
  | none => rfl
  | some b =>
    obtain ⟨hb, e⟩ := get_some found
    simp only [foreign b hb e, Bool.false_eq_true, if_false]

/-- What the block of `cancel` does: refuse a missing or another customer's
booking, refuse an ended one, leave a cancelled one, or cancel it. -/
theorem cancelStep_cases {t : Table} (nodup : (t.bookings.map (·.id)).Nodup) (id : Int) (actor : Customer)
    (now : Instant) :
    ((∀ b ∈ t.bookings, b.id = id → b.mayBeManagedBy actor = false) ∧
      Memory.cancelStep t id actor now = (.error (reservationNotFound id), t)) ∨
    (∃ b ∈ t.bookings, b.id = id ∧ b.mayBeManagedBy actor = true ∧ b.status = .active ∧ b.period.stop ≤ now ∧
      Memory.cancelStep t id actor now =
        (.error (.domain (.reservationNotCancellable "the rental period has already ended")), t)) ∨
    (∃ b ∈ t.bookings, b.id = id ∧ b.mayBeManagedBy actor = true ∧ b.status = .cancelled ∧
      Memory.cancelStep t id actor now = (.ok b, t)) ∨
    (∃ b ∈ t.bookings, b.id = id ∧ b.mayBeManagedBy actor = true ∧ b.status = .active ∧ now < b.period.stop ∧
      Memory.cancelStep t id actor now = (.ok (cancelAt id now b), t.cancelled id now)) := by
  by_cases owned : ∃ b ∈ t.bookings, b.id = id ∧ b.mayBeManagedBy actor = true
  · obtain ⟨b, hb, rfl, managed⟩ := owned
    have step := cancelStep_managed nodup hb managed now
    refine .inr ?_
    rcases b.cancel_cases now with ⟨status, e⟩ | ⟨status, ended, e⟩ | ⟨status, running, e⟩ <;> rw [e] at step
    · refine .inr (.inl ⟨b, hb, rfl, managed, status, ?_⟩)
      rw [step, if_neg (by simp [status])]
      rfl
    · refine .inl ⟨b, hb, rfl, managed, status, ended, ?_⟩
      rw [step, if_neg (by simp [ended])]
      rfl
    · refine .inr (.inr ⟨b, hb, rfl, managed, status, running, ?_⟩)
      rw [step, if_pos ⟨status, running⟩, cancelAt, if_pos rfl]
      rfl
  · have foreign : ∀ b ∈ t.bookings, b.id = id → b.mayBeManagedBy actor = false :=
      fun b hb e => Bool.eq_false_iff.2 fun managed => owned ⟨b, hb, e, managed⟩
    exact .inl ⟨foreign, cancelStep_refused foreign now⟩

end Table

end VehicleRentals
