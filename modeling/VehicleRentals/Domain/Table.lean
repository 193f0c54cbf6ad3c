import VehicleRentals.Domain.Booking
import VehicleRentals.Domain.Schedule

/-!
# The bookings a desk keeps

A `Table` is the bookings in the order they were made and the next number of
their sequence: what the in-memory ledger stores, and what the database's rows
stand for. `usage` counts the cars out; `Later` and `OnlyCancels` are what a call
can rely on while others write.
-/

namespace VehicleRentals

/-- The size of each car type's fleet; none where there is no fleet of the type. -/
abbrev FleetSizes := CarType → Option Nat

/-- The bookings, in insertion order, and the next number of their ids. -/
structure Table where
  bookings : List Booking
  ids : Int
  deriving DecidableEq, Repr

namespace Table

/-- No bookings, and ids that count from 1. -/
def empty : Table := { bookings := [], ids := 1 }

/-- The booking made under a customer's key. -/
def findByKey (t : Table) (customerId : Int) (key : IdempotencyKey) : Option Booking :=
  t.bookings.find? fun b => b.HasKey customerId key

/-- The booking with an id. -/
def get (t : Table) (id : Int) : Option Booking := t.bookings.find? fun b => b.id == id

/-- The periods of a type's bookings that are not cancelled and overlap a window. -/
def bookedDuring (t : Table) (carType : CarType) (period : RentalPeriod) : List RentalPeriod :=
  (t.bookings.filter fun b => b.carType == carType && !b.isCancelled && b.period.overlaps period).map (·.period)

/-- Bookings of a type that are not cancelled and have the car out at `x`. -/
def usage (t : Table) (carType : CarType) (x : Instant) : Nat :=
  t.bookings.countP fun b => b.carType = carType ∧ b.status = .active ∧ b.period.Covers x

/-- The table with `b` at its end. -/
def append (t : Table) (b : Booking) : Table := { t with bookings := t.bookings ++ [b] }

/-- The table with `b` added under the next number. -/
def push (t : Table) (b : Booking) : Table := { bookings := t.bookings ++ [b], ids := t.ids + 1 }

/-- The booking with this id, cancelled at `now`; any other booking as it is. -/
def cancelAt (id : Int) (now : Instant) (b : Booking) : Booking :=
  if b.id = id then { b with status := .cancelled, cancelledAt := some now } else b

/-- The table with the booking of this id cancelled at `now`. -/
def cancelled (t : Table) (id : Int) (now : Instant) : Table :=
  { t with bookings := t.bookings.map (cancelAt id now) }

theorem cancelAt_sameOrigin (id : Int) (now : Instant) (b : Booking) : b.SameOrigin (cancelAt id now b) := by
  unfold cancelAt
  split <;> exact ⟨rfl, rfl, rfl, rfl, rfl⟩

@[simp] theorem cancelAt_id (id : Int) (now : Instant) (b : Booking) : (cancelAt id now b).id = b.id :=
  (cancelAt_sameOrigin id now b).id.symm

/-- A booking that is active after a cancellation is not the one cancelled. -/
theorem cancelAt_of_active {id : Int} {now : Instant} {b : Booking} (h : (cancelAt id now b).status = .active) :
    cancelAt id now b = b := by
  unfold cancelAt at h ⊢
  split
  · rw [if_pos ‹_›] at h; cases h
  · rfl

/-! ## Lookups -/

theorem findByKey_some {t : Table} {customerId : Int} {key : IdempotencyKey} {b : Booking}
    (h : t.findByKey customerId key = some b) : b ∈ t.bookings ∧ b.HasKey customerId key :=
  ⟨List.mem_of_find?_eq_some h, by simpa using List.find?_some h⟩

theorem findByKey_none {t : Table} {customerId : Int} {key : IdempotencyKey} :
    t.findByKey customerId key = none ↔ ∀ b ∈ t.bookings, ¬ b.HasKey customerId key := by
  simp [findByKey]

theorem get_some {t : Table} {id : Int} {b : Booking} (h : t.get id = some b) : b ∈ t.bookings ∧ b.id = id :=
  ⟨List.mem_of_find?_eq_some h, by simpa using List.find?_some h⟩

theorem get_none {t : Table} {id : Int} : t.get id = none ↔ ∀ b ∈ t.bookings, b.id ≠ id := by
  simp [get]

/-- With distinct keys, a customer's key names one booking. -/
theorem eq_of_key {t : Table} (nodup : (t.bookings.map fun b => (b.customerId, b.idempotencyKey)).Nodup)
    {a b : Booking} {customerId : Int} {key : IdempotencyKey} (ha : a ∈ t.bookings) (hb : b ∈ t.bookings)
    (hka : a.HasKey customerId key) (hkb : b.HasKey customerId key) : a = b :=
  List.inj_on_of_nodup_map nodup ha hb (Prod.ext (hka.1.trans hkb.1.symm) (hka.2.trans hkb.2.symm))

theorem findByKey_of_mem {t : Table} (nodup : (t.bookings.map fun b => (b.customerId, b.idempotencyKey)).Nodup)
    {b : Booking} {customerId : Int} {key : IdempotencyKey} (hb : b ∈ t.bookings) (hk : b.HasKey customerId key) :
    t.findByKey customerId key = some b := by
  cases found : t.findByKey customerId key with
  | none => exact absurd hk (findByKey_none.1 found b hb)
  | some a =>
    obtain ⟨ha, hka⟩ := findByKey_some found
    rw [eq_of_key nodup ha hb hka hk]

theorem get_of_mem {t : Table} (nodup : (t.bookings.map (·.id)).Nodup) {b : Booking} (hb : b ∈ t.bookings) :
    t.get b.id = some b := by
  cases found : t.get b.id with
  | none => exact absurd rfl (get_none.1 found b hb)
  | some a =>
    obtain ⟨ha, e⟩ := get_some found
    rw [List.inj_on_of_nodup_map nodup ha hb e]

/-- Sorting by an instant, latest first. -/
theorem pairwise_latestFirst {α : Type} (start : α → Instant) (l : List α) :
    (l.insertionSort fun a b => start b ≤ start a).Pairwise fun a b => start b ≤ start a := by
  have total : Std.Total fun a b : α => start b ≤ start a := ⟨fun a b => le_total (start b) (start a)⟩
  have trans : IsTrans α fun a b => start b ≤ start a := ⟨fun _ _ _ h h' => le_trans h' h⟩
  exact List.pairwise_insertionSort _ l

/-! ## Usage -/

theorem usage_append (t : Table) (b : Booking) (carType : CarType) (x : Instant) :
    (t.append b).usage carType x =
      t.usage carType x + if b.carType = carType ∧ b.status = .active ∧ b.period.Covers x then 1 else 0 := by
  simp only [usage, append, List.countP_append, List.countP_singleton, decide_eq_true_eq]

theorem usage_cancelled_le (t : Table) (id : Int) (now : Instant) (carType : CarType) (x : Instant) :
    (t.cancelled id now).usage carType x ≤ t.usage carType x := by
  simp only [usage, cancelled, List.countP_map]
  refine List.countP_mono_left fun b _ hb => ?_
  simp only [Function.comp_apply, decide_eq_true_eq] at hb ⊢
  rwa [cancelAt_of_active hb.2.1] at hb

/-- Cancelling an active booking brings its one car back, throughout its period. -/
theorem usage_cancelled {t : Table} (nodup : (t.bookings.map (·.id)).Nodup) {b : Booking} (hb : b ∈ t.bookings)
    (active : b.status = .active) (now : Instant) {x : Instant} (covers : b.period.Covers x) :
    (t.cancelled b.id now).usage b.carType x + 1 = t.usage b.carType x := by
  obtain ⟨before, after, split⟩ := List.append_of_mem hb
  rw [split, List.map_append, List.map_cons] at nodup
  obtain ⟨-, nodup_after, disjoint⟩ := List.nodup_append.1 nodup
  have kept : ∀ l : List Booking, (∀ a ∈ l, a.id ≠ b.id) → l.map (cancelAt b.id now) = l := by
    intro l other
    refine (List.map_congr_left fun a ha => ?_).trans (List.map_id l)
    exact if_neg (other a ha)
  have earlier : before.map (cancelAt b.id now) = before := by
    refine kept before fun a ha same => ?_
    exact disjoint _ (List.mem_map_of_mem ha) _ List.mem_cons_self same
  have later : after.map (cancelAt b.id now) = after := by
    refine kept after fun a ha same => ?_
    exact (List.nodup_cons.1 nodup_after).1 (same ▸ List.mem_map_of_mem ha)
  have gone : (cancelAt b.id now b).status = .cancelled := by
    rw [cancelAt, if_pos rfl]
  simp only [usage, cancelled, split, List.map_append, List.map_cons, earlier, later, List.countP_append,
    List.countP_cons, gone, active, covers, and_self, reduceCtorEq, false_and, and_false,
    decide_true, decide_false, if_true, Bool.false_eq_true, if_false]
  omega

/-- Inside the window, the periods `booked_during` collects count the cars out. -/
theorem load_bookedDuring (t : Table) (carType : CarType) {window : RentalPeriod} {x : Instant}
    (hx : window.Covers x) : RentalPeriod.load (t.bookedDuring carType window) x = t.usage carType x := by
  simp only [RentalPeriod.load, Sweep.load, bookedDuring, usage, List.countP_map, List.countP_filter]
  refine List.countP_congr fun b _ => ?_
  simp only [Function.comp_apply, decide_eq_true_eq, Bool.and_eq_true, beq_iff_eq, Bool.not_eq_true',
    Booking.isCancelled_eq_false]
  constructor
  · rintro ⟨covers, ⟨type, active⟩, -⟩
    exact ⟨type, active, covers⟩
  · rintro ⟨type, active, covers⟩
    exact ⟨covers, ⟨type, active⟩, RentalPeriod.overlaps_iff.2 ⟨x, covers, hx⟩⟩

/-- The availability check on a table: at every instant of the window a car is free. -/
theorem canAccommodate_iff (t : Table) (carType : CarType) (size : Nat) (window : RentalPeriod) :
    FleetSchedule.canAccommodate { fleetSize := size, booked := t.bookedDuring carType window } window = true ↔
      ∀ x, window.Covers x → t.usage carType x < size := by
  rw [FleetSchedule.canAccommodate_iff]
  exact forall₂_congr fun x hx => by rw [t.load_bookedDuring carType hx]

theorem remaining_isLeast (t : Table) (carType : CarType) (size : Nat) (window : RentalPeriod) :
    IsLeast {k : Int | ∃ x, window.Covers x ∧ k = max 0 ((size : Int) - t.usage carType x)}
      (FleetSchedule.remaining { fleetSize := size, booked := t.bookedDuring carType window } window) := by
  have least := FleetSchedule.remaining_isLeast { fleetSize := size, booked := t.bookedDuring carType window } window
  convert least using 5 with k x
  constructor
  · rintro ⟨hx, e⟩
    exact ⟨hx, by rw [t.load_bookedDuring carType hx]; exact e⟩
  · rintro ⟨hx, e⟩
    exact ⟨hx, by rw [t.load_bookedDuring carType hx] at e; exact e⟩

/-! ## What the others rely on -/

/-- Every booking of `t` is still in `t'`; if it was cancelled, as it was. -/
def Later (t t' : Table) : Prop :=
  ∀ b ∈ t.bookings, ∃ b' ∈ t'.bookings, b.SameOrigin b' ∧ (b.status = .cancelled → b' = b)

theorem Later.refl (t : Table) : t.Later t := fun b hb => ⟨b, hb, .refl b, fun _ => rfl⟩

theorem Later.trans {t t' t'' : Table} (h : t.Later t') (h' : t'.Later t'') : t.Later t'' := by
  intro b hb
  obtain ⟨b', hb', origin, kept⟩ := h b hb
  obtain ⟨b'', hb'', origin', kept'⟩ := h' b' hb'
  refine ⟨b'', hb'', origin.trans origin', fun cancelled => ?_⟩
  obtain rfl := kept cancelled
  exact kept' cancelled

theorem later_append (t : Table) (b : Booking) : t.Later (t.append b) :=
  fun a ha => ⟨a, List.mem_append_left _ ha, .refl a, fun _ => rfl⟩

/-- Cancelling an active booking. -/
theorem later_cancelled {t : Table} (nodup : (t.bookings.map (·.id)).Nodup) {b : Booking} (hb : b ∈ t.bookings)
    (active : b.status = .active) (now : Instant) : t.Later (t.cancelled b.id now) := by
  intro a ha
  refine ⟨cancelAt b.id now a, List.mem_map_of_mem ha, cancelAt_sameOrigin .., ?_⟩
  intro gone
  have other : a.id ≠ b.id := by
    intro e
    rw [List.inj_on_of_nodup_map nodup ha hb e, active] at gone
    cases gone
  exact if_neg other

/-- All that happened to a car type's bookings is that some were cancelled. -/
structure OnlyCancels (carType : CarType) (t t' : Table) : Prop where
  nothingNew : ∀ b' ∈ t'.bookings, b'.carType = carType → ∃ b ∈ t.bookings, b.SameOrigin b'
  usage_le : ∀ x, t'.usage carType x ≤ t.usage carType x

theorem OnlyCancels.refl (carType : CarType) (t : Table) : t.OnlyCancels carType t :=
  ⟨fun b hb _ => ⟨b, hb, .refl b⟩, fun _ => le_refl _⟩

theorem OnlyCancels.trans {carType : CarType} {t t' t'' : Table} (h : t.OnlyCancels carType t')
    (h' : t'.OnlyCancels carType t'') : t.OnlyCancels carType t'' where
  nothingNew b'' hb'' e := by
    obtain ⟨b', hb', origin'⟩ := h'.nothingNew b'' hb'' e
    obtain ⟨b, hb, origin⟩ := h.nothingNew b' hb' (origin'.carType.trans e)
    exact ⟨b, hb, origin.trans origin'⟩
  usage_le x := (h'.usage_le x).trans (h.usage_le x)

theorem onlyCancels_append {t : Table} {b : Booking} {carType : CarType} (other : b.carType ≠ carType) :
    t.OnlyCancels carType (t.append b) where
  nothingNew a ha e := by
    rcases List.mem_append.1 ha with ha | ha
    · exact ⟨a, ha, .refl a⟩
    · rw [List.mem_singleton.1 ha] at e
      exact absurd e other
  usage_le x := by
    rw [usage_append, if_neg fun out => other out.1]
    exact le_refl _

theorem onlyCancels_push {t : Table} {b : Booking} {carType : CarType} (other : b.carType ≠ carType) :
    t.OnlyCancels carType (t.push b) :=
  ⟨(onlyCancels_append other).nothingNew, (onlyCancels_append other).usage_le⟩

theorem onlyCancels_cancelled (t : Table) (id : Int) (now : Instant) (carType : CarType) :
    t.OnlyCancels carType (t.cancelled id now) where
  nothingNew b hb _ := by
    obtain ⟨a, ha, rfl⟩ := List.mem_map.1 hb
    exact ⟨a, ha, cancelAt_sameOrigin ..⟩
  usage_le := t.usage_cancelled_le id now carType

end Table

end VehicleRentals
