import Mathlib.Data.Fintype.Card
import Mathlib.Tactic.FinCases
import VehicleRentals.Postgres.Jobs

/-!
# No overbooking on the database

The size of a fleet is read, its key looked up, its bookings counted and the new
row inserted in four statements, each with its own view of the committed tables.
What makes the count still right at the commit is the lock of the fleet's row,
taken before the first of them: until the commit the bookings of the type can
only be cancelled and the fleet keeps its size.
-/

namespace VehicleRentals

open Concurrent

/-- The committed reservations of a car type that are active and have the car out at `x`. -/
def Tables.usage (t : Tables) (carTypeId : Int) (x : Instant) : Nat :=
  t.reservations.countP fun row => row.carTypeId = carTypeId ∧ row.status = BookingStatus.active.value ∧
    row.startAt ≤ x ∧ x < row.endAt

/-- No fleet is smaller than it was. -/
def Tables.NotLowered (t t' : Tables) : Prop :=
  ∀ fleet ∈ t.carTypes, ∃ fleet' ∈ t'.carTypes, fleet'.id = fleet.id ∧ fleet.fleetSize ≤ fleet'.fleetSize

instance (t t' : Tables) : Decidable (t.NotLowered t') :=
  inferInstanceAs (Decidable (∀ fleet ∈ t.carTypes, ∃ fleet' ∈ t'.carTypes, _))

namespace Mirrors

variable {ι : Type} {users : List Int} {fleetId : CarType → Int} {st : Store ι} {db : Db ι}

theorem usage (h : Mirrors users fleetId st db) {T : CarType} (hT : (st.sizes T).isSome = true) (x : Instant) :
    db.tables.usage (fleetId T) x = st.table.usage T x := by
  unfold Tables.usage Table.usage
  rw [h.rows, List.countP_map]
  refine List.countP_congr fun b hb => ?_
  have type : fleetId b.carType = fleetId T ↔ b.carType = T := ⟨h.fleetId_inj (h.known b hb) hT, congrArg fleetId⟩
  rw [Function.comp_apply, decide_eq_true_iff, decide_eq_true_iff]
  simp only [encode, type, value_inj_status, RentalPeriod.Covers]

/-- A row with no type behind it has no reservations. -/
theorem usage_other (h : Mirrors users fleetId st db) {k : Int}
    (other : ∀ T, (st.sizes T).isSome = true → fleetId T ≠ k) (x : Instant) : db.tables.usage k x = 0 := by
  unfold Tables.usage
  rw [h.rows, List.countP_map, List.countP_eq_zero]
  intro b hb out
  rw [Function.comp_apply, decide_eq_true_iff] at out
  exact other _ (h.known b hb) out.1

theorem fleet_mem (h : Mirrors users fleetId st db) {T : CarType} {n : Nat} (size : st.sizes T = some n) :
    fleetRow fleetId T n ∈ db.tables.carTypes :=
  List.mem_of_find?_eq_some (h.withId T n size)

/-- The row with a fleet's id is the fleet's row. -/
theorem fleet_eq (h : Mirrors users fleetId st db) {T : CarType} {n : Nat} (size : st.sizes T = some n)
    {row : CarTypeRow} (hrow : row ∈ db.tables.carTypes) (e : row.id = fleetId T) : row = fleetRow fleetId T n :=
  List.inj_on_of_nodup_map h.fleetIds hrow (h.fleet_mem size) e

end Mirrors

namespace Postgres

/-- Every instant has a car for every booking that is out. -/
def Fits {ι : Type} (st : Store ι) : Prop :=
  ∀ T n x, st.sizes T = some n → st.table.usage T x ≤ n

variable {ι : Type} {engine : Engine} {jobs : ι → Job} {users : List Int} {fleetId : CarType → Int}

/-- The booking a step commits fits, at every instant of its period. -/
theorem usage_committed {st : Store ι} {i : ι} {b : Booking} (ok : Store.BookOk engine st i b) :
    ∃ n, st.sizes b.carType = some n ∧
      ∀ x, b.period.Covers x → (st.table.append b).usage b.carType x ≤ n := by
  obtain ⟨n, size, room⟩ := ok.room
  refine ⟨n, size, ?_⟩
  intro x hx
  rw [Table.usage_append, if_pos ⟨rfl, ok.active, hx⟩]
  exact room x hx

variable [DecidableEq ι] in
/-- A step that lowers no fleet size keeps every instant within the fleets. -/
theorem fits_step {st st' : Store ι} {i : ι} (h : Store.Step engine i st st') (inv : Store.Inv engine st)
    (raised : ∀ T n n', st.sizes T = some n → st'.sizes T = some n' → n ≤ n') (fits : Fits st) : Fits st' := by
  intro T n' x size'
  rcases h.effect inv with ⟨same, -, sizes⟩ | ⟨c, -, ok, rfl⟩
  · simp only [Table.usage, same]
    exact fits T n' x (by rw [← sizes, size'])
  · cases c with
    | book b =>
      show (st.table.append b).usage T x ≤ n'
      by_cases out : b.carType = T ∧ b.status = .active ∧ b.period.Covers x
      · obtain ⟨rfl, -, covers⟩ := out
        obtain ⟨n, size, room⟩ := usage_committed ok
        obtain rfl : n = n' := Option.some.inj (size.symm.trans size')
        exact room x covers
      · rw [Table.usage_append, if_neg out]
        exact fits T n' x size'
    | cancel id now => exact (st.table.usage_cancelled_le id now T x).trans (fits T n' x size')
    | resize T' m =>
      obtain ⟨n, size⟩ : ∃ n, st.sizes T = some n := by
        by_cases e : T = T'
        · exact Option.isSome_iff_exists.1 (e ▸ ok.2)
        · exact ⟨n', (Function.update_of_ne e _ _).symm.trans size'⟩
      exact (fits T n x size).trans (raised T n n' size size')

/-- Fleet rows that are not lowered are fleets that are not. -/
theorem raised_of_notLowered {st st' : Store ι} {db db' : Db ι} (h : Mirrors users fleetId st db)
    (h' : Mirrors users fleetId st' db') (raised : db.tables.NotLowered db'.tables) {T : CarType} {n n' : Nat}
    (size : st.sizes T = some n) (size' : st'.sizes T = some n') : n ≤ n' := by
  obtain ⟨row, hrow, id, le⟩ := raised _ (h.fleet_mem size)
  rw [h'.fleet_eq size' hrow id] at le
  exact le

/-- Fleets that no instant exceeds are fleet rows that no instant exceeds. -/
theorem usage_le_of_fits {c : Jobs ι} {s : State ι} {t : Tables} (stands : Stands engine jobs t.users (fleetIdOf t) c s)
    (fits : Fits s.store) {fleet : CarTypeRow} (hfleet : fleet ∈ c.shared.tables.carTypes) (x : Instant) :
    c.shared.tables.usage fleet.id x ≤ fleet.fleetSize := by
  by_cases known : ∃ T, (s.store.sizes T).isSome = true ∧ fleetIdOf t T = fleet.id
  · obtain ⟨T, hT, id⟩ := known
    obtain ⟨n, size⟩ := Option.isSome_iff_exists.1 hT
    rw [stands.mirrors.fleet_eq size hfleet id.symm]
    show c.shared.tables.usage (fleetIdOf t T) x ≤ n
    rw [stands.mirrors.usage hT]
    exact fits T n x size
  · rw [stands.mirrors.usage_other fun T hT e => known ⟨T, hT, e⟩]
    exact Nat.zero_le _

variable [DecidableEq ι]

/-- A booking that appears in the domain's table was made by the `reserve` call that
moves, and fits at every instant of its period. -/
theorem room_of_new {c : Jobs ι} {s s' : State ι} {m : ι × Option Wait} (stands : Stands engine jobs users fleetId c s)
    (moved : Moves engine jobs users s m s') {b : Booking} (hb : b ∈ s'.store.table.bookings)
    (unseen : ∀ a ∈ s.store.table.bookings, a.id ≠ b.id) :
    (∃ r, jobs m.1 = .call (.reserve r)) ∧ ∃ n, s'.store.sizes b.carType = some n ∧
      ∀ x, b.period.Covers x → s'.store.table.usage b.carType x ≤ n := by
  rcases (moved.step stands.inv).effect stands.inv.store with ⟨same, -, -⟩ | ⟨c₀, pending, ok, committed⟩
  · exact absurd rfl (unseen b (same ▸ hb))
  · have owner := stands.inv.owner pending
    rw [committed] at hb ⊢
    cases c₀ with
    | book b₀ =>
      rcases List.mem_append.1 hb with old | last
      · exact absurd rfl (unseen b old)
      · obtain rfl := List.mem_singleton.1 last
        obtain ⟨r, -, isReserve, -⟩ := owner
        exact ⟨⟨r, isReserve⟩, usage_committed ok⟩
    | cancel id now =>
      obtain ⟨a, ha, rfl⟩ := List.mem_map.1 hb
      exact absurd (Table.cancelAt_id id now a).symm (unseen a ha)
    | resize T n => exact absurd rfl (unseen b hb)

/-- For any jobs over tables with no bookings yet, interleaved statement by
statement: a booking that a step commits is a `reserve` call's, and at every
instant of its period its type has no more cars out than its committed fleet
size; and in a run that lowers no fleet size no type ever has. -/
theorem no_overbooking (engine : Engine) (jobs : ι → Job) {t : Tables} (fresh : NoBookings t) (drawn : Int) :
    (∀ ls c l c', Run (Step (postgres engine ι) (code jobs)) (Pool.start (Db.quiet t drawn)) ls c →
      Step (postgres engine ι) (code jobs) c l c' →
      ∀ row ∈ c'.shared.tables.reservations, (∀ old ∈ c.shared.tables.reservations, old.id ≠ row.id) →
        (∃ r, jobs l.thread = .call (.reserve r)) ∧
        ∃ fleet, c'.shared.tables.carTypeOf row = some fleet ∧
          ∀ x, row.startAt ≤ x → x < row.endAt → c'.shared.tables.usage fleet.id x ≤ fleet.fleetSize) ∧
    (∀ ls c, Run (fun a l b => Step (postgres engine ι) (code jobs) a l b ∧
        a.shared.tables.NotLowered b.shared.tables) (Pool.start (Db.quiet t drawn)) ls c →
      ∀ fleet ∈ c.shared.tables.carTypes, ∀ x, c.shared.tables.usage fleet.id x ≤ fleet.fleetSize) := by
  have start := stands_start (ι := ι) fresh engine jobs drawn
  constructor
  · intro ls c l c' run step row hrow new
    obtain ⟨s, -, stands⟩ := run_stands start run
    obtain ⟨s', moved, stands'⟩ := step_moves stands step
    rw [stands'.mirrors.rows] at hrow
    rw [stands.mirrors.rows] at new
    obtain ⟨b, hb, rfl⟩ := List.mem_map.1 hrow
    obtain ⟨reserves, n, size, room⟩ := room_of_new stands moved hb fun a ha => new _ (List.mem_map_of_mem ha)
    refine ⟨reserves, _, stands'.mirrors.withId _ n size, ?_⟩
    intro x started running
    show c'.shared.tables.usage (fleetIdOf t b.carType) x ≤ n
    rw [stands'.mirrors.usage (Option.isSome_iff_exists.2 ⟨n, size⟩)]
    exact room x ⟨started, running⟩
  · intro ls c run fleet hfleet x
    obtain ⟨s, -, stands, fits⟩ := run.simulate
      (fun c (s : State ι) => Stands engine jobs t.users (fleetIdOf t) c s ∧ Fits s.store)
      (fun c l c' s ⟨stands, fits⟩ ⟨step, raised⟩ => by
        obtain ⟨s', moved, stands'⟩ := step_moves stands step
        refine ⟨s', moved, stands', fits_step (moved.step stands.inv) stands.inv.store ?_ fits⟩
        intro T n n' size size'
        exact raised_of_notLowered stands.mirrors stands'.mirrors raised size size')
      ⟨start, fun T n x _ => Nat.zero_le _⟩
    exact usage_le_of_fits stands fits hfleet x

/-- Two bookings of the one sedan, and an edit that adds a second. -/
def raceForSedan : Fin 3 → Job
  | 0 => .call (.reserve (springReserve .sedan))
  | 1 => .edit .sedan 2
  | 2 => .call (.reserve { springReserve .sedan with idempotencyKey := "spring-2027" })

theorem no_overbooking_race : ∃ ls c, Run (fun a l b => Step (postgres plainEngine (Fin 3)) (code raceForSedan) a l b ∧
      a.shared.tables.NotLowered b.shared.tables) (Pool.start (Db.quiet smallTables 1)) ls c ∧
    c.Complete ∧ c.shared.tables.usage 1 (Timedelta.days 1) = 2 ∧
    ∀ fleet ∈ c.shared.tables.carTypes, ∀ x, c.shared.tables.usage fleet.id x ≤ fleet.fleetSize := by
  obtain ⟨ls, c, run, complete, out⟩ : ∃ ls c, Run (fun a l b =>
        Step (postgres plainEngine (Fin 3)) (code raceForSedan) a l b ∧
          decide (a.shared.tables.NotLowered b.shared.tables) = true) (Pool.start (Db.quiet smallTables 1)) ls c ∧
      (∀ i, ((c.thread i).result).isSome = true) ∧ c.shared.tables.usage 1 (Timedelta.days 1) = 2 :=
    Machine.exists_run_of_check ([0, 0, 2, 0, 0, 1, 0, 0, 1, 1, 2, 2, 2, 2, 2].map (·, 0)) (by decide +kernel)
  have raised : Run (fun a l b => Step (postgres plainEngine (Fin 3)) (code raceForSedan) a l b ∧
      a.shared.tables.NotLowered b.shared.tables) (Pool.start (Db.quiet smallTables 1)) ls c :=
    run.mono fun _ _ _ hs => ⟨hs.1, of_decide_eq_true hs.2⟩
  have fits := (no_overbooking plainEngine raceForSedan noBookings_smallTables 1).2 ls c raised
  exact ⟨ls, c, raised, complete, out, fits⟩

end Postgres

end VehicleRentals
