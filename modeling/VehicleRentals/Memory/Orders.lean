import VehicleRentals.Admission
import VehicleRentals.Memory.Linearizable
import VehicleRentals.Memory.Progress

/-!
# Requests that fit together fit in every order

To the room in the fleets a request is a job that asks for one car of its type at
every instant of its period (`Reserve.demand`), and it is accepted exactly when
nothing but room could be missing and it is admitted (`accepted_cases`). Whether all
of a list are admitted does not depend on the order, and which calls commit first
is all that an interleaving decides.
-/

namespace VehicleRentals

open Concurrent

/-- One car of the type, at every instant of the period. -/
def Reserve.demand (r : Reserve) (x : CarType × Instant) : Nat :=
  if r.carType = x.1 ∧ r.period.Covers x.2 then 1 else 0

/-- Nothing in the request itself stands in its way. -/
structure Reserve.Admissible (sizes : FleetSizes) (r : Reserve) : Prop where
  parsed : ∃ key, IdempotencyKey.new r.idempotencyKey = .ok key
  known : ∃ size, sizes r.carType = some size
  valid : r.policy.validate r.period r.now = .ok ()

/-- A booking but for its id. -/
def Booking.anonymous (b : Booking) : Booking := { b with id := 0 }

/-- The booking the request asks for, but for its id; none if its key is malformed. -/
def Reserve.wanted (r : Reserve) : Option Booking :=
  match IdempotencyKey.new r.idempotencyKey with
  | .error _ => none
  | .ok key => some
      { id := 0, customerId := r.customer.id, carType := r.carType, period := r.period, idempotencyKey := key }

/-- The booking was made under the customer and the key of this request. -/
def Reserve.Spent (r : Reserve) (b : Booking) : Prop :=
  b.customerId = r.customer.id ∧ b.idempotencyKey.value = r.idempotencyKey

namespace Table

/-- The cars a type has at any instant, and those out. -/
def capacity (sizes : FleetSizes) (x : CarType × Instant) : Nat := (sizes x.1).getD 0
def out (t : Table) (x : CarType × Instant) : Nat := t.usage x.1 x.2

/-- The same bookings, up to their ids and their order. -/
def SameUpToIds (t t' : Table) : Prop :=
  (t.bookings.map Booking.anonymous).Perm (t'.bookings.map Booking.anonymous)

end Table

namespace Memory

/-- A booking under the parsed key is one under the request's key. -/
theorem spent_of_hasKey {r : Reserve} {key : IdempotencyKey} (parsed : IdempotencyKey.new r.idempotencyKey = .ok key)
    {b : Booking} (h : b.HasKey r.customer.id key) : r.Spent b :=
  ⟨h.1, h.2 ▸ IdempotencyKey.value_of_new parsed⟩

/-- Under an unused key a request is accepted exactly when nothing in it stands in the
way and it is admitted; then the booking it wants is stored. -/
theorem accepted_cases (sizes : FleetSizes) {r : Reserve} {t : Table} (unused : ∀ b ∈ t.bookings, ¬ r.Spent b) :
    ((answerReserve sizes r t).1.created = none ∧
      ¬ (r.Admissible sizes ∧ Admission.Fits Reserve.demand (Table.capacity sizes) t.out r)) ∨
    ∃ key size, IdempotencyKey.new r.idempotencyKey = .ok key ∧ sizes r.carType = some size ∧
      r.Admissible sizes ∧ Admission.Fits Reserve.demand (Table.capacity sizes) t.out r ∧
      answerReserve sizes r t = (.ok (.booked ⟨t.fresh r.carType r.customer.id r.period key, false⟩),
        t.push (t.fresh r.carType r.customer.id r.period key)) := by
  have room : ∀ size, sizes r.carType = some size →
      ((∀ x, r.period.Covers x → t.usage r.carType x < size) ↔
        Admission.Fits Reserve.demand (Table.capacity sizes) t.out r) := by
    intro size known
    constructor
    · rintro free ⟨T, x⟩ asks
      unfold Reserve.demand at asks ⊢
      by_cases here : r.carType = T ∧ r.period.Covers x
      · obtain ⟨rfl, covers⟩ := here
        have := free x covers
        simp only [Table.capacity, Table.out, known, Option.getD_some, covers, and_self, if_true]
        omega
      · rw [if_neg here] at asks
        exact absurd asks (Nat.lt_irrefl 0)
    · intro fits x covers
      have one : r.demand (r.carType, x) = 1 := if_pos ⟨rfl, covers⟩
      have := fits (r.carType, x) (by omega)
      simp only [one, Table.capacity, Table.out, known, Option.getD_some] at this
      omega
  cases parsed : IdempotencyKey.new r.idempotencyKey with
  | error e =>
    refine .inl ⟨by simp [answerReserve, parsed], ?_⟩
    rintro ⟨⟨⟨key, ok⟩, -, -⟩, -⟩
    cases parsed.symm.trans ok
  | ok key =>
    cases known : sizes r.carType with
    | none =>
      refine .inl ⟨by simp [answerReserve, parsed, known], ?_⟩
      rintro ⟨⟨-, ⟨size, ok⟩, -⟩, -⟩
      cases known.symm.trans ok
    | some size =>
      have free : t.findByKey r.customer.id key = none :=
        Table.findByKey_none.2 fun b hb hk => unused b hb (spent_of_hasKey parsed hk)
      cases valid : r.policy.validate r.period r.now with
      | error e =>
        refine .inl ⟨by simp [answerReserve, parsed, known, free, valid], ?_⟩
        rintro ⟨⟨-, -, ok⟩, -⟩
        cases valid.symm.trans ok
      | ok _ =>
        have accommodate := t.canAccommodate_iff r.carType size r.period
        rw [room size known] at accommodate
        by_cases fits : Admission.Fits Reserve.demand (Table.capacity sizes) t.out r
        · refine .inr ⟨key, size, rfl, rfl, ⟨⟨key, parsed⟩, ⟨size, known⟩, valid⟩, fits, ?_⟩
          simp only [answerReserve, parsed, known, free, valid, accommodate.2 fits, if_true]
        · refine .inl ⟨?_, fun h => fits h.2⟩
          simp only [answerReserve, parsed, known, free, valid]
          rw [if_neg (accommodate.not.2 fits)]
          rfl

/-- The insert takes one car of the type, at every instant of the period. -/
theorem out_push (t : Table) (r : Reserve) (key : IdempotencyKey) (x : CarType × Instant) :
    (t.push (t.fresh r.carType r.customer.id r.period key)).out x = t.out x + r.demand x := by
  have added := t.usage_append (t.fresh r.carType r.customer.id r.period key) x.1 x.2
  simp only [Table.fresh, true_and] at added
  exact added

theorem anonymous_push {t : Table} {r : Reserve} {key : IdempotencyKey}
    (parsed : IdempotencyKey.new r.idempotencyKey = .ok key) :
    (t.push (t.fresh r.carType r.customer.id r.period key)).bookings.map Booking.anonymous =
      t.bookings.map Booking.anonymous ++ r.wanted.toList := by
  simp only [Table.push, List.map_append, List.map_singleton, Reserve.wanted, parsed]
  rfl

section

variable {κ : Type} {sizes : FleetSizes} {requests : κ → Reserve} {order : List κ} {t t' : Table}
  {outcomes : List Outcome}

/-- Storing what one request wants spends no other's key. -/
theorem unused_push (distinct : ∀ j k, (requests j).customer.id = (requests k).customer.id →
    (requests j).idempotencyKey = (requests k).idempotencyKey → j = k) {j k : κ} (ne : j ≠ k)
    (unused : ∀ b ∈ t.bookings, ¬ (requests j).Spent b) {key : IdempotencyKey}
    (parsed : IdempotencyKey.new (requests k).idempotencyKey = .ok key) :
    ∀ b ∈ (t.push (t.fresh (requests k).carType (requests k).customer.id (requests k).period key)).bookings,
      ¬ (requests j).Spent b := by
  intro b hb spent
  rcases List.mem_append.1 hb with hb | hb
  · exact unused b hb spent
  · rw [List.mem_singleton.1 hb] at spent
    have sameKey : (requests j).idempotencyKey = (requests k).idempotencyKey := by
      rw [← spent.2]
      exact IdempotencyKey.value_of_new parsed
    exact ne (distinct j k spent.1.symm sameKey)

/-- Requests made one after another under distinct unused keys are all accepted exactly
when nothing in them stands in the way and all are admitted; the bookings they want are
then stored in that order. -/
theorem serial_accepts (distinct : ∀ j k, (requests j).customer.id = (requests k).customer.id →
      (requests j).idempotencyKey = (requests k).idempotencyKey → j = k) (nodup : order.Nodup)
    (unused : ∀ k ∈ order, ∀ b ∈ t.bookings, ¬ (requests k).Spent b)
    (run : serial (fun k => answer sizes (.reserve (requests k))) order t = (outcomes, t')) :
    ((∀ o ∈ outcomes, o.created.isSome = true) ↔ (∀ k ∈ order, (requests k).Admissible sizes) ∧
      Admission.AllFit (fun k => (requests k).demand) (Table.capacity sizes) t.out order) ∧
    ((∀ o ∈ outcomes, o.created.isSome = true) → t'.bookings.map Booking.anonymous =
      t.bookings.map Booking.anonymous ++ order.filterMap fun k => (requests k).wanted) := by
  induction order generalizing t outcomes with
  | nil =>
    cases run
    constructor
    · refine iff_of_true ?_ ⟨?_, trivial⟩
      · exact fun o ho => nomatch ho
      · exact fun k hk => nomatch hk
    · intro _
      rw [List.filterMap_nil, List.append_nil]
  | cons k order ih =>
    obtain ⟨notHead, nodup⟩ := List.nodup_cons.1 nodup
    rcases accepted_cases sizes (unused k List.mem_cons_self) with
      ⟨refused, lacks⟩ | ⟨key, size, parsed, known, admissible, fits, accepted⟩
    · have notAll : ¬ ∀ o ∈ outcomes, o.created.isSome = true := by
        intro all
        cases run
        have head : (answerReserve sizes (requests k) t).1.created.isSome = true := all _ List.mem_cons_self
        rw [refused] at head
        cases head
      refine ⟨iff_of_false notAll ?_, fun all => absurd all notAll⟩
      rintro ⟨admissible, fits, -⟩
      exact lacks ⟨admissible k List.mem_cons_self, fits⟩
    · simp only [serial, answer, accepted] at run
      obtain ⟨rfl, rfl⟩ := Prod.mk.inj run
      have others : ∀ j ∈ order, j ≠ k := fun j hj e => notHead (e ▸ hj)
      obtain ⟨iff, stored⟩ := ih nodup
        (fun j hj => unused_push distinct (others j hj) (unused j (List.mem_cons_of_mem k hj)) parsed) rfl
      have used : (t.push (t.fresh (requests k).carType (requests k).customer.id (requests k).period key)).out =
          fun x => t.out x + (requests k).demand x := funext (out_push t (requests k) key)
      rw [used] at iff
      have head : (Outcome.created (.ok (.booked ⟨t.fresh (requests k).carType (requests k).customer.id
          (requests k).period key, false⟩))).isSome = true := rfl
      constructor
      · rw [List.forall_mem_cons, List.forall_mem_cons, iff, Admission.AllFit]
        constructor
        · rintro ⟨-, all, rest⟩
          exact ⟨⟨admissible, all⟩, fits, rest⟩
        · rintro ⟨⟨-, all⟩, -, rest⟩
          exact ⟨head, all, rest⟩
      · intro all
        rw [stored fun o ho => all o (List.mem_cons_of_mem _ ho), anonymous_push parsed, List.append_assoc]
        congr 1
        rw [List.filterMap_cons]
        cases (requests k).wanted <;> rfl

/-- Requests that are all accepted in one order are so in any other, and the same
bookings are stored. -/
theorem serial_accepts_perm (distinct : ∀ j k, (requests j).customer.id = (requests k).customer.id →
      (requests j).idempotencyKey = (requests k).idempotencyKey → j = k)
    (unused : ∀ k, ∀ b ∈ t.bookings, ¬ (requests k).Spent b) (nodup : order.Nodup) {order' : List κ}
    (perm : order.Perm order')
    (run : serial (fun k => answer sizes (.reserve (requests k))) order t = (outcomes, t'))
    (accepted : ∀ o ∈ outcomes, o.created.isSome = true) {outcomes' : List Outcome} {t'' : Table}
    (run' : serial (fun k => answer sizes (.reserve (requests k))) order' t = (outcomes', t'')) :
    (∀ o ∈ outcomes', o.created.isSome = true) ∧ t'.SameUpToIds t'' := by
  obtain ⟨iff, stored⟩ := serial_accepts distinct nodup (fun k _ => unused k) run
  obtain ⟨iff', stored'⟩ := serial_accepts distinct (perm.nodup nodup) (fun k _ => unused k) run'
  obtain ⟨admissible, fit⟩ := iff.1 accepted
  have accepted' := iff'.2 ⟨fun k hk => admissible k (perm.mem_iff.2 hk), (Admission.allFit_perm perm).1 fit⟩
  refine ⟨accepted', ?_⟩
  rw [Table.SameUpToIds, stored accepted, stored' accepted']
  exact (perm.filterMap _).append_left _

/-- The same for an interleaving of the calls in which all have returned. -/
theorem complete_accepts [DecidableEq κ] (sound : t.Sound sizes)
    (distinct : ∀ j k, (requests j).customer.id = (requests k).customer.id →
      (requests j).idempotencyKey = (requests k).idempotencyKey → j = k)
    (unused : ∀ k, ∀ b ∈ t.bookings, ¬ (requests k).Spent b) (nodup : order.Nodup) (all : ∀ k, k ∈ order)
    (run : serial (fun k => answer sizes (.reserve (requests k))) order t = (outcomes, t'))
    (accepted : ∀ o ∈ outcomes, o.created.isSome = true) {ls : List (Label MemOp κ)}
    {c : Pool MemOp κ (Memory κ) Outcome} (h : Runs sizes (fun k => .reserve (requests k)) t ls c)
    (complete : c.Complete) :
    (∀ k o, (c.thread k).result = some o → o.created.isSome = true) ∧ t'.SameUpToIds c.shared.table := by
  obtain ⟨outcome, finished⟩ : ∃ outcome : κ → Outcome, ∀ k, (c.thread k).result = some (outcome k) :=
    ⟨_, fun k => (Option.some_get (complete k)).symm⟩
  obtain ⟨order', nodup', all', -, answers⟩ := commit_order sound h finished
  have perm : order.Perm order' :=
    (List.perm_ext_iff_of_nodup nodup nodup').2 fun k => iff_of_true (all k) (all' k)
  obtain ⟨accepted', same⟩ := serial_accepts_perm distinct unused nodup perm run accepted answers
  refine ⟨?_, same⟩
  intro k o returned
  obtain rfl : outcome k = o := Option.some.inj ((finished k).symm.trans returned)
  exact accepted' _ (List.mem_map_of_mem (all' k))

end

/-- From a table left behind by a desk: if requests under distinct unused keys are all
accepted one after another in some order, and so store the bookings they want beside
the old ones, then in every other order too, and in every interleaving, none of which
gets stuck; and the same bookings are stored, up to their ids. -/
theorem accepted_in_every_order (sizes : FleetSizes) {t : Table} (reached : Reached sizes t) {κ : Type}
    [DecidableEq κ] (requests : κ → Reserve)
    (distinct : ∀ j k, (requests j).customer.id = (requests k).customer.id →
      (requests j).idempotencyKey = (requests k).idempotencyKey → j = k)
    (unused : ∀ k, ∀ b ∈ t.bookings, ¬ (requests k).Spent b) {order : List κ} (nodup : order.Nodup)
    (all : ∀ k, k ∈ order) {outcomes : List Outcome} {t' : Table}
    (run : (memory Unit).solos () (order.map fun k =>
      Call.program (InMemoryBookingLedger.new sizes) (.reserve (requests k))) (.at Unit t) =
        some (outcomes, .at Unit t'))
    (accepted : ∀ o ∈ outcomes, o.created.isSome = true) :
    (∃ wanted : κ → Booking, (∀ k, (requests k).wanted = some (wanted k)) ∧
      t'.bookings.map Booking.anonymous = t.bookings.map Booking.anonymous ++ order.map wanted) ∧
    (∀ order' : List κ, order'.Nodup → (∀ k, k ∈ order') → ∃ outcomes' t'',
      (memory Unit).solos () (order'.map fun k =>
        Call.program (InMemoryBookingLedger.new sizes) (.reserve (requests k))) (.at Unit t) =
          some (outcomes', .at Unit t'') ∧
      (∀ o ∈ outcomes', o.created.isSome = true) ∧ t'.SameUpToIds t'') ∧
    ∀ ls c, Runs sizes (fun k => .reserve (requests k)) t ls c →
      (∀ k o, (c.thread k).result = some o → o.created.isSome = true) ∧
      (c.Complete → t'.SameUpToIds c.shared.table) ∧
      (¬ c.Complete → ∃ l c', Step (memory κ) (code sizes fun k => .reserve (requests k)) c l c') := by
  have sound := reached.sound
  rw [solos_serial () (fun k => .reserve (requests k)) sound] at run
  obtain ⟨outcomes_eq, table_eq⟩ := Prod.mk.inj (Option.some.inj run)
  have run : serial (fun k => answer sizes (.reserve (requests k))) order t = (outcomes, t') :=
    Prod.ext outcomes_eq (congrArg Memory.table table_eq)
  refine ⟨?_, ?_, ?_⟩
  · obtain ⟨iff, stored⟩ := serial_accepts distinct nodup (fun k _ => unused k) run
    have wants : ∀ k, ∃ b, (requests k).wanted = some b := by
      intro k
      obtain ⟨key, parsed⟩ := ((iff.1 accepted).1 k (all k)).parsed
      exact ⟨_, by rw [Reserve.wanted, parsed]⟩
    choose wanted asked using wants
    refine ⟨wanted, asked, ?_⟩
    have all_wanted : (order.filterMap fun k => some (wanted k)) = order.map wanted := congrFun List.filterMap_eq_map order
    rw [stored accepted, funext asked, all_wanted]
  · intro order' nodup' all'
    have perm : order.Perm order' :=
      (List.perm_ext_iff_of_nodup nodup nodup').2 fun k => iff_of_true (all k) (all' k)
    refine ⟨_, _, solos_serial () (fun k => .reserve (requests k)) sound order', ?_⟩
    exact serial_accepts_perm distinct unused nodup perm run accepted rfl
  · intro ls c h
    refine ⟨?_, fun complete => (complete_accepts sound distinct unused nodup all run accepted h complete).2, ?_⟩
    · -- a run that has not ended goes on to one that has, and its replies stay
      intro k o returned
      have : Fintype κ := ⟨order.toFinset, fun k => List.mem_toFinset.2 (all k)⟩
      obtain ⟨ls', c', rest, complete⟩ := completes sound h
      have stays : (c'.thread k).result = some o :=
        rest.invariant (I := fun c => (c.thread k).result = some o) (fun _ _ _ hr hs => hs.result_stays hr) returned
      have whole := complete_accepts sound distinct unused nodup all run accepted (h.append rest) complete
      exact whole.1 k o stays
    · intro unfinished
      obtain ⟨s, -, inv, rfl⟩ := inv_of_runs sound h
      exact progress inv unfinished

/-- Two customers ask for the one sedan, for two days in a row. -/
def backToBack : Fin 2 → Reserve
  | 0 => springReserve .sedan
  | 1 => { springReserve .sedan with
      customer := { id := 8 }, period := ⟨Timedelta.days 2, Timedelta.days 3, by decide⟩ }

/-- Whichever of them comes first, both days are stored. -/
theorem accepted_in_every_order_backToBack : ∃ ls c, Runs oneEach (fun k => .reserve (backToBack k)) .empty ls c ∧
    c.Complete ∧ (∀ k o, (c.thread k).result = some o → o.created.isSome = true) ∧
    ((c.shared.table.bookings.map fun b => (b.customerId, b.period)).Perm
      [(7, (backToBack 0).period), (8, (backToBack 1).period)]) := by
  have distinct : ∀ j k, (backToBack j).customer.id = (backToBack k).customer.id →
      (backToBack j).idempotencyKey = (backToBack k).idempotencyKey → j = k := by
    decide
  have start : Runs oneEach (fun k => .reserve (backToBack k)) .empty [] (.start (.at (Fin 2) .empty)) := .nil _
  have nodup : ([0, 1] : List (Fin 2)).Nodup := by decide
  obtain ⟨ls, c, run, complete⟩ := completes (Table.sound_empty oneEach) start
  obtain ⟨⟨wanted, asked, stored⟩, -, every⟩ := accepted_in_every_order oneEach (reached_empty oneEach) backToBack distinct
    (fun _ _ hb => nomatch hb) nodup (by decide) (solos_serial () _ (Table.sound_empty oneEach) _) (by decide +kernel)
  obtain ⟨all, same, -⟩ := every ls c run
  refine ⟨ls, c, run, complete, all, ?_⟩
  have both := ((same complete).symm.trans (.of_eq stored)).map fun b : Booking => (b.customerId, b.period)
  have booked : ∀ k, (wanted k).customerId = (backToBack k).customer.id ∧ (wanted k).period = (backToBack k).period := by
    intro k
    have parsed : IdempotencyKey.new (backToBack k).idempotencyKey = .ok springKey := by fin_cases k <;> rfl
    have e := asked k
    rw [Reserve.wanted, parsed] at e
    rw [← Option.some.inj e]
    exact ⟨rfl, rfl⟩
  simp only [List.map_append, List.map_map, List.map_cons, List.map_nil, booked] at both
  exact both

end Memory

end VehicleRentals
