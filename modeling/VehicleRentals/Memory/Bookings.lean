import Mathlib.Data.Fintype.Card
import Mathlib.Tactic.FinCases
import VehicleRentals.Memory.Invariant

/-!
# Who made which booking

Every stored booking was made by exactly one `reserve` call, and every cancelled
one was cancelled by a call that returned (`Accounts`). With the invariant this
accounts for the whole table: no overbooking, one booking a key, and the ids, the
bookings and the cancellations are exactly those of the calls that returned them.
-/

namespace VehicleRentals

open Concurrent

namespace Memory

variable {ι : Type}

/-- The bookings and the calls that made and cancelled them. -/
structure Accounts (s : State ι) : Prop where
  /-- Two calls never made one booking. -/
  once : ∀ i j b b', (s.phase i).made = some b → (s.phase j).made = some b' → b.id = b'.id → i = j
  /-- Every booking was made by a call. -/
  maker : ∀ b ∈ s.memory.table.bookings, ∃ i b', (s.phase i).made = some b' ∧ b'.SameOrigin b
  /-- Every cancelled booking was cancelled by a call. -/
  canceller : ∀ b ∈ s.memory.table.bookings, b.status = .cancelled →
    ∃ i b', s.phase i = .done (.ok (.cancelled b')) ∧ b'.id = b.id

/-- A call that made a booking made it as it was asked to. -/
theorem grants_of_made {sizes : FleetSizes} {i : ι} {m : Memory ι} {call : Call} {ph : Phase} {b : Booking}
    (ok : PhaseOk sizes i m call ph) (h : ph.made = some b) :
    ∃ r key, call = .reserve r ∧ IdempotencyKey.new r.idempotencyKey = .ok key ∧ Grants m.table r key b := by
  have created : ∀ o : Outcome, o.created = some b → o = .ok (.booked ⟨b, false⟩) := by
    intro o ho
    unfold Outcome.created at ho
    split at ho <;> cases ho
    rfl
  cases ph with
  | reserving r key size g =>
    cases g with
    | releasing x =>
      obtain ⟨isCall, parsed, -, -, ok⟩ := ok
      cases x with
      | error e => cases h
      | ok result =>
        have granted := ok.2 result rfl
        cases Except.ok.inj (created (.ok (.booked result)) h)
        exact ⟨r, key, isCall, parsed, granted⟩
    | _ => cases h
  | done o =>
    rw [created o h] at ok
    exact ok
  | _ => cases h

variable [DecidableEq ι]

/-- What one step does to the table and to who made what: nothing, one new
booking by the thread that moved, or one cancellation by it. -/
theorem Moves.cases {sizes : FleetSizes} {calls : ι → Call} {s s' : State ι} {i : ι} (inv : Inv sizes calls s)
    (h : Moves sizes calls s i s') :
    (s'.memory.table = s.memory.table ∧ ∀ j, (s'.phase j).made = (s.phase j).made) ∨
    (∃ b, b.id = s.memory.table.ids ∧ (s.phase i).made = none ∧ (s'.phase i).made = some b ∧
      s'.memory.table = s.memory.table.push b ∧ b.status = .active) ∨
    (∃ b ∈ s.memory.table.bookings, ∃ now b', b'.id = b.id ∧ s'.phase i = .done (.ok (.cancelled b')) ∧
      s'.memory.table = s.memory.table.cancelled b.id now ∧ ∀ j, (s'.phase j).made = (s.phase j).made) := by
  have same : ∀ (m : Memory ι) (ph' : Phase), ph'.made = (s.phase i).made →
      ∀ j, ((Function.update s.phase i ph') j).made = (s.phase j).made := by
    intro m ph' e j
    by_cases ej : j = i
    · rw [ej, Function.update_self, e]
    · rw [Function.update_of_ne ej]
  cases h with
  | invoke idle =>
    refine .inl ⟨rfl, same s.memory _ ?_⟩
    rw [idle]
    rcases invoked_cases sizes (calls i) with
      ⟨e, -, h⟩ | ⟨r, key, size, -, -, -, h⟩ | ⟨bookingId, actor, now, -, h⟩ |
      ⟨policy, carType, period, now, size, -, -, -, h⟩ | ⟨customer, -, h⟩ <;> rw [h] <;> rfl
  | advance hs =>
    rename_i ph' m'
    have effect := hs.effect inv.sound
    generalize hph : s.phase i = ph at effect
    generalize m'.table = t' at effect ⊢
    cases effect with
    | none e => exact .inl ⟨rfl, same m' _ (by rw [hph, e])⟩
    | inserted unused => exact .inr (.inl ⟨_, rfl, rfl, by simp; rfl, rfl, rfl⟩)
    | @cancelled b actor now hb managed active running =>
      refine .inr (.inr ⟨b, hb, now, _, Table.cancelAt_id .., Function.update_self .., rfl, same m' _ ?_⟩)
      rw [hph]
      rfl

theorem accounts_start (ι : Type) : Accounts (State.start ι .empty) where
  once _ _ _ _ h := nomatch h
  maker _ hb := nomatch hb
  canceller _ hb := nomatch hb

/-- A finished call stays finished. -/
theorem Moves.done_stays {sizes : FleetSizes} {calls : ι → Call} {s s' : State ι} {i j : ι} {o : Outcome}
    (h : Moves sizes calls s i s') (done : s.phase j = .done o) : s'.phase j = .done o := by
  by_cases e : j = i
  · subst e
    cases h with
    | invoke idle => rw [idle] at done; cases done
    | advance hs => rw [done] at hs; cases hs
  · cases h <;> simpa only [Function.update_of_ne e] using done

theorem Moves.frame {sizes : FleetSizes} {calls : ι → Call} {s s' : State ι} {i j : ι}
    (h : Moves sizes calls s i s') (ne : j ≠ i) : s'.phase j = s.phase j := by
  cases h <;> simp only [Function.update_of_ne ne]

theorem accounts_moves {sizes : FleetSizes} {calls : ι → Call} {s s' : State ι} {i : ι} (inv : Inv sizes calls s)
    (acc : Accounts s) (h : Moves sizes calls s i s') : Accounts s' := by
  have cancels : ∀ b : Booking, (∃ i b', s.phase i = .done (.ok (.cancelled b')) ∧ b'.id = b.id) →
      ∃ i b', s'.phase i = .done (.ok (.cancelled b')) ∧ b'.id = b.id := by
    rintro b ⟨j, b', done, e⟩
    exact ⟨j, b', h.done_stays done, e⟩
  rcases h.cases inv with ⟨table, made⟩ | ⟨b, id, before, after, table, active⟩ |
    ⟨b, hb, now, b', e, done, table, made⟩
  · refine ⟨?_, ?_, ?_⟩
    · simpa only [made] using acc.once
    · simpa only [made, table] using acc.maker
    · intro a ha gone
      rw [table] at ha
      exact cancels a (acc.canceller a ha gone)
  · have others : ∀ j, j ≠ i → (s'.phase j).made = (s.phase j).made := by
      intro j ne
      rw [h.frame ne]
    have old : ∀ j a, j ≠ i → (s'.phase j).made = some a → a.id ≠ b.id := by
      intro j a ne ha
      rw [others j ne] at ha
      obtain ⟨r, key, -, -, granted⟩ := grants_of_made (inv.phases j) ha
      obtain ⟨a', ha', origin, -⟩ := granted.stored
      rw [origin.id, id]
      exact ne_of_lt (inv.sound.id_lt ha').2
    refine ⟨?_, ?_, ?_⟩
    · intro j k a a' ha ha' e
      by_cases ej : j = i <;> by_cases ek : k = i
      · rw [ej, ek]
      · subst ej
        cases after.symm.trans ha
        exact absurd e.symm (old k a' ek ha')
      · subst ek
        cases after.symm.trans ha'
        exact absurd e (old j a ej ha)
      · rw [others j ej] at ha
        rw [others k ek] at ha'
        exact acc.once j k a a' ha ha' e
    · intro a ha
      rw [table] at ha
      rcases List.mem_append.1 ha with ha | ha
      · obtain ⟨j, a', ha', origin⟩ := acc.maker a ha
        have ne : j ≠ i := by
          intro e
          rw [e, before] at ha'
          cases ha'
        exact ⟨j, a', by rw [others j ne, ha'], origin⟩
      · rw [List.mem_singleton.1 ha]
        exact ⟨i, b, after, .refl b⟩
    · intro a ha gone
      rw [table] at ha
      rcases List.mem_append.1 ha with ha | ha
      · exact cancels a (acc.canceller a ha gone)
      · rw [List.mem_singleton.1 ha, active] at gone
        cases gone
  · refine ⟨?_, ?_, ?_⟩
    · simpa only [made] using acc.once
    · intro a ha
      rw [table] at ha
      obtain ⟨a₀, ha₀, rfl⟩ := List.mem_map.1 ha
      obtain ⟨j, a', ha', origin⟩ := acc.maker a₀ ha₀
      exact ⟨j, a', by rw [made, ha'], origin.trans (Table.cancelAt_sameOrigin ..)⟩
    · intro a ha gone
      rw [table] at ha
      obtain ⟨a₀, ha₀, rfl⟩ := List.mem_map.1 ha
      by_cases named : a₀.id = b.id
      · exact ⟨i, b', done, by rw [e, Table.cancelAt_id, named]⟩
      · rw [Table.cancelAt, if_neg named] at gone ⊢
        exact cancels a₀ (acc.canceller a₀ ha₀ gone)

/-- Every state of a pool of calls over a newly made ledger, with its accounts. -/
theorem accounts_of_runs {sizes : FleetSizes} {calls : ι → Call} {ls : List (Label MemOp ι)}
    {c : Pool MemOp ι (Memory ι) Outcome} (h : Runs sizes calls .empty ls c) :
    ∃ s, Inv sizes calls s ∧ Accounts s ∧ c = s.pool sizes := by
  obtain ⟨s, trace, -, e⟩ := inv_of_runs (Table.sound_empty sizes) h
  have both := trace.invariant (I := fun s => Inv sizes calls s ∧ Accounts s)
    (fun _ _ _ hI hs => ⟨inv_moves hI.1 hs, accounts_moves hI.1 hI.2 hs⟩)
    ⟨inv_start calls (Table.sound_empty sizes), accounts_start ι⟩
  exact ⟨s, both.1, both.2, e⟩

omit [DecidableEq ι] in
/-- A thread has returned exactly when its phase is `done`. -/
theorem result_eq_some {sizes : FleetSizes} {s : State ι} {i : ι} {o : Outcome} :
    ((s.pool sizes).thread i).result = some o ↔ s.phase i = .done o := by
  simp only [State.pool]
  cases s.phase i with
  | reserving r key size g =>
    have running : ((Phase.reserving r key size g).thread sizes).result = none := by cases g <;> rfl
    simp [running]
  | done o' => simp [Phase.thread]
  | _ => simp [Phase.thread]

/-! ## No overbooking -/

/-- In every state of every interleaving, at every instant, no more cars of a
type are out than its fleet has. -/
theorem never_overbooked (sizes : FleetSizes) (calls : ι → Call) {ls : List (Label MemOp ι)}
    {c : Pool MemOp ι (Memory ι) Outcome} (h : Runs sizes calls .empty ls c) (carType : CarType) (x : Instant) :
    c.shared.table.usage carType x ≤ (sizes carType).getD 0 := by
  obtain ⟨s, -, inv, rfl⟩ := inv_of_runs (Table.sound_empty sizes) h
  exact inv.sound.fits carType x

/-- One car of each type. -/
def oneEach : FleetSizes := fun _ => some 1

/-- One key raced across two car types, and a cancellation of the first booking. -/
def raceCalls : Fin 3 → Call
  | 0 => .reserve (springReserve .sedan)
  | 1 => .reserve (springReserve .van)
  | 2 => .cancel 1 { id := 7 } 0

/-- Both calls pass the lookup before either inserts. -/
def raceTurns : List (Fin 3 × Nat) := [0, 1, 0, 1, 0, 1, 0, 1, 0, 1, 2, 2, 1, 1, 0].map (·, 0)

theorem never_overbooked_race : ∃ ls c, Runs oneEach raceCalls .empty ls c ∧
    c.shared.table.bookings.length = 1 ∧ c.shared.table.usage .sedan (Timedelta.days 1) ≤ 1 := by
  obtain ⟨ls, c, run, stored⟩ :
      ∃ ls c, Runs oneEach raceCalls .empty ls c ∧ c.shared.table.bookings.length = 1 :=
    Machine.exists_run_of_drive raceTurns ⟨_, _, rfl, rfl⟩
  exact ⟨ls, c, run, stored, never_overbooked oneEach raceCalls run .sedan _⟩

/-! ## One booking a key -/

/-- The booking a returned call created. -/
abbrev createdBy (c : Pool MemOp ι (Memory ι) Outcome) (i : ι) : Option Booking :=
  (c.thread i).result.bind Outcome.created

/-- What is left of a call whose insert was refused. -/
def Phase.Losing : Phase → Prop
  | .reserving _ _ _ (.releasing (.error .duplicateIdempotencyKey)) => True
  | .reserving _ _ _ .retrying => True
  | .done o => o = .error idempotencyConflict
  | _ => False

theorem losing_moves {sizes : FleetSizes} {calls : ι → Call} {s s' : State ι} {i j : ι} (inv : Inv sizes calls s)
    (losing : (s.phase j).Losing) (h : Moves sizes calls s i s') : (s'.phase j).Losing := by
  by_cases e : j = i
  · subst e
    cases h with
    | invoke idle => rw [idle] at losing; exact losing.elim
    | advance hs =>
      simp only [Function.update_self]
      have ok := inv.phases j
      generalize s.phase j = ph at hs losing ok
      cases hs with
      | @release r key size x =>
        rcases x with (e | result)
        · cases e <;> first | exact losing.elim | exact trivial
        · exact losing.elim
      | retry =>
        obtain ⟨-, -, -, -, lost⟩ := ok
        exact retry_conflict inv.sound lost
      | _ => exact losing.elim
  · rwa [h.frame e]

omit [DecidableEq ι] in
/-- A refused call that is left alone raises `IdempotencyConflict`. -/
theorem solo_losing {sizes : FleetSizes} {calls : ι → Call} {s : State ι} {i : ι} (inv : Inv sizes calls s)
    (losing : (s.phase i).Losing) : ∃ p m, (s.phase i).thread sizes = .running p ∧
      (memory ι).solo i p s.memory = some (.error idempotencyConflict, m) := by
  have ok := inv.phases i
  generalize s.phase i = ph at losing ok ⊢
  cases ph with
  | done o => exact ⟨_, _, rfl, by rw [show o = _ from losing]; rfl⟩
  | reserving r key size g =>
    obtain ⟨-, -, -, -, ok⟩ := ok
    have retried : ∀ m : Memory ι, m.table = s.memory.table → Lost s.memory.table r key →
        (memory ι).solo i (retryCode r key) m = some (.error idempotencyConflict, m) := by
      intro m e lost
      have := retry_conflict inv.sound lost
      rw [← e] at this
      rw [retryCode, Machine.solo_step rfl, Machine.solo_ret, this]
    cases g with
    | releasing x =>
      rcases x with (e | result)
      · cases e with
        | duplicateIdempotencyKey =>
          refine ⟨_, ⟨s.memory.table, Function.update s.memory.holder r.carType none⟩, rfl, ?_⟩
          rw [Stage.code, releaseCode, Machine.solo_step rfl]
          exact retried _ rfl (ok.1 rfl)
        | _ => exact losing.elim
      · exact losing.elim
    | retrying => exact ⟨_, _, rfl, retried _ rfl ok⟩
    | _ => exact losing.elim
  | _ => exact losing.elim

/-- The call of a refused insert is losing from then on. -/
theorem losing_of_runs {sizes : FleetSizes} {calls : ι → Call} {ls : List (Label MemOp ι)}
    {c : Pool MemOp ι (Memory ι) Outcome} (h : Runs sizes calls .empty ls c) {i : ι} {carType : CarType}
    {customerId : Int} {period : RentalPeriod} {key : IdempotencyKey}
    (refused : ⟨i, some ⟨_, .add carType customerId period key, .error .duplicateIdempotencyKey⟩⟩ ∈ ls) :
    ∃ s, Inv sizes calls s ∧ (s.phase i).Losing ∧ c = s.pool sizes := by
  obtain ⟨before, after, rfl⟩ := List.append_of_mem refused
  obtain ⟨c₁, first, rest⟩ := h.split
  obtain ⟨s₁, -, inv₁, rfl⟩ := inv_of_runs (Table.sound_empty sizes) first
  cases rest with
  | cons hs rest =>
    obtain ⟨r, size, s₂, -, -, -, moved, here, rfl⟩ := step_add hs
    obtain ⟨s, trace, rfl⟩ := run_moves rest
    have losing : (s₂.phase i).Losing := by
      rw [here]
      trivial
    have both := trace.invariant (I := fun s => Inv sizes calls s ∧ (s.phase i).Losing)
      (fun _ _ _ hI hs => ⟨inv_moves hI.1 hs, losing_moves hI.1 hI.2 hs⟩) ⟨inv_moves inv₁ moved, losing⟩
    exact ⟨s, both.1, both.2, rfl⟩

omit [DecidableEq ι] in
/-- What a finished `reserve` call returned. -/
theorem returned_grants {sizes : FleetSizes} {calls : ι → Call} {s : State ι} (inv : Inv sizes calls s) {i : ι}
    {r : Reserve} (isCall : calls i = .reserve r) {o : Outcome} (done : s.phase i = .done o) {b : Booking}
    (returned : o.returned = some b) :
    ∃ key, IdempotencyKey.new r.idempotencyKey = .ok key ∧ Grants s.memory.table r key b := by
  have ok := inv.phases i
  rw [done, isCall] at ok
  unfold Outcome.returned at returned
  split at returned
  · cases returned
    obtain ⟨r', key, e, parsed, granted⟩ := ok
    cases e
    exact ⟨key, parsed, granted⟩
  · cases returned

theorem returned_of_created {o : Outcome} {b : Booking} (h : o.created = some b) : o.returned = some b := by
  unfold Outcome.created at h
  split at h <;> cases h
  rfl

omit [DecidableEq ι] in
/-- Two `reserve` calls under one key that return a booking return the same one. -/
theorem returned_same {sizes : FleetSizes} {calls : ι → Call} {s : State ι} (inv : Inv sizes calls s) {i j : ι}
    {r r' : Reserve} {o o' : Outcome} {b b' : Booking} (hi : calls i = .reserve r) (hj : calls j = .reserve r')
    (customer : r.customer.id = r'.customer.id) (key : r.idempotencyKey = r'.idempotencyKey)
    (done : s.phase i = .done o) (done' : s.phase j = .done o') (ret : o.returned = some b)
    (ret' : o'.returned = some b') : b.id = b'.id := by
  obtain ⟨k, parsed, granted⟩ := returned_grants inv hi done ret
  obtain ⟨k', parsed', granted'⟩ := returned_grants inv hj done' ret'
  obtain rfl : k = k' := Except.ok.inj (parsed.symm.trans (key ▸ parsed'))
  obtain ⟨a, ha, origin, -⟩ := granted.stored
  obtain ⟨a', ha', origin', -⟩ := granted'.stored
  have hk : a.HasKey r.customer.id k :=
    ⟨origin.customerId ▸ granted.hasKey.1, origin.idempotencyKey ▸ granted.hasKey.2⟩
  have hk' : a'.HasKey r.customer.id k :=
    ⟨customer ▸ origin'.customerId ▸ granted'.hasKey.1, origin'.idempotencyKey ▸ granted'.hasKey.2⟩
  rw [origin.id, origin'.id, inv.sound.eq_of_key ha ha' hk hk']

/-- For every customer and key, in every interleaving: at most one stored
booking, at most one call that booked anew, one booking for all calls that
return one, and `IdempotencyConflict` for those that lose the race to insert. -/
theorem exactly_once (sizes : FleetSizes) (calls : ι → Call) {ls : List (Label MemOp ι)}
    {c : Pool MemOp ι (Memory ι) Outcome} (h : Runs sizes calls .empty ls c) :
    (c.shared.table.bookings.map fun b => (b.customerId, b.idempotencyKey)).Nodup ∧
    (∀ i j r r' o o', calls i = .reserve r → calls j = .reserve r' → r.customer.id = r'.customer.id →
      r.idempotencyKey = r'.idempotencyKey → (c.thread i).result = some o → (c.thread j).result = some o' →
      o.created.isSome = true → o'.created.isSome = true → i = j) ∧
    (∀ i j r r' o o' b b', calls i = .reserve r → calls j = .reserve r' → r.customer.id = r'.customer.id →
      r.idempotencyKey = r'.idempotencyKey → (c.thread i).result = some o → (c.thread j).result = some o' →
      o.returned = some b → o'.returned = some b' → b.id = b'.id) ∧
    (∀ i r o b, calls i = .reserve r → (c.thread i).result = some o → o.returned = some b →
      b.customerId = r.customer.id ∧ b.idempotencyKey.value = r.idempotencyKey ∧ b.carType = r.carType ∧
      b.period = r.period ∧ ∃ stored ∈ c.shared.table.bookings, b.SameOrigin stored) ∧
    (∀ i carType customerId period key,
      ⟨i, some ⟨_, .add carType customerId period key, .error .duplicateIdempotencyKey⟩⟩ ∈ ls →
      (∃ p m, c.thread i = .running p ∧
        (memory ι).solo i p c.shared = some (.error idempotencyConflict, m)) ∧
      ∀ o, (c.thread i).result = some o → o = .error idempotencyConflict) ∧
    ∀ i, (c.thread i).result ≠ some (.error .duplicateIdempotencyKey) := by
  obtain ⟨s, inv, acc, rfl⟩ := accounts_of_runs h
  simp only [result_eq_some]
  refine ⟨inv.sound.keys, ?_, ?_, ?_, ?_, ?_⟩
  · intro i j r r' o o' hi hj customer key done done' new new'
    obtain ⟨b, new⟩ := Option.isSome_iff_exists.1 new
    obtain ⟨b', new'⟩ := Option.isSome_iff_exists.1 new'
    have same := returned_same inv hi hj customer key done done' (returned_of_created new)
      (returned_of_created new')
    exact acc.once i j b b' (by rw [done]; exact new) (by rw [done']; exact new') same
  · intro i j r r' o o' b b' hi hj customer key done done' ret ret'
    exact returned_same inv hi hj customer key done done' ret ret'
  · intro i r o b hi done ret
    obtain ⟨key, parsed, granted⟩ := returned_grants inv hi done ret
    obtain ⟨stored, hs, origin, -⟩ := granted.stored
    refine ⟨granted.hasKey.1, ?_, granted.isFor.1, granted.isFor.2, stored, hs, origin⟩
    rw [granted.hasKey.2, IdempotencyKey.value_of_new parsed]
  · intro i carType customerId period key refused
    obtain ⟨s', inv', losing, e⟩ := losing_of_runs h refused
    constructor
    · rw [e]
      exact solo_losing inv' losing
    · intro o done
      have there : ((s.pool sizes).thread i).result = some o := result_eq_some.2 done
      rw [e, result_eq_some] at there
      rw [there] at losing
      exact losing
  · intro i done
    have ok := inv.phases i
    rw [result_eq_some.1 done] at ok
    exact ok rfl

theorem exactly_once_race : ∃ ls c, Runs oneEach raceCalls .empty ls c ∧ (createdBy c 0).isSome = true ∧
    (c.thread 1).result = some (.error idempotencyConflict) := by
  obtain ⟨ls, c, run, refused, created, finished⟩ : ∃ ls c, Runs oneEach raceCalls .empty ls c ∧
      ls[9]? = some ⟨1, some ⟨_, .add .van 7 (springReserve .van).period ⟨"spring-2026", by decide⟩,
        .error .duplicateIdempotencyKey⟩⟩ ∧
      (createdBy c 0).isSome = true ∧ (c.thread 1).result.isSome = true :=
    Machine.exists_run_of_drive raceTurns ⟨_, _, rfl, rfl, rfl, rfl⟩
  obtain ⟨o, done⟩ := Option.isSome_iff_exists.1 finished
  have loses := (exactly_once oneEach raceCalls run).2.2.2.2.1 1 _ _ _ _ (List.mem_of_getElem? refused)
  exact ⟨ls, c, run, created, by rw [done, loses.2 o done]⟩

/-! ## The whole account -/

theorem Moves.made_stays {sizes : FleetSizes} {calls : ι → Call} {s s' : State ι} {i j : ι} {b : Booking}
    (inv : Inv sizes calls s) (h : Moves sizes calls s i s') (made : (s.phase j).made = some b) :
    (s'.phase j).made = some b := by
  rcases h.cases inv with ⟨-, same⟩ | ⟨b', -, before, -⟩ | ⟨b', -, now, b'', -, -, -, same⟩
  · rw [same, made]
  · have ne : j ≠ i := by
      intro e
      rw [e, before] at made
      cases made
    rw [h.frame ne, made]
  · rw [same, made]

omit [DecidableEq ι] in
theorem createdBy_eq {sizes : FleetSizes} {s : State ι} (complete : (s.pool sizes).Complete) (i : ι) :
    createdBy (s.pool sizes) i = (s.phase i).made := by
  obtain ⟨o, ho⟩ := Option.isSome_iff_exists.1 (complete i)
  rw [createdBy, ho, result_eq_some.1 ho]
  rfl

omit [DecidableEq ι] in
/-- The stored bookings are as many as the calls that created one. -/
theorem card_made [Fintype ι] {sizes : FleetSizes} {calls : ι → Call} {s : State ι} (inv : Inv sizes calls s)
    (acc : Accounts s) :
    (Finset.univ.filter fun i => (s.phase i).made.isSome = true).card = s.memory.table.bookings.length := by
  have stored : ∀ i b, (s.phase i).made = some b → b.id ∈ s.memory.table.bookings.map (·.id) := by
    intro i b made
    obtain ⟨r, key, -, -, granted⟩ := grants_of_made (inv.phases i) made
    obtain ⟨b', hb', origin, -⟩ := granted.stored
    exact List.mem_map.2 ⟨b', hb', origin.id.symm⟩
  have count : (s.memory.table.bookings.map (·.id)).length = s.memory.table.bookings.length := List.length_map ..
  rw [← count, ← List.toFinset_card_of_nodup inv.sound.ids_nodup]
  refine Finset.card_nbij (fun i => (s.phase i).made.elim 0 (·.id)) ?_ ?_ ?_
  · intro i hi
    obtain ⟨b, made⟩ := Option.isSome_iff_exists.1 (Finset.mem_filter.1 hi).2
    simpa [made] using stored i b made
  · intro i hi j hj e
    obtain ⟨b, made⟩ := Option.isSome_iff_exists.1 (Finset.mem_filter.1 hi).2
    obtain ⟨b', made'⟩ := Option.isSome_iff_exists.1 (Finset.mem_filter.1 hj).2
    simp only [made, made', Option.elim_some] at e
    exact acc.once i j b b' made made' e
  · intro id hid
    obtain ⟨b, hb, rfl⟩ := List.mem_map.1 (List.mem_toFinset.1 hid)
    obtain ⟨i, b', made, origin⟩ := acc.maker b hb
    refine ⟨i, ?_, ?_⟩
    · simp [made]
    · simp [made, origin.id]

omit [DecidableEq ι] in
/-- A booking is cancelled exactly when a cancellation of it has returned. -/
theorem cancelled_iff {sizes : FleetSizes} {calls : ι → Call} {s : State ι} (inv : Inv sizes calls s) (acc : Accounts s)
    {b : Booking} (hb : b ∈ s.memory.table.bookings) : b.status = .cancelled ↔
      ∃ i actor now reply, calls i = .cancel b.id actor now ∧ ((s.pool sizes).thread i).result = some (.ok reply) := by
  constructor
  · intro gone
    obtain ⟨i, b', done, e⟩ := acc.canceller b hb gone
    have ok := inv.phases i
    rw [done] at ok
    obtain ⟨actor, now, isCall, -, -⟩ := ok
    exact ⟨i, actor, now, _, e ▸ isCall, result_eq_some.2 done⟩
  · rintro ⟨i, actor, now, reply, isCall, returned⟩
    have ok := inv.phases i
    rw [result_eq_some.1 returned, isCall] at ok
    rcases reply with (result | b' | count | bookings)
    · obtain ⟨r, key, e, -⟩ := ok
      cases e
    · obtain ⟨actor', now', e, hb', gone⟩ := ok
      rwa [inv.sound.eq_of_id hb hb' (Call.cancel.inj e).1]
    · obtain ⟨_, _, _, _, e⟩ := ok
      cases e
    · obtain ⟨_, e⟩ := ok
      cases e

/-- A call that makes no booking later on takes no id. -/
theorem ids_of_notMade {sizes : FleetSizes} {calls : ι → Call} {s s' : State ι} {i : ι} (inv : Inv sizes calls s)
    (h : Moves sizes calls s i s') (none : (s'.phase i).made = none) :
    s'.memory.table.ids = s.memory.table.ids ∧
      s'.memory.table.bookings.map (·.id) = s.memory.table.bookings.map (·.id) := by
  rcases h.cases inv with ⟨table, -⟩ | ⟨b, -, -, made, -⟩ | ⟨b, -, now, b', -, -, table, -⟩
  · rw [table]
    exact ⟨rfl, rfl⟩
  · rw [none] at made
    cases made
  · simp [table, Table.cancelled, Function.comp_def]

/-- After every call has returned: the bookings are those of the calls that
returned a new one, under ids `1..m`, cancelled exactly where a cancellation
returned; whatever was returned, new or again, is stored as it was asked for; and
no other call stored a booking or took an id. -/
theorem exact_accounting [Fintype ι] (sizes : FleetSizes) (calls : ι → Call) {ls : List (Label MemOp ι)}
    {c : Pool MemOp ι (Memory ι) Outcome} (h : Runs sizes calls .empty ls c) (complete : c.Complete) :
    (∃ m, m = (Finset.univ.filter fun i => (createdBy c i).isSome = true).card ∧
      c.shared.table.bookings.map (·.id) = (List.range m).map (fun k : Nat => (k : Int) + 1) ∧
      c.shared.table.ids = m + 1) ∧
    (∀ i result, (c.thread i).result = some (.ok (.booked result)) → ∃ r, calls i = .reserve r ∧
      ∃ b' ∈ c.shared.table.bookings, b'.id = result.booking.id ∧ b'.customerId = r.customer.id ∧
      b'.carType = r.carType ∧ b'.period = r.period ∧ b'.idempotencyKey.value = r.idempotencyKey) ∧
    (∀ b' ∈ c.shared.table.bookings, ∃! i, ∃ b, createdBy c i = some b ∧ b.id = b'.id) ∧
    (∀ b' ∈ c.shared.table.bookings, b'.status = .cancelled ↔
      ∃ i actor now reply, calls i = .cancel b'.id actor now ∧ (c.thread i).result = some (.ok reply)) ∧
    ∀ before l after c₁ c₂, ls = before ++ l :: after → Runs sizes calls .empty before c₁ →
      Step (memory ι) (code sizes calls) c₁ l c₂ → Run (Step (memory ι) (code sizes calls)) c₂ after c →
      createdBy c l.thread = none → c₂.shared.table.ids = c₁.shared.table.ids ∧
        c₂.shared.table.bookings.map (·.id) = c₁.shared.table.bookings.map (·.id) := by
  obtain ⟨s, inv, acc, rfl⟩ := accounts_of_runs h
  simp only [createdBy_eq complete]
  refine ⟨⟨_, rfl, ?_, ?_⟩, ?_, ?_, ?_, ?_⟩
  · rw [card_made inv acc]
    exact inv.sound.numbered
  · rw [card_made inv acc]
    exact inv.sound.next
  · intro i result returned
    have ok := inv.phases i
    rw [result_eq_some.1 returned] at ok
    obtain ⟨r, key, isCall, parsed, granted⟩ := ok
    obtain ⟨b', hb', origin, -⟩ := granted.stored
    refine ⟨r, isCall, b', hb', origin.id.symm, origin.customerId ▸ granted.hasKey.1,
      origin.carType ▸ granted.isFor.1, origin.period ▸ granted.isFor.2, ?_⟩
    rw [← origin.idempotencyKey, granted.hasKey.2, IdempotencyKey.value_of_new parsed]
  · intro b' hb'
    obtain ⟨i, b, made, origin⟩ := acc.maker b' hb'
    refine ⟨i, ⟨b, made, origin.id⟩, ?_⟩
    rintro j ⟨a, made', e⟩
    exact acc.once j i a b made' made (e.trans origin.id.symm)
  · exact fun b' hb' => cancelled_iff inv acc hb'
  · rintro before l after c₁ c₂ rfl first hs rest none
    obtain ⟨s₁, inv₁, -, rfl⟩ := accounts_of_runs first
    obtain ⟨s₂, moved, rfl⟩ := step_moves hs
    obtain ⟨s', trace, e⟩ := run_moves rest
    refine ids_of_notMade inv₁ moved ?_
    -- what the call made by then it has still made at the end
    rw [← createdBy_eq complete, e, createdBy_eq (e ▸ complete)] at none
    by_contra made
    obtain ⟨b, made⟩ := Option.ne_none_iff_exists'.1 made
    have kept := trace.invariant
      (I := fun s => Inv sizes calls s ∧ (s.phase l.thread).made = some b)
      (fun _ _ _ hI hs => ⟨inv_moves hI.1 hs, hs.made_stays hI.1 hI.2⟩) ⟨inv_moves inv₁ moved, made⟩
    rw [kept.2] at none
    cases none

/-- One booking is left, of the first call and cancelled by the third; the second is refused. -/
theorem exact_accounting_race : ∃ ls c, Runs oneEach raceCalls .empty ls c ∧ c.Complete ∧
    c.shared.table.bookings.map (fun b => (b.id, b.carType, b.status)) = [(1, .sedan, .cancelled)] ∧
    c.shared.table.ids = 2 ∧ (c.thread 1).result = some (.error idempotencyConflict) ∧
    ∀ b ∈ c.shared.table.bookings, (∃! i, ∃ b', createdBy c i = some b' ∧ b'.id = b.id) ∧
      ∃ i actor now reply, raceCalls i = .cancel b.id actor now ∧ (c.thread i).result = some (.ok reply) := by
  obtain ⟨ls, c, run, complete, stored, refused⟩ : ∃ ls c, Runs oneEach raceCalls .empty ls c ∧ c.Complete ∧
      c.shared.table.bookings.map (fun b => (b.id, b.carType, b.status)) = [(1, .sedan, .cancelled)] ∧
      (c.thread 1).result = some (.error idempotencyConflict) :=
    Machine.exists_run_of_drive raceTurns ⟨_, _, rfl, fun i => by fin_cases i <;> rfl, rfl, rfl⟩
  obtain ⟨⟨m, -, numbered, next⟩, -, once, cancelled, -⟩ := exact_accounting oneEach raceCalls run complete
  have one : m = 1 := by
    have length := congrArg List.length numbered
    have length' := congrArg List.length stored
    simp only [List.length_map, List.length_range, List.length_singleton] at length length'
    omega
  refine ⟨ls, c, run, complete, stored, by rw [next, one]; rfl, refused, fun b hb => ⟨once b hb, (cancelled b hb).1 ?_⟩⟩
  have gone := List.mem_map_of_mem (f := fun b : Booking => (b.id, b.carType, b.status)) hb
  rw [stored, List.mem_singleton] at gone
  exact (Prod.mk.inj (Prod.mk.inj gone).2).2

end Memory

end VehicleRentals
