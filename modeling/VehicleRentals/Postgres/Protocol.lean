import VehicleRentals.Postgres.Responses

/-!
# The locking protocol

What a transaction may do to the store, and why that is safe. `Store.Step` is one
statement of thread `i`: a change needs the lock of what it is about, and a
booking a car free throughout its period. `Inv` holds in every store such steps
lead to; `Interferes` is all that a thread sees of the steps of the others, so
what a change needs is still there when it commits.
-/

namespace VehicleRentals

open Concurrent

namespace Table

/-- The sequence has yielded this id. -/
def Drawn (engine : Engine) (t : Table) (id : Int) : Prop := ∃ k < t.ids, id = engine.serial k

/-- The next id is new. -/
theorem Drawn.ne_next {engine : Engine} {t : Table} {id : Int} (h : t.Drawn engine id) :
    id ≠ engine.serial t.ids := by
  obtain ⟨k, hk, rfl⟩ := h
  intro same
  have := engine.serial.injective same
  omega

/-- What holds of the bookings a database stores. -/
structure Stored (engine : Engine) (t : Table) : Prop where
  ids : (t.bookings.map (·.id)).Nodup
  keys : (t.bookings.map fun b => (b.customerId, b.idempotencyKey)).Nodup
  stamps : ∀ b ∈ t.bookings, b.cancelledAt.isSome = true ↔ b.status = .cancelled
  ended : ∀ b ∈ t.bookings, ∀ x, b.cancelledAt = some x → x < b.period.stop
  drawn : ∀ b ∈ t.bookings, t.Drawn engine b.id

theorem stored_empty (engine : Engine) (n : Int) : Stored engine { bookings := [], ids := n } where
  ids := .nil
  keys := .nil
  stamps := by simp
  ended := by simp
  drawn := by simp

namespace Stored

variable {engine : Engine} {t : Table}

/-- The same bookings, and more ids drawn. -/
theorem drawn_more (h : t.Stored engine) {t' : Table} (same : t'.bookings = t.bookings) (ids : t.ids ≤ t'.ids) :
    t'.Stored engine where
  ids := same ▸ h.ids
  keys := same ▸ h.keys
  stamps := same ▸ h.stamps
  ended := same ▸ h.ended
  drawn b hb := by
    obtain ⟨k, hk, e⟩ := h.drawn b (same ▸ hb)
    exact ⟨k, lt_of_lt_of_le hk ids, e⟩

/-- A new booking under an unused id and key. -/
theorem append (h : t.Stored engine) {b : Booking} (active : b.status = .active) (unstamped : b.cancelledAt = none)
    (drawn : t.Drawn engine b.id) (newId : ∀ a ∈ t.bookings, a.id ≠ b.id)
    (newKey : ∀ a ∈ t.bookings, ¬ a.HasKey b.customerId b.idempotencyKey) : (t.append b).Stored engine where
  ids := by
    simp only [Table.append, List.map_append, List.map_singleton]
    refine h.ids.append (List.nodup_singleton _) ?_
    simpa [List.disjoint_singleton] using newId
  keys := by
    simp only [Table.append, List.map_append, List.map_singleton]
    refine h.keys.append (List.nodup_singleton _) ?_
    simp only [List.disjoint_singleton, List.mem_map, not_exists, not_and]
    intro a ha e
    exact newKey a ha ⟨congrArg Prod.fst e, congrArg Prod.snd e⟩
  stamps a ha := by
    rcases List.mem_append.1 ha with ha | ha
    · exact h.stamps a ha
    · rw [List.mem_singleton.1 ha]
      simp [active, unstamped]
  ended a ha x hx := by
    rcases List.mem_append.1 ha with ha | ha
    · exact h.ended a ha x hx
    · rw [List.mem_singleton.1 ha, unstamped] at hx
      cases hx
  drawn a ha := by
    rcases List.mem_append.1 ha with ha | ha
    · exact h.drawn a ha
    · rw [List.mem_singleton.1 ha]
      exact drawn

/-- Cancelling a booking before its end. -/
theorem cancelled (h : t.Stored engine) {b : Booking} (hb : b ∈ t.bookings) {now : Instant}
    (running : now < b.period.stop) : (t.cancelled b.id now).Stored engine where
  ids := by simpa [Table.cancelled, Function.comp_def] using h.ids
  keys := by
    have same : (fun b : Booking => (b.customerId, b.idempotencyKey)) ∘ cancelAt b.id now =
        fun b => (b.customerId, b.idempotencyKey) := by
      funext a
      have origin := cancelAt_sameOrigin b.id now a
      exact Prod.ext origin.customerId.symm origin.idempotencyKey.symm
    simpa only [Table.cancelled, List.map_map, same] using h.keys
  stamps a ha := by
    obtain ⟨a, there, rfl⟩ := List.mem_map.1 ha
    unfold cancelAt
    split
    · simp
    · exact h.stamps a there
  ended a ha x hx := by
    obtain ⟨a, there, rfl⟩ := List.mem_map.1 ha
    unfold cancelAt at hx ⊢
    split at hx
    · obtain rfl := List.inj_on_of_nodup_map h.ids there hb ‹_›
      rw [if_pos rfl]
      cases hx
      exact running
    · rw [if_neg ‹_›]
      exact h.ended a there x hx
  drawn a ha := by
    obtain ⟨a, there, rfl⟩ := List.mem_map.1 ha
    rw [cancelAt_id]
    exact h.drawn a there

end Stored

end Table

namespace Store

variable {ι : Type} {engine : Engine}

/-- A new booking that thread `i` may commit: it has the locks of the fleet and
of the key, an id and a key of its own, and a car free throughout its period. -/
structure BookOk (engine : Engine) (st : Store ι) (i : ι) (b : Booking) : Prop where
  active : b.status = .active
  unstamped : b.cancelledAt = none
  drawn : st.table.Drawn engine b.id
  newId : ∀ a ∈ st.table.bookings, a.id ≠ b.id
  newKey : ∀ a ∈ st.table.bookings, ¬ a.HasKey b.customerId b.idempotencyKey
  fleet : st.fleetLock b.carType = some i
  key : st.keyLock (b.customerId, b.idempotencyKey) = some i
  room : ∃ n, st.sizes b.carType = some n ∧ ∀ x, b.period.Covers x → st.table.usage b.carType x < n

/-- A change that thread `i` may commit. -/
def ChangeOk (engine : Engine) (st : Store ι) (i : ι) : Change → Prop
  | .book b => BookOk engine st i b
  | .cancel id now => st.bookingLock id = some i ∧
      ∃ b ∈ st.table.bookings, b.id = id ∧ b.status = .active ∧ now < b.period.stop
  | .resize carType _ => st.fleetLock carType = some i ∧ (st.sizes carType).isSome = true

/-- The invariant of the store. -/
structure Inv (engine : Engine) (st : Store ι) : Prop where
  stored : st.table.Stored engine
  changes : ∀ i c, st.pending i = some c → ChangeOk engine st i c
  apart : ∀ i j b b', st.pending i = some (.book b) → st.pending j = some (.book b') → b.id = b'.id → i = j

theorem ChangeOk.allows {st : Store ι} {i : ι} {c : Change} (h : ChangeOk engine st i c) : st.Allows c := by
  cases c with
  | book b =>
    obtain ⟨n, size, -⟩ := h.room
    exact Option.isSome_iff_exists.2 ⟨n, size⟩
  | cancel id now => trivial
  | resize T n => exact h.2

/-! ## Steps -/

variable [DecidableEq ι]

@[simp] theorem pending_change (st : Store ι) (i : ι) (c : Change) : (st.change i c).pending i = some c :=
  Function.update_self ..

@[simp] theorem pending_book (st : Store ι) (i : ι) (b : Booking) : (st.book i b).pending i = some (.book b) :=
  Function.update_self ..

@[simp] theorem pending_finish (st : Store ι) (i : ι) : (st.finish i).pending i = none :=
  Function.update_self ..

@[simp] theorem pending_committed (st : Store ι) (i : ι) : (st.committed i).pending i = none := by
  unfold committed
  split <;> exact pending_finish ..

/-- What one statement of thread `i` may do. -/
inductive Step (engine : Engine) (i : ι) : Store ι → Store ι → Prop where
  | none {st : Store ι} : Step engine i st st
  | lockFleet {st : Store ι} {T : CarType} : st.pending i = none → Db.grantable st.fleetLock T i = true →
      Step engine i st (st.lockFleet T i)
  | lockBooking {st : Store ι} {id : Int} : st.pending i = none → Db.grantable st.bookingLock id i = true →
      Step engine i st (st.lockBooking id i)
  | draw {st : Store ι} : st.pending i = none → Step engine i st st.draw
  | book {st : Store ι} {T : CarType} {u : Int} {P : RentalPeriod} {k : IdempotencyKey} {n : Nat} :
      st.pending i = none → st.fleetLock T = some i → st.sizes T = some n → Db.grantable st.keyLock (u, k) i = true →
      (∀ b ∈ st.table.bookings, ¬ b.HasKey u k) → (∀ x, P.Covers x → st.table.usage T x < n) →
      Step engine i st (st.book i (st.fresh engine T u P k))
  | cancel {st : Store ι} {b : Booking} {now : Instant} : st.pending i = none → st.bookingLock b.id = some i →
      b ∈ st.table.bookings → b.status = .active → now < b.period.stop →
      Step engine i st (st.change i (.cancel b.id now))
  | resize {st : Store ι} {T : CarType} {n : Nat} : st.pending i = none → Db.grantable st.fleetLock T i = true →
      (st.sizes T).isSome = true → Step engine i st ((st.lockFleet T i).change i (.resize T n))
  | rollback {st : Store ι} : Step engine i st (st.finish i)
  | commit {st : Store ι} : Step engine i st (st.committed i)

/-- What thread `j` can see another thread do in one step. -/
structure Interferes (j : ι) (st st' : Store ι) : Prop where
  pending : st'.pending j = st.pending j
  fleetLock : ∀ T, st.fleetLock T = some j → st'.fleetLock T = some j
  bookingLock : ∀ id, st.bookingLock id = some j → st'.bookingLock id = some j
  keyLock : ∀ uk, st.keyLock uk = some j → st'.keyLock uk = some j
  later : st.table.Later st'.table
  fleet : ∀ T, st.fleetLock T = some j → st.table.OnlyCancels T st'.table ∧ st'.sizes T = st.sizes T
  booking : ∀ id, st.bookingLock id = some j → ∀ b ∈ st.table.bookings, b.id = id → b ∈ st'.table.bookings
  key : ∀ u k, st.keyLock (u, k) = some j → ∀ b' ∈ st'.table.bookings, b'.HasKey u k →
    ∃ b ∈ st.table.bookings, b.HasKey u k
  newId : ∀ b, st.pending j = some (.book b) → (∀ a ∈ st.table.bookings, a.id ≠ b.id) →
    ∀ a ∈ st'.table.bookings, a.id ≠ b.id
  ids : st.table.ids ≤ st'.table.ids
  known : ∀ T, (st.sizes T).isSome = true → (st'.sizes T).isSome = true

/-- A lock of thread `j` is not for others to take. -/
theorem not_grantable {κ : Type} {locks : κ → Option ι} {k : κ} {i j : ι} (mine : locks k = some j) (ne : j ≠ i) :
    Db.grantable locks k i = false := by
  simp [Db.grantable, mine, ne]

theorem update_kept {κ : Type} [DecidableEq κ] {locks : κ → Option ι} {k k' : κ} {i j : ι}
    (free : Db.grantable locks k i = true) (ne : j ≠ i) (mine : locks k' = some j) :
    Function.update locks k (some i) k' = some j := by
  by_cases e : k' = k
  · subst e
    rw [not_grantable mine ne] at free
    cases free
  · rw [Function.update_of_ne e, mine]

theorem released_kept {κ : Type} {locks : κ → Option ι} {k : κ} {i j : ι} (ne : j ≠ i) (mine : locks k = some j) :
    Db.released locks i k = some j := by
  have other : ¬ locks k = some i := by
    rw [mine]
    exact fun e => ne (Option.some.inj e)
  rw [Db.released, if_neg other, mine]

omit [DecidableEq ι] in
theorem Interferes.refl (j : ι) (st : Store ι) : Interferes j st st where
  pending := rfl
  fleetLock _ h := h
  bookingLock _ h := h
  keyLock _ h := h
  later := .refl _
  fleet T _ := ⟨.refl T _, rfl⟩
  booking _ _ _ hb _ := hb
  key _ _ _ b hb hk := ⟨b, hb, hk⟩
  newId _ _ h := h
  ids := le_refl _
  known _ h := h

omit [DecidableEq ι] in
/-- A thread that takes locks, draws ids or changes what is its own. -/
theorem interferes_of_table {st st' : Store ι} {i j : ι} (ne : j ≠ i) (pending : ∀ k, k ≠ i → st'.pending k = st.pending k)
    (bookings : st'.table.bookings = st.table.bookings) (ids : st.table.ids ≤ st'.table.ids) (sizes : st'.sizes = st.sizes)
    (fleetLock : ∀ T, st.fleetLock T = some j → st'.fleetLock T = some j)
    (bookingLock : ∀ id, st.bookingLock id = some j → st'.bookingLock id = some j)
    (keyLock : ∀ uk, st.keyLock uk = some j → st'.keyLock uk = some j) : Interferes j st st' where
  pending := pending j ne
  fleetLock := fleetLock
  bookingLock := bookingLock
  keyLock := keyLock
  later b hb := ⟨b, bookings ▸ hb, .refl b, fun _ => rfl⟩
  fleet T _ := ⟨⟨fun b hb _ => ⟨b, bookings ▸ hb, .refl b⟩, fun x => by simp only [Table.usage, bookings, le_refl]⟩,
    congrFun sizes T⟩
  booking _ _ b hb _ := bookings ▸ hb
  key _ _ _ b hb hk := ⟨b, bookings ▸ hb, hk⟩
  newId _ _ h := bookings ▸ h
  ids := ids
  known T h := by rw [sizes]; exact h

omit [DecidableEq ι] in
theorem Interferes.trans {j : ι} {st st' st'' : Store ι} (h : Interferes j st st') (h' : Interferes j st' st'') :
    Interferes j st st'' where
  pending := h'.pending.trans h.pending
  fleetLock T mine := h'.fleetLock T (h.fleetLock T mine)
  bookingLock id mine := h'.bookingLock id (h.bookingLock id mine)
  keyLock uk mine := h'.keyLock uk (h.keyLock uk mine)
  later := h.later.trans h'.later
  fleet T mine := by
    obtain ⟨quiet, size⟩ := h.fleet T mine
    obtain ⟨quiet', size'⟩ := h'.fleet T (h.fleetLock T mine)
    exact ⟨quiet.trans quiet', size'.trans size⟩
  booking id mine b hb e := h'.booking id (h.bookingLock id mine) b (h.booking id mine b hb e) e
  key u k mine b'' hb'' hk'' := by
    obtain ⟨b', hb', hk'⟩ := h'.key u k (h.keyLock _ mine) b'' hb'' hk''
    exact h.key u k mine b' hb' hk'
  newId b mine new := h'.newId b (h.pending.trans mine) (h.newId b mine new)
  ids := h.ids.trans h'.ids
  known T known := h'.known T (h.known T known)

theorem interferes_finish (st : Store ι) {i j : ι} (ne : j ≠ i) : Interferes j st (st.finish i) :=
  interferes_of_table ne (fun _ hk => Function.update_of_ne hk _ _) rfl (le_refl _) rfl
    (fun _ => released_kept ne) (fun _ => released_kept ne) fun _ => released_kept ne

omit [DecidableEq ι] in
/-- Bookings are only added and cancelled. -/
theorem later_commit {st : Store ι} (inv : Inv engine st) {i : ι} {c : Change} (ok : ChangeOk engine st i c) :
    st.table.Later (st.commit c).table := by
  cases c with
  | book b => exact Table.later_append _ _
  | cancel id now =>
    obtain ⟨-, b, hb, rfl, active, -⟩ := ok
    exact Table.later_cancelled inv.stored.ids hb active now
  | resize T n => exact .refl _

omit [DecidableEq ι] in
/-- A committed change as the others see it: none of their locks is about it. -/
theorem interferes_commit {st : Store ι} (inv : Inv engine st) {i j : ι} {c : Change} (pending : st.pending i = some c)
    (ne : j ≠ i) : Interferes j st (st.commit c) := by
  have ok := inv.changes i c pending
  cases c with
  | book b =>
    exact {
      Interferes.refl j st with
      later := later_commit inv ok
      fleet := by
        intro T mine
        have other : b.carType ≠ T := by
          intro e
          subst e
          exact ne (Option.some.inj (mine.symm.trans ok.fleet))
        exact ⟨Table.onlyCancels_append other, rfl⟩
      booking := fun _ _ a ha _ => List.mem_append_left _ ha
      key := by
        intro u k mine b' hb' hk
        rcases List.mem_append.1 hb' with hb' | hb'
        · exact ⟨b', hb', hk⟩
        · rw [List.mem_singleton.1 hb'] at hk
          have owner := ok.key
          rw [hk.1, hk.2, mine] at owner
          exact absurd (Option.some.inj owner) ne
      newId := by
        intro b' mine new a ha
        rcases List.mem_append.1 ha with ha | ha
        · exact new a ha
        · rw [List.mem_singleton.1 ha]
          intro e
          exact ne (inv.apart j i b' b mine pending e.symm) }
  | cancel id now =>
    exact {
      Interferes.refl j st with
      later := later_commit inv ok
      fleet := fun T _ => ⟨Table.onlyCancels_cancelled _ _ _ T, rfl⟩
      booking := by
        intro id' mine b hb e
        have other : b.id ≠ id := by
          intro e'
          rw [← e, e', ok.1] at mine
          exact ne (Option.some.inj mine).symm
        exact List.mem_map.2 ⟨b, hb, if_neg other⟩
      key := by
        intro u k mine b' hb' hk
        obtain ⟨b, hb, rfl⟩ := List.mem_map.1 hb'
        have origin := Table.cancelAt_sameOrigin id now b
        exact ⟨b, hb, origin.customerId.trans hk.1, origin.idempotencyKey.trans hk.2⟩
      newId := by
        intro b mine new a ha
        obtain ⟨a', ha', rfl⟩ := List.mem_map.1 ha
        rw [Table.cancelAt_id]
        exact new a' ha' }
  | resize T n =>
    exact {
      Interferes.refl j st with
      fleet := by
        intro T' mine
        have other : T' ≠ T := by
          intro e
          subst e
          exact ne (Option.some.inj (mine.symm.trans ok.1))
        exact ⟨.refl _ _, Function.update_of_ne other _ _⟩
      known := by
        intro T' known
        show (Function.update st.sizes T (some n) T').isSome = true
        by_cases e : T' = T
        · rw [e, Function.update_self]
          rfl
        · rw [Function.update_of_ne e, known] }

theorem interferes_committed {st : Store ι} (inv : Inv engine st) {i j : ι} (ne : j ≠ i) :
    Interferes j st (st.committed i) := by
  unfold committed
  cases pending : st.pending i with
  | none => exact interferes_finish st ne
  | some c => exact (interferes_commit inv pending ne).trans (interferes_finish _ ne)

theorem Step.interferes {st st' : Store ι} {i j : ι} (h : Step engine i st st') (inv : Inv engine st) (ne : j ≠ i) :
    Interferes j st st' := by
  have others : ∀ (c : Option Change) (k : ι), k ≠ i → Function.update st.pending i c k = st.pending k :=
    fun c k hk => Function.update_of_ne hk _ _
  cases h with
  | none => exact .refl j st
  | lockFleet idle free =>
    exact interferes_of_table ne (fun _ _ => rfl) rfl (le_refl _) rfl (fun _ => update_kept free ne) (fun _ h => h)
      fun _ h => h
  | lockBooking idle free =>
    exact interferes_of_table ne (fun _ _ => rfl) rfl (le_refl _) rfl (fun _ h => h) (fun _ => update_kept free ne)
      fun _ h => h
  | draw idle =>
    exact interferes_of_table ne (fun _ _ => rfl) rfl (Int.le_add_one (le_refl _)) rfl (fun _ h => h) (fun _ h => h)
      fun _ h => h
  | book idle mine size free unused room =>
    exact interferes_of_table ne (others _) rfl (Int.le_add_one (le_refl _)) rfl (fun _ h => h) (fun _ h => h)
      fun _ => update_kept free ne
  | cancel idle mine hb active running =>
    exact interferes_of_table ne (others _) rfl (le_refl _) rfl (fun _ h => h) (fun _ h => h) fun _ h => h
  | resize idle free known =>
    exact interferes_of_table ne (others _) rfl (le_refl _) rfl (fun _ => update_kept free ne) (fun _ h => h)
      fun _ h => h
  | rollback => exact interferes_finish _ ne
  | commit => exact interferes_committed inv ne

omit [DecidableEq ι] in
/-- What a change needs is still there after a step of another thread. -/
theorem ChangeOk.stable {st st' : Store ι} {j : ι} {c : Change} (h : ChangeOk engine st j c)
    (mine : st.pending j = some c) (others : Interferes j st st') : ChangeOk engine st' j c := by
  cases c with
  | book b =>
    obtain ⟨quiet, size⟩ := others.fleet _ h.fleet
    obtain ⟨n, known, room⟩ := h.room
    obtain ⟨k, hk, e⟩ := h.drawn
    exact {
      active := h.active
      unstamped := h.unstamped
      drawn := ⟨k, lt_of_lt_of_le hk others.ids, e⟩
      newId := others.newId b mine h.newId
      newKey := fun a ha hka => by
        obtain ⟨a', ha', hka'⟩ := others.key _ _ h.key a ha hka
        exact h.newKey a' ha' hka'
      fleet := others.fleetLock _ h.fleet
      key := others.keyLock _ h.key
      room := ⟨n, size.trans known, fun x hx => lt_of_le_of_lt (quiet.usage_le x) (room x hx)⟩ }
  | cancel id now =>
    obtain ⟨lock, b, hb, e, active, running⟩ := h
    exact ⟨others.bookingLock _ lock, b, others.booking _ lock b hb e, e, active, running⟩
  | resize T n => exact ⟨others.fleetLock _ h.1, others.known _ h.2⟩

/-- What a step does to the committed tables: nothing, or the change its thread has made. -/
theorem Step.effect {st st' : Store ι} {i : ι} (h : Step engine i st st') (inv : Inv engine st) :
    (st'.table.bookings = st.table.bookings ∧ st.table.ids ≤ st'.table.ids ∧ st'.sizes = st.sizes) ∨
    ∃ c, st.pending i = some c ∧ ChangeOk engine st i c ∧ st' = (st.commit c).finish i := by
  cases h with
  | draw idle => exact .inl ⟨rfl, Int.le_add_one (le_refl _), rfl⟩
  | book idle mine size free unused room => exact .inl ⟨rfl, Int.le_add_one (le_refl _), rfl⟩
  | commit =>
    unfold committed
    cases pending : st.pending i with
    | none => exact .inl ⟨rfl, le_refl _, rfl⟩
    | some c => exact .inr ⟨c, rfl, inv.changes i c pending, rfl⟩
  | _ => exact .inl ⟨rfl, le_refl _, rfl⟩

theorem Step.later {st st' : Store ι} {i : ι} (h : Step engine i st st') (inv : Inv engine st) :
    st.table.Later st'.table := by
  rcases h.effect inv with ⟨same, -, -⟩ | ⟨c, -, ok, rfl⟩
  · exact fun b hb => ⟨b, same ▸ hb, .refl b, fun _ => rfl⟩
  · exact later_commit inv ok

theorem Step.stored {st st' : Store ι} {i : ι} (h : Step engine i st st') (inv : Inv engine st) :
    st'.table.Stored engine := by
  rcases h.effect inv with ⟨same, ids, -⟩ | ⟨c, -, ok, rfl⟩
  · exact inv.stored.drawn_more same ids
  · cases c with
    | book b => exact inv.stored.append ok.active ok.unstamped ok.drawn ok.newId ok.newKey
    | cancel id now =>
      obtain ⟨-, b, hb, rfl, -, running⟩ := ok
      exact inv.stored.cancelled hb running
    | resize T n => exact inv.stored

/-- What a thread has changed, after its own step. -/
theorem Step.change {st st' : Store ι} {i : ι} (h : Step engine i st st') (inv : Inv engine st) {c : Change}
    (mine : st'.pending i = some c) : ChangeOk engine st' i c := by
  have idle : ∀ {st : Store ι}, st.pending i = Option.none → st.pending i = some c → ChangeOk engine st' i c :=
    fun e e' => by rw [e] at e'; cases e'
  cases h with
  | none => exact inv.changes i c mine
  | lockFleet pending free => exact idle pending mine
  | lockBooking pending free => exact idle pending mine
  | draw pending => exact idle pending mine
  | book pending fleet size free unused room =>
    rw [pending_book] at mine
    cases mine
    exact {
      active := rfl
      unstamped := rfl
      drawn := ⟨st.table.ids, lt_add_one _, rfl⟩
      newId := fun a ha => (inv.stored.drawn a ha).ne_next
      newKey := unused
      fleet := fleet
      key := Function.update_self ..
      room := ⟨_, size, room⟩ }
  | cancel pending lock hb active running =>
    rw [pending_change] at mine
    cases mine
    exact ⟨lock, _, hb, rfl, active, running⟩
  | resize pending free known =>
    rw [pending_change] at mine
    cases mine
    exact ⟨Function.update_self .., known⟩
  | rollback => exact idle (pending_finish st i) mine
  | commit => exact idle (pending_committed st i) mine

/-- A booking a thread has inserted was inserted before, or has the id just drawn. -/
theorem Step.booked {st st' : Store ι} {i : ι} (h : Step engine i st st') {b : Booking}
    (mine : st'.pending i = some (.book b)) :
    st.pending i = some (.book b) ∨ b.id = engine.serial st.table.ids := by
  cases h with
  | none => exact .inl mine
  | lockFleet pending free => exact .inl mine
  | lockBooking pending free => exact .inl mine
  | draw pending => exact .inl mine
  | book pending fleet size free unused room =>
    rw [pending_book] at mine
    cases mine
    exact .inr rfl
  | cancel pending lock hb active running =>
    rw [pending_change] at mine
    cases mine
  | resize pending free known =>
    rw [pending_change] at mine
    cases mine
  | rollback =>
    rw [pending_finish] at mine
    cases mine
  | commit =>
    rw [pending_committed] at mine
    cases mine

/-- A step keeps the invariant. -/
theorem Step.inv {st st' : Store ι} {i : ι} (h : Step engine i st st') (inv : Inv engine st) : Inv engine st' where
  stored := h.stored inv
  changes j c mine := by
    by_cases e : j = i
    · subst e
      exact h.change inv mine
    · have others := h.interferes inv e
      rw [others.pending] at mine
      exact (inv.changes j c mine).stable mine others
  apart := by
    -- a booking just inserted has an id no other thread has drawn
    have new : ∀ j b b', j ≠ i → st'.pending i = some (.book b) → st'.pending j = some (.book b') → b.id ≠ b'.id := by
      intro j b b' ne mine theirs same
      rw [(h.interferes inv ne).pending] at theirs
      rcases h.booked mine with before | fresh
      · exact ne (inv.apart i j b b' before theirs same).symm
      · exact (inv.changes j _ theirs).drawn.ne_next (same.symm.trans fresh)
    intro j k b b' hj hk same
    by_cases ej : j = i
    · subst ej
      by_cases ek : k = j
      · exact ek.symm
      · exact absurd same (new k b b' ek hj hk)
    · by_cases ek : k = i
      · subst ek
        exact absurd same.symm (new j b' b ej hk hj)
      · rw [(h.interferes inv ej).pending] at hj
        rw [(h.interferes inv ek).pending] at hk
        exact inv.apart j k b b' hj hk same

end Store

end VehicleRentals
