import VehicleRentals.Postgres.Advance

/-!
# Jobs over one database

A pool of jobs on the database is a pool of phases over the store it stands for:
`Stands` is the simulation relation, kept by every step (`step_moves`), and `Inv`
the invariant it carries.
-/

namespace VehicleRentals

open Concurrent

namespace Postgres

variable {ι : Type}

/-- The store, and where each job stands. -/
@[ext] structure State (ι : Type) where
  store : Store ι
  phase : ι → Phase

/-- What holds of every reachable state. -/
structure Inv (engine : Engine) (jobs : ι → Job) (s : State ι) : Prop where
  store : Store.Inv engine s.store
  tied : ∀ i, s.store.pending i = (s.phase i).pending
  phases : ∀ i, PhaseOk i s.store (jobs i) (s.phase i)

/-- The job whose change it is. -/
def ChangeBy (t : Table) (job : Job) : Change → Prop
  | .book b => ∃ r key, job = .call (.reserve r) ∧ IdempotencyKey.new r.idempotencyKey = .ok key ∧
      b.HasKey r.customer.id key ∧ b.carType = r.carType ∧ b.period = r.period
  | .cancel id now => ∃ actor, job = .call (.cancel id actor now) ∧
      ∃ b ∈ t.bookings, b.id = id ∧ b.mayBeManagedBy actor = true
  | .resize carType size => job = .edit carType size

/-- A change is its job's own. -/
theorem Inv.owner {engine : Engine} {jobs : ι → Job} {s : State ι} (inv : Inv engine jobs s) {i : ι} {c : Change} (h : s.store.pending i = some c) :
    ChangeBy s.store.table (jobs i) c := by
  have ok := inv.phases i
  rw [inv.tied i] at h
  cases ph : s.phase i with
  | ending block x change =>
    rw [ph] at h ok
    obtain rfl : change = some c := h
    obtain ⟨isJob, ended⟩ := ok
    cases c with
    | book b =>
      obtain ⟨r, key, rfl, -, hasKey, type, period⟩ := ended
      exact ⟨r, key, isJob.1, isJob.2, hasKey, type, period⟩
    | cancel id now =>
      obtain ⟨actor, rfl, -, b, hb, e, managed, -⟩ := ended
      exact ⟨actor, isJob, b, hb, e, managed⟩
    | resize T n =>
      obtain ⟨rfl, -⟩ := ended
      exact isJob
  | _ => rw [ph] at h; cases h

/-- Jobs over one database, as a pool of programs. -/
abbrev code (jobs : ι → Job) (i : ι) : Code := (jobs i).program

abbrev Jobs (ι : Type) := Pool Sql ι (Db ι) Result

/-- The pool stands where the phases do. -/
structure Stands (engine : Engine) (jobs : ι → Job) (users : List Int) (fleetId : CarType → Int) (c : Jobs ι)
    (s : State ι) : Prop where
  threads : ∀ i, c.thread i = (s.phase i).thread fleetId
  mirrors : Mirrors users fleetId s.store c.shared
  inv : Inv engine jobs s

section

variable [DecidableEq ι]

/-- Job `i` is invoked, or takes its next step, in which a wait may run out. -/
inductive Moves (engine : Engine) (jobs : ι → Job) (users : List Int) :
    State ι → ι × Option Wait → State ι → Prop where
  | invoke {s : State ι} {i : ι} : s.phase i = .idle →
      Moves engine jobs users s (i, none) ⟨s.store, Function.update s.phase i (invoked (jobs i))⟩
  | advance {s : State ι} {i : ι} {w : Option Wait} {ph' : Phase} {st' : Store ι} :
      Advance engine users i w (s.phase i) s.store ph' st' →
      Moves engine jobs users s (i, w) ⟨st', Function.update s.phase i ph'⟩

theorem pending_invoked (job : Job) : (invoked job).pending = none := by
  rcases job with (r | _ | ⟨policy, T, P, now⟩ | _) | _
  · simp only [invoked]
    split <;> rfl
  · rfl
  · simp only [invoked]
    split <;> rfl
  · rfl
  · rfl

omit [DecidableEq ι] in
theorem phaseOk_invoked (i : ι) (st : Store ι) (job : Job) : PhaseOk i st job (invoked job) := by
  rcases job with (r | _ | ⟨policy, T, P, now⟩ | _) | _
  · simp only [invoked]
    cases parsed : IdempotencyKey.new r.idempotencyKey with
    | error e => trivial
    | ok key => exact ⟨rfl, parsed⟩
  · exact rfl
  · simp only [invoked]
    cases policy.validate P now with
    | error e => trivial
    | ok _ => exact ⟨policy, now, rfl⟩
  · exact rfl
  · exact rfl

section

variable {engine : Engine} {jobs : ι → Job} {users : List Int} {fleetId : CarType → Int}

/-- Every step of a job is one of the protocol. -/
theorem Moves.step {s s' : State ι} {i : ι} {w : Option Wait} (h : Moves engine jobs users s (i, w) s')
    (inv : Inv engine jobs s) : Store.Step engine i s.store s'.store := by
  cases h with
  | invoke idle => exact .none
  | advance ha => exact ha.step (inv.tied i) (inv.phases i)

/-- The job that moved was invoked, or took its next step. -/
theorem Moves.own {s s' : State ι} {i : ι} {w : Option Wait} (h : Moves engine jobs users s (i, w) s') :
    (s.phase i = .idle ∧ w = none ∧ s'.phase i = invoked (jobs i)) ∨
      Advance engine users i w (s.phase i) s.store (s'.phase i) s'.store := by
  cases h with
  | invoke idle => exact .inl ⟨idle, rfl, Function.update_self ..⟩
  | advance ha =>
    refine .inr ?_
    simp only [Function.update_self]
    exact ha

/-- A job that did not move stands where it stood. -/
theorem Moves.frame {s s' : State ι} {i j : ι} {w : Option Wait} (h : Moves engine jobs users s (i, w) s')
    (ne : j ≠ i) : s'.phase j = s.phase j := by
  cases h <;> exact Function.update_of_ne ne _ _

/-- Only an edit changes the size of a fleet. -/
theorem Moves.sizes_kept {s s' : State ι} {m : ι × Option Wait} (h : Moves engine jobs users s m s')
    (inv : Inv engine jobs s) {T : CarType} (unedited : ∀ j n, jobs j ≠ .edit T n) :
    s'.store.sizes T = s.store.sizes T := by
  rcases (h.step inv).effect inv.store with ⟨-, -, same⟩ | ⟨change, pending, -, committed⟩
  · rw [same]
  · have owner := inv.owner pending
    rw [committed]
    cases change with
    | resize T' n =>
      have ne : T ≠ T' := fun e => unedited m.1 n (e ▸ owner)
      exact Function.update_of_ne ne ..
    | _ => rfl

theorem inv_moves {s s' : State ι} {i : ι} {w : Option Wait} (h : Moves engine jobs users s (i, w) s')
    (inv : Inv engine jobs s) : Inv engine jobs s' := by
  have step := h.step inv
  refine ⟨step.inv inv.store, ?_, ?_⟩
  · intro j
    by_cases e : j = i
    · subst e
      cases h with
      | invoke idle =>
        simp only [Function.update_self, pending_invoked, inv.tied, idle]
        rfl
      | advance ha =>
        simp only [Function.update_self]
        exact ha.pending (inv.tied j)
    · rw [h.frame e, (step.interferes inv.store e).pending, inv.tied]
  · intro j
    by_cases e : j = i
    · subst e
      cases h with
      | invoke idle =>
        simp only [Function.update_self]
        exact phaseOk_invoked ..
      | advance ha =>
        simp only [Function.update_self]
        exact ha.phaseOk (inv.phases j)
    · rw [h.frame e]
      exact (inv.phases j).stable (step.interferes inv.store e)

theorem Phase.thread_eq_idle {ph : Phase} (h : ph.thread fleetId = .idle) : ph = .idle := by
  cases ph <;> first | rfl | cases h

/-- Every step of a pool of jobs is a step of its phases. -/
theorem step_moves {c c' : Jobs ι} {s : State ι} {l : Label Sql ι} (stands : Stands engine jobs users fleetId c s)
    (h : Step (postgres engine ι) (code jobs) c l c') :
    ∃ s', Moves engine jobs users s (l.thread, waitOf l) s' ∧ Stands engine jobs users fleetId c' s' := by
  have update : ∀ {i : ι} {t : Thread Sql Result} {ph : Phase}, t = ph.thread fleetId → ∀ j,
      Function.update c.thread i t j = (Function.update s.phase i ph j).thread fleetId := by
    intro i t ph e j
    by_cases ej : j = i
    · subst ej
      rw [Function.update_self, Function.update_self, e]
    · rw [Function.update_of_ne ej, Function.update_of_ne ej, stands.threads]
  cases h with
  | @invoke i idle =>
    rw [stands.threads] at idle
    have moved : Moves engine jobs users s (i, none) _ := .invoke (Phase.thread_eq_idle idle)
    exact ⟨_, moved, update (thread_invoked fleetId (jobs i)).symm, stands.mirrors, inv_moves moved stands.inv⟩
  | @act i β e k r db' running hx =>
    rw [stands.threads] at running
    obtain ⟨ph', st', ha, thread, mirrors⟩ :=
      advance_of_exec stands.mirrors stands.inv.store (stands.inv.tied i) (stands.inv.phases i) running hx
    have moved : Moves engine jobs users s (i, waited e r) _ := .advance ha
    exact ⟨_, moved, update thread.symm, mirrors, inv_moves moved stands.inv⟩

/-- Every run of a pool of jobs is a run of its phases. -/
theorem run_stands {c c' : Jobs ι} {s : State ι} {ls : List (Label Sql ι)}
    (stands : Stands engine jobs users fleetId c s) (h : Run (Step (postgres engine ι) (code jobs)) c ls c') :
    ∃ s', Run (fun a l b => Moves engine jobs users a (Label.thread l, waitOf l) b) s ls s' ∧
      Stands engine jobs users fleetId c' s' := by
  refine h.simulate (Stands engine jobs users fleetId) ?_ stands
  intro _ _ _ _ stands hs
  exact step_moves stands hs

end

end

/-! ## From the start -/

/-- Tables with no bookings yet; a car type's id is its primary key. -/
structure NoBookings (t : Tables) : Prop where
  fleetIds : (t.carTypes.map (·.id)).Nodup
  empty : t.reservations = []

/-- The size of each fleet, as the table stores it. -/
def fleetSizes (t : Tables) : FleetSizes := fun T => (t.fleetNamed T.value).map (·.fleetSize)

/-- The id of each fleet's row. -/
def fleetIdOf (t : Tables) (T : CarType) : Int := ((t.fleetNamed T.value).map (·.id)).getD 0

/-- A store that no transaction is using. -/
def quiet (ι : Type) (table : Table) (sizes : FleetSizes) : Store ι where
  table := table
  sizes := sizes
  pending _ := none
  fleetLock _ := none
  bookingLock _ := none
  keyLock _ := none

theorem quiet_inv {engine : Engine} {table : Table} (stored : table.Stored engine) (sizes : FleetSizes) :
    Store.Inv engine (quiet ι table sizes) where
  stored := stored
  changes _ _ h := by cases h
  apart _ _ _ _ h := by cases h

/-- Nobody has called yet. -/
def State.start (ι : Type) (t : Tables) (drawn : Int) : State ι where
  store := quiet ι { bookings := [], ids := drawn } (fleetSizes t)
  phase _ := .idle

theorem mirrors_start {t : Tables} (fresh : NoBookings t) (drawn : Int) :
    Mirrors t.users (fleetIdOf t) (State.start ι t drawn).store (Db.quiet t drawn) := by
  -- the row found under a type's name is the row of its id
  have named : ∀ T, t.fleetNamed T.value = (fleetSizes t T).map (fleetRow (fleetIdOf t) T) := by
    intro T
    unfold fleetSizes
    cases found : t.fleetNamed T.value with
    | none => rfl
    | some row =>
      have name : row.name = T.value := by simpa using List.find?_some found
      have id : fleetIdOf t T = row.id := by rw [fleetIdOf, found]; rfl
      rw [Option.map_some, Option.map_some, fleetRow, id, ← name]
  refine
    { users := rfl, fleetIds := fresh.fleetIds, named := named, withId := ?_, rows := fresh.empty, known := ?_
      drawn := rfl, writes := fun _ => rfl, fleetLock := fun _ _ => rfl, rowLock := rfl, keyLock := fun _ _ => rfl }
  · intro T n size
    have found := named T
    rw [show fleetSizes t T = some n from size, Option.map_some] at found
    have there : fleetRow (fleetIdOf t) T n ∈ t.carTypes := List.mem_of_find?_eq_some found
    obtain ⟨row, byId⟩ : ∃ row, t.carTypes.find? (fun fleet => fleet.id == fleetIdOf t T) = some row := by
      rw [← Option.isSome_iff_exists, List.find?_isSome]
      exact ⟨_, there, beq_self_eq_true _⟩
    have same : row.id = fleetIdOf t T := by simpa using List.find?_some byId
    have row_eq := List.inj_on_of_nodup_map fresh.fleetIds (List.mem_of_find?_eq_some byId) there same
    exact row_eq ▸ byId
  · intro b hb
    cases hb

theorem stands_start {t : Tables} (fresh : NoBookings t) (engine : Engine) (jobs : ι → Job) (drawn : Int) :
    Stands engine jobs t.users (fleetIdOf t) (Pool.start (Db.quiet t drawn)) (State.start ι t drawn) where
  threads _ := rfl
  mirrors := mirrors_start fresh drawn
  inv :=
    { store := quiet_inv (Table.stored_empty engine drawn) _
      tied := fun _ => rfl
      phases := fun _ => trivial }

/-! ## A small database -/

/-- An engine whose sequence counts up. -/
def plainEngine : Engine where
  serial := Equiv.refl Int
  latestFirst rows := rows.insertionSort fun a b => b.1.startAt ≤ a.1.startAt
  perm rows := rows.perm_insertionSort _
  sorted rows := Table.pairwise_latestFirst (fun row => row.1.startAt) rows

/-- A sedan and a van, and the customers 7 and 8. -/
def smallTables : Tables where
  users := [7, 8]
  carTypes := [{ id := 1, name := "sedan", fleetSize := 1 }, { id := 2, name := "van", fleetSize := 1 }]
  reservations := []

theorem noBookings_smallTables : NoBookings smallTables := ⟨by decide, rfl⟩

end Postgres

end VehicleRentals
