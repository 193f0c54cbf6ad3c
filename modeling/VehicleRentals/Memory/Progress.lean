import VehicleRentals.Concurrent.Measures
import VehicleRentals.Memory.Invariant

/-!
# Calls never wait for one another for ever

A call waits only for the lock of its car type, and whoever holds a lock is
inside the block, where nothing waits (`progress`). Every call has a bounded
number of steps ahead of it, so a pool of finitely many calls can always be run
to its end (`completes`).
-/

namespace VehicleRentals

open Concurrent

namespace Memory

variable {ι : Type}

/-- A call has not started, has returned, waits for a lock somebody holds, or can take its next step. -/
theorem Phase.ready_cases (sizes : FleetSizes) (i : ι) (m : Memory ι) (ph : Phase) :
    ph = .idle ∨ (∃ o, ph = .done o) ∨
    (∃ r key size j, ph = .reserving r key size .acquiring ∧ m.holder r.carType = some j) ∨
    ∃ (β : Type) (e : MemOp β) (k : β → Code) (x : β) (m' : Memory ι),
      ph.thread sizes = .running (.step e k) ∧ (x, m') ∈ (memory ι).exec i e m := by
  cases ph with
  | idle => exact .inl rfl
  | done o => exact .inr (.inl ⟨o, rfl⟩)
  | cancelling bookingId actor now => exact .inr (.inr (.inr ⟨_, _, _, _, _, rfl, List.mem_singleton_self _⟩))
  | checking carType period size => exact .inr (.inr (.inr ⟨_, _, _, _, _, rfl, List.mem_singleton_self _⟩))
  | listing customer => exact .inr (.inr (.inr ⟨_, _, _, _, _, rfl, List.mem_singleton_self _⟩))
  | reserving r key size g =>
    refine .inr (.inr ?_)
    cases g with
    | acquiring =>
      cases lock : m.holder r.carType with
      | some j => exact .inl ⟨r, key, size, j, rfl, lock⟩
      | none =>
        refine .inr ⟨_, _, _, (), ⟨m.table, Function.update m.holder r.carType (some i)⟩, rfl, ?_⟩
        simp only [memory, lock]
        exact List.mem_singleton_self _
    | _ => exact .inr ⟨_, _, _, _, _, rfl, List.mem_singleton_self _⟩

variable [DecidableEq ι]

/-- As long as some call has not returned, some call can move. -/
theorem progress {sizes : FleetSizes} {calls : ι → Call} {s : State ι} (inv : Inv sizes calls s)
    (unfinished : ¬ (s.pool sizes).Complete) :
    ∃ l c', Step (memory ι) (code sizes calls) (s.pool sizes) l c' := by
  have moves : ∀ i (β : Type) (e : MemOp β) (k : β → Code) (x : β) (m' : Memory ι),
      (s.phase i).thread sizes = .running (.step e k) → (x, m') ∈ (memory ι).exec i e s.memory →
      ∃ l c', Step (memory ι) (code sizes calls) (s.pool sizes) l c' :=
    fun i β e k x m' here hx => ⟨_, _, .act here hx⟩
  obtain ⟨i, running⟩ := not_forall.1 unfinished
  rcases (s.phase i).ready_cases sizes i s.memory with
    idle | ⟨o, done⟩ | ⟨r, key, size, j, -, held⟩ | ⟨β, e, k, x, m', here, hx⟩
  · refine ⟨_, _, .invoke (i := i) ?_⟩
    simp only [State.pool, idle, Phase.thread]
  · refine absurd ?_ running
    simp only [State.pool, done, Phase.thread, Thread.result_ret, Option.isSome_some]
  · -- the holder is inside the block, and can move
    have inside := inv.held _ _ held
    rcases (s.phase j).ready_cases sizes j s.memory with
      idle | ⟨o, done⟩ | ⟨r', key', size', j', waits, -⟩ | ⟨β, e, k, x, m', here, hx⟩
    · rw [idle] at inside
      exact inside.elim
    · rw [done] at inside
      exact inside.elim
    · rw [waits] at inside
      exact absurd inside.2 Bool.false_ne_true
    · exact moves j β e k x m' here hx
  · exact moves i β e k x m' here hx

/-- A bound on the steps a call still has ahead of it. -/
def Phase.ahead : Phase → Nat
  | .idle => 7
  | .reserving _ _ _ g =>
    match g with
    | .acquiring => 6
    | .looking => 5
    | .scheduling => 4
    | .adding => 3
    | .releasing _ => 2
    | .retrying => 1
  | .cancelling .. | .checking .. | .listing _ => 1
  | .done _ => 0

omit [DecidableEq ι] in
theorem Advance.ahead_lt {i : ι} {ph ph' : Phase} {m m' : Memory ι} (h : Advance i ph m ph' m') :
    ph'.ahead < ph.ahead := by
  cases h with
  | look =>
    unfold afterLook
    split
    · simp [Phase.ahead]
    · split <;> simp [Phase.ahead]
  | schedule =>
    unfold afterSchedule
    split <;> simp [Phase.ahead]
  | release =>
    unfold afterRelease
    split <;> simp [Phase.ahead]
  | _ => simp [Phase.ahead, afterAdd]

theorem ahead_invoked_lt (sizes : FleetSizes) (call : Call) : (invoked sizes call).ahead < 7 := by
  rcases invoked_cases sizes call with
    ⟨e, -, h⟩ | ⟨r, key, size, -, -, -, h⟩ | ⟨bookingId, actor, now, -, h⟩ |
    ⟨policy, carType, period, now, size, -, -, -, h⟩ | ⟨customer, -, h⟩ <;> simp [h, Phase.ahead]

/-- Each step leaves the pool with fewer steps ahead. -/
theorem Moves.ahead_lt [Fintype ι] {sizes : FleetSizes} {calls : ι → Call} {s s' : State ι} {i : ι}
    (h : Moves sizes calls s i s') : ∑ j, (s'.phase j).ahead < ∑ j, (s.phase j).ahead := by
  refine sum_lt_of_one i ?_ fun j ne => ?_
  · cases h with
    | invoke idle =>
      rw [idle]
      simp only [Function.update_self]
      exact ahead_invoked_lt sizes (calls i)
    | advance hs =>
      simp only [Function.update_self]
      exact hs.ahead_lt
  · cases h <;> simp only [Function.update_of_ne ne]

/-- A call has at most seven steps. -/
theorem length_le [Fintype ι] {sizes : FleetSizes} {calls : ι → Call} {t : Table} (sound : t.Sound sizes)
    {ls : List (Label MemOp ι)} {c : Pool MemOp ι (Memory ι) Outcome} (h : Runs sizes calls t ls c) :
    ls.length ≤ Fintype.card ι * 7 := by
  obtain ⟨s, trace, -, -⟩ := inv_of_runs sound h
  have length := trace.length_le (I := fun _ => True) (m := fun s => ∑ j, (s.phase j).ahead)
    (fun _ _ _ _ moved => ⟨trivial, moved.ahead_lt⟩) trivial
  have all : ∑ j, ((State.start ι t).phase j).ahead = Fintype.card ι * 7 := Finset.sum_const_nat fun _ _ => rfl
  rw [all] at length
  omega

/-- Every run of finitely many calls goes on to one in which all have returned. -/
theorem completes [Fintype ι] {sizes : FleetSizes} {calls : ι → Call} {t : Table} (sound : t.Sound sizes)
    {ls : List (Label MemOp ι)} {c : Pool MemOp ι (Memory ι) Outcome} (h : Runs sizes calls t ls c) :
    ∃ ls' c', Run (Step (memory ι) (code sizes calls)) c ls' c' ∧ c'.Complete := by
  obtain ⟨s, -, inv, rfl⟩ := inv_of_runs sound h
  have goes : ∀ s, Inv sizes calls s → ¬ (s.pool sizes).Complete → ∃ l s',
      Step (memory ι) (code sizes calls) (s.pool sizes) l (s'.pool sizes) ∧ Inv sizes calls s' ∧
        ∑ j, (s'.phase j).ahead < ∑ j, (s.phase j).ahead := by
    intro s inv unfinished
    obtain ⟨l, _, step⟩ := progress inv unfinished
    obtain ⟨s', moved, rfl⟩ := step_moves step
    exact ⟨l, s', step, inv_moves inv moved, moved.ahead_lt⟩
  obtain ⟨ls', s', run, -, complete⟩ := exists_run_to goes s inv
  exact ⟨ls', _, run.map (State.pool sizes) fun _ _ _ h => h, complete⟩

end Memory

end VehicleRentals
