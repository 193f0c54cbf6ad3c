import VehicleRentals.Postgres.Protocol

/-!
# What a statement does to the locks

A statement takes at most one more lock, and none that another connection has
(`Taken`); the end of a transaction gives all of its connection's back. Either
way the locks of the others are as they were (`keeps_exec`).
-/

namespace VehicleRentals

open Concurrent

namespace Postgres

variable {ι : Type}

/-- The connection has no lock of this kind. -/
def HasNone {κ : Type} (locks : κ → Option ι) (i : ι) : Prop := ∀ k, locks k ≠ some i

/-- The connection has no lock at all. -/
structure Unlocked (db : Db ι) (i : ι) : Prop where
  fleet : HasNone db.fleetLock i
  row : HasNone db.rowLock i
  key : HasNone db.keyLock i

section

variable [DecidableEq ι] {engine : Engine}

/-- The locks of connection `j` are as they were. -/
structure Keeps (j : ι) (db db' : Db ι) : Prop where
  fleet : ∀ f, db'.fleetLock f = some j ↔ db.fleetLock f = some j
  row : ∀ id, db'.rowLock id = some j ↔ db.rowLock id = some j
  key : ∀ uk, db'.keyLock uk = some j ↔ db.keyLock uk = some j

/-- Connection `i` has taken at most one more lock, and none of anybody else's. -/
def Taken {κ : Type} [DecidableEq κ] (i : ι) (locks locks' : κ → Option ι) : Prop :=
  locks' = locks ∨ ∃ k, Db.grantable locks k i = true ∧ locks' = Function.update locks k (some i)

theorem Taken.iff {κ : Type} [DecidableEq κ] {i j : ι} {locks locks' : κ → Option ι} (h : Taken i locks locks')
    (ne : j ≠ i) (k : κ) : locks' k = some j ↔ locks k = some j := by
  rcases h with rfl | ⟨k', free, rfl⟩
  · exact Iff.rfl
  · constructor
    · intro theirs
      by_cases e : k = k'
      · rw [e, Function.update_self] at theirs
        exact absurd (Option.some.inj theirs).symm ne
      · rwa [Function.update_of_ne e] at theirs
    · exact Store.update_kept free ne

theorem keeps_of_taken {i j : ι} (ne : j ≠ i) {db db' : Db ι} (fleet : Taken i db.fleetLock db'.fleetLock)
    (row : Taken i db.rowLock db'.rowLock) (key : Taken i db.keyLock db'.keyLock) : Keeps j db db' :=
  ⟨fleet.iff ne, row.iff ne, key.iff ne⟩

theorem released_iff {κ : Type} {locks : κ → Option ι} {i j : ι} (ne : j ≠ i) (k : κ) :
    Db.released locks i k = some j ↔ locks k = some j := by
  constructor
  · intro theirs
    unfold Db.released at theirs
    split at theirs
    · cases theirs
    · exact theirs
  · exact Store.released_kept ne

theorem released_self {κ : Type} (locks : κ → Option ι) (i : ι) : HasNone (Db.released locks i) i := by
  intro k mine
  unfold Db.released at mine
  split at mine
  · cases mine
  · exact absurd mine ‹_›

theorem keeps_finish {i j : ι} (ne : j ≠ i) (db : Db ι) (tables : Tables) : Keeps j db (db.finish i tables) :=
  ⟨released_iff ne, released_iff ne, released_iff ne⟩

theorem unlocked_finish (db : Db ι) (i : ι) (tables : Tables) : Unlocked (db.finish i tables) i :=
  ⟨released_self _ i, released_self _ i, released_self _ i⟩

section

variable {i : ι} {db db' : Db ι}

/-- All that the `SELECT ... FOR UPDATE` of `exclusive` can take is the lock of a fleet's row. -/
theorem taken_lockFleet {name : String} {x : Except Exn (Option CarTypeRow)}
    (hx : (x, db') ∈ (postgres engine ι).exec i (.lockFleet name) db) :
    Taken i db.fleetLock db'.fleetLock ∧ db'.rowLock = db.rowLock ∧ db'.keyLock = db.keyLock := by
  simp only [postgres] at hx
  split at hx
  · cases List.mem_singleton.1 hx
    exact ⟨.inl rfl, rfl, rfl⟩
  · split at hx
    · cases List.mem_singleton.1 hx
      exact ⟨.inr ⟨_, ‹_›, rfl⟩, rfl, rfl⟩
    · cases List.mem_singleton.1 hx
      exact ⟨.inl rfl, rfl, rfl⟩

theorem taken_resize {name : String} {n : Nat} {x : Except Exn Unit}
    (hx : (x, db') ∈ (postgres engine ι).exec i (.resize name n) db) :
    Taken i db.fleetLock db'.fleetLock ∧ db'.rowLock = db.rowLock ∧ db'.keyLock = db.keyLock := by
  simp only [postgres] at hx
  split at hx
  · cases List.mem_singleton.1 hx
    exact ⟨.inl rfl, rfl, rfl⟩
  · split at hx
    · cases List.mem_singleton.1 hx
      exact ⟨.inr ⟨_, ‹_›, rfl⟩, rfl, rfl⟩
    · cases List.mem_singleton.1 hx
      exact ⟨.inl rfl, rfl, rfl⟩

theorem taken_lockReservation {id : Int} {x : Except Exn (Option (ReservationRow × CarTypeRow))}
    (hx : (x, db') ∈ (postgres engine ι).exec i (.lockReservation id) db) :
    db'.fleetLock = db.fleetLock ∧ Taken i db.rowLock db'.rowLock ∧ db'.keyLock = db.keyLock := by
  simp only [postgres] at hx
  split at hx
  · cases List.mem_singleton.1 hx
    exact ⟨rfl, .inl rfl, rfl⟩
  · split at hx
    · cases List.mem_singleton.1 hx
      exact ⟨rfl, .inr ⟨id, ‹_›, rfl⟩, rfl⟩
    · cases List.mem_singleton.1 hx
      exact ⟨rfl, .inl rfl, rfl⟩

theorem taken_update {id : Int} {status : String} {cancelledAt : Option Instant} {x : Except Exn Unit}
    (hx : (x, db') ∈ (postgres engine ι).exec i (.update id status cancelledAt) db) :
    db'.fleetLock = db.fleetLock ∧ Taken i db.rowLock db'.rowLock ∧ db'.keyLock = db.keyLock := by
  simp only [postgres] at hx
  split at hx
  · cases List.mem_singleton.1 hx
    exact ⟨rfl, .inl rfl, rfl⟩
  · by_cases free : Db.grantable db.rowLock id i = true
    · simp only [free, Bool.not_true, Bool.false_eq_true, if_false] at hx
      split at hx
      · cases List.mem_singleton.1 hx
        exact ⟨rfl, .inl rfl, rfl⟩
      · cases List.mem_singleton.1 hx
        exact ⟨rfl, .inr ⟨id, free, rfl⟩, rfl⟩
    · simp only [free, Bool.not_false, if_true] at hx
      cases List.mem_singleton.1 hx
      exact ⟨rfl, .inl rfl, rfl⟩

theorem taken_insert {u c : Int} {a b : Instant} {key : String} {x : Except Exn ReservationRow}
    (hx : (x, db') ∈ (postgres engine ι).exec i (.insert u c a b key) db) :
    db'.fleetLock = db.fleetLock ∧ db'.rowLock = db.rowLock ∧ Taken i db.keyLock db'.keyLock := by
  simp only [postgres] at hx
  split at hx
  · cases List.mem_singleton.1 hx
    exact ⟨rfl, rfl, .inl rfl⟩
  · split at hx
    · cases List.mem_singleton.1 hx
      exact ⟨rfl, rfl, .inl rfl⟩
    · by_cases free : Db.grantable db.keyLock (u, key) i = true
      · simp only [free, Bool.not_true, Bool.false_eq_true, if_false] at hx
        split at hx
        · cases List.mem_singleton.1 hx
          exact ⟨rfl, rfl, .inl rfl⟩
        · cases List.mem_singleton.1 hx
          exact ⟨rfl, rfl, .inr ⟨(u, key), free, rfl⟩⟩
      · simp only [free, Bool.not_false, if_true] at hx
        cases List.mem_singleton.1 hx
        exact ⟨rfl, rfl, .inl rfl⟩

/-- A transaction ends with nothing kept. -/
theorem exec_commit {x : Except Exn Unit} (hx : (x, db') ∈ (postgres engine ι).exec i .commit db) :
    ∃ tables, db' = db.finish i tables := by
  simp only [postgres] at hx
  split at hx
  · cases List.mem_singleton.1 hx
    exact ⟨_, rfl⟩
  · cases List.mem_singleton.1 hx
    exact ⟨_, rfl⟩

end

/-- A statement leaves the locks of the other connections alone. -/
theorem keeps_exec {i j : ι} (ne : j ≠ i) {β : Type} {e : Sql β} {db db' : Db ι} {x : β}
    (hx : (x, db') ∈ (postgres engine ι).exec i e db) : Keeps j db db' := by
  cases e with
  | lockFleet name =>
    obtain ⟨fleet, row, key⟩ := taken_lockFleet hx
    exact keeps_of_taken ne fleet (.inl row) (.inl key)
  | resize name fleetSize =>
    obtain ⟨fleet, row, key⟩ := taken_resize hx
    exact keeps_of_taken ne fleet (.inl row) (.inl key)
  | lockReservation id =>
    obtain ⟨fleet, row, key⟩ := taken_lockReservation hx
    exact keeps_of_taken ne (.inl fleet) row (.inl key)
  | update id status cancelledAt =>
    obtain ⟨fleet, row, key⟩ := taken_update hx
    exact keeps_of_taken ne (.inl fleet) row (.inl key)
  | insert userId carTypeId startAt endAt key =>
    obtain ⟨fleet, row, key⟩ := taken_insert hx
    exact keeps_of_taken ne (.inl fleet) (.inl row) key
  | commit =>
    obtain ⟨tables, rfl⟩ := exec_commit hx
    exact keeps_finish ne db tables
  | rollback =>
    cases List.mem_singleton.1 hx
    exact keeps_finish ne db _
  | _ =>
    cases List.mem_singleton.1 hx
    exact keeps_of_taken ne (.inl rfl) (.inl rfl) (.inl rfl)

/-- The row that `exclusive_booking` reads is the one it has locked. -/
theorem exec_lockReservation {i : ι} {id : Int} {db db' : Db ι} {row : ReservationRow × CarTypeRow}
    (hx : (.ok (some row), db') ∈ (postgres engine ι).exec i (.lockReservation id) db) :
    row.1.id = id ∧ db'.rowLock id = some i := by
  simp only [postgres] at hx
  split at hx
  · cases List.mem_singleton.1 hx
  · rename_i found
    have same := List.find?_some found
    split at hx
    · cases List.mem_singleton.1 hx
      exact ⟨eq_of_beq same, Function.update_self ..⟩
    · cases List.mem_singleton.1 hx

end

end Postgres

end VehicleRentals
