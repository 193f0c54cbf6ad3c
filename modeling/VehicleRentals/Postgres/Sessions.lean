import VehicleRentals.Concurrent.Sessions
import VehicleRentals.Postgres.Progress

/-!
# Connections that serve one job after another

What a statement does on a connection does not depend on which connection it is, only on
who else holds what (`Relabelled.exec`); and a connection whose job has not begun or has
returned holds nothing. So a pool of clients, each on one connection, does what jobs do
that have a connection each.
-/

namespace VehicleRentals

open Concurrent

namespace Postgres

/-- The connection has no lock and has changed nothing. -/
def Free {ι : Type} (db : Db ι) (i : ι) : Prop := Unlocked db i ∧ db.writes i = []

/-- The locks, held by `now i` where `i` holds them. -/
def Held {ι κ L : Type} (now : ι → κ) (locks : L → Option ι) (locks' : L → Option κ) : Prop :=
  ∀ k, locks' k = (locks k).map now

/-- The same database, with connection `now i` where `i` is. -/
structure Relabelled {ι κ : Type} (now : ι → κ) (db : Db ι) (db' : Db κ) : Prop where
  tables : db'.tables = db.tables
  drawn : db'.drawn = db.drawn
  writes : ∀ i, db'.writes (now i) = db.writes i
  fleetLock : Held now db.fleetLock db'.fleetLock
  rowLock : Held now db.rowLock db'.rowLock
  keyLock : Held now db.keyLock db'.keyLock

variable {ι κ L : Type} {now : ι → κ}

namespace Held

variable {locks : L → Option ι} {locks' : L → Option κ}

theorem grantable [DecidableEq ι] [DecidableEq κ] (h : Held now locks locks') (inj : now.Injective) (k : L) (i : ι) :
    Db.grantable locks' k (now i) = Db.grantable locks k i := by
  unfold Db.grantable
  rw [h k]
  cases locks k with
  | none => rfl
  | some j => simp [inj.eq_iff]

theorem take [DecidableEq L] (h : Held now locks locks') (k : L) (i : ι) :
    Held now (Function.update locks k (some i)) (Function.update locks' k (some (now i))) := by
  intro k'
  by_cases e : k' = k
  · simp [e]
  · simp only [Function.update_of_ne e, h k']

theorem released [DecidableEq ι] [DecidableEq κ] (h : Held now locks locks') (inj : now.Injective) (i : ι) :
    Held now (Db.released locks i) (Db.released locks' (now i)) := by
  intro k
  unfold Db.released
  rw [h k]
  cases locks k with
  | none => simp
  | some j => by_cases e : j = i <;> simp [e, inj.eq_iff]

theorem held_iff (h : Held now locks locks') (inj : now.Injective) (k : L) (i : ι) :
    locks' k = some (now i) ↔ locks k = some i := by
  rw [h k]
  cases locks k with
  | none => simp
  | some j => simp [inj.eq_iff]

/-- A connection that holds nothing can be exchanged. -/
theorem exchange [DecidableEq ι] (h : Held now locks locks') {i : ι} (none : HasNone locks' (now i))
    (k : κ) : Held (Function.update now i k) locks locks' := by
  intro l
  rw [h l]
  cases held : locks l with
  | none => rfl
  | some j =>
    have ne : j ≠ i := by
      rintro rfl
      exact none l (by rw [h l, held, Option.map_some])
    rw [Option.map_some, Option.map_some, Function.update_of_ne ne]

end Held

variable [DecidableEq ι] [DecidableEq κ]

namespace Relabelled

variable {db : Db ι} {db' : Db κ}

omit [DecidableEq ι] [DecidableEq κ] in
theorem view (h : Relabelled now db db') (i : ι) : db'.view (now i) = db.view i := by
  rw [Db.view, Db.view, h.writes, h.tables]

omit [DecidableEq ι] [DecidableEq κ] in
theorem draw (h : Relabelled now db db') :
    Relabelled now { db with drawn := db.drawn + 1 } { db' with drawn := db.drawn + 1 } where
  __ := h
  drawn := rfl

theorem write (h : Relabelled now db db') (inj : now.Injective) (i : ι) (w : Write) :
    Relabelled now (db.write i w) (db'.write (now i) w) where
  __ := h
  writes j := by
    by_cases e : j = i
    · simp [e, Db.write, h.writes]
    · simp only [Db.write, Function.update_of_ne e, Function.update_of_ne fun e' => e (inj e'), h.writes]

omit [DecidableEq ι] [DecidableEq κ] in
theorem lockFleet (h : Relabelled now db db') (id : Int) (i : ι) :
    Relabelled now { db with fleetLock := Function.update db.fleetLock id (some i) }
      { db' with fleetLock := Function.update db'.fleetLock id (some (now i)) } where
  __ := h
  fleetLock := h.fleetLock.take id i

omit [DecidableEq ι] [DecidableEq κ] in
theorem lockRow (h : Relabelled now db db') (id : Int) (i : ι) :
    Relabelled now { db with rowLock := Function.update db.rowLock id (some i) }
      { db' with rowLock := Function.update db'.rowLock id (some (now i)) } where
  __ := h
  rowLock := h.rowLock.take id i

omit [DecidableEq ι] [DecidableEq κ] in
theorem lockKey (h : Relabelled now db db') (key : Int × String) (i : ι) :
    Relabelled now { db with keyLock := Function.update db.keyLock key (some i) }
      { db' with keyLock := Function.update db'.keyLock key (some (now i)) } where
  __ := h
  keyLock := h.keyLock.take key i

theorem finish (h : Relabelled now db db') (inj : now.Injective) (i : ι) (tables : Tables) :
    Relabelled now (db.finish i tables) (db'.finish (now i) tables) where
  tables := rfl
  drawn := h.drawn
  writes j := by
    by_cases e : j = i
    · simp [e, Db.finish]
    · simp only [Db.finish, Function.update_of_ne e, Function.update_of_ne fun e' => e (inj e'), h.writes]
  fleetLock := h.fleetLock.released inj i
  rowLock := h.rowLock.released inj i
  keyLock := h.keyLock.released inj i

/-- A statement does the same on the connection `now i` as on `i`. -/
theorem exec (h : Relabelled now db db') (inj : now.Injective) (engine : Engine) (i : ι) {β : Type} (e : Sql β) :
    ∀ x ∈ (postgres engine ι).exec i e db, ∃ y ∈ (postgres engine κ).exec (now i) e db', y.1 = x.1 ∧ Relabelled now x.2 y.2 := by
  have one : ∀ {r : β} {s : Db ι} {s' : Db κ}, Relabelled now s s' →
      ∀ x ∈ [(r, s)], ∃ y ∈ [(r, s')], y.1 = x.1 ∧ Relabelled now x.2 y.2 := by
    intro r s s' same x hx
    rw [List.mem_singleton.1 hx]
    exact ⟨_, List.mem_singleton_self _, rfl, same⟩
  cases e with
  | lockFleet name =>
    simp only [postgres, h.view, h.fleetLock.grantable inj]
    split
    · exact one h
    · split
      · exact one (h.lockFleet ..)
      · exact one h
  | selectFleet name =>
    simp only [postgres, h.view]
    exact one h
  | selectByKey userId key =>
    simp only [postgres, h.view]
    exact one h
  | selectOverlapping carTypeId period =>
    simp only [postgres, h.view]
    exact one h
  | insert userId carTypeId startAt endAt key =>
    simp only [postgres, h.view, h.drawn, h.keyLock.grantable inj]
    split_ifs
    · exact one h.draw
    · exact one h.draw
    · exact one h.draw
    · exact one h.draw
    · exact one ((h.draw.write inj i _).lockKey ..)
  | lockReservation id =>
    simp only [postgres, h.view, h.rowLock.grantable inj]
    split
    · exact one h
    · split
      · exact one (h.lockRow ..)
      · exact one h
  | update id status cancelledAt =>
    simp only [postgres, h.view, h.rowLock.grantable inj]
    split
    · exact one h
    · split_ifs
      · exact one h
      · exact one h
      · exact one ((h.write inj i _).lockRow ..)
  | selectByUser userId =>
    simp only [postgres, h.view]
    exact one h
  | resize name fleetSize =>
    simp only [postgres, h.view, h.fleetLock.grantable inj]
    split
    · exact one h
    · split
      · exact one ((h.write inj i _).lockFleet ..)
      · exact one h
  | commit =>
    simp only [postgres, h.view, h.writes, h.tables]
    split
    · exact one (h.finish inj i _)
    · exact one (h.finish inj i _)
  | rollback =>
    have finished := h.finish inj i db.tables
    nth_rewrite 2 [← h.tables] at finished
    exact one finished

omit [DecidableEq ι] [DecidableEq κ] in
/-- Connections block each other where those they stand for do. -/
theorem blocks (h : Relabelled now db db') (inj : now.Injective) (i j : ι) {β : Type} (e : Sql β) :
    db'.Blocks (now i) (now j) e ↔ db.Blocks i j e := by
  cases e with
  | lockFleet name | resize name => simp only [Db.Blocks, h.view, h.fleetLock.held_iff inj]
  | lockReservation id | update id => exact h.rowLock.held_iff inj id j
  | insert userId _ _ _ key => exact h.keyLock.held_iff inj (userId, key) j
  | _ => exact Iff.rfl

omit [DecidableEq ι] [DecidableEq κ] in
theorem free (h : Relabelled now db db') (inj : now.Injective) {i : ι} (free : Free db' (now i)) : Free db i where
  left :=
    { fleet := fun k held => free.1.fleet k ((h.fleetLock.held_iff inj k i).2 held)
      row := fun k held => free.1.row k ((h.rowLock.held_iff inj k i).2 held)
      key := fun k held => free.1.key k ((h.keyLock.held_iff inj k i).2 held) }
  right := (h.writes i).symm.trans free.2

omit [DecidableEq κ] in
/-- A free connection can be left for one that is free. -/
theorem exchange (h : Relabelled now db db') {i : ι} {k : κ} (free : Free db' (now i)) (free' : Free db' k) :
    Relabelled (Function.update now i k) db db' where
  tables := h.tables
  drawn := h.drawn
  writes j := by
    by_cases e : j = i
    · subst e
      rw [Function.update_self, free'.2, ← h.writes, free.2]
    · rw [Function.update_of_ne e, h.writes]
  fleetLock := h.fleetLock.exchange free.1.fleet k
  rowLock := h.rowLock.exchange free.1.row k
  keyLock := h.keyLock.exchange free.1.key k

end Relabelled

/-! ## Clients of the database -/

/-- A client of the database, which makes calls one after another. -/
abbrev DbClient (α : Type) := Client Call Result α

/-- A call as a job of its own. -/
abbrev callCode (call : Call) : Code := Job.program (.call call)

/-- The database does for single calls what it does for clients. -/
theorem exchange_postgres (engine : Engine) {t : Tables} (fresh : NoBookings t) (drawn : Int) :
    Exchange (postgres engine ι) (postgres engine (ι × ℕ)) callCode (Db.quiet t drawn)
      (fun n db db' => Relabelled (fun i => (i, n i)) db db') Free where
  exec {n _ i e _ _ _ _} related hx := by
    have inj : Function.Injective fun i => (i, n i) := fun _ _ e => (Prod.mk.inj e).1
    obtain ⟨⟨_, u'⟩, hy, rfl, related'⟩ := related.exec inj engine i e _ hx
    exact ⟨u', hy, related'⟩
  next {n _ _} i related free free' := by
    have current : (fun j => (j, Function.update n i (n i + 1) j)) = Function.update (fun j => (j, n j)) i (i, n i + 1) := by
      funext j
      by_cases e : j = i
      · subst e
        simp
      · simp [Function.update_of_ne e]
    rw [current]
    exact related.exchange free free'
  free run k rests := by
    obtain ⟨s, running⟩ := running_of_run fresh run
    exact running.rests rests

end Postgres

end VehicleRentals
