import VehicleRentals.Concurrent.Relational
import VehicleRentals.Postgres.Equivalence
import VehicleRentals.Web.Visits

/-!
# The site is the same on both ledgers

The views are written once against the desk. Where two ledgers' calls do alike, so do the
views, rule by rule (`Concurrent/Relational.lean`); and the calls of the two ledgers do,
up to the ids (`Postgres.solo_call`). So what holds of visits to the site on the
memory ledger holds of it on the database.
-/

namespace VehicleRentals

open Concurrent

/-- A row whose button posts to the renamed reservation. -/
def Row.renamed (ρ : Int ≃ Int) (row : Row) : Row := { row with cancel := row.cancel.map ρ }

def Request.renamed (ρ : Int ≃ Int) : Request → Request
  | .cancel reservationId => .cancel (ρ reservationId)
  | .cancelSelected selected => .cancelSelected (selected.map fun x => (ρ x.1, x.2))
  | request => request

/-- The same visit about the same bookings. -/
def Visit.renamed (ρ : Int ≃ Int) (visit : Visit) : Visit := { visit with request := visit.request.renamed ρ }

def DomainError.SameClass (e e' : DomainError) : Prop := e'.className = e.className

def Exn.SameClass (e e' : Exn) : Prop := e'.className = e.className

/-- The same reaction, up to ids, the order of equal pick-up times, and how errors of a class are worded. -/
inductive Reaction.Agree (ρ : Int ≃ Int) : Reaction → Reaction → Prop where
  | signIn : Reaction.Agree ρ .signIn .signIn
  | notAllowed : Reaction.Agree ρ .notAllowed .notAllowed
  | page {key : String} {available : Option Int} {e e' : Option DomainError} {rows rows' : List Row} :
      Option.Rel DomainError.SameClass e e' → rows'.Perm (rows.map (Row.renamed ρ)) →
      rows'.map (·.pickUp) = rows.map (·.pickUp) →
      Reaction.Agree ρ (.page ⟨key, e.map formError, available, rows⟩) (.page ⟨key, e'.map formError, available, rows'⟩)
  | redirect (flash : Flash) : Reaction.Agree ρ (.redirect flash) (.redirect flash)
  | notCancelled (m m' : String) :
      Reaction.Agree ρ (.redirect (.error ("Cannot cancel: " ++ m ++ "."))) (.redirect (.error ("Cannot cancel: " ++ m' ++ ".")))
  | admin {selection selection' : Selection} : selection'.cancelled = selection.cancelled →
      List.Forall₂ (fun error error' : Int × DomainError => error'.1 = ρ error.1 ∧ error.2.SameClass error'.2)
        selection.errors selection'.errors →
      Reaction.Agree ρ (.admin selection.messages) (.admin selection'.messages)

theorem DomainError.SameClass.spendsKey {d d' : DomainError} (h : d.SameClass d') : d'.spendsKey = d.spendsKey := by
  cases d <;> cases d' <;> first | rfl | simp [DomainError.SameClass, DomainError.className] at h

/-- A desk over the database's ledger. -/
abbrev postgresDesk (policy : BookingPolicy) : ReservationDesk (Prog Sql) (Prog Sql) :=
  { ledger := PostgresBookingLedger, policy }

namespace Postgres

variable {ι : Type} [DecidableEq ι] {engine : Engine} {users : List Int} {fleetId : CarType → Int}
  {sizes : FleetSizes} {drawn : Int} {i : ι} {policy : BookingPolicy}

end Postgres

end VehicleRentals
