import Mathlib.Logic.Equiv.Basic
import VehicleRentals.Domain.Desk
import VehicleRentals.Domain.Table

/-!
# Renaming ids

Two ledgers number their bookings differently. A one-to-one renaming of ids
carries the bookings, calls and tables of one over to the other; `Agree` is what
a client who knows the renaming cannot tell apart.
-/

namespace VehicleRentals

def Booking.renamed (ρ : Int ≃ Int) (b : Booking) : Booking := { b with id := ρ b.id }

/-- The same call about the same bookings. -/
def Call.renamed (ρ : Int ≃ Int) : Call → Call
  | .reserve r => .reserve r
  | .cancel bookingId actor now => .cancel (ρ bookingId) actor now
  | .availability policy carType period now => .availability policy carType period now
  | .reservationsFor customer => .reservationsFor customer

/-- The same outcome: an exception of the same class, the same count, the same
booking, or the same list up to the order of equal pick-up times. -/
inductive Agree (ρ : Int ≃ Int) : Outcome → Outcome → Prop where
  | raised {e e' : Exn} : e'.className = e.className → Agree ρ (.error e) (.error e')
  | booked (b : Booking) (replayed : Bool) :
      Agree ρ (.ok (.booked ⟨b, replayed⟩)) (.ok (.booked ⟨b.renamed ρ, replayed⟩))
  | cancelled (b : Booking) : Agree ρ (.ok (.cancelled b)) (.ok (.cancelled (b.renamed ρ)))
  | free (count : Int) : Agree ρ (.ok (.free count)) (.ok (.free count))
  | listed {bs bs' : List Booking} : bs'.Perm (bs.map (Booking.renamed ρ)) →
      bs'.map (·.period.start) = bs.map (·.period.start) → Agree ρ (.ok (.listed bs)) (.ok (.listed bs'))

/-- A replay is of the same booking, or the same conflict. -/
theorem replay_renamed (ρ : Int ≃ Int) (b : Booking) (carType : CarType) (period : RentalPeriod) :
    replay (b.renamed ρ) carType period =
      (replay b carType period).map fun result => { result with booking := result.booking.renamed ρ } := by
  have same : (b.renamed ρ).isFor carType period = b.isFor carType period := rfl
  unfold replay
  by_cases made : b.isFor carType period = true
  · rw [if_pos made, if_pos (same.trans made)]
    rfl
  · rw [if_neg made, if_neg (same ▸ made)]
    rfl

namespace Table

/-- The same bookings, with ids drawn from a sequence that is `k` further on. -/
def renamed (ρ : Int ≃ Int) (k : Int) (t : Table) : Table :=
  { bookings := t.bookings.map (Booking.renamed ρ), ids := t.ids + k }

variable (ρ : Int ≃ Int) (k : Int) (t : Table)

theorem findByKey_renamed (customerId : Int) (key : IdempotencyKey) :
    (t.renamed ρ k).findByKey customerId key = (t.findByKey customerId key).map (Booking.renamed ρ) :=
  List.find?_map ..

theorem get_renamed (id : Int) : (t.renamed ρ k).get (ρ id) = (t.get id).map (Booking.renamed ρ) := by
  have same : (fun b : Booking => b.id == ρ id) ∘ Booking.renamed ρ = fun b => b.id == id := by
    funext b
    rw [Bool.eq_iff_iff, Function.comp_apply, beq_iff_eq, beq_iff_eq]
    exact ρ.injective.eq_iff
  rw [get, renamed, List.find?_map, same]
  rfl

theorem bookedDuring_renamed (carType : CarType) (period : RentalPeriod) :
    (t.renamed ρ k).bookedDuring carType period = t.bookedDuring carType period := by
  rw [bookedDuring, renamed, List.filter_map, List.map_map]
  rfl

theorem filter_renamed (customerId : Int) :
    ((t.renamed ρ k).bookings.filter fun b => b.customerId == customerId) =
      (t.bookings.filter fun b => b.customerId == customerId).map (Booking.renamed ρ) :=
  List.filter_map

theorem push_renamed (b : Booking) : (t.push b).renamed ρ k = (t.renamed ρ k).push (b.renamed ρ) := by
  simp only [push, renamed, List.map_append, List.map_singleton, Table.mk.injEq, true_and]
  omega

theorem cancelled_renamed (id : Int) (now : Instant) :
    (t.cancelled id now).renamed ρ k = (t.renamed ρ k).cancelled (ρ id) now := by
  have same : Booking.renamed ρ ∘ cancelAt id now = cancelAt (ρ id) now ∘ Booking.renamed ρ := by
    funext b
    simp only [Function.comp_apply, cancelAt, Booking.renamed, ρ.injective.eq_iff]
    split <;> rfl
  simp only [cancelled, renamed, List.map_map, same]

end Table

end VehicleRentals
