import VehicleRentals.Concurrent.Programs
import VehicleRentals.Domain.Desk

/-!
# The desk's calls as programs

Over a ledger whose operations are programs, every call of the desk is a
program. The equations here spell out its control flow, exceptions included, in
terms of the ledger's operations only; each ledger's stages are read off them.
-/

namespace VehicleRentals

open Concurrent

universe v

variable {E : Type → Type} {B : Type → Type v}

theorem liftExcept_bind {α β : Type} (x : Except Exn α) (f : Except Exn α → Prog E β) :
    Prog.bind (ExceptT.run (liftExcept x)) f = f x := by
  cases x <;> rfl

theorem run_liftExcept {α : Type} (x : Except Exn α) :
    ExceptT.run (liftExcept x : ExceptT Exn (Prog E) α) = .ret x := by
  cases x <;> rfl

theorem run_bind {α β : Type} (x : ExceptT Exn (Prog E) α) (f : α → ExceptT Exn (Prog E) β) :
    (x >>= f).run = x.run.bind fun
      | .ok a => (f a).run
      | .error e => .ret (.error e) := by
  show Prog.bind _ _ = Prog.bind _ _
  refine Prog.bind_congr fun r => ?_
  cases r <;> rfl

/-- A computation whose result is only wrapped. -/
theorem run_map {α β : Type} (x : ExceptT Exn (Prog E) α) (f : α → β) :
    (x >>= fun a => return f a).run = x.run.bind fun y => .ret (y.map f) := by
  rw [run_bind]
  refine Prog.bind_congr fun y => ?_
  cases y <;> rfl

namespace ReservationDesk

variable (desk : ReservationDesk (Prog E) B)

theorem reserveBlock_run (customer : Customer) (carType : CarType) (period : RentalPeriod)
    (key : IdempotencyKey) (now : Instant) (fleet : LockedFleet (Prog E)) :
    (desk.reserveBlock customer carType period key now fleet).run =
      (desk.ledger.findByKey customer.id key).run.bind fun
        | .error e => .ret (.error e)
        | .ok (some existing) => .ret (replay existing carType period)
        | .ok none =>
          match desk.policy.validate period now with
          | .error e => .ret (.error e)
          | .ok _ => (fleet.bookedDuring period).run.bind fun
            | .error e => .ret (.error e)
            | .ok booked =>
              if FleetSchedule.canAccommodate { fleetSize := fleet.size, booked } period then
                (fleet.add customer.id period key).run.bind fun added =>
                  .ret (added.map fun booking => { booking, replayed := false })
              else .ret (.error (noAvailability carType period)) := by
  unfold reserveBlock
  rw [run_bind]
  refine Prog.bind_congr fun found => ?_
  cases found with
  | error e => rfl
  | ok found =>
    cases found with
    | some existing => exact run_liftExcept _
    | none =>
      dsimp only
      rw [run_bind, liftExcept_bind]
      cases desk.policy.validate period now with
      | error e => rfl
      | ok _ =>
        dsimp only [LockedFleet.schedule]
        rw [run_bind, run_bind, Prog.bind_assoc]
        refine Prog.bind_congr fun booked => ?_
        cases booked with
        | error e => rfl
        | ok booked =>
          show ExceptT.run (ite _ _ _) = ite _ _ _
          by_cases fits : FleetSchedule.canAccommodate { fleetSize := fleet.size, booked } period = true
          · rw [if_pos fits, if_pos fits]
            exact run_map ..
          · rw [if_neg fits, if_neg fits]
            rfl

theorem reserveLost_run (customer : Customer) (carType : CarType) (period : RentalPeriod)
    (key : IdempotencyKey) :
    (desk.reserveLost customer carType period key .duplicateIdempotencyKey).run =
      (desk.ledger.findByKey customer.id key).run.bind fun
        | .error e => .ret (.error e)
        | .ok none => .ret (.error .duplicateIdempotencyKey)
        | .ok (some winner) => .ret (replay winner carType period) := by
  unfold reserveLost
  rw [run_bind]
  refine Prog.bind_congr fun found => ?_
  cases found with
  | error e => rfl
  | ok found =>
    cases found with
    | none => rfl
    | some winner => exact run_liftExcept _

/-- Any other exception leaves `reserve` as it is. -/
theorem reserveLost_other {customer : Customer} {carType : CarType} {period : RentalPeriod}
    {key : IdempotencyKey} {e : Exn} (h : e ≠ .duplicateIdempotencyKey) :
    (desk.reserveLost customer carType period key e).run = .ret (.error e) := by
  cases e <;> first | rfl | exact absurd rfl h

end ReservationDesk

variable [Monad B]

/-- `reserve` over any ledger: parse the key, run the block, and look again if
it was the insert that lost. -/
theorem program_reserve (ledger : BookingLedger (Prog E) B) (r : Reserve) :
    Call.program ledger (.reserve r) =
      match IdempotencyKey.new r.idempotencyKey with
      | .error e => .ret (.error e)
      | .ok key =>
        let desk : ReservationDesk (Prog E) B := { ledger, policy := r.policy }
        (ledger.exclusive r.carType (desk.reserveBlock r.customer r.carType r.period key r.now)).run.bind fun
          | .ok result => .ret (.ok (.booked result))
          | .error e => (desk.reserveLost r.customer r.carType r.period key e).run.bind fun x =>
              .ret (x.map .booked) := by
  simp only [Call.program, ReservationDesk.reserve]
  cases IdempotencyKey.new r.idempotencyKey with
  | error e => rfl
  | ok key =>
    rw [run_bind, run_bind, liftExcept_bind]
    show Prog.bind (Prog.bind _ _) _ = Prog.bind _ _
    rw [Prog.bind_assoc]
    refine Prog.bind_congr fun x => ?_
    cases x with
    | ok result => rfl
    | error e =>
      show Prog.bind _ _ = Prog.bind _ _
      refine Prog.bind_congr fun y => ?_
      cases y <;> rfl

theorem program_cancel (ledger : BookingLedger (Prog E) B) (bookingId : Int) (actor : Customer) (now : Instant) :
    Call.program ledger (.cancel bookingId actor now) =
      (ledger.exclusiveBooking bookingId
        (ReservationDesk.cancelBlock { ledger } bookingId actor now)).run.bind fun x =>
          .ret (x.map .cancelled) := by
  simp only [Call.program, ReservationDesk.cancel]
  exact run_map ..

theorem program_availability (ledger : BookingLedger (Prog E) B) (policy : BookingPolicy) (carType : CarType)
    (period : RentalPeriod) (now : Instant) :
    Call.program ledger (.availability policy carType period now) =
      match policy.validate period now with
      | .error e => .ret (.error e)
      | .ok _ => (ledger.schedule carType period).run.bind fun x =>
          .ret (x.map fun schedule => .free (schedule.remaining period)) := by
  simp only [Call.program, ReservationDesk.availability]
  cases policy.validate period now with
  | error e => rfl
  | ok _ =>
    rw [run_bind, run_bind, liftExcept_bind]
    dsimp only
    rw [run_bind, Prog.bind_assoc]
    refine Prog.bind_congr fun x => ?_
    cases x <;> rfl

theorem program_reservationsFor (ledger : BookingLedger (Prog E) B) (customer : Customer) :
    Call.program ledger (.reservationsFor customer) =
      (ledger.bookingsOf customer.id).run.bind fun x => .ret (x.map .listed) := by
  simp only [Call.program, ReservationDesk.reservationsFor]
  exact run_map ..

end VehicleRentals
