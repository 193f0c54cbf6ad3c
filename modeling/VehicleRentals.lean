import VehicleRentals.Concurrent.Runs
import VehicleRentals.Concurrent.Programs
import VehicleRentals.Concurrent.Linearize
import VehicleRentals.Concurrent.Waits
import VehicleRentals.Concurrent.Batch
import VehicleRentals.Concurrent.Measures
import VehicleRentals.Concurrent.Relational
import VehicleRentals.Concurrent.Sessions
import VehicleRentals.Sweep
import VehicleRentals.Intervals
import VehicleRentals.Admission
import VehicleRentals.Zones
import VehicleRentals.Doubles
import VehicleRentals.Domain.Errors
import VehicleRentals.Domain.Clock
import VehicleRentals.Domain.CarType
import VehicleRentals.Domain.Period
import VehicleRentals.Domain.Booking
import VehicleRentals.Domain.Policy
import VehicleRentals.Domain.ForDays
import VehicleRentals.Domain.Allowance
import VehicleRentals.Domain.Schedule
import VehicleRentals.Domain.Cars
import VehicleRentals.Domain.Table
import VehicleRentals.Domain.Desk
import VehicleRentals.Domain.Renaming
import VehicleRentals.Domain.Programs
import VehicleRentals.Memory.Ledger
import VehicleRentals.Memory.Stages
import VehicleRentals.Memory.Tables
import VehicleRentals.Memory.Invariant
import VehicleRentals.Memory.Progress
import VehicleRentals.Memory.Bookings
import VehicleRentals.Memory.Workload
import VehicleRentals.Memory.Answers
import VehicleRentals.Memory.Privacy
import VehicleRentals.Dashboard
import VehicleRentals.Admin
import VehicleRentals.Memory.Linearizable
import VehicleRentals.Memory.Orders
import VehicleRentals.Memory.Replays
import VehicleRentals.Memory.Availability
import VehicleRentals.Memory.Cancellations
import VehicleRentals.Postgres.Tables
import VehicleRentals.Postgres.Statements
import VehicleRentals.Postgres.Ledger
import VehicleRentals.Postgres.Mirror
import VehicleRentals.Postgres.Responses
import VehicleRentals.Postgres.Protocol
import VehicleRentals.Postgres.Locks
import VehicleRentals.Postgres.Stages
import VehicleRentals.Postgres.Advance
import VehicleRentals.Postgres.Jobs
import VehicleRentals.Postgres.Deadlock
import VehicleRentals.Postgres.Overbooking
import VehicleRentals.Postgres.LifeCycle
import VehicleRentals.Postgres.Timeouts
import VehicleRentals.Postgres.Equivalence
import VehicleRentals.Postgres.Serializable
import VehicleRentals.Postgres.Progress
import VehicleRentals.Postgres.Sessions
import VehicleRentals.Postgres.Bookings
import VehicleRentals.Postgres.History
import VehicleRentals.Web.Views
import VehicleRentals.Web.Visits
import VehicleRentals.Web.Equivalence
import VehicleRentals.Web.Calls
import VehicleRentals.Web.Reports
import VehicleRentals.Web.Interleaved
import VehicleRentals.Web.Shown
import VehicleRentals.Web.Told
import VehicleRentals.Web.Answered
import VehicleRentals.Web.ValidForms
