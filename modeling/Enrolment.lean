import Enrolment.Bytes.Base58
import Enrolment.Bytes.Basic
import Enrolment.Bytes.Hex
import Enrolment.Bytes.Utf8
import Enrolment.Codec.Format
import Enrolment.Codec.Json
import Enrolment.Codec.Record
import Enrolment.Credit.Ledger
import Enrolment.Credit.Lock
import Enrolment.Credit.Transaction
import Enrolment.Crypto.Blake3
import Enrolment.Crypto.Ed25519
import Enrolment.Crypto.Keys
import Enrolment.Crypto.Sha512
import Enrolment.Crypto.Suite
import Enrolment.Error
import Enrolment.Identity.Id
import Enrolment.Identity.Record
import Enrolment.Name.Claim
import Enrolment.Name.Commitment
import Enrolment.Name.Label
import Enrolment.Registration.Coordinator
import Enrolment.Registration.Error
import Enrolment.Registration.Flow
import Enrolment.Registration.Identity
import Enrolment.Registration.Phase
import Enrolment.Registration.Routine
import Enrolment.Registration.Settings
import Enrolment.Registration.Usernames
import Enrolment.Registry.Document
import Enrolment.Registry.Transition
import Enrolment.Retry.Schedule
import Enrolment.Retry.Submission
import Enrolment.Retry.Timeline
import Enrolment.Retry.Timer
import Enrolment.Retry.Watch
import Enrolment.Simulation.Calls
import Enrolment.Simulation.Platform
import Enrolment.Simulation.Scenario
import Enrolment.Simulation.Surroundings
import Enrolment.Simulation.World
import Enrolment.Table
import Enrolment.Text.Blank
import Enrolment.Text.Quoted
import Enrolment.Text.Visible
import Enrolment.Timestamp
import Enrolment.Proofs.Trace
import Enrolment.Proofs.Evolution
import Enrolment.Proofs.Name.FullName
import Enrolment.Proofs.Name.Track
import Enrolment.Proofs.Usernames.Holdings
import Enrolment.Proofs.Usernames.Outliving
import Enrolment.Proofs.Usernames.Course
import Enrolment.Proofs.Usernames.Stages
import Enrolment.Proofs.Usernames.Batches
import Enrolment.Proofs.Usernames.Calls
import Enrolment.Proofs.Usernames.Standstill
import Enrolment.Proofs.Usernames.Outcomes
import Enrolment.Proofs.Usernames.Submissions
import Enrolment.Proofs.Usernames.Primary
import Enrolment.Proofs.Identity.Moves
import Enrolment.Proofs.Identity.Course
import Enrolment.Proofs.Identity.Phases
import Enrolment.Proofs.Identity.Calls
import Enrolment.Proofs.Flow.Course
import Enrolment.Proofs.Flow.Run
import Enrolment.Proofs.Flow.Gates
import Enrolment.Proofs.Flow.World
import Enrolment.Proofs.Pausing.Heed
import Enrolment.Proofs.Pausing.Registrations
import Enrolment.Proofs.Pausing.Flows
import Enrolment.Proofs.Platform.Service
import Enrolment.Proofs.Platform.Checks
import Enrolment.Proofs.Platform.Share
import Enrolment.Proofs.Platform.Acts
import Enrolment.Proofs.Platform.Names
import Enrolment.Proofs.Identity.Service
import Enrolment.Proofs.Usernames.Service
import Enrolment.Proofs.Usernames.Ending
import Enrolment.Proofs.Flow.Encounter
import Enrolment.Proofs.Flow.Ending
import Enrolment.Proofs.Pausing.Resuming
import Enrolment.Proofs.Usernames.Requests
import Enrolment.Proofs.Pausing.Scheduling
import Enrolment.Proofs.Usernames.PrimaryName
import Enrolment.Proofs.Flow.Commands
import Enrolment.Proofs.Pausing.Continuing
import Enrolment.Proofs.Flow.Accounts
import Enrolment.Proofs.Flow.Registry
import Enrolment.Proofs.Flow.Bookkeeping
import Enrolment.Proofs.Flow.Turns
import Enrolment.Proofs.Usernames.Agreement
import Enrolment.Proofs.Identity.Retrying
import Enrolment.Proofs.Codec.Timestamp
import Enrolment.Proofs.Codec.Formats
import Enrolment.Proofs.Codec.Records
import Enrolment.Proofs.Codec.RoundTrip
import Enrolment.Proofs.Platform.Separation
import Enrolment.Proofs.Usernames.Rebuilding
import Enrolment.Proofs.Name.Binding
import Enrolment.Proofs.Registry.Identifiers
import Enrolment.Proofs.Platform.Locks
import Enrolment.Proofs.Usernames.Upholding
import Enrolment.Proofs.Usernames.Succession
import Enrolment.Proofs.Usernames.Mistakes
import Enrolment.Proofs.Flow.Replies
import Enrolment.Proofs.Flow.Starting
import Enrolment.Proofs.Retry.Watching
import Enrolment.Proofs.Retry.Submitting
import Enrolment.Proofs.Retry.Delays
import Enrolment.Proofs.Name.Grammar
import Enrolment.Proofs.Platform.Showing
import Enrolment.Proofs.Credit.Funding
import Enrolment.Proofs.Credit.Ledger
import Enrolment.Proofs.Usernames.Adopting
import Enrolment.Proofs.Name.Histories
import Enrolment.Proofs.Codec.Base58
import Enrolment.Proofs.Usernames.Reporting
import Enrolment.Proofs.Flow.Parents
