import Fides.Bookkeeping.DoubleEntry
import Fides.Numeric.FixedWidth
import Fides.Relational.Table
import Fides.Concurrency.Program
import Fides.Concurrency.Interleaving
import Fides.Concurrency.RelyGuarantee
import Fides.Concurrency.Serial
import Fides.Concurrency.WaitFor
import Fides.Domain.Account
import Fides.Domain.Transaction
import Fides.Domain.Validation
import Fides.Storage.Schema
import Fides.Storage.Postgres
import Fides.Storage.Cache
import Fides.Service.Proto
import Fides.Service.Calls
import Fides.Service.Ledger
import Fides.Ledger.Lines
import Fides.Ledger.Admission
import Fides.Ledger.Computation
import Fides.Ledger.Book
import Fides.Ledger.Updates
import Fides.Ledger.Exactness
import Fides.Service.History
import Fides.Service.Duplicates
import Fides.Service.Status
import Fides.Service.Streaming
import Fides.Startup.Config
import Fides.Text.Slices
import Fides.Ledger.Statements
import Fides.Ledger.Merging
import Fides.Ledger.Protocol
import Fides.Ledger.Rules
import Fides.Ledger.Locking
import Fides.Ledger.Settling
import Fides.Ledger.Authorizing
import Fides.Ledger.Handlers
import Fides.Ledger.Runs
import Fides.Ledger.Conservation
import Fides.Ledger.Settlements
import Fides.Ledger.Caching
import Fides.Ledger.Reservation
import Fides.Ledger.Deadlock
import Fides.Ledger.Versions
import Fides.Ledger.Idempotency
import Fides.Ledger.Coherence
import Fides.Ledger.Staleness
import Fides.Ledger.Audit
import Fides.Ledger.Footprint
import Fides.Ledger.Splitting
import Fides.Ledger.Replays
import Fides.Ledger.Retries
import Fides.Ledger.Aggregation
import Fides.Observability.Integrity
import Fides.Ledger.Integrity
import Fides.Ledger.Verdicts
import Fides.Concurrency.Alone
import Fides.Ledger.Releasing
import Fides.Ledger.Accounts
import Fides.Ledger.Outcomes
import Fides.Concurrency.Evaluation
import Fides.Ledger.Contract
import Fides.Ledger.Stages
import Fides.Ledger.Conformance
import Fides.Concurrency.Progress
import Fides.Concurrency.Lockstep
import Fides.Ledger.Progress
import Fides.Ledger.Permanence
import Fides.Ledger.Grounds
import Fides.Ledger.Refusals
import Fides.Ledger.Secrecy
import Fides.Concurrency.Channel
import Fides.Ledger.Reading
import Fides.Ledger.Linearizability
import Fides.Ledger.Streaming
import Fides.Ledger.Durability
import Fides.Ledger.Alarms
import Fides.Concurrency.Credit
import Fides.Ledger.Budget
