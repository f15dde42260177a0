import WageringProcessor.ColumnSystem
import WageringProcessor.Invariants.Admission
import WageringProcessor.Invariants.Alone
import WageringProcessor.Invariants.Apply
import WageringProcessor.Invariants.Calls
import WageringProcessor.Invariants.ColumnFit
import WageringProcessor.Invariants.Commits
import WageringProcessor.Invariants.Consistent
import WageringProcessor.Invariants.Consume
import WageringProcessor.Invariants.ConsumeAlone
import WageringProcessor.Invariants.ConsumeSteps
import WageringProcessor.Invariants.Dating
import WageringProcessor.Invariants.Decisions
import WageringProcessor.Invariants.Effect
import WageringProcessor.Invariants.Executing
import WageringProcessor.Invariants.Finalizing
import WageringProcessor.Invariants.FirstSubmit
import WageringProcessor.Invariants.Flushing
import WageringProcessor.Invariants.Frame
import WageringProcessor.Invariants.Holding
import WageringProcessor.Invariants.Linear
import WageringProcessor.Invariants.LinearCalls
import WageringProcessor.Invariants.LinearRuns
import WageringProcessor.Invariants.Locking
import WageringProcessor.Invariants.OpenWallet
import WageringProcessor.Invariants.OpenWalletSteps
import WageringProcessor.Invariants.OutOfOrder
import WageringProcessor.Invariants.Permitted
import WageringProcessor.Invariants.Preservation
import WageringProcessor.Invariants.PublishOutbox
import WageringProcessor.Invariants.Reachable
import WageringProcessor.Invariants.Rely
import WageringProcessor.Invariants.Renaming
import WageringProcessor.Invariants.Reprocess
import WageringProcessor.Invariants.ReprocessAlone
import WageringProcessor.Invariants.ReprocessSteps
import WageringProcessor.Invariants.Resolution
import WageringProcessor.Invariants.Resubmit
import WageringProcessor.Invariants.Retrying
import WageringProcessor.Invariants.Sending
import WageringProcessor.Invariants.Settlement
import WageringProcessor.Invariants.Spelling
import WageringProcessor.Invariants.Submit
import WageringProcessor.Invariants.SubmitSteps
import WageringProcessor.Invariants.SystemSteps
import WageringProcessor.Invariants.Unrelated
import WageringProcessor.Library.Base64
import WageringProcessor.Library.Budget
import WageringProcessor.Library.Chain
import WageringProcessor.Library.Correspondence
import WageringProcessor.Library.Decimal
import WageringProcessor.Library.Draining
import WageringProcessor.Library.Interleaving
import WageringProcessor.Library.JsonText
import WageringProcessor.Library.Keyset
import WageringProcessor.Library.ListOrder
import WageringProcessor.Library.Locks
import WageringProcessor.Library.PropertyOrder
import WageringProcessor.Library.Redelivery
import WageringProcessor.Library.Refinement
import WageringProcessor.Library.Rounds
import WageringProcessor.Library.Table
import WageringProcessor.Library.Timers
import WageringProcessor.Messaging.Domain
import WageringProcessor.Messaging.SqsClient
import WageringProcessor.Messaging.Wire
import WageringProcessor.Persistence.Columns
import WageringProcessor.Persistence.Database
import WageringProcessor.Persistence.Jsonb
import WageringProcessor.Properties.AmountRange
import WageringProcessor.Properties.Answers
import WageringProcessor.Properties.Backlog
import WageringProcessor.Properties.Batches
import WageringProcessor.Properties.Consumption
import WageringProcessor.Properties.Contention
import WageringProcessor.Properties.Convergence
import WageringProcessor.Properties.Currency
import WageringProcessor.Properties.Deadlocks
import WageringProcessor.Properties.Deduplication
import WageringProcessor.Properties.Draining
import WageringProcessor.Properties.Effects
import WageringProcessor.Properties.Entries
import WageringProcessor.Properties.Idempotency
import WageringProcessor.Properties.Independence
import WageringProcessor.Properties.LedgerIntegrity
import WageringProcessor.Properties.LedgerListing
import WageringProcessor.Properties.Lifecycle
import WageringProcessor.Properties.Malformed
import WageringProcessor.Properties.Ordering
import WageringProcessor.Properties.OutboxHistory
import WageringProcessor.Properties.Pagination
import WageringProcessor.Properties.PayloadIdentity
import WageringProcessor.Properties.Publishing
import WageringProcessor.Properties.QueueUrls
import WageringProcessor.Properties.Readings
import WageringProcessor.Properties.Reconciliation
import WageringProcessor.Properties.Refusals
import WageringProcessor.Properties.Reprocessing
import WageringProcessor.Properties.Retries
import WageringProcessor.Properties.ReversalTree
import WageringProcessor.Properties.Reversals
import WageringProcessor.Properties.Serial
import WageringProcessor.Properties.Spelling
import WageringProcessor.Properties.Subscribers
import WageringProcessor.Properties.WorkerLoops
import WageringProcessor.Runs
import WageringProcessor.Shared.Cursor
import WageringProcessor.Shared.IsoDate
import WageringProcessor.Shared.Kernel
import WageringProcessor.Shared.MoneyText
import WageringProcessor.System
import WageringProcessor.UseCases.Consume
import WageringProcessor.UseCases.ConsumeAlone
import WageringProcessor.UseCases.GetWalletLedger
import WageringProcessor.UseCases.LedgerPages
import WageringProcessor.UseCases.OpenWallet
import WageringProcessor.UseCases.PublishOutbox
import WageringProcessor.UseCases.Reads
import WageringProcessor.UseCases.ReconcileWallet
import WageringProcessor.UseCases.Reprocess
import WageringProcessor.UseCases.Serial
import WageringProcessor.UseCases.Shared
import WageringProcessor.UseCases.Submit
import WageringProcessor.UseCases.SubmitAlone
import WageringProcessor.Wagering.CanonicalJson
import WageringProcessor.Wagering.Domain
import WageringProcessor.Wagering.Finalizer
import WageringProcessor.Wagering.MessageGrammar
import WageringProcessor.Wagering.ParseMessage
import WageringProcessor.Wagering.PayloadHash
import WageringProcessor.Wagering.SubmitDto
import WageringProcessor.Wallets.Domain
import WageringProcessor.Wallets.Movements
import WageringProcessor.Worker.RepeatingTask
