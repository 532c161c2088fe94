import NyxId.Encoding.Text
import NyxId.Encoding.Records
import NyxId.Encoding.Json
import NyxId.Interleave.Machine
import NyxId.Interleave.Rely
import NyxId.Interleave.Collection
import NyxId.Credits
import NyxId.UsageMeter
import NyxId.LagoCarry.Model
import NyxId.LagoCarry.Accounting
import NyxId.LagoCarry.Law
import NyxId.Interleave.Transactions
import NyxId.MachineRuntime.Model
import NyxId.MachineRuntime.Moves
import NyxId.MachineRuntime.Accounting
import NyxId.MachineRuntime.Coverage
import NyxId.MachineRuntime.Law
import NyxId.Billing.Ledger
import NyxId.Billing.Benefits
import NyxId.Billing.Wallets
import NyxId.Billing.Updates
import NyxId.Billing.Admission
import NyxId.Billing.Operations
import NyxId.Billing.Resources
import NyxId.Billing.Workers
import NyxId.Billing.Rows
import NyxId.OracleTasks.Model
import NyxId.OracleTasks.Law
import NyxId.OracleTasks.Histories
import NyxId.OracleTasks.Routing
import NyxId.OracleTasks.Attempts
import NyxId.Billing.Openings
import NyxId.Billing.History
import NyxId.SandboxRuntime.Model
import NyxId.SandboxRuntime.Coverage
import NyxId.AuditChain.HashCoverage
import NyxId.LedgerChain.Model
import NyxId.LedgerChain.HashCoverage
import NyxId.LedgerChain.Checkpoints
import NyxId.LedgerChain.BatchAppend
import NyxId.LedgerChain.Reachable
import NyxId.ChainVerify.Model
import NyxId.ChainVerify.Paging
import NyxId.ChainVerify.Coverage
import NyxId.ChainVerify.Chains
import NyxId.Reconciliation.Model
import NyxId.Reconciliation.FullPass
import NyxId.OperationScope.Rules
import NyxId.OperationScope.Templates
import NyxId.OperationScope.Scopes
import NyxId.OperationScope.Narrowing
import NyxId.OperationScope.Forwarding
import NyxId.OperationScope.Rereading
import NyxId.UsageRollup.Model
import NyxId.UsageRollup.Counters
import NyxId.UsageRollup.Invariant
import NyxId.UsageRollup.Steps
import NyxId.UsageRollup.ExactlyOnce
import NyxId.MachineText.Model
import NyxId.MachineText.Rings
import NyxId.MachineText.Streams
import NyxId.MachineAuthority
import NyxId.MachineRequests.Model
import NyxId.MachineRequests.Binding
import NyxId.MachineRequests.Replay
import NyxId.MachineContexts.Model
import NyxId.MachineContexts.Isolation
import NyxId.MachineContexts.History
import NyxId.Interleave.Runs
import NyxId.Interleave.Tenures
import NyxId.Coordination.Model
import NyxId.Coordination.Updates
import NyxId.Coordination.Leases
import NyxId.Coordination.Slots
import NyxId.Coordination.Events
import NyxId.Interleave.Tasks
import NyxId.Permissions.Model
import NyxId.Permissions.Outcomes
import NyxId.Permissions.Drive
import NyxId.Permissions.Containment
import NyxId.SettlementIntent.Programs
import NyxId.SettlementIntent.Invariant
import NyxId.SettlementIntent.Releases
import NyxId.SettlementIntent.Workers
import NyxId.SettlementIntent.Schedules
import NyxId.SettlementIntent.Law
import NyxId.NodeSigning.Replay
import NyxId.NodeSigning.Messages
import NyxId.NodeSigning.Binding
import NyxId.ManagedDeadline.Model
import NyxId.ManagedDeadline.Law
import NyxId.Fences.Leases
import NyxId.Fences.AuthorityModel
import NyxId.Fences.AuthorityLaw
import NyxId.Fences.ExternalModel
import NyxId.Fences.ExternalLaw
import NyxId.Encryption.Model
import NyxId.Encryption.Formats
import NyxId.Encryption.RecordLaw
import NyxId.Encryption.Rotation
import NyxId.DurableGrants.Model
import NyxId.DurableGrants.Invariant
import NyxId.DurableGrants.Writes
import NyxId.DurableGrants.Law
import NyxId.DurableGrants.Spending
import NyxId.PublicBudgets.Model
import NyxId.PublicBudgets.Books
import NyxId.PublicBudgets.Law
import NyxId.PublicBudgets.Postings
import NyxId.PublicBudgets.Conservation
import NyxId.SandboxRuntime.EvidenceLaw
import NyxId.ModelUsage.Law
import NyxId.DeviceCodes.Law
import NyxId.ExactApproval.Law
import NyxId.CreditSchedules.Law
import NyxId.Billing.WindowAttempts
import NyxId.Billing.TaxRounding
import NyxId.Waterfall
import NyxId.CredentialContext
import NyxId.Billing.PurchasedRemaining
import NyxId.Encoding.Numerals
import NyxId.CreditsText
import NyxId.Encoding.Decimal128
import NyxId.CreditsDecimal
import NyxId.Permissions.NumberBounds
import NyxId.OperationPath.Law
import NyxId.RateLimits.Law
import NyxId.TriggerSchedule.Law
import NyxId.EventStream.Model
import NyxId.TriggerSchedule.Cadence
import NyxId.EventStream.Law
import NyxId.MachineQuota.Model
import NyxId.MachineQuota.Exactness
import NyxId.MachineQuota.Law
import NyxId.TurnStops.Model
import NyxId.TurnStops.Law
import NyxId.ProxyUploads.Model
import NyxId.ProxyUploads.Pump
import NyxId.ProxyUploads.Law
import NyxId.FileTree.Canonical
import NyxId.Outcomes
import NyxId.MachineFiles.Roots
import NyxId.MachineFiles.Grants
import NyxId.MachineFiles.Listing
import NyxId.Paging
import NyxId.MachineFiles.ListingLaw
import NyxId.UrlValidation.Model
import NyxId.UrlValidation.Law
import NyxId.Permissions.Markers
import NyxId.Channel.Text
import NyxId.Channel.Replies
import NyxId.Channel.RepliesLaw
import NyxId.DeviceCodes.Polls
import NyxId.DeadlineRecovery.Model
import NyxId.DeadlineRecovery.Law
import NyxId.WorkerCommands.Model
import NyxId.WorkerCommands.Law
