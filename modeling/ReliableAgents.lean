import ReliableAgents.Relational.Table
import ReliableAgents.Relational.Groups
import ReliableAgents.Relational.Changes
import ReliableAgents.Machine.Run
import ReliableAgents.Common.Protocol
import ReliableAgents.Relational.Successor
import ReliableAgents.Common.Tiers
import ReliableAgents.Common.TierTable
import ReliableAgents.Db.Schema
import ReliableAgents.Worker.Lease
import ReliableAgents.Orchestrator.Ledger
import ReliableAgents.Worker.Executor
import ReliableAgents.Orchestrator.Sweeps
import ReliableAgents.Orchestrator.Classify
import ReliableAgents.Orchestrator.Routing
import ReliableAgents.Common.Metrics
import ReliableAgents.Api.Submit
import ReliableAgents.System
import ReliableAgents.Orchestrator.Transactions
import ReliableAgents.Api.Admission
import ReliableAgents.Lifecycle.Statements
import ReliableAgents.Deployment
import ReliableAgents.Orchestrator.Depth
import ReliableAgents.Lifecycle.RoutedOnce
import ReliableAgents.Lifecycle.View
import ReliableAgents.Lifecycle.Projection
import ReliableAgents.Lifecycle.Sweeps
import ReliableAgents.Lifecycle.Phases
import ReliableAgents.Lifecycle.Refinement
import ReliableAgents.Lifecycle.Losses
import ReliableAgents.Lifecycle.Pinned
import ReliableAgents.Lifecycle.AtCursor
import ReliableAgents.Orchestrator.Tick
import ReliableAgents.Orchestrator.Repair
import ReliableAgents.Orchestrator.RepairTransactions
import ReliableAgents.Lifecycle.SweepChanges
import ReliableAgents.Lifecycle.SweepOrder
import ReliableAgents.Lifecycle.LiveLadder
import ReliableAgents.Lifecycle.LeaseFields
import ReliableAgents.Lifecycle.CommittedPrefix
import ReliableAgents.Lifecycle.DeadLetters
import ReliableAgents.Lifecycle.PriorContext
import ReliableAgents.Lifecycle.Promotion
import ReliableAgents.Lifecycle.EscalationCount
import ReliableAgents.Lifecycle.Handouts
import ReliableAgents.Lifecycle.Budgets
import ReliableAgents.Lifecycle.Accounting
import ReliableAgents.Lifecycle.Fencing
import ReliableAgents.Lifecycle.SoleHolder
import ReliableAgents.Lifecycle.Reference
import ReliableAgents.Lifecycle.Tracking
import ReliableAgents.Lifecycle.Transparency
import ReliableAgents.Effects.Reservations
import ReliableAgents.Effects.Holders
import ReliableAgents.Effects.AtMostOnce
import ReliableAgents.Effects.LedgerMetrics
import ReliableAgents.Lifecycle.CostLedger
import ReliableAgents.Lifecycle.Baselines
import ReliableAgents.Lifecycle.StaleCopies
import ReliableAgents.Lifecycle.Resolution
import ReliableAgents.Effects.ActionText
import ReliableAgents.Effects.Success
import ReliableAgents.Effects.Reconciliation
import ReliableAgents.Effects.ActionIds
import ReliableAgents.Api.AdmissionBound
import ReliableAgents.Scale.Autoscaler
import ReliableAgents.Tasks.Tools
import ReliableAgents.Tasks.ToolOverrides
import ReliableAgents.Tasks.ToolCalls
import ReliableAgents.Machine.Imports
import ReliableAgents.Tasks.Registry
import ReliableAgents.Tasks.KnownTasks
import ReliableAgents.Effects.Refusals
import ReliableAgents.Lifecycle.Rewrites
import ReliableAgents.Effects.RetryBudget
import ReliableAgents.Lifecycle.Remaining
import ReliableAgents.Machine.Ranking
import ReliableAgents.Lifecycle.Draining
import ReliableAgents.Lifecycle.Waiting
import ReliableAgents.Lifecycle.KeepAlive
import ReliableAgents.Lifecycle.ClaimScan
import ReliableAgents.Lifecycle.Conservation
import ReliableAgents.Machine.Cache
import ReliableAgents.Common.Runtime
import ReliableAgents.Lifecycle.Toggles
import ReliableAgents.Lifecycle.PinnedBaseline
import ReliableAgents.Machine.Forever
import ReliableAgents.Lifecycle.Termination
import ReliableAgents.Machine.Workflow
import ReliableAgents.Lifecycle.Journal
import ReliableAgents.Machine.Locking
import ReliableAgents.Lifecycle.Atomicity
import ReliableAgents.Scale.Backlog
