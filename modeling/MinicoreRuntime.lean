import MinicoreRuntime.Interactive.Prog
import MinicoreRuntime.Interactive.Interpret
import MinicoreRuntime.Interactive.Monitor
import MinicoreRuntime.Interactive.Ghost
import MinicoreRuntime.Interactive.Justified
import MinicoreRuntime.Containers.OrderedMap
import MinicoreRuntime.Containers.Utf8
import MinicoreRuntime.Value
import MinicoreRuntime.Decode
import MinicoreRuntime.Ids
import MinicoreRuntime.Time
import MinicoreRuntime.Limits
import MinicoreRuntime.Error
import MinicoreRuntime.Tools
import MinicoreRuntime.ToolSet
import MinicoreRuntime.Model.Message
import MinicoreRuntime.Model.Request
import MinicoreRuntime.Model.ExchangeGrammar
import MinicoreRuntime.Model.Response
import MinicoreRuntime.Usage
import MinicoreRuntime.Budget
import MinicoreRuntime.Model.Assembler
import MinicoreRuntime.Model.Grammar
import MinicoreRuntime.Model.Assembly
import MinicoreRuntime.Model.Chunking
import MinicoreRuntime.History
import MinicoreRuntime.Execution
import MinicoreRuntime.Prompt
import MinicoreRuntime.Summary
import MinicoreRuntime.AgentLoop.State
import MinicoreRuntime.AgentLoop.Control
import MinicoreRuntime.Runtime.Ops
import MinicoreRuntime.Runtime.World
import MinicoreRuntime.Runtime.Machine
import MinicoreRuntime.Runtime.Log
import MinicoreRuntime.AgentLoop.Updates
import MinicoreRuntime.Runtime.PortCall
import MinicoreRuntime.Runtime.Isolation
import MinicoreRuntime.Model.Driver
import MinicoreRuntime.AgentLoop.Runner.Model
import MinicoreRuntime.AgentLoop.Delivery
import MinicoreRuntime.AgentLoop.Runner.Tools
import MinicoreRuntime.AgentLoop.Runner
import MinicoreRuntime.AgentLoop.Catalog
import MinicoreRuntime.AgentLoop.Session
import MinicoreRuntime.AgentLoop.Quiet
import MinicoreRuntime.AgentLoop.Conformance.Tools
import MinicoreRuntime.AgentLoop.Conformance.Runner
import MinicoreRuntime.AgentLoop.Conformance
import MinicoreRuntime.AgentLoop.Admission
import MinicoreRuntime.AgentLoop.Transcript
import MinicoreRuntime.AgentLoop.Continuity
import MinicoreRuntime.AgentLoop.Traversal
import MinicoreRuntime.AgentLoop.Rounds
import MinicoreRuntime.AgentLoop.Relay
import MinicoreRuntime.AgentLoop.EventLedger
import MinicoreRuntime.AgentLoop.Reconciliation
import MinicoreRuntime.AgentLoop.Losses
import MinicoreRuntime.AgentLoop.Answers
import MinicoreRuntime.AgentLoop.Results
import MinicoreRuntime.Interactive.Watch
import MinicoreRuntime.AgentLoop.Completion
import MinicoreRuntime.AgentLoop.Stopping
import MinicoreRuntime.AgentLoop.Retries
import MinicoreRuntime.Runtime.Cancellation
import MinicoreRuntime.AgentLoop.Ledger
import MinicoreRuntime.AgentLoop.Accounts
import MinicoreRuntime.AgentLoop.Accounting
import MinicoreRuntime.AgentLoop.Questions
import MinicoreRuntime.AgentLoop.Asking
import MinicoreRuntime.AgentLoop.Interactions
import MinicoreRuntime.Wire.Derive
import MinicoreRuntime.Wire.Values
import MinicoreRuntime.Wire.Model
import MinicoreRuntime.Wire.History
import MinicoreRuntime.AgentLoop.Persistence
import MinicoreRuntime.AgentLoop.Endings
import MinicoreRuntime.Wire.RuntimeIds
import MinicoreRuntime.AgentLoop.Linearization
import MinicoreRuntime.AgentLoop.Provenance
import MinicoreRuntime.AgentLoop.Fallback
import MinicoreRuntime.AgentLoop.Approvals
import MinicoreRuntime.AgentLoop.Authorisation
import MinicoreRuntime.AgentLoop.Freshness
import MinicoreRuntime.Interactive.Pace
import MinicoreRuntime.Interactive.Guarded
import MinicoreRuntime.AgentLoop.Pacing
import MinicoreRuntime.AgentLoop.Liveness
import MinicoreRuntime.AgentLoop.Responsiveness
import MinicoreRuntime.AgentLoop.Streaming
import MinicoreRuntime.AgentLoop.Narration
import MinicoreRuntime.Interactive.Allowance
import MinicoreRuntime.AgentLoop.Footprint
import MinicoreRuntime.AgentLoop.Expenses
import MinicoreRuntime.AgentLoop.Start
import MinicoreRuntime.AgentLoop.Ceilings
import MinicoreRuntime.Wire.Canonical
import MinicoreRuntime.AgentLoop.Conversation
import MinicoreRuntime.AgentLoop.Verdicts
import MinicoreRuntime.Wire.Errors
import MinicoreRuntime.AgentLoop.Workload
import MinicoreRuntime.AgentLoop.Prompting
