import MinicoreRuntime.Prompt

/-!
# Observable state, events and reports

What the outside sees of a loop: the state it publishes, its best-effort events, and the report it
ends with; and the paths on which a loop can end.

## Main definitions

* `LoopStatus`, `LoopState`.
* `LoopEvent`, `LoopEventEnvelope`.
* `CancelReason`, `LoopFailure`, `LoopOutcome`, `LoopReport`.
* `FailPath`: the ways the loop of requests ends.
-/

namespace MinicoreRuntime

/-- What a loop is doing. -/
inductive LoopStatus where
  | starting
  | runningModel
  | runningTools
  | waitingForInput
  | finishing
  | finished
deriving DecidableEq, Repr

/-- The state of a loop at one point in time. -/
structure LoopState where
  loopId : LoopId
  status : LoopStatus
  requestIndex : Nat
  configRevision : Nat
  model : Option ModelRef
  pendingInteraction : Option PendingInteraction
deriving DecidableEq

/-- A state without a model and without a pending interaction. -/
def LoopState.new (loopId : LoopId) (status : LoopStatus) (requestIndex configRevision : Nat) :
    LoopState :=
  ⟨loopId, status, requestIndex, configRevision, none, none⟩

/-! ## How a loop ends -/

/-- Why a loop was cancelled. -/
inductive CancelReason where
  | user
  | ownerDropped
  | shutdown
  | deadline
deriving DecidableEq, Repr

/-- Why a loop failed. -/
inductive LoopFailureKind where
  | prompt
  | model
  | invalidModelResponse
  | outputLimit
  | refused
  | contentFiltered
  | policy
  | interaction
  | maxToolRounds
  | internal
deriving DecidableEq, Repr

/-- Why a loop failed. -/
structure LoopFailure where
  kind : LoopFailureKind
  diagnostic : DiagnosticSummary
  modelError : Option ModelError
deriving DecidableEq

/-- How a loop ended. -/
inductive LoopOutcome where
  | completed
  | cancelled (reason : CancelReason)
  | failed (failure : LoopFailure)
deriving DecidableEq

/-- What a finished loop hands back. -/
structure LoopReport where
  loopId : LoopId
  outcome : LoopOutcome
  appended : List HistoryItem
  usage : Usage
  requests : Nat
  toolRounds : Nat
  finalConfigRevision : Nat

/-- The ways the loop of requests ends. -/
inductive FailPath where
  | completed
  | cancelled
  | deadline
  | prompt
  | model (error : ModelError)
  | invalidModelResponse (error : ModelError)
  | outputLimit
  | refused
  | contentFiltered
  | policy
  | interaction
  | maxToolRounds
  | internal
deriving DecidableEq

/-! ## Events -/

/-- The channels that a response is displayed on. -/
inductive OutputChannel where
  | text
  | reasoning
deriving DecidableEq, Repr

/-- How a loop ended, without diagnostics. -/
inductive LoopOutcomeSummary where
  | completed
  | cancelled (reason : CancelReason)
  | failed (kind : LoopFailureKind)
deriving DecidableEq, Repr

/-- The summary of an outcome. -/
def LoopOutcome.summary : LoopOutcome → LoopOutcomeSummary
  | .completed => .completed
  | .cancelled reason => .cancelled reason
  | .failed failure => .failed failure.kind

/-- A best-effort event of a loop. -/
inductive LoopEvent where
  | started (loopId : LoopId)
  | stateChanged (state : LoopState)
  | requestStarted (loopId : LoopId) (requestIndex configRevision : Nat) (model : ModelRef)
      (reasoning : ReasoningPreference)
  | outputDelta (loopId : LoopId) (requestIndex : Nat) (channel : OutputChannel)
      (delta : BoundedText)
  | toolStarted (loopId : LoopId) (requestIndex : Nat) (callId : ToolCallId) (toolName : ToolName)
  | toolProgress (loopId : LoopId) (requestIndex : Nat) (callId : ToolCallId)
      (progress : ToolProgress)
  | toolFinished (loopId : LoopId) (requestIndex : Nat) (callId : ToolCallId)
      (outcome : ToolResultOutcome) (outputBytes : Nat)
  | interactionRequested (loopId : LoopId) (interaction : PendingInteraction)
  | interactionResolved (loopId : LoopId) (interactionId : InteractionId)
  | finished (loopId : LoopId) (outcome : LoopOutcomeSummary)

/-- An event with the number of events lost before it. -/
structure LoopEventEnvelope where
  droppedBefore : Nat
  event : LoopEvent

/-- Add within an unsigned number of `bits` bits. -/
def saturatingAdd (bits left right : Nat) : Nat := min (left + right) (2 ^ bits - 1)

/-- The event queue of a loop, with its sink. -/
structure LoopEvents where
  capacity : Nat
  queue : List LoopEventEnvelope
  /-- The receiving half was dropped. -/
  receiverDropped : Bool
  /-- The events lost since the last one delivered. -/
  dropped : Nat
  /-- The sink found the receiving half dropped. -/
  closed : Bool

namespace LoopEvents

/-- An empty queue. -/
def channel (capacity : Nat) : LoopEvents := ⟨capacity, [], false, 0, false⟩

/-- Count events lost elsewhere. -/
def recordDropped (events : LoopEvents) (count : Nat) : LoopEvents :=
  { events with dropped := saturatingAdd 64 events.dropped count }

/-- Queue an event if there is room for it. -/
def tryEmit (events : LoopEvents) (event : LoopEvent) : LoopEvents :=
  if events.closed then events
  else if events.receiverDropped then { events with closed := true }
  else if events.queue.length < events.capacity then
    { events with queue := events.queue ++ [⟨events.dropped, event⟩], dropped := 0 }
  else { events with dropped := saturatingAdd 64 events.dropped 1 }

end LoopEvents

end MinicoreRuntime
