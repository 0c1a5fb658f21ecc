import MinicoreRuntime.Interactive.Monitor
import MinicoreRuntime.Model.Assembler
import MinicoreRuntime.AgentLoop.Control

/-!
# The operations of the runner

Everything the runner of a loop does to the world outside its local variables, one operation for
each access: to the cancellation token and the clock, to the control plane, to the event sink, to
the working history, and to the host's implementations of inputs, prompts, policies, tools and
models. Futures and streams of the host are made, polled and dropped.

## Main definitions

* `PortCall`: the calls of a port of the host.
* `Polled`: what polling a `select!` of cancellation, a timer and a future answers.
* `Op`, `Op.Answer`, `interface`: the operations.
* `Action`: programs of the runner.
-/

namespace MinicoreRuntime

open Interactive

/-- The ports of the host that are called under a timeout. -/
inductive Port where
  | prompt
  | policy
  | tool
deriving DecidableEq, Repr

/-- What a port answers. -/
@[reducible]
def Port.Result : Port → Type
  | .prompt => Except PromptError (List ModelMessage)
  | .policy => Except ToolPolicyError ToolDecision
  | .tool => Except ToolError ToolExecutionOutcome

/-- A call of a port. -/
inductive PortCall : Port → Type where
  /-- `PromptProvider::prepare` -/
  | prepare (provider : PromptHandle) (request : PromptRequest) : PortCall .prompt
  /-- `ToolPolicy::decide` -/
  | decide (policy : PolicyHandle) (invocation : ToolInvocation) (spec : ToolSpec)
      (deadline : Nat) : PortCall .policy
  /-- `Tool::execute` -/
  | execute (tool : ToolHandle) (invocation : ToolInvocation) (deadline : Nat) : PortCall .tool

/-- One poll of cancellation, a timer and a future, in this order. -/
inductive Polled (α : Type) where
  | cancelled
  | expired
  | ready (value : α)
  | panicked
  | pending

/-- The context a model is started with. -/
structure ModelCallContext where
  loopId : LoopId
  requestIndex : Nat
  deadline : Nat
deriving DecidableEq

/-- The operations of the runner. -/
inductive Op : Type where
  /-- Read the loop's cancellation token. -/
  | isCancelled
  /-- Read the clock. -/
  | now
  /-- Read the clock and derive the deadline of a call. -/
  | effectiveDeadline (turnDeadline portTimeout : Nat)
  -- The control plane.
  | takeConfig
  | beginFinal
  | commitRevision (revision : Nat)
  | appliedRevision
  | cancelReason
  | sealState
  | sealCancelled (source : CancelSource)
  | closeAccepting
  | cancelToken
  | publishState (state : LoopState)
  | currentState
  | setInteraction (slot : InteractionSlot)
  | takeInteraction
  | sendReport (report : LoopReport)
  | publishedReport
  -- The event sink.
  | tryEmit (event : LoopEvent)
  | recordDropped (count : Nat)
  -- The working history.
  | append (item : HistoryItem)
  | view
  | intoAppended
  -- The host.
  /-- `LoopInputs::take` -/
  | takeInputs
  /-- Drop a configuration, and with it perhaps the host's last reference to its parts. -/
  | dropConfig (config : ExecutionConfig)
  /-- Call a port; the answer is whether it returned a future rather than unwound. -/
  | makeFuture {port : Port} (call : PortCall port)
  | pollPort {port : Port} (call : PortCall port) (deadline : Nat)
  | dropFuture
  -- The progress channel of a tool.
  | openToolProgress (callId : ToolCallId)
  | recvToolProgress
  | takeToolDropped
  | closeToolProgress
  -- A model call.
  /-- `Model::start`; the answer is whether it returned a future rather than unwound. -/
  | startModel (model : ModelHandle) (request : ModelRequest) (context : ModelCallContext)
  | pollStart (deadline : Nat)
  | pollStream (deadline : Nat)
  /-- Drop the future of the start, or the stream. -/
  | dropStream
  | pollRetry (deadline retryAt : Nat)
  -- The progress channel of a model call.
  | openModelProgress
  | offerProgress (progress : ModelDriverProgress)
  | recvModelProgress
  | takeModelDropped
  -- Interactions.
  | newInteractionId
  /-- Make a channel for one answer. -/
  | oneshot
  | pollInteraction (channel : Nat) (deadline : Option Nat)

/-- The type of the answer to an operation. -/
@[reducible]
def Op.Answer : Op → Type
  | .isCancelled => Bool
  | .now => Nat
  | .effectiveDeadline _ _ => Option EffectiveDeadline
  | .takeConfig => Option PendingConfig
  | .beginFinal | .closeAccepting => Option ExecutionConfig
  | .appliedRevision => Nat
  | .cancelReason => CancelReason
  | .sealState => FinishSeal
  | .currentState => LoopState
  | .setInteraction _ => Bool
  | .publishedReport => Option LoopReport
  | .view => HistoryView
  | .intoAppended => List HistoryItem
  | .takeInputs => List UserInput
  | .makeFuture _ => Bool
  | @Op.pollPort port _ _ => Polled port.Result
  | .recvToolProgress => Option (ToolCallId × ToolProgress)
  | .takeToolDropped | .takeModelDropped => Nat
  | .startModel _ _ _ => Bool
  | .pollStart _ => Polled (Except ModelError Unit)
  | .pollStream _ => Polled (Option (Except ModelError ModelEvent))
  | .pollRetry _ _ => Polled Unit
  | .recvModelProgress => Option ModelDriverProgress
  | .newInteractionId => Option InteractionId
  | .oneshot => Nat
  | .pollInteraction _ _ => Polled (Option InteractionAnswer)
  | .commitRevision _ | .sealCancelled _ | .cancelToken | .publishState _ | .takeInteraction
  | .sendReport _ | .tryEmit _ | .recordDropped _ | .append _ | .dropConfig _ | .dropFuture
  | .openToolProgress _ | .closeToolProgress | .dropStream | .openModelProgress
  | .offerProgress _ => Unit

/-- The interface of the runner. -/
abbrev interface : Interface := ⟨Op, Op.Answer⟩

/-- A program of the runner. -/
abbrev Action (α : Type) : Type 1 := Prog interface α

/-- Perform an operation. -/
abbrev perform (o : Op) : Action o.Answer := Prog.call (I := interface) o

end MinicoreRuntime
