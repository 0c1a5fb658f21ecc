import MinicoreRuntime.Model.Driver

/-!
# Prompts and model calls of the runner

One request of a loop up to its response: the prompt is prepared, the request built from it, and the
driver run while its progress is forwarded to the event sink.

## Main definitions

* `LoopCtx`, `publish`, `turnDeadline`: what all phases of the runner share.
* `preparePrompt`, `buildModelRequest`, `runModel`, `mapModelFailure`.
-/

namespace MinicoreRuntime

open Interactive

/-- What all phases of the runner share. -/
structure LoopCtx where
  id : LoopId
  options : LoopOptions

/-- Publish a state, and emit the event of its change. -/
def publish (state : LoopState) : Action Unit := do
  perform (.publishState state)
  perform (.tryEmit (.stateChanged state))

/-- The deadline of a call of a loop without a deadline, counted from the call. -/
def loopHorizon : Nat := fromSecs (24 * 60 * 60)

/-- The deadline the loop puts on a call. -/
def turnDeadline (loopDeadline : Option Nat) : Action Nat := do
  match loopDeadline with
  | some deadline => return deadline
  | none =>
    -- Each call of a loop without a deadline has a horizon of its own.
    match checkedAdd (← perform .now) loopHorizon with
    | some horizon => return horizon
    | none => .panic

/-! ## Prompts -/

/-- What the preparation of a prompt comes to. -/
inductive PromptPrep where
  | ready (messages : List ModelMessage)
  | stop (path : FailPath)

/-- What the outcome of a prompt call means for the loop. -/
def promptPrep : PortCallOutcome .prompt → PromptPrep
  -- An empty prompt is a failed one.
  | .returned (.ok messages) => if messages.isEmpty then .stop .prompt else .ready messages
  | .cancelled => .stop .cancelled
  | .deadlineExceeded .turn => .stop .deadline
  | .returned (.error _) | .deadlineExceeded .port | .invalidDeadline | .panicked => .stop .prompt

/-- The request put to the prompt provider of a snapshot. -/
def promptRequest (ctx : LoopCtx) (requestIndex : Nat) (snapshot : ExecutionConfig)
    (view : HistoryView) (deadline : Nat) : PromptRequest where
  loopId := ctx.id
  requestIndex := requestIndex
  history := view
  model := snapshot.descriptor
  reasoning := snapshot.reasoning
  tools := snapshot.tools.specs
  deadline := deadline

/-- Prepare the prompt of a request. -/
def preparePrompt (ctx : LoopCtx) (requestIndex : Nat) (snapshot : ExecutionConfig)
    (view : HistoryView) (turnDeadline : Nat) : Action PromptPrep := do
  let outcome ← runPortCall (pure ()) turnDeadline ctx.options.promptTimeout fun deadline ↦
    .prepare snapshot.prompt (promptRequest ctx requestIndex snapshot view deadline)
  return promptPrep outcome

/-- Build the request of a snapshot from its messages. -/
def buildModelRequest (messages : List ModelMessage) (snapshot : ExecutionConfig) :
    Except ModelValueError ModelRequest :=
  ModelRequest.withValidatedTools messages snapshot.tools.specs .default snapshot.reasoning

/-! ## Model calls -/

/-- Forward one delta to the event sink. -/
def forwardProgress (ctx : LoopCtx) (requestIndex : Nat) (value : ModelDriverProgress) :
    Action Unit := do
  let (channel, delta) := match value with
    | .textDelta delta => (OutputChannel.text, delta)
    | .reasoningDelta delta => (OutputChannel.reasoning, delta)
  -- What was dropped before this delta is counted before it is emitted.
  perform (.recordDropped (← perform .takeModelDropped))
  perform (.tryEmit (.outputDelta ctx.id requestIndex channel delta))

/-- Forward one delta, if there is one. -/
def forwardNext (ctx : LoopCtx) (requestIndex : Nat) : Action (Unit ⊕ Unit) := do
  match ← perform .recvModelProgress with
  | some value =>
    forwardProgress ctx requestIndex value
    return .inl ()
  | none => return .inr ()

/-- Forward the deltas in the progress channel. -/
def drainProgress (ctx : LoopCtx) (requestIndex : Nat) : Action Unit :=
  Prog.iterate (fun _ ↦ forwardNext ctx requestIndex) ()

/-- The driver of a snapshot. -/
def modelDriver (ctx : LoopCtx) (snapshot : ExecutionConfig) : ModelDriver where
  model := snapshot.model
  descriptor := snapshot.descriptor
  modelCallTimeout := ctx.options.modelTimeout
  retryPolicy := ⟨ctx.options.modelRetryAttempts, ctx.options.modelRetryBaseDelay⟩
  limits := ctx.options.limits

/-- Run one model request. -/
def runModel [SerdeJson] (ctx : LoopCtx) (requestIndex : Nat) (snapshot : ExecutionConfig)
    (request : ModelRequest) (turnDeadline : Nat) :
    Action (Except ModelDriverFailure ModelResponse) := do
  perform .openModelProgress
  let result ← (modelDriver ctx snapshot).runDetailed (drainProgress ctx requestIndex) request
    ⟨ctx.id, requestIndex, turnDeadline⟩
  -- The driver is done; what it left in the channel is forwarded before the answer is looked at.
  perform (.recordDropped (← perform .takeModelDropped))
  drainProgress ctx requestIndex
  return result

/-- What a failed model request means for the loop. -/
def mapModelFailure (failure : ModelDriverFailure) : Action FailPath := do
  -- A cancelled loop ends as cancelled, whatever the driver says of the failure.
  if ← perform .isCancelled then
    return .cancelled
  else if failure.deadlineSource = some .turn then
    return .deadline
  else
    match failure.error.kind with
    | .invalidProviderResponse | .incompleteResponse | .unexpectedToolCall =>
      return .invalidModelResponse failure.error
    | _ => return .model failure.error

end MinicoreRuntime
