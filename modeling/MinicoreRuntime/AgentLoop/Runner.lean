import MinicoreRuntime.AgentLoop.Runner.Tools

/-!
# The runner

The single task of a loop: requests one after the other, each prepared at a boundary where inputs
and configurations are taken, issued, answered and followed by the tool calls of the answer; then
the seal and the report. A runner that unwinds is reported by the task around it.

## Main definitions

* `takeBoundary`, `requestRound`: one round of the loop.
* `finishOnce`, `finishLoop`: the seal and the report.
* `runLoopInner`, `panicReport`, `runLoop`: the task.
-/

namespace MinicoreRuntime

open Interactive

/-! ## Boundaries -/

/-- What a boundary leaves. -/
structure Boundary where
  /-- Whether anything was taken. -/
  taken : Bool
  config : ExecutionConfig
  candidateRevision : Option Nat

/-- Append inputs to the working history. -/
def appendInputs (ctx : LoopCtx) : List UserInput → Action Unit
  | [] => return ()
  | input :: inputs => do
    perform (.append (.user ⟨ctx.id, .steering, input⟩))
    appendInputs ctx inputs

/-- Take the latest configuration and every input the host hands over. The configuration that is
replaced is dropped here unless it is `pinned`, that is, held by a snapshot too. -/
def takeBoundary (ctx : LoopCtx) (pinned : Bool) (config : ExecutionConfig)
    (candidateRevision : Option Nat) : Action Boundary := do
  match ← perform .takeConfig with
  | some pending =>
    if pinned then pure () else perform (.dropConfig config)
    -- A configuration taken makes the boundary taken, whatever the host hands over.
    let inputs ← perform .takeInputs
    appendInputs ctx inputs
    return ⟨true, pending.config, some pending.revision⟩
  | none =>
    let inputs ← perform .takeInputs
    appendInputs ctx inputs
    return ⟨!inputs.isEmpty, config, candidateRevision⟩

/-! ## Requests -/

/-- The local variables of the loop of requests. -/
structure Locals where
  config : ExecutionConfig
  /-- The revision of the last request issued. -/
  issuedRevision : Nat
  /-- The revision of a configuration taken since then. -/
  candidateRevision : Option Nat
  requestIndex : Nat
  toolRounds : Nat
  requests : Nat
  lastIssuedRequestIndex : Option Nat
  usage : UsageAccumulator

/-- The local variables before the first request. -/
def Locals.start (config : ExecutionConfig) : Locals where
  config := config
  issuedRevision := ConfigRevision.initial
  candidateRevision := none
  requestIndex := 0
  toolRounds := 0
  requests := 0
  lastIssuedRequestIndex := none
  usage := .default

/-- How the loop of requests ended: the path, the local variables, and a configuration to drop
after the report. -/
structure Ending where
  path : FailPath
  locals : Locals
  discardedConfig : Option ExecutionConfig

/-- End the loop of requests. -/
def Locals.break (locals : Locals) (path : FailPath) : Locals ⊕ Ending :=
  .inr ⟨path, locals, none⟩

/-- The error of a response with an unsupported finish reason. -/
def unsupportedFinish : ModelError :=
  .started .invalidProviderResponse (.boundedStatic .modelMalformedResponse .model
    "model returned an invalid response" false (by decide))

/-- The path on which a response without tool calls ends the loop. The result is an error where the
response does not enter the history. -/
def noToolFinish : ModelFinishReason → Except FailPath FailPath
  | .stop => .ok .completed
  | .length => .ok .outputLimit
  | .refused => .ok .refused
  | .contentFiltered => .ok .contentFiltered
  | .unknown | .toolCalls => .error (.invalidModelResponse unsupportedFinish)

/-- The item of a response. -/
def assistantHistory (ctx : LoopCtx) (requestIndex : Nat) (snapshot : ExecutionConfig)
    (response : ModelResponse) : AssistantHistory where
  loopId := ctx.id
  requestIndex := requestIndex
  model := snapshot.descriptor.modelRef
  reasoning := snapshot.reasoning
  content := response.parts
  providerReplay := response.providerReplay
  finishReason := response.finishReason
  usage := response.usage.getD .default

/-- The tool calls of a response that entered the history. -/
def runCalls (ctx : LoopCtx) (snapshot : ExecutionConfig) (locals : Locals)
    (calls : List ToolCall) : Action (Locals ⊕ Ending) := do
  -- Zero means no limit. The response that exceeds it is in the history; its calls are not run.
  if ctx.options.maxToolRounds ≠ 0 ∧ locals.toolRounds ≥ ctx.options.maxToolRounds then
    settleCalls ctx locals.requestIndex .failed (.ofStatic "tool round limit reached" (by decide))
      calls
    return locals.break .maxToolRounds
  else
    let locals := { locals with toolRounds := saturatingAdd 64 locals.toolRounds 1 }
    publish
      { loopId := ctx.id
        status := .runningTools
        requestIndex := locals.requestIndex
        configRevision := locals.issuedRevision
        model := some snapshot.descriptor.modelRef
        pendingInteraction := none }
    -- The batch runs under the snapshot of the request, not under an update accepted meanwhile.
    match ← runToolBatch ctx locals.requestIndex snapshot calls with
    | some path => return locals.break path
    | none =>
      return .inl { locals with requestIndex := saturatingAdd 32 locals.requestIndex 1 }

/-- What follows a response. -/
def handleResponse (ctx : LoopCtx) (snapshot : ExecutionConfig) (locals : Locals)
    (response : ModelResponse) : Action (Locals ⊕ Ending) := do
  match locals.usage.add (response.usage.getD .default) with
  -- A total that overflows ends the loop before the response enters the history.
  | none => return locals.break .internal
  | some usage =>
    let locals := { locals with usage := usage }
    let calls := toolCalls response.parts
    let item := HistoryItem.assistant (assistantHistory ctx locals.requestIndex snapshot response)
    if calls.isEmpty then
      match noToolFinish response.finishReason with
      -- A finish reason that is not supported is found before the response enters the history.
      | .error path => return locals.break path
      | .ok path =>
        perform (.append item)
        if path = .completed then
          -- No update is accepted from here on: the answer is final.
          let discarded ← perform .beginFinal
          return .inr ⟨path, locals, discarded⟩
        else
          return locals.break path
    else
      -- The calls decide what follows, whatever the finish reason.
      perform (.append item)
      runCalls ctx snapshot locals calls

/-- Issue a request and take in its response. -/
def issueRequest [SerdeJson] (ctx : LoopCtx) (snapshot : ExecutionConfig) (locals : Locals)
    (request : ModelRequest) : Action (Locals ⊕ Ending) := do
  -- A candidate counts as applied only now that its request is issued.
  let revision := locals.candidateRevision.getD locals.issuedRevision
  perform (.commitRevision revision)
  -- The request counts from here on, whatever becomes of it.
  let locals := { locals with
    candidateRevision := none
    issuedRevision := revision
    requests := saturatingAdd 32 locals.requests 1
    lastIssuedRequestIndex := some locals.requestIndex }
  perform (.tryEmit (.requestStarted ctx.id locals.requestIndex revision
    snapshot.descriptor.modelRef snapshot.reasoning))
  publish
    { loopId := ctx.id
      status := .runningModel
      requestIndex := locals.requestIndex
      configRevision := revision
      model := some snapshot.descriptor.modelRef
      pendingInteraction := none }
  let deadline ← turnDeadline ctx.options.deadline
  match ← runModel ctx locals.requestIndex snapshot request deadline with
  | .error failure => return locals.break (← mapModelFailure failure)
  | .ok response => handleResponse ctx snapshot locals response

/-- Prepare a request; a configuration or input that comes in meanwhile makes the prompt stale. -/
def prepareRequest [SerdeJson] (ctx : LoopCtx) (locals : Locals) : Action (Locals ⊕ Ending) := do
  -- The snapshot is pinned for the whole request, for the model call and its tool batch.
  let snapshot := locals.config
  publish (.new ctx.id .starting locals.requestIndex locals.issuedRevision)
  let view ← perform .view
  let deadline ← turnDeadline ctx.options.deadline
  match ← preparePrompt ctx locals.requestIndex snapshot view deadline with
  | .stop path => return locals.break path
  | .ready messages =>
    let boundary ← takeBoundary ctx true locals.config locals.candidateRevision
    let locals := { locals with
      config := boundary.config, candidateRevision := boundary.candidateRevision }
    -- The stale prompt is given up: no request is issued, and its index does not advance.
    if boundary.taken then
      -- The snapshot goes, and with it perhaps the last hold on its configuration.
      perform (.dropConfig snapshot)
      return .inl locals
    else
      match buildModelRequest messages snapshot with
      | .error _ => return locals.break .prompt
      | .ok request => issueRequest ctx snapshot locals request

/-- Whether the loop's deadline has passed. -/
def pastDeadline (deadline : Option Nat) : Action Bool := do
  match deadline with
  | none => return false
  | some deadline => return decide ((← perform .now) ≥ deadline)

/-- One round of the loop of requests. -/
def requestRound [SerdeJson] (ctx : LoopCtx) (locals : Locals) : Action (Locals ⊕ Ending) := do
  -- A cancellation comes before the deadline where both hold.
  if ← perform .isCancelled then
    return locals.break .cancelled
  else
    if ← pastDeadline ctx.options.deadline then
      return locals.break .deadline
    else
      let boundary ← takeBoundary ctx false locals.config locals.candidateRevision
      prepareRequest ctx { locals with
        config := boundary.config, candidateRevision := boundary.candidateRevision }

/-! ## The report -/

/-- A failure without a model error. -/
def failure (kind : LoopFailureKind) (code : DiagnosticCode) (category : DiagnosticCategory)
    (message : String) (h : validText message.toList BoundedText.maxBytes true = true) :
    LoopOutcome :=
  .failed ⟨kind, .boundedStatic code category message false h, none⟩

/-- A failure caused by a model error. -/
def modelFailure (kind : LoopFailureKind) (error : ModelError) : LoopOutcome :=
  .failed ⟨kind, error.diagnostic, some error⟩

/-- The outcome a path stands for. -/
def outcomeFor (path : FailPath) : Action LoopOutcome :=
  match path with
  | .completed => return .completed
  | .cancelled => do return .cancelled (← perform .cancelReason)
  | .deadline => return .cancelled .deadline
  | .prompt =>
    return failure .prompt .contextFailed .context "prompt preparation failed" (by decide)
  | .model error => return modelFailure .model error
  | .invalidModelResponse error => return modelFailure .invalidModelResponse error
  | .outputLimit =>
    return failure .outputLimit .modelMalformedResponse .model
      "model output exceeded the configured limit" (by decide)
  | .refused =>
    return failure .refused .modelMalformedResponse .model "model refused to answer" (by decide)
  | .contentFiltered =>
    return failure .contentFiltered .modelMalformedResponse .model
      "model response was content filtered" (by decide)
  | .policy =>
    return failure .policy .policyFailed .policy "tool policy evaluation failed" (by decide)
  | .interaction =>
    return failure .interaction .interactionNotFound .internal
      "pending interaction was not resolved" (by decide)
  | .maxToolRounds =>
    return failure .maxToolRounds .turnBudgetExceeded .internal "maximum tool rounds reached"
      (by decide)
  | .internal =>
    return failure .internal .internal .internal "loop runner hit an internal error" (by decide)

/-- Seal the loop, in one critical section. -/
def finishOnce : Action (FinishSeal × Option ExecutionConfig) := do
  let finish ← perform .sealState
  match finish with
  -- The loop is sealed from the cancellation that the first exchange found.
  | .cancelledPrior source => perform (.sealCancelled source)
  | .clean | .alreadyFinished => pure ()
  let discarded ← perform .closeAccepting
  return (finish, discarded)

/-- Drop a configuration without letting the host's destructors unwind. -/
def dropConfig (config : Option ExecutionConfig) : Action Unit := do
  match config with
  | none => return ()
  | some config =>
    let _ ← Prog.catching (perform (.dropConfig config))
    return ()

/-- The report that was delivered. -/
def publishedReport : Action LoopReport := do
  match ← perform .publishedReport with
  | some report => return report
  | none => .panic

/-- Publish the last two states. -/
def publishFinalStates (ctx : LoopCtx) (requestIndex revision : Nat) : Action Unit := do
  -- The model of the last state stays; the question of a stopped batch does not.
  let state ← perform .currentState
  publish ⟨ctx.id, .finishing, requestIndex, revision, state.model, none⟩
  let state ← perform .currentState
  publish ⟨ctx.id, .finished, requestIndex, revision, state.model, none⟩

/-- Build the report of a sealed loop and deliver it. -/
def deliverReport (ctx : LoopCtx) (ending : Ending) (revision : Nat) (outcome : LoopOutcome)
    (discarded : Option ExecutionConfig) : Action LoopReport := do
  let appended ← perform .intoAppended
  let report : LoopReport :=
    { loopId := ctx.id
      outcome := outcome
      appended := appended
      usage := ending.locals.usage.finish
      requests := ending.locals.requests
      toolRounds := ending.locals.toolRounds
      finalConfigRevision := revision }
  -- The last states come before the report, which ends the waiting of the host.
  publishFinalStates ctx (ending.locals.lastIssuedRequestIndex.getD 0) revision
  perform (.sendReport report)
  perform (.tryEmit (.finished ctx.id outcome.summary))
  -- Every ending cancels the token, so that what providers hold is released.
  perform .cancelToken
  dropConfig discarded
  return report

/-- Seal the loop and report how it ended. A cancellation before the seal is authoritative. -/
def finishLoop (ctx : LoopCtx) (ending : Ending) : Action LoopReport := do
  let revision ← perform .appliedRevision
  -- The reason of a cancellation is read before the seal, which overwrites it.
  let intended ← outcomeFor ending.path
  let (finish, discarded) ← finishOnce
  match finish with
  | .clean => deliverReport ctx ending revision intended discarded
  -- The cancellation won, and replaces whatever the path stands for.
  | .cancelledPrior source =>
    deliverReport ctx ending revision (.cancelled source.reason) discarded
  | .alreadyFinished => publishedReport

/-! ## The task -/

/-- What a loop is started with. -/
structure LoopRequest where
  history : List HistoryItem
  input : UserInput
  config : ExecutionConfig

/-- The runner up to its report. The history of the request is the base of the working history. -/
def runLoopInner [SerdeJson] (ctx : LoopCtx) (request : LoopRequest) : Action LoopReport := do
  perform (.tryEmit (.started ctx.id))
  perform (.append (.user ⟨ctx.id, .prompt, request.input⟩))
  let ending ← Prog.iterate (requestRound ctx) (.start request.config)
  let report ← finishLoop ctx ending
  dropConfig ending.discardedConfig
  -- What is left of the host's is dropped with the local variables.
  perform (.dropConfig ending.locals.config)
  return report

/-- The report of a runner that unwound. -/
def panicReport (id : LoopId) : Action LoopReport := do
  let report : LoopReport :=
    { loopId := id
      outcome := failure .internal .internal .internal "loop runner panicked" (by decide)
      appended := []
      usage := .default
      requests := 0
      toolRounds := 0
      finalConfigRevision := ConfigRevision.initial }
  let (finish, discarded) ← finishOnce
  match finish with
  -- The runner unwound after its report was delivered.
  | .alreadyFinished => publishedReport
  | .clean | .cancelledPrior _ =>
    perform (.publishState (.new id .finished 0 ConfigRevision.initial))
    perform (.sendReport report)
    perform .cancelToken
    dropConfig discarded
    return report

/-- The task of a loop. -/
def runLoop [SerdeJson] (ctx : LoopCtx) (request : LoopRequest) : Action LoopReport := do
  match ← Prog.catching (runLoopInner ctx request) with
  | some report => return report
  | none => panicReport ctx.id

end MinicoreRuntime
