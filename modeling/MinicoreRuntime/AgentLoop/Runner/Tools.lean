import MinicoreRuntime.AgentLoop.Runner.Model

/-!
# Tool batches of the runner

The tool calls of one response, one after the other: the policy decides about a call, the host may
be asked to approve it, and the tool runs and may itself ask the host for input. Every call ends
with one result in the working history. An ending of the loop settles the calls that are left.

## Main definitions

* `decidePolicy`, `waitInteraction`, `runToolPort`: the steps of one call.
* `runToolCall`: one call.
* `settleCalls`, `runToolBatch`: the calls of a response.
-/

namespace MinicoreRuntime

open Interactive

/-! ## Results -/

/-- A constant as the body of a result. -/
def ToolOutput.ofStatic (message : String)
    (h : validText message.toList maxTextBytes true = true) : ToolOutput :=
  ⟨⟨message.toList, (validText_iff.mp h).2.1⟩, h⟩

/-- A constant as the body of a result, or nothing where it is too long. -/
def staticOutput (message : ToolOutput) (maxBytes : Nat) : ToolOutput :=
  if message.content.byteLen ≤ maxBytes then message else .ofStatic "" (by decide)

/-- A result made by the runner. -/
def terminalToolResult (id : LoopId) (requestIndex : Nat) (callId : ToolCallId)
    (toolName : ToolName) (outcome : ToolResultOutcome) (message : ToolOutput)
    (maxOutputBytes : Nat) : ToolResultHistory :=
  ⟨id, requestIndex, callId, toolName, outcome, staticOutput message maxOutputBytes⟩

/-- The result of a call whose output is too long. -/
def tooLargeResult (id : LoopId) (requestIndex : Nat) (invocation : ToolInvocation)
    (maxOutputBytes : Nat) : ToolResultHistory :=
  terminalToolResult id requestIndex invocation.toolCallId invocation.toolName .failed
    (.ofStatic "tool output too large" (by decide)) maxOutputBytes

/-- The result of a tool that completed. -/
def completedResult (id : LoopId) (requestIndex : Nat) (invocation : ToolInvocation)
    (output : ToolOutput) (maxOutputBytes : Nat) : ToolResultHistory :=
  if output.content.byteLen ≤ maxOutputBytes then
    ⟨id, requestIndex, invocation.toolCallId, invocation.toolName, .success, output⟩
  else tooLargeResult id requestIndex invocation maxOutputBytes

/-- The result of a tool that was given input. -/
def providedInputResult (id : LoopId) (requestIndex : Nat) (invocation : ToolInvocation)
    (content : Text) (maxOutputBytes : Nat) : ToolResultHistory :=
  -- The answer may fit the limit of the loop and still be no legal output.
  if byteLen content ≤ maxOutputBytes then
    match ToolOutput.new content with
    | .ok output =>
      ⟨id, requestIndex, invocation.toolCallId, invocation.toolName, .inputProvided, output⟩
    | .error _ => tooLargeResult id requestIndex invocation maxOutputBytes
  else tooLargeResult id requestIndex invocation maxOutputBytes

/-- The body of the result of a denied call, or `none` where the code would panic. -/
def deniedOutput (reason : Option BoundedText) (maxOutputBytes : Nat) : Option ToolOutput :=
  let static := staticOutput (.ofStatic "tool denied" (by decide)) maxOutputBytes
  match reason with
  | some reason =>
    -- A reason that is too long is replaced, not truncated.
    if reason.byteLen ≤ maxOutputBytes then
      match ToolOutput.new reason.asStr with
      | .ok output => some output
      | .error _ => none
    else some static
  | none => some static

/-- What a tool call comes to. -/
inductive ToolStep where
  | result (result : ToolResultHistory)
  | stop (path : FailPath)

/-- The result of a denied call. -/
def deniedResult (ctx : LoopCtx) (requestIndex : Nat) (invocation : ToolInvocation)
    (reason : Option BoundedText) : Action ToolStep :=
  match deniedOutput reason ctx.options.limits.maxToolOutputBytes with
  | some output =>
    return .result
      ⟨ctx.id, requestIndex, invocation.toolCallId, invocation.toolName, .denied, output⟩
  | none => .panic

/-! ## Policies -/

/-- What the decision of a policy comes to. -/
inductive PolicyStep where
  | allow
  | denied (reason : Option BoundedText)
  | requireApproval (request : ApprovalRequest)
  | cancelled
  | turnDeadline
  | invalid

/-- What the outcome of a policy call means for the tool call. Anything but a decision denies it. -/
def policyStep : PortCallOutcome .policy → PolicyStep
  | .returned (.ok decision) =>
    if !decision.validate then .invalid
    else match decision with
      | .allow => .allow
      | .deny reason => .denied (some reason)
      | .requireApproval request => .requireApproval request
  | .cancelled => .cancelled
  | .deadlineExceeded .turn => .turnDeadline
  | .returned (.error _) | .deadlineExceeded .port | .invalidDeadline | .panicked => .denied none

/-- Ask the policy, if there is one. -/
def decidePolicy (ctx : LoopCtx) (policy : Option PolicyHandle) (invocation : ToolInvocation)
    (spec : ToolSpec) (turnDeadline : Nat) : Action PolicyStep := do
  match policy with
  -- Without a policy every call is allowed.
  | none => return .allow
  | some policy =>
    let outcome ← runPortCall (pure ()) turnDeadline ctx.options.policyTimeout fun deadline ↦
      .decide policy invocation spec deadline
    return policyStep outcome

/-! ## Interactions -/

/-- One poll of the wait for an answer. -/
def pollAnswer (channel : Nat) (deadline : Option Nat) :
    Action (Unit ⊕ Except FailPath InteractionAnswer) := do
  match ← perform (.pollInteraction channel deadline) with
  -- The select is biased: the token, then the deadline of the loop, then the answer.
  | .cancelled => return .inr (.error .cancelled)
  | .expired => return .inr (.error .deadline)
  | .ready (some answer) => return .inr (.ok answer)
  -- The sender was dropped without an answer.
  | .ready none => return .inr (.error .interaction)
  | .panicked | .pending => return .inl ()

/-- Put a question to the host and wait for the answer. -/
def waitInteraction (ctx : LoopCtx) (invocation : ToolInvocation) (interactionId : InteractionId)
    (kind : InteractionKind) (channel : Nat) : Action (Except FailPath InteractionAnswer) := do
  let pending : PendingInteraction :=
    ⟨interactionId, invocation.toolCallId, invocation.toolName, kind⟩
  if ← perform (.setInteraction ⟨interactionId, kind, channel⟩) then
    -- An answer may come as soon as the state names the question.
    let waiting ← perform .currentState
    publish { waiting with status := .waitingForInput, pendingInteraction := some pending }
    perform (.tryEmit (.interactionRequested ctx.id pending))
    match ← Prog.iterate (fun _ ↦ pollAnswer channel ctx.options.deadline) () with
    -- An answer that comes from now on finds no question.
    | .error path =>
      perform .takeInteraction
      return .error path
    | .ok answer =>
      perform .takeInteraction
      perform (.tryEmit (.interactionResolved ctx.id interactionId))
      let running ← perform .currentState
      publish { running with status := .runningTools, pendingInteraction := none }
      return .ok answer
  else
    return .error .internal

/-! ## The tool port -/

/-- What the execution of a tool comes to. -/
inductive ToolPort where
  | completed (output : ToolOutput)
  | requestInput (request : ToolInputRequest)
  | failed
  | stop (path : FailPath)

/-- What the outcome of a tool's execution means for the call. -/
def toolPort : PortCallOutcome .tool → ToolPort
  | .returned (.ok (.completed output)) => .completed output
  | .returned (.ok (.requestInput request)) =>
    if request.validate then .requestInput request else .failed
  | .cancelled => .stop .cancelled
  | .deadlineExceeded .turn => .stop .deadline
  -- What the tool does wrong is a result of the call, and the model goes on.
  | .returned (.error _) | .deadlineExceeded .port | .panicked => .failed
  | .invalidDeadline => .stop .internal

/-- Forward one progress report of the tool, if there is one. -/
def forwardToolProgress (ctx : LoopCtx) (requestIndex : Nat) : Action (Unit ⊕ Unit) := do
  match ← perform .recvToolProgress with
  | some (callId, progress) =>
    perform (.recordDropped (← perform .takeToolDropped))
    perform (.tryEmit (.toolProgress ctx.id requestIndex callId progress))
    return .inl ()
  | none => return .inr ()

/-- Forward at most one progress report, and then look at the tool again. -/
def awaitTool (ctx : LoopCtx) (requestIndex : Nat) : Action Unit := do
  let _ ← forwardToolProgress ctx requestIndex
  return ()

/-- Execute the tool. -/
def runToolPort (ctx : LoopCtx) (requestIndex : Nat) (invocation : ToolInvocation)
    (implementation : ToolHandle) (turnDeadline : Nat) : Action ToolPort := do
  perform (.openToolProgress invocation.toolCallId)
  let result ← runPortCall (awaitTool ctx requestIndex) turnDeadline ctx.options.toolTimeout
    fun deadline ↦ .execute implementation invocation deadline
  perform (.recordDropped (← perform .takeToolDropped))
  -- What the tool reported before it ended is still in the channel.
  Prog.iterate (fun _ ↦ forwardToolProgress ctx requestIndex) ()
  perform .closeToolProgress
  return toolPort result

/-! ## One call -/

/-- Put a question to the host under a fresh identifier. -/
def askHost (ctx : LoopCtx) (invocation : ToolInvocation) (kind : InteractionKind) :
    Action (Except FailPath InteractionAnswer) := do
  match ← perform .newInteractionId with
  | none => return .error .internal
  | some interactionId =>
    let channel ← perform .oneshot
    waitInteraction ctx invocation interactionId kind channel

/-- Execute a call that may run. -/
def executeTool (ctx : LoopCtx) (requestIndex : Nat) (invocation : ToolInvocation)
    (enabled : EnabledTool) : Action ToolStep := do
  let maxBytes := ctx.options.limits.maxToolOutputBytes
  let deadline ← turnDeadline ctx.options.deadline
  match ← runToolPort ctx requestIndex invocation enabled.implementation deadline with
  | .completed output =>
    return .result (completedResult ctx.id requestIndex invocation output maxBytes)
  | .requestInput request =>
    match ← askHost ctx invocation (.toolInput request) with
    -- The tool is not executed again: the answer is the result of the call.
    | .error path => return .stop path
    | .ok (.toolInput answer) =>
      match answer.encodeResult request with
      | some content =>
        return .result (providedInputResult ctx.id requestIndex invocation content maxBytes)
      | none => .panic
    | .ok (.approval _) => return .stop .internal
  | .failed =>
    return .result (terminalToolResult ctx.id requestIndex invocation.toolCallId
      invocation.toolName .failed (.ofStatic "tool failed" (by decide)) maxBytes)
  | .stop path => return .stop path

/-- Run one call: the policy, perhaps an approval, and the tool. -/
def runToolCall (ctx : LoopCtx) (requestIndex : Nat) (invocation : ToolInvocation)
    (enabled : EnabledTool) (policy : Option PolicyHandle) : Action ToolStep := do
  -- The policy and the tool each get a deadline computed for them.
  let deadline ← turnDeadline ctx.options.deadline
  match ← decidePolicy ctx policy invocation enabled.spec deadline with
  | .allow => executeTool ctx requestIndex invocation enabled
  | .denied reason => deniedResult ctx requestIndex invocation reason
  | .requireApproval request =>
    match ← askHost ctx invocation (.approval request) with
    | .error path => return .stop path
    | .ok (.approval .allowOnce) => executeTool ctx requestIndex invocation enabled
    -- The host's denial has no reason of its own, unlike the policy's.
    | .ok (.approval .deny) => deniedResult ctx requestIndex invocation none
    | .ok (.toolInput _) => return .stop .internal
  | .cancelled => return .stop .cancelled
  | .turnDeadline => return .stop .deadline
  | .invalid => return .stop .policy

/-! ## The calls of a response -/

/-- Append a result made by the runner for each call. -/
def settleCalls (ctx : LoopCtx) (requestIndex : Nat) (outcome : ToolResultOutcome)
    (message : ToolOutput) : List ToolCall → Action Unit
  | [] => return ()
  | call :: calls => do
    perform (.append (.toolResult (terminalToolResult ctx.id requestIndex call.toolCallId call.name
      outcome message ctx.options.limits.maxToolOutputBytes)))
    settleCalls ctx requestIndex outcome message calls

/-- The invocation of a call. -/
def ToolCall.invocation (call : ToolCall) : ToolInvocation :=
  ⟨call.toolCallId, call.name, call.arguments⟩

/-- One call of a batch. -/
def batchStep (ctx : LoopCtx) (requestIndex : Nat) (snapshot : ExecutionConfig) (call : ToolCall) :
    Action ToolStep := do
  -- A cancellation is noticed before each call, with no event for the call.
  if ← perform .isCancelled then
    return .stop .cancelled
  else
    match snapshot.tools.find call.name with
    -- The code expects the assembler to accept only tools of the request.
    | none => .panic
    | some enabled =>
      perform (.tryEmit (.toolStarted ctx.id requestIndex call.toolCallId call.name))
      runToolCall ctx requestIndex call.invocation enabled snapshot.policy

/-- Run the calls of a response in order. The answer is the path on which the loop ends, if it
does. -/
def runToolBatch (ctx : LoopCtx) (requestIndex : Nat) (snapshot : ExecutionConfig) :
    List ToolCall → Action (Option FailPath)
  | [] => return none
  | call :: calls => do
    match ← batchStep ctx requestIndex snapshot call with
    | .result result =>
      perform (.tryEmit (.toolFinished ctx.id requestIndex call.toolCallId result.outcome
        result.output.content.byteLen))
      -- The event comes before the result is in the history.
      perform (.append (.toolResult result))
      runToolBatch ctx requestIndex snapshot calls
    | .stop path =>
      -- The call that stopped the batch has no result either.
      settleCalls ctx requestIndex .cancelled (.ofStatic "tool batch interrupted" (by decide))
        (call :: calls)
      return some path

end MinicoreRuntime
