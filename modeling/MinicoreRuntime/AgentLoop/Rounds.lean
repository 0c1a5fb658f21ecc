import MinicoreRuntime.AgentLoop.Traversal

/-!
# Properties of a runner, part by part

A property of programs that sequences and loops keep holds of a runner if it holds of the parts a
runner is made of: its prompts, its model requests, its tool batches, and the operations between
them. In the same way it holds of the driver and of a tool batch if it holds of their parts.

## Main definitions

* `Op.outer`: the operations of a runner outside of prompts, model requests and tool calls.
* `Rounds`, `Driven`, `Batches`: the parts of a runner, of the driver and of a tool batch.

## Main results

* `Driven.runDetailed`: the driver.
* `Batches.runToolBatch`: the tool calls of a response.
* `Rounds.requestRound`, `Rounds.runLoopInner`: the runner.
-/

namespace MinicoreRuntime

open Interactive

/-- Operations on the progress channels, and the end of a port call. -/
def Op.inner : Op → Bool
  | .recordDropped _ | .dropFuture | .openToolProgress _ | .recvToolProgress | .takeToolDropped
  | .closeToolProgress | .openModelProgress | .offerProgress _ | .recvModelProgress
  | .takeModelDropped => true
  | _ => false

/-- Operations of a runner outside of prompts, model requests and tool calls. -/
def Op.outer : Op → Bool
  | .append (.toolResult _) => false
  | .beginFinal => true
  | o => o.plain && !o.inner || o.routine || o.finishes

/-- The operations of the driver. -/
def Op.drives : Op → Bool
  | .isCancelled | .now | .effectiveDeadline _ _ | .startModel _ _ _ | .pollStart _
  | .pollStream _ | .dropStream | .pollRetry _ _ | .offerProgress _ => true
  | _ => false

/-- Operations of a tool batch outside of policies and tools. -/
def Op.batches : Op → Bool
  | .append _ => true
  | o => o.outer || o.asks

/-! ## The driver -/

/-- A compositional property that holds of the operations of the driver and of what runs while it
waits. -/
structure Driven (awaiter : Action Unit) (C : ∀ {α : Type}, Action α → Prop) : Prop
    extends Prog.Compositional C where
  op : ∀ o : Op, o.drives = true → C (perform o)
  await : C awaiter

namespace Driven

variable {awaiter : Action Unit} {C : ∀ {α : Type}, Action α → Prop} {α : Type}

theorem op_bind (h : Driven awaiter C) {o : Op} (ho : o.drives = true) {f : o.Answer → Action α}
    (hf : ∀ r, C (f r)) : C ((perform o).bind f) :=
  h.bind (h.op o ho) hf

theorem precheck (h : Driven awaiter C) (deadline : EffectiveDeadline) :
    C (MinicoreRuntime.precheck deadline) := by
  refine h.op_bind (o := .isCancelled) rfl fun cancelled ↦ ?_
  split
  · exact h.pure _
  · refine h.op_bind (o := .now) rfl fun now ↦ ?_
    split <;> exact h.pure _

theorem evaluateRetry (h : Driven awaiter C) (policy : RetryPolicySnapshot) (attempt : Nat)
    (failure : AttemptFailure) (deadline : Nat) :
    C (policy.evaluateRetry attempt failure deadline) := by
  unfold RetryPolicySnapshot.evaluateRetry
  split
  · exact h.pure _
  split
  · exact h.pure _
  split
  · exact h.pure _
  refine h.bind (h.op_bind (o := .now) rfl fun now ↦ h.pure _) fun fits ↦ ?_
  split <;> exact h.pure _

theorem waitForRetry (h : Driven awaiter C) (deadline : EffectiveDeadline) (delay : Nat)
    (error : ModelError) : C (MinicoreRuntime.waitForRetry awaiter deadline delay error) := by
  refine h.op_bind (o := .now) rfl fun now ↦ ?_
  split
  · exact h.panic
  refine h.iterate _ fun _ ↦ h.op_bind (o := .pollRetry _ _) rfl fun polled ↦ ?_
  cases polled with
  | pending | panicked => exact h.bind h.await fun _ ↦ h.pure _
  | _ => exact h.pure _

theorem pollStartCall (h : Driven awaiter C) (deadline : EffectiveDeadline) :
    C (ModelDriver.pollStartCall awaiter deadline) := by
  refine h.op_bind (o := .pollStart _) rfl fun polled ↦ ?_
  cases polled with
  | pending => exact h.bind h.await fun _ ↦ h.pure _
  | ready result => cases result <;> exact h.pure _
  | _ => exact h.pure _

variable [SerdeJson]

theorem pollEvent (h : Driven awaiter C) (deadline : EffectiveDeadline) (assembler : Assembler) :
    C (ModelDriver.pollEvent awaiter deadline assembler) := by
  refine h.op_bind (o := .pollStream _) rfl fun polled ↦ ?_
  rcases polled with - | - | (- | (error | event)) | - | -
  · exact h.pure _
  · exact h.pure _
  · dsimp only
    split
    · exact h.panic
    · exact h.pure _
    · exact h.pure _
  · exact h.pure _
  · dsimp only
    split
    · exact h.pure _
    · exact h.pure _
    · exact h.op_bind (o := .offerProgress _) rfl fun _ ↦ h.bind h.await fun _ ↦ h.pure _
  · exact h.pure _
  · exact h.bind h.await fun _ ↦ h.pure _

theorem runAttempt (h : Driven awaiter C) (driver : ModelDriver) (request : ModelRequest)
    (context : ModelCallContext) (deadline : EffectiveDeadline) :
    C (driver.runAttempt awaiter request context deadline) := by
  refine h.op_bind (o := .startModel _ _ _) rfl fun made ↦ ?_
  split
  · refine h.bind (h.iterate _ fun _ ↦ h.pollStartCall deadline) fun stream ↦ ?_
    refine h.bind ?_ fun result ↦ h.op_bind (o := .dropStream) rfl fun _ ↦ h.pure _
    cases stream with
    | error failure => exact h.pure _
    | ok => exact h.iterate _ fun assembler ↦ h.pollEvent deadline assembler
  · exact h.pure _

theorem attemptRound (h : Driven awaiter C) (driver : ModelDriver) (request : ModelRequest)
    (context : ModelCallContext) (deadline : EffectiveDeadline) (attempt : Nat) :
    C (driver.attemptRound awaiter request context deadline attempt) := by
  refine h.bind (h.precheck deadline) fun checked ↦ ?_
  cases checked with
  | error failure => exact h.pure _
  | ok =>
  refine h.bind (h.runAttempt driver request context deadline) fun result ↦ ?_
  cases result with
  | ok response => exact h.pure _
  | error failure =>
    refine h.bind (h.evaluateRetry driver.retryPolicy attempt failure deadline.instant)
      fun delay ↦ ?_
    cases delay with
    | none => exact h.pure _
    | some delay =>
      refine h.bind (h.waitForRetry deadline delay failure.error) fun waited ↦ ?_
      cases waited <;> exact h.pure _

/-- A request of the driver. -/
theorem runDetailed (h : Driven awaiter C) (driver : ModelDriver) (request : ModelRequest)
    (context : ModelCallContext) : C (driver.runDetailed awaiter request context) := by
  refine h.op_bind (o := .effectiveDeadline _ _) rfl fun found ↦ ?_
  cases found with
  | none => exact h.pure _
  | some deadline =>
    refine h.bind (h.precheck deadline) fun checked ↦ ?_
    cases checked with
    | error failure => exact h.pure _
    | ok =>
      dsimp only
      split
      · exact h.pure _
      · exact h.iterate _ fun attempt ↦ h.attemptRound driver request context deadline attempt

end Driven

/-! ## Tool batches -/

/-- A compositional property that holds of the parts of a tool batch. -/
structure Batches (ctx : LoopCtx) (C : ∀ {α : Type}, Action α → Prop) : Prop
    extends Prog.Compositional C where
  op : ∀ o : Op, o.batches = true → C (perform o)
  policy : ∀ policy invocation spec deadline,
    C (decidePolicy ctx policy invocation spec deadline)
  tool : ∀ requestIndex invocation implementation deadline,
    C (runToolPort ctx requestIndex invocation implementation deadline)

namespace Batches

variable {ctx : LoopCtx} {C : ∀ {α : Type}, Action α → Prop} {α : Type}

theorem op_bind (h : Batches ctx C) {o : Op} (ho : o.batches = true) {f : o.Answer → Action α}
    (hf : ∀ r, C (f r)) : C ((perform o).bind f) :=
  h.bind (h.op o ho) hf

theorem publish (h : Batches ctx C) (state : LoopState) : C (MinicoreRuntime.publish state) :=
  h.op_bind (o := .publishState state) rfl fun _ ↦ h.op (.tryEmit (.stateChanged state)) rfl

theorem turnDeadline (h : Batches ctx C) (deadline : Option Nat) :
    C (MinicoreRuntime.turnDeadline deadline) := by
  cases deadline with
  | some deadline => exact h.pure _
  | none =>
    refine h.op_bind (o := .now) rfl fun now ↦ ?_
    split
    · exact h.pure _
    · exact h.panic

/-- A question to the host. -/
theorem askHost (h : Batches ctx C) (invocation : ToolInvocation) (kind : InteractionKind) :
    C (MinicoreRuntime.askHost ctx invocation kind) := by
  refine h.op_bind (o := .newInteractionId) rfl fun id ↦ ?_
  cases id with
  | none => exact h.pure _
  | some id =>
  refine h.op_bind (o := .oneshot) rfl fun channel ↦ ?_
  refine h.op_bind (o := .setInteraction _) rfl fun set ↦ ?_
  cases set with
  | false => exact h.pure _
  | true =>
  refine h.op_bind (o := .currentState) rfl fun waiting ↦ h.bind (h.publish _) fun _ ↦ ?_
  refine h.op_bind (o := .tryEmit _) rfl fun _ ↦ h.bind (h.iterate _ fun _ ↦ ?_) fun answer ↦ ?_
  · refine h.op_bind (o := .pollInteraction _ _) rfl fun polled ↦ ?_
    rcases polled with - | - | (- | answer) | - | - <;> exact h.pure _
  · cases answer with
    | error path => exact h.op_bind (o := .takeInteraction) rfl fun _ ↦ h.pure _
    | ok answer =>
      refine h.op_bind (o := .takeInteraction) rfl fun _ ↦ ?_
      refine h.op_bind (o := .tryEmit _) rfl fun _ ↦ ?_
      exact h.op_bind (o := .currentState) rfl fun running ↦ h.bind (h.publish _) fun _ ↦ h.pure _

theorem deniedResult (h : Batches ctx C) (requestIndex : Nat) (invocation : ToolInvocation)
    (reason : Option BoundedText) :
    C (MinicoreRuntime.deniedResult ctx requestIndex invocation reason) := by
  unfold MinicoreRuntime.deniedResult
  split
  · exact h.pure _
  · exact h.panic

theorem executeTool (h : Batches ctx C) (requestIndex : Nat) (invocation : ToolInvocation)
    (enabled : EnabledTool) :
    C (MinicoreRuntime.executeTool ctx requestIndex invocation enabled) := by
  refine h.bind (h.turnDeadline _) fun deadline ↦ h.bind (h.tool _ _ _ _) fun outcome ↦ ?_
  cases outcome with
  | requestInput request =>
    refine h.bind (h.askHost invocation (.toolInput request)) fun answer ↦ ?_
    rcases answer with path | (decision | answer)
    · exact h.pure _
    · exact h.pure _
    · dsimp only
      split
      · exact h.pure _
      · exact h.panic
  | _ => exact h.pure _

theorem runToolCall (h : Batches ctx C) (requestIndex : Nat) (invocation : ToolInvocation)
    (enabled : EnabledTool) (policy : Option PolicyHandle) :
    C (MinicoreRuntime.runToolCall ctx requestIndex invocation enabled policy) := by
  refine h.bind (h.turnDeadline _) fun deadline ↦ h.bind (h.policy _ _ _ _) fun step ↦ ?_
  cases step with
  | allow => exact h.executeTool requestIndex invocation enabled
  | denied reason => exact h.deniedResult requestIndex invocation reason
  | requireApproval request =>
    refine h.bind (h.askHost invocation (.approval request)) fun answer ↦ ?_
    rcases answer with path | ((- | -) | answer)
    · exact h.pure _
    · exact h.executeTool requestIndex invocation enabled
    · exact h.deniedResult requestIndex invocation none
    · exact h.pure _
  | _ => exact h.pure _

theorem settleCalls (h : Batches ctx C) (requestIndex : Nat) (outcome : ToolResultOutcome)
    (message : ToolOutput) (calls : List ToolCall) :
    C (MinicoreRuntime.settleCalls ctx requestIndex outcome message calls) := by
  induction calls with
  | nil => exact h.pure _
  | cons call calls ih => exact h.op_bind (o := .append _) rfl fun _ ↦ ih

/-- The tool calls of a response. -/
theorem runToolBatch (h : Batches ctx C) (requestIndex : Nat) (snapshot : ExecutionConfig)
    (calls : List ToolCall) :
    C (MinicoreRuntime.runToolBatch ctx requestIndex snapshot calls) := by
  induction calls with
  | nil => exact h.pure _
  | cons call calls ih =>
    have hstep : C (batchStep ctx requestIndex snapshot call) := by
      refine h.op_bind (o := .isCancelled) rfl fun cancelled ↦ ?_
      split
      · exact h.pure _
      · split
        · exact h.panic
        · exact h.op_bind (o := .tryEmit _) rfl fun _ ↦ h.runToolCall _ _ _ _
    -- A result lets the batch go on; a stop settles the calls that are left.
    refine h.bind hstep fun step ↦ ?_
    cases step with
    | result result =>
      exact h.op_bind (o := .tryEmit _) rfl fun _ ↦ h.op_bind (o := .append _) rfl fun _ ↦ ih
    | stop path => exact h.bind (h.settleCalls _ _ _ _) fun _ ↦ h.pure _

end Batches

/-! ## The runner -/

/-- A compositional property that holds of the parts of a runner. -/
structure Rounds [SerdeJson] (ctx : LoopCtx) (C : ∀ {α : Type}, Action α → Prop) : Prop
    extends Prog.Compositional C where
  op : ∀ o : Op, o.outer = true → C (perform o)
  drop : ∀ config, C (dropConfig config)
  prompt : ∀ requestIndex snapshot view deadline,
    C (preparePrompt ctx requestIndex snapshot view deadline)
  model : ∀ requestIndex snapshot request deadline,
    C (runModel ctx requestIndex snapshot request deadline)
  batch : ∀ requestIndex snapshot calls, C (runToolBatch ctx requestIndex snapshot calls)
  settle : ∀ requestIndex outcome message calls,
    C (settleCalls ctx requestIndex outcome message calls)

namespace Rounds

variable [SerdeJson] {ctx : LoopCtx} {C : ∀ {α : Type}, Action α → Prop} {α : Type}

/-- An operation, followed by the rest of a program. -/
theorem op_bind (h : Rounds ctx C) {o : Op} (ho : o.outer = true) {f : o.Answer → Action α}
    (hf : ∀ r, C (f r)) : C ((perform o).bind f) :=
  h.bind (h.op o ho) hf

theorem publish (h : Rounds ctx C) (state : LoopState) : C (MinicoreRuntime.publish state) :=
  h.op_bind (o := .publishState state) rfl fun _ ↦ h.op (.tryEmit (.stateChanged state)) rfl

theorem publish_bind (h : Rounds ctx C) (state : LoopState) {f : Unit → Action α}
    (hf : C (f ())) : C ((MinicoreRuntime.publish state).bind f) :=
  h.bind (h.publish state) fun _ ↦ hf

theorem turnDeadline (h : Rounds ctx C) (deadline : Option Nat) :
    C (MinicoreRuntime.turnDeadline deadline) := by
  cases deadline with
  | some deadline => exact h.pure _
  | none =>
    refine h.op_bind (o := .now) rfl fun now ↦ ?_
    split
    · exact h.pure _
    · exact h.panic

theorem appendInputs (h : Rounds ctx C) (inputs : List UserInput) :
    C (MinicoreRuntime.appendInputs ctx inputs) := by
  induction inputs with
  | nil => exact h.pure _
  | cons input inputs ih => exact h.op_bind (o := .append _) rfl fun _ ↦ ih

theorem takeBoundary (h : Rounds ctx C) (pinned : Bool) (config : ExecutionConfig)
    (candidate : Option Nat) : C (MinicoreRuntime.takeBoundary ctx pinned config candidate) := by
  refine h.op_bind (o := .takeConfig) rfl fun pending ↦ ?_
  have hinputs (boundary : List UserInput → Boundary) :
      C ((perform .takeInputs).bind fun inputs ↦
        (MinicoreRuntime.appendInputs ctx inputs).bind fun _ ↦ Prog.pure (boundary inputs)) :=
    h.op_bind (o := .takeInputs) rfl fun inputs ↦
      h.bind (h.appendInputs inputs) fun _ ↦ h.pure _
  cases pending with
  | none => exact hinputs _
  | some pending =>
    have hrest := hinputs fun _ ↦ ⟨true, pending.config, some pending.revision⟩
    cases pinned with
    | true => exact hrest
    | false => exact h.op_bind (o := .dropConfig config) rfl fun _ ↦ hrest

theorem mapModelFailure (h : Rounds ctx C) (failure : ModelDriverFailure) :
    C (MinicoreRuntime.mapModelFailure failure) := by
  refine h.op_bind (o := .isCancelled) rfl fun cancelled ↦ ?_
  split
  · exact h.pure _
  · split
    · exact h.pure _
    · split <;> exact h.pure _

/-! ### Rounds -/

theorem runCalls (h : Rounds ctx C) (snapshot : ExecutionConfig) (locals : Locals)
    (calls : List ToolCall) : C (MinicoreRuntime.runCalls ctx snapshot locals calls) := by
  unfold MinicoreRuntime.runCalls
  split
  · exact h.bind (h.settle _ _ _ _) fun _ ↦ h.pure _
  · apply h.publish_bind
    refine h.bind (h.batch _ _ _) fun path ↦ ?_
    cases path <;> exact h.pure _

theorem handleResponse (h : Rounds ctx C) (snapshot : ExecutionConfig) (locals : Locals)
    (response : ModelResponse) :
    C (MinicoreRuntime.handleResponse ctx snapshot locals response) := by
  unfold MinicoreRuntime.handleResponse
  split
  · exact h.pure _
  · dsimp only
    split
    · split
      · exact h.pure _
      · refine h.op_bind (o := .append _) rfl fun _ ↦ ?_
        split
        · exact h.op_bind (o := .beginFinal) rfl fun _ ↦ h.pure _
        · exact h.pure _
    · exact h.op_bind (o := .append _) rfl fun _ ↦ h.runCalls snapshot _ _

theorem issueRequest (h : Rounds ctx C) (snapshot : ExecutionConfig) (locals : Locals)
    (request : ModelRequest) :
    C (MinicoreRuntime.issueRequest ctx snapshot locals request) := by
  refine h.op_bind (o := .commitRevision _) rfl fun _ ↦ h.op_bind (o := .tryEmit _) rfl fun _ ↦ ?_
  apply h.publish_bind
  refine h.bind (h.turnDeadline _) fun deadline ↦ h.bind (h.model _ _ _ _) fun result ↦ ?_
  cases result with
  | error failure => exact h.bind (h.mapModelFailure failure) fun _ ↦ h.pure _
  | ok response => exact h.handleResponse snapshot _ response

theorem prepareRequest (h : Rounds ctx C) (locals : Locals) :
    C (MinicoreRuntime.prepareRequest ctx locals) := by
  apply h.publish_bind
  refine h.op_bind (o := .view) rfl fun view ↦ h.bind (h.turnDeadline _) fun deadline ↦ ?_
  refine h.bind (h.prompt _ _ _ _) fun prep ↦ ?_
  cases prep with
  | stop path => exact h.pure _
  | ready messages =>
    refine h.bind (h.takeBoundary _ _ _) fun boundary ↦ ?_
    dsimp only
    split
    · exact h.op_bind (o := .dropConfig _) rfl fun _ ↦ h.pure _
    · split
      · exact h.pure _
      · exact h.issueRequest _ _ _

/-- A round of the loop of requests. -/
theorem requestRound (h : Rounds ctx C) (locals : Locals) :
    C (MinicoreRuntime.requestRound ctx locals) := by
  refine h.op_bind (o := .isCancelled) rfl fun cancelled ↦ ?_
  split
  · exact h.pure _
  · have hpast : C (pastDeadline ctx.options.deadline) := by
      unfold pastDeadline
      split
      · exact h.pure _
      · exact h.op_bind (o := .now) rfl fun _ ↦ h.pure _
    refine h.bind hpast fun past ↦ ?_
    split
    · exact h.pure _
    · exact h.bind (h.takeBoundary _ _ _) fun boundary ↦ h.prepareRequest _

/-! ### The report -/

theorem outcomeFor (h : Rounds ctx C) (path : FailPath) :
    C (MinicoreRuntime.outcomeFor path) := by
  cases path with
  | cancelled => exact h.op_bind (o := .cancelReason) rfl fun _ ↦ h.pure _
  | _ => exact h.pure _

theorem finishOnce (h : Rounds ctx C) : C MinicoreRuntime.finishOnce := by
  refine h.op_bind (o := .sealState) rfl fun finish ↦ ?_
  have hclose : C ((perform .closeAccepting).bind fun discarded ↦ Prog.pure (finish, discarded)) :=
    h.op_bind (o := .closeAccepting) rfl fun _ ↦ h.pure _
  cases finish with
  | cancelledPrior source => exact h.op_bind (o := .sealCancelled source) rfl fun _ ↦ hclose
  | clean => exact hclose
  | alreadyFinished => exact hclose

theorem deliverReport (h : Rounds ctx C) (ending : Ending) (revision : Nat) (outcome : LoopOutcome)
    (discarded : Option ExecutionConfig) :
    C (MinicoreRuntime.deliverReport ctx ending revision outcome discarded) := by
  refine h.op_bind (o := .intoAppended) rfl fun appended ↦ h.bind ?_ fun _ ↦ ?_
  · refine h.op_bind (o := .currentState) rfl fun state ↦ ?_
    apply h.publish_bind
    refine h.op_bind (o := .currentState) rfl fun state ↦ ?_
    exact h.publish _
  · refine h.op_bind (o := .sendReport _) rfl fun _ ↦ h.op_bind (o := .tryEmit _) rfl fun _ ↦ ?_
    exact h.op_bind (o := .cancelToken) rfl fun _ ↦ h.bind (h.drop _) fun _ ↦ h.pure _

theorem publishedReport (h : Rounds ctx C) : C MinicoreRuntime.publishedReport := by
  refine h.op_bind (o := .publishedReport) rfl fun report ↦ ?_
  cases report with
  | none => exact h.panic
  | some report => exact h.pure _

theorem finishLoop (h : Rounds ctx C) (ending : Ending) :
    C (MinicoreRuntime.finishLoop ctx ending) := by
  refine h.op_bind (o := .appliedRevision) rfl fun revision ↦ ?_
  refine h.bind (h.outcomeFor ending.path) fun intended ↦ h.bind h.finishOnce fun x ↦ ?_
  obtain ⟨finish, discarded⟩ := x
  cases finish with
  | clean => exact h.deliverReport ending revision intended discarded
  | cancelledPrior source => exact h.deliverReport ending revision _ discarded
  | alreadyFinished => exact h.publishedReport

/-- The runner up to its report. -/
theorem runLoopInner (h : Rounds ctx C) (request : LoopRequest) :
    C (MinicoreRuntime.runLoopInner ctx request) := by
  refine h.op_bind (o := .tryEmit _) rfl fun _ ↦ h.op_bind (o := .append _) rfl fun _ ↦ ?_
  refine h.bind (h.iterate _ h.requestRound) fun ending ↦ ?_
  refine h.bind (h.finishLoop ending) fun report ↦ ?_
  exact h.bind (h.drop _) fun _ ↦ h.op_bind (o := .dropConfig _) rfl fun _ ↦ h.pure _

end Rounds

end MinicoreRuntime
