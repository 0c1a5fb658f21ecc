import MinicoreRuntime.AgentLoop.Runner

/-!
# Sessions

What the trace of a runner says about its session: the working history, the configuration in force,
the inputs handed over, and where the runner is between two requests, in a request, or in the tool
calls of its response. Together with the rules that say which operations a runner may perform where,
this is a monitor for runners.

## Main definitions

* `Session`: what a trace says.
* `Session.next`: how an operation and its answer change it.
* `Session.Permits`: the rules.
* `sessionMonitor`: the monitor.
-/

namespace MinicoreRuntime

open Interactive

/-- A request that was issued. -/
structure Issue where
  revision : Nat
  config : ExecutionConfig
  /-- What its prompt provider was asked. -/
  prompt : PromptRequest
  messages : List ModelMessage
  index : Nat

/-- How far the permission to execute a tool call has come. -/
inductive Clearance where
  | undecided
  /-- The policy allowed the call. -/
  | allowed
  /-- The policy asked for approval. -/
  | asked (request : ApprovalRequest)
  /-- The host was asked for the approval. -/
  | waiting (slot : InteractionSlot)
  /-- The host approved. -/
  | granted (slot : InteractionSlot)

/-- The tool call whose turn it is. -/
structure Calling where
  issue : Issue
  call : ToolCall
  rest : List ToolCall
  clearance : Clearance
  /-- The execution of its tool was started. -/
  started : Bool

/-- A call may execute without a policy, when the policy allowed it, or when the host approved. -/
def Calling.Cleared (c : Calling) : Prop :=
  c.issue.config.policy = none ∨ c.clearance = .allowed ∨ ∃ slot, c.clearance = .granted slot

/-- Where a runner is. -/
inductive Phase where
  /-- The prompt of the loop was not appended yet. -/
  | starting
  /-- Between two requests. -/
  | boundary
  /-- The prompt of the next request is prepared, and nothing was taken since. -/
  | prepared (provider : PromptHandle) (request : PromptRequest) (messages : List ModelMessage)
  /-- A request was issued and its response not appended yet. -/
  | issued (issue : Issue)
  /-- A tool call of the last response has no result yet. -/
  | calling (c : Calling)
  /-- The last response had no tool calls. -/
  | concluded

/-- What a trace says about the session of a runner. -/
structure Session where
  working : WorkingHistory
  /-- The state last published. -/
  state : LoopState
  /-- The configuration last taken, or the one the loop started with. -/
  config : ExecutionConfig
  /-- The revision of that configuration. -/
  revision : Nat
  /-- All inputs handed over. -/
  taken : List UserInput
  /-- The inputs handed over and not appended yet. -/
  queue : List UserInput
  /-- How many channels for answers were made. -/
  channels : Nat
  /-- The interactions set, newest first. -/
  slots : List InteractionSlot
  /-- How many requests were issued. -/
  issues : Nat
  /-- How many responses were appended. -/
  responses : Nat
  /-- The latest configuration was asked for since a prompt was prepared. -/
  fresh : Bool
  /-- Updates are no longer accepted. -/
  closed : Bool
  /-- The report delivered last. -/
  report : Option LoopReport
  phase : Phase

/-- What a loop is started with. -/
structure Setup where
  ctx : LoopCtx
  request : LoopRequest

namespace Session

/-- The session of a runner that has not done anything. -/
def init (setup : Setup) : Session where
  working := .new setup.request.history
  state := .new setup.ctx.id .starting 0 ConfigRevision.initial
  config := setup.request.config
  revision := ConfigRevision.initial
  taken := []
  queue := []
  channels := 0
  slots := []
  issues := 0
  responses := 0
  fresh := false
  closed := false
  report := none
  phase := .starting

/-- The index of the next request. -/
def index (s : Session) : Nat := min s.responses (2 ^ 32 - 1)

/-! ### What an operation changes -/

/-- The phase after an item was appended. -/
def afterAppend (phase : Phase) : HistoryItem → Phase
  | .user ⟨_, .prompt, _⟩ => .boundary
  | .user ⟨_, .steering, _⟩ => phase
  | .assistant item =>
    match phase, toolCalls item.content with
    | .issued issue, call :: rest => .calling ⟨issue, call, rest, .undecided, false⟩
    | _, _ => .concluded
  | .toolResult _ =>
    match phase with
    | .calling ⟨_, _, [], _, _⟩ => .boundary
    | .calling ⟨issue, _, call :: rest, _, _⟩ => .calling ⟨issue, call, rest, .undecided, false⟩
    | phase => phase
  | .summary _ => phase

/-- The phase with the clearance of the call whose turn it is changed. -/
def mapClearance (f : Clearance → Clearance) : Phase → Phase
  | .calling c => .calling { c with clearance := f c.clearance }
  | phase => phase

/-- The clearance a decision of the policy gives. -/
def decided : ToolDecision → Clearance
  | .allow => .allowed
  | .deny _ => .undecided
  | .requireApproval request => if request.validate then .asked request else .undecided

/-- The clearance after an interaction was set. -/
def waitingFor (slot : InteractionSlot) (clearance : Clearance) : Clearance :=
  match clearance, slot.expected with
  | .asked _, .approval _ => .waiting slot
  | clearance, _ => clearance

/-- The clearance after the host approved on a channel. -/
def grantedOn (channel : Nat) : Clearance → Clearance
  | .waiting slot => if slot.reply = channel then .granted slot else .waiting slot
  | clearance => clearance

/-- The session after a port answered. -/
def afterReady (s : Session) : {port : Port} → PortCall port → port.Result → Session
  | _, .prepare provider request, .ok messages =>
    { s with phase := .prepared provider request messages, fresh := false }
  | _, .decide _ _ _ _, .ok decision =>
    { s with phase := mapClearance (fun _ ↦ decided decision) s.phase }
  | _, _, _ => s

/-- The session after a future was made. -/
def afterMake (s : Session) : {port : Port} → PortCall port → Session
  | _, .execute _ _ _ =>
    { s with phase := match s.phase with
        | .calling c => .calling { c with started := true }
        | phase => phase }
  | _, _ => s

/-- The session after a channel for an answer was polled. -/
def afterPoll (s : Session) (channel : Nat) : Polled (Option InteractionAnswer) → Session
  | .ready (some (.approval .allowOnce)) =>
    { s with phase := mapClearance (grantedOn channel) s.phase }
  | _ => s

/-- The session after an operation. -/
def next (s : Session) : (o : Op) → Nat → o.Answer → Session
  | .append item, _, _ =>
    { s with
      working := s.working.append item
      queue := match item with
        | .user ⟨_, .steering, _⟩ => s.queue.tail
        | _ => s.queue
      responses := match item with
        | .assistant _ => s.responses + 1
        | _ => s.responses
      phase := afterAppend s.phase item }
  | .publishState state, _, _ => { s with state := state }
  | .sendReport report, _, _ => { s with report := some report }
  | .takeConfig, _, none => { s with fresh := true }
  | .takeConfig, _, some pending =>
    { s with
      config := pending.config, revision := pending.revision, fresh := true, phase := .boundary }
  | .beginFinal, _, _ | .closeAccepting, _, _ => { s with closed := true }
  | .takeInputs, _, inputs =>
    { s with
      taken := s.taken ++ inputs
      queue := s.queue ++ inputs
      phase := if inputs.isEmpty then s.phase else .boundary }
  | .commitRevision revision, _, _ =>
    { s with
      issues := s.issues + 1
      phase := match s.phase with
        | .prepared _ request messages =>
          .issued ⟨revision, s.config, request, messages, s.index⟩
        | phase => phase }
  | .makeFuture call, _, _ => s.afterMake call
  | .pollPort call _, _, .ready result => s.afterReady call result
  | .oneshot, _, _ => { s with channels := s.channels + 1 }
  | .setInteraction slot, _, true =>
    { s with slots := slot :: s.slots, phase := mapClearance (waitingFor slot) s.phase }
  | .pollInteraction channel _, _, polled => s.afterPoll channel polled
  | _, _, _ => s

/-! ### The rules -/

/-- The loop is not ending. -/
def Running (s : Session) : Prop := s.report = none ∧ s.closed = false

/-- The runner may take inputs and configurations. -/
def AtBoundary (s : Session) : Prop :=
  s.queue = [] ∧ s.Running ∧ (s.phase = .boundary ∨ ∃ provider request messages,
    s.phase = .prepared provider request messages)

/-- No input and no tool call is left open. -/
def Settled (s : Session) : Prop :=
  s.queue = [] ∧ s.phase ≠ .starting ∧ ∀ c, s.phase ≠ .calling c

/-- The rules for items of the working history. -/
def PermitsItem (setup : Setup) (s : Session) : HistoryItem → Prop
  | .user ⟨loopId, .prompt, input⟩ =>
    s.phase = .starting ∧ loopId = setup.ctx.id ∧ input = setup.request.input
  | .user ⟨loopId, .steering, input⟩ =>
    loopId = setup.ctx.id ∧ s.phase = .boundary ∧ ∃ rest, s.queue = input :: rest
  | .assistant item =>
    s.queue = [] ∧ ∃ issue response, s.phase = .issued issue ∧
      item = assistantHistory setup.ctx issue.index issue.config response ∧
      response.Constructed
  | .toolResult item =>
    s.queue = [] ∧ ∃ c, s.phase = .calling c ∧ item.loopId = setup.ctx.id ∧
      item.requestIndex = c.issue.index ∧ item.callId = c.call.toolCallId ∧
      item.toolName = c.call.name
  | .summary _ => False

/-- The rules for the calls of a port, before and after the future is made. -/
def PermitsCall (setup : Setup) (s : Session) (made : Bool) : {port : Port} → PortCall port → Prop
  | _, .prepare provider request =>
    s.queue = [] ∧ s.phase = .boundary ∧ provider = s.config.prompt ∧
      request = promptRequest setup.ctx s.index s.config s.working.view request.deadline
  | _, .decide policy invocation spec _ =>
    ∃ c enabled, s.phase = .calling c ∧ c.issue.config.policy = some policy ∧
      invocation = c.call.invocation ∧ c.started = false ∧
      c.issue.config.tools.find c.call.name = some enabled ∧ spec = enabled.spec
  | _, .execute tool invocation _ =>
    ∃ c enabled, s.phase = .calling c ∧ c.Cleared ∧ invocation = c.call.invocation ∧
      c.started = made ∧ c.issue.config.tools.find c.call.name = some enabled ∧
      tool = enabled.implementation

/-- The rules for published states: those of a request carry its revision. -/
def PermitsState (s : Session) (state : LoopState) : Prop :=
  match state.status with
  | .runningModel =>
    ∃ issue, s.phase = .issued issue ∧ state.configRevision = issue.revision ∧
      state.requestIndex = issue.index
  | .runningTools | .waitingForInput =>
    ∃ c, s.phase = .calling c ∧ state.configRevision = c.issue.revision ∧
      state.requestIndex = c.issue.index
  | .starting | .finishing | .finished => True

/-- The rules for events. -/
def PermitsEvent (setup : Setup) (s : Session) : LoopEvent → Prop
  | .stateChanged state => state = s.state
  | .requestStarted loopId requestIndex configRevision model reasoning =>
    ∃ issue, s.phase = .issued issue ∧ loopId = setup.ctx.id ∧ requestIndex = issue.index ∧
      configRevision = issue.revision ∧ model = issue.config.descriptor.modelRef ∧
      reasoning = issue.config.reasoning
  | _ => True

/-- The rules for runners. -/
def Permits (setup : Setup) (s : Session) : Op → Prop
  | .append item => s.PermitsItem setup item
  | .takeConfig | .takeInputs => s.AtBoundary
  | .makeFuture call => s.PermitsCall setup false call
  | .pollPort call _ => s.PermitsCall setup true call
  | .commitRevision revision =>
    s.queue = [] ∧ revision = s.revision ∧ s.fresh = true ∧ ∃ request messages,
      s.phase = .prepared s.config.prompt request messages ∧ request.history = s.working.view ∧
      buildModelRequest messages s.config =
        .ok ⟨messages, s.config.tools.specs, .default, s.config.reasoning⟩
  | .startModel model request context =>
    ∃ issue, s.phase = .issued issue ∧ model = issue.config.model ∧
      request = ⟨issue.messages, issue.config.tools.specs, .default, issue.config.reasoning⟩ ∧
      context.loopId = setup.ctx.id ∧ context.requestIndex = issue.index
  | .publishState state => s.PermitsState state
  | .tryEmit event => s.PermitsEvent setup event
  | .setInteraction slot =>
    (∃ c, s.phase = .calling c) ∧ slot.reply < s.channels ∧
      ∀ slot' ∈ s.slots, slot'.reply ≠ slot.reply
  | .intoAppended => s.Settled
  | .sendReport report => s.Settled ∧ report.appended = s.working.appended
  | _ => True

/-- What the machine answers. -/
def Expects (s : Session) : (o : Op) → Nat → o.Answer → Prop
  | .view, _, view => view = s.working.view
  | .intoAppended, _, appended => appended = s.working.appended
  | .currentState, _, state => state = s.state
  | .publishedReport, _, report => report = s.report
  | .oneshot, _, channel => channel = s.channels ∧ ∀ slot ∈ s.slots, slot.reply ≠ channel
  | _, _, _ => True

end Session

/-- The monitor of sessions. -/
def sessionMonitor (setup : Setup) : Monitor interface Nat where
  State := Session
  init := .init setup
  allowed := Session.Permits setup
  expects := Session.Expects
  next := Session.next

end MinicoreRuntime
