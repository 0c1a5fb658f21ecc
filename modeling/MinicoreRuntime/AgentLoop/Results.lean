import MinicoreRuntime.AgentLoop.Answers
import MinicoreRuntime.AgentLoop.Conformance
import MinicoreRuntime.AgentLoop.Rounds

/-!
# Results of tool calls

Every tool call ends with a result whose body keeps the loop's own cap, down to a cap of one byte.
What a tool completed with, and the reason a policy denied a call for, are recorded unchanged where
they fit; where they do not fit, a fixed text stands in their place, or nothing.

The monitor of this module follows what was decided about the call of the moment until its result is
appended.

## Main definitions

* `Verdict`, `verdictMonitor`: what was decided about a call.
* `Verdict.Recorded`: a result that records it.

## Main results

* `deniedOutput_spec`: the body of a denial never unwinds the runner.
* `verdict_runToolBatch`: a batch appends results that keep the cap and record what was decided.
* `tool_results_bounded`: the results of a run.
-/

namespace MinicoreRuntime

open Interactive

/-! ## Bodies -/

/-- A text in the place of a body that does not fit. -/
def fallback (message : Text) (maxBytes : Nat) : Text :=
  if byteLen message ≤ maxBytes then message else []

theorem staticOutput_asStr (message : ToolOutput) (maxBytes : Nat) :
    (staticOutput message maxBytes).content.asStr = fallback message.content.asStr maxBytes := by
  unfold staticOutput fallback
  show (if message.content.byteLen ≤ maxBytes then message else _).content.asStr =
    if message.content.byteLen ≤ maxBytes then _ else _
  split <;> rfl

/-- A body is accepted by its own check. -/
theorem ToolOutput.new_asStr (output : ToolOutput) :
    ToolOutput.new output.content.asStr = .ok output := dif_pos output.valid

/-- A reason that its policy may give is the body of a result. -/
theorem ToolOutput.new_of_reason {reason : BoundedText}
    (h : (ToolDecision.deny reason).validate = true) :
    ∃ output, ToolOutput.new reason.asStr = .ok output ∧ output.content = reason := by
  obtain ⟨-, hbytes, hlegal⟩ := validText_iff.mp h
  have hcap : maxToolPolicyTextBytes ≤ maxTextBytes := by decide
  have hvalid : validText reason.asStr maxTextBytes true = true :=
    validText_iff.mpr ⟨.inl rfl, by omega, hlegal⟩
  exact ⟨_, dif_pos hvalid, rfl⟩

/-- The body of a denial: the reason where it fits, and a fixed text or nothing where it does not.
-/
theorem deniedOutput_spec {reason : BoundedText}
    (h : (ToolDecision.deny reason).validate = true) (maxBytes : Nat) :
    ∃ output, deniedOutput (some reason) maxBytes = some output ∧
      output.content.byteLen ≤ maxBytes ∧
      (output.content = reason ↔ reason.byteLen ≤ maxBytes) ∧
      (maxBytes < reason.byteLen →
        output.content.asStr = fallback "tool denied".toList maxBytes) := by
  by_cases hfits : reason.byteLen ≤ maxBytes
  · obtain ⟨output, hnew, rfl⟩ := ToolOutput.new_of_reason h
    refine ⟨output, ?_, hfits, iff_of_true rfl hfits, fun hlarge ↦ absurd hfits (by omega)⟩
    rw [deniedOutput, if_pos hfits, hnew]
  · have hbound := staticOutput_spec (.ofStatic "tool denied" (by decide)) maxBytes
    refine ⟨_, if_neg hfits, hbound.1, iff_of_false ?_ hfits, fun _ ↦ staticOutput_asStr _ _⟩
    -- The text in the reason's place fits, so it is not the reason.
    rintro rfl
    exact hfits hbound.1

/-- Whatever a policy does, the reason that it denies a call for is the body of a result. -/
theorem deniedOutput_of_policyStep {outcome : PortCallOutcome .policy}
    {reason : Option BoundedText} (h : policyStep outcome = .denied reason) (maxBytes : Nat) :
    (deniedOutput reason maxBytes).isSome = true := by
  cases reason with
  | none => rfl
  | some reason =>
    -- A denial that gets here passed the check of the decision.
    have hvalid : (ToolDecision.deny reason).validate = true := by
      unfold policyStep at h
      split at h
      · rename_i decision
        split at h
        · simp at h
        · rename_i hvalid
          cases decision with
          | deny given =>
            obtain rfl := Option.some.inj (PolicyStep.denied.inj h)
            simpa using hvalid
          | _ => simp at h
      all_goals simp at h
    obtain ⟨output, houtput, -⟩ := deniedOutput_spec hvalid maxBytes
    rw [houtput]
    rfl

/-! ## Verdicts -/

/-- What was decided about the call of the moment and is not recorded yet. -/
inductive Verdict where
  | undecided
  /-- A policy denied the call for a reason that passed its check. -/
  | denied (invocation : ToolInvocation) (reason : BoundedText)
  /-- The tool completed. -/
  | completed (invocation : ToolInvocation) (output : ToolOutput)

/-- What the answer of a port decides. -/
def PortCall.verdict : {port : Port} → PortCall port → port.Result → Verdict
  | _, .decide _ invocation _ _, .ok (.deny reason) =>
    if (ToolDecision.deny reason).validate then .denied invocation reason else .undecided
  | _, .execute _ invocation _, .ok (.completed output) => .completed invocation output
  | _, _, _ => .undecided

/-- The result of a call that was denied for a reason. -/
structure DeniedRecord (maxBytes : Nat) (invocation : ToolInvocation) (reason : BoundedText)
    (result : ToolResultHistory) : Prop where
  call : result.callId = invocation.toolCallId ∧ result.toolName = invocation.toolName
  outcome : result.outcome = .denied
  unchanged : result.output.content = reason ↔ reason.byteLen ≤ maxBytes
  replaced : maxBytes < reason.byteLen →
    result.output.content.asStr = fallback "tool denied".toList maxBytes

/-- The result of a call that completed. -/
structure CompletedRecord (maxBytes : Nat) (invocation : ToolInvocation) (output : ToolOutput)
    (result : ToolResultHistory) : Prop where
  call : result.callId = invocation.toolCallId ∧ result.toolName = invocation.toolName
  unchanged : result.outcome = .success ∧ result.output = output ↔
    output.content.byteLen ≤ maxBytes
  replaced : maxBytes < output.content.byteLen → result.outcome = .failed ∧
    result.output.content.asStr = fallback "tool output too large".toList maxBytes

namespace Verdict

/-- The result records what was decided. -/
def Recorded (maxBytes : Nat) (result : ToolResultHistory) : Verdict → Prop
  | .undecided => True
  | .denied invocation reason => DeniedRecord maxBytes invocation reason result
  | .completed invocation output => CompletedRecord maxBytes invocation output result

/-- A result keeps the cap and records what was decided, and no port is asked before it does. -/
def Permits (maxBytes : Nat) (s : Verdict) : Op → Prop
  | .append (.toolResult result) =>
    result.output.content.byteLen ≤ maxBytes ∧ s.Recorded maxBytes result
  | .pollPort _ _ => s = .undecided
  | _ => True

/-- What is decided after an operation. -/
def next (s : Verdict) : (o : Op) → o.Answer → Verdict
  | .append (.toolResult _), _ => .undecided
  | .pollPort call _, .ready result => call.verdict result
  | _, _ => s

end Verdict

/-- The monitor of verdicts. -/
def verdictMonitor (maxBytes : Nat) : Monitor interface Nat where
  State := Verdict
  init := .undecided
  allowed := Verdict.Permits maxBytes
  expects _ _ _ _ := True
  next s o _ r := s.next o r

/-- Operations that neither decide nor record. -/
def Op.silent : Op → Bool
  | .append (.toolResult _) | .pollPort _ _ => false
  | _ => true

/-- Only port calls and the results of tool calls decide or record anything. -/
theorem Op.silent_of {o : Op} (h : o.plain = true ∨ o.asks = true ∨ o.outer = true) :
    o.silent = true := by
  cases o with
  | append item =>
    cases item <;> first | rfl | exact absurd h (by simp [Op.plain, Op.asks, Op.outer])
  | pollPort call deadline =>
    exact absurd h (by simp [Op.plain, Op.asks, Op.outer, Op.inner, Op.routine, Op.finishes])
  | _ => rfl

theorem Op.silent_of_plain {o : Op} (h : o.plain = true) : o.silent = true := silent_of (.inl h)

section

variable {ctx : LoopCtx} {maxBytes : Nat} {s : Verdict} {α : Type}

/-- Such an operation is allowed and decides nothing. -/
theorem verdict_silent {o : Op} (h : o.silent = true) : (verdictMonitor maxBytes).Silent o := by
  intro s
  cases o with
  | append item =>
    cases item <;> first | exact ⟨trivial, fun _ _ ↦ rfl⟩ | exact absurd h (by simp [Op.silent])
  | pollPort => exact absurd h (by simp [Op.silent])
  | _ => exact ⟨trivial, fun _ _ ↦ rfl⟩

/-! ## Port calls -/

/-- What is decided after a port call: what its answer decides, if it answered. -/
def AfterCall {port : Port} (make : Nat → PortCall port) (outcome : PortCallOutcome port)
    (s : Verdict) : Prop :=
  match outcome with
  | .returned result => ∃ deadline, s = (make deadline).verdict result
  | _ => s = .undecided

theorem verdict_runPortCall {port : Port} {awaiter : Action Unit}
    (hawait : awaiter.Uses Op.Plain) (turnDeadline timeout : Nat) (make : Nat → PortCall port) :
    (verdictMonitor maxBytes).wp (runPortCall awaiter turnDeadline timeout make)
      (.ofReturned (AfterCall make)) .undecided := by
  unfold runPortCall
  refine (verdictMonitor _).wp_silent_call (verdict_silent rfl) fun cancelled ↦ ?_
  split
  · rfl
  refine (verdictMonitor _).wp_silent_call (verdict_silent rfl) fun deadline ↦ ?_
  cases deadline with
  | none => rfl
  | some deadline =>
    refine (verdictMonitor _).wp_silent_call (verdict_silent rfl) fun now ↦ ?_
    split
    · rfl
    refine (verdictMonitor _).wp_silent_call (verdict_silent rfl) fun made ↦ ?_
    split
    · refine (verdictMonitor maxBytes).wp_bind_of (Q := AfterCall make) ?_
        fun outcome s₁ hs₁ ↦ (verdictMonitor _).wp_silent_call (verdict_silent rfl) fun _ ↦ hs₁
      -- Between two polls nothing is decided.
      refine (verdictMonitor maxBytes).wp_iterate (fun _ s' ↦ s' = Verdict.undecided) rfl ?_
      rintro - _ rfl
      refine (verdictMonitor maxBytes).wp_call_bind_of rfl fun n polled _ ↦ ?_
      cases polled with
      | ready result => exact ⟨deadline.instant, rfl⟩
      | pending =>
        exact (verdictMonitor maxBytes).wp_silent_bind (fun _ ↦ verdict_silent)
          (Prog.uses_mono hawait fun _ ↦ Op.silent_of_plain) fun _ ↦ rfl
      | _ => rfl
    · rfl

/-- What is decided after a policy was asked. -/
def AfterPolicy (invocation : ToolInvocation) (step : PolicyStep) (s : Verdict) : Prop :=
  match step with
  | .denied (some reason) =>
    s = .denied invocation reason ∧ (ToolDecision.deny reason).validate = true
  | _ => s = .undecided

theorem verdict_decidePolicy (policy : Option PolicyHandle) (invocation : ToolInvocation)
    (spec : ToolSpec) (turnDeadline : Nat) :
    (verdictMonitor maxBytes).wp (decidePolicy ctx policy invocation spec turnDeadline)
      (.ofReturned (AfterPolicy invocation)) .undecided := by
  cases policy with
  | none => rfl
  | some policy =>
    refine (verdictMonitor maxBytes).wp_bind_of
      (verdict_runPortCall (Prog.uses_pure _ _) _ _ _) ?_
    rintro outcome s₁ hs₁
    show AfterPolicy invocation (policyStep outcome) s₁
    -- Only a decision is a verdict, and only a valid denial says so to the call.
    cases outcome with
    | returned result =>
      obtain ⟨deadline, rfl⟩ := hs₁
      rcases result with error | (- | reason | request)
      · rfl
      · rfl
      · cases hvalid : (ToolDecision.deny reason).validate with
        | true => simp [policyStep, PortCall.verdict, AfterPolicy, hvalid]
        | false => simp [policyStep, PortCall.verdict, AfterPolicy, hvalid]
      · cases hvalid : (ToolDecision.requireApproval request).validate with
        | true => simp [policyStep, PortCall.verdict, AfterPolicy, hvalid]
        | false => simp [policyStep, PortCall.verdict, AfterPolicy, hvalid]
    | deadlineExceeded source => cases source <;> exact hs₁
    | _ => exact hs₁

/-- What is decided after a tool was executed. -/
def AfterTool (invocation : ToolInvocation) (tool : ToolPort) (s : Verdict) : Prop :=
  match tool with
  | .completed output => s = .completed invocation output
  | _ => s = .undecided

theorem verdict_runToolPort (requestIndex : Nat) (invocation : ToolInvocation)
    (implementation : ToolHandle) (turnDeadline : Nat) :
    (verdictMonitor maxBytes).wp
      (runToolPort ctx requestIndex invocation implementation turnDeadline)
      (.ofReturned (AfterTool invocation)) .undecided := by
  refine (verdictMonitor _).wp_silent_call (verdict_silent rfl) fun _ ↦ ?_
  refine (verdictMonitor maxBytes).wp_bind_of
    (verdict_runPortCall (uses_awaitTool (fun _ ho ↦ ho) ctx requestIndex) _ _ _) ?_
  rintro outcome s₁ hs₁
  refine (verdictMonitor _).wp_silent_call (verdict_silent rfl) fun _ ↦ ?_
  refine (verdictMonitor _).wp_silent_call (verdict_silent rfl) fun _ ↦ ?_
  refine (verdictMonitor _).wp_silent_bind (fun _ ↦ verdict_silent) (Prog.uses_iterate fun _ ↦
    uses_forwardToolProgress (fun _ ↦ Op.silent_of_plain) ctx requestIndex) fun _ ↦ ?_
  refine (verdictMonitor _).wp_silent_call (verdict_silent rfl) fun _ ↦ ?_
  -- Forwarding progress changes no verdict: what counts is the outcome.
  show AfterTool invocation (toolPort outcome) s₁
  cases outcome with
  | returned result =>
    obtain ⟨deadline, rfl⟩ := hs₁
    rcases result with error | (output | request)
    · rfl
    · rfl
    · unfold toolPort
      dsimp only
      split <;> rfl
  | deadlineExceeded source => cases source <;> exact hs₁
  | _ => exact hs₁

/-! ## Calls -/

/-- After a call its result may be appended; where the loop ends instead nothing is decided. -/
def AfterToolStep (maxBytes : Nat) (step : ToolStep) (s : Verdict) : Prop :=
  match step with
  | .result result => s.Permits maxBytes (.append (.toolResult result))
  | .stop _ => s = .undecided

theorem terminalToolResult_bounded (id : LoopId) (requestIndex : Nat) (callId : ToolCallId)
    (toolName : ToolName) (outcome : ToolResultOutcome) (message : ToolOutput) :
    (terminalToolResult id requestIndex callId toolName outcome message
      maxBytes).output.content.byteLen ≤ maxBytes :=
  (staticOutput_spec message maxBytes).1

/-- The result of a tool that completed records its output. -/
theorem completedResult_recorded (id : LoopId) (requestIndex : Nat) (invocation : ToolInvocation)
    (output : ToolOutput) :
    (Verdict.completed invocation output).Permits maxBytes
      (.append (.toolResult (completedResult id requestIndex invocation output maxBytes))) := by
  unfold completedResult
  split
  · rename_i hfits
    exact ⟨hfits, ⟨rfl, rfl⟩, iff_of_true ⟨rfl, rfl⟩ hfits,
      fun hlarge ↦ absurd hfits (by omega)⟩
  · rename_i hlarge
    refine ⟨terminalToolResult_bounded _ _ _ _ _ _, ⟨rfl, rfl⟩, iff_of_false ?_ hlarge,
      fun _ ↦ ⟨rfl, staticOutput_asStr _ _⟩⟩
    rintro ⟨houtcome, -⟩
    exact absurd houtcome (by simp [tooLargeResult, terminalToolResult])

/-- The result of a tool that was given input keeps the cap. -/
theorem providedInputResult_bounded (id : LoopId) (requestIndex : Nat)
    (invocation : ToolInvocation) (content : Text) :
    (providedInputResult id requestIndex invocation content maxBytes).output.content.byteLen ≤
      maxBytes := by
  unfold providedInputResult
  split
  · rename_i hfits
    split
    · rename_i output hnew
      have hcontent : output.content.asStr = content := by
        unfold ToolOutput.new at hnew
        split at hnew
        · obtain rfl := Except.ok.inj hnew
          rfl
        · simp at hnew
      rw [← hcontent] at hfits
      exact hfits
    · exact terminalToolResult_bounded _ _ _ _ _ _
  · exact terminalToolResult_bounded _ _ _ _ _ _

theorem verdict_deniedResult {requestIndex : Nat} {invocation : ToolInvocation}
    {reason : Option BoundedText} (hs : AfterPolicy invocation (.denied reason) s) :
    (verdictMonitor ctx.options.limits.maxToolOutputBytes).wp
      (deniedResult ctx requestIndex invocation reason)
      (.ofReturned (AfterToolStep ctx.options.limits.maxToolOutputBytes)) s := by
  cases reason with
  | none =>
    obtain rfl : s = .undecided := hs
    exact ⟨(staticOutput_spec _ _).1, trivial⟩
  | some reason =>
    obtain ⟨rfl, hvalid⟩ := hs
    obtain ⟨output, houtput, hbytes, hunchanged, hreplaced⟩ :=
      deniedOutput_spec hvalid ctx.options.limits.maxToolOutputBytes
    unfold deniedResult
    rw [houtput]
    exact ⟨hbytes, ⟨rfl, rfl⟩, rfl, hunchanged, hreplaced⟩

/-- A question decides nothing. -/
theorem verdict_askHost (invocation : ToolInvocation) (kind : InteractionKind)
    {f : Except FailPath InteractionAnswer → Action α} {R : α → Verdict → Prop}
    (hf : ∀ answer, (verdictMonitor maxBytes).wp (f answer) (.ofReturned R) s) :
    (verdictMonitor maxBytes).wp ((askHost ctx invocation kind).bind f) (.ofReturned R) s :=
  (verdictMonitor maxBytes).wp_silent_bind (fun _ ↦ verdict_silent)
    (Traversal.uses_askHost (fun _ ho ↦ Op.silent_of (.inr (.inl ho))) invocation kind) hf

theorem verdict_turnDeadline (deadline : Option Nat) {f : Nat → Action α} {R : α → Verdict → Prop}
    (hf : ∀ deadline, (verdictMonitor maxBytes).wp (f deadline) (.ofReturned R) s) :
    (verdictMonitor maxBytes).wp ((turnDeadline deadline).bind f) (.ofReturned R) s :=
  (verdictMonitor maxBytes).wp_silent_bind (fun _ ↦ verdict_silent)
    (uses_turnDeadline (fun _ ↦ Op.silent_of_plain) deadline) hf

/-- A call that may run. -/
theorem verdict_executeTool (requestIndex : Nat) (invocation : ToolInvocation)
    (enabled : EnabledTool) :
    (verdictMonitor ctx.options.limits.maxToolOutputBytes).wp
      (executeTool ctx requestIndex invocation enabled)
      (.ofReturned (AfterToolStep ctx.options.limits.maxToolOutputBytes)) .undecided := by
  refine verdict_turnDeadline _ fun deadline ↦ ?_
  refine (verdictMonitor _).wp_bind_of (verdict_runToolPort requestIndex invocation _ deadline) ?_
  -- Completed, asking for input, failed, or stopped.
  rintro (output | request | - | path) s₁ rfl
  · exact completedResult_recorded _ _ _ _
  · refine verdict_askHost invocation _ fun answer ↦ ?_
    rcases answer with path | (decision | answer)
    · rfl
    · rfl
    · dsimp only
      split
      · exact ⟨providedInputResult_bounded _ _ _ _, trivial⟩
      · trivial
  · exact ⟨terminalToolResult_bounded _ _ _ _ _ _, trivial⟩
  · rfl

/-- One call. -/
theorem verdict_runToolCall (requestIndex : Nat) (invocation : ToolInvocation)
    (enabled : EnabledTool) (policy : Option PolicyHandle) :
    (verdictMonitor ctx.options.limits.maxToolOutputBytes).wp
      (runToolCall ctx requestIndex invocation enabled policy)
      (.ofReturned (AfterToolStep ctx.options.limits.maxToolOutputBytes)) .undecided := by
  refine verdict_turnDeadline _ fun deadline ↦ ?_
  refine (verdictMonitor _).wp_bind_of (verdict_decidePolicy policy invocation _ deadline) ?_
  rintro step s₁ hs₁
  -- A call that may run is undecided until its tool is done.
  cases step with
  | denied reason => exact verdict_deniedResult hs₁
  | allow =>
    obtain rfl : s₁ = .undecided := hs₁
    exact verdict_executeTool requestIndex invocation enabled
  | requireApproval request =>
    obtain rfl : s₁ = .undecided := hs₁
    refine verdict_askHost invocation _ fun answer ↦ ?_
    rcases answer with path | ((- | -) | answer)
    · rfl
    · exact verdict_executeTool requestIndex invocation enabled
    · have hdenied : AfterPolicy invocation (.denied none) .undecided := rfl
      exact verdict_deniedResult hdenied
    · rfl
  | cancelled => exact hs₁
  | turnDeadline => exact hs₁
  | invalid => exact hs₁

/-- One call of a batch. -/
theorem verdict_batchStep (requestIndex : Nat) (snapshot : ExecutionConfig) (call : ToolCall) :
    (verdictMonitor ctx.options.limits.maxToolOutputBytes).wp
      (batchStep ctx requestIndex snapshot call)
      (.ofReturned (AfterToolStep ctx.options.limits.maxToolOutputBytes)) .undecided := by
  refine (verdictMonitor _).wp_silent_call (verdict_silent rfl) fun cancelled ↦ ?_
  split
  · rfl
  · cases snapshot.tools.find call.name with
    | none => trivial
    | some enabled =>
      exact (verdictMonitor _).wp_silent_call (verdict_silent rfl) fun _ ↦
        verdict_runToolCall requestIndex call.invocation enabled snapshot.policy

/-- Settling the calls that are left. -/
theorem verdict_settleCalls (requestIndex : Nat) (outcome : ToolResultOutcome)
    (message : ToolOutput) (calls : List ToolCall) :
    (verdictMonitor ctx.options.limits.maxToolOutputBytes).wp
      (settleCalls ctx requestIndex outcome message calls)
      (.ofReturned fun _ s' ↦ s' = .undecided) .undecided := by
  induction calls with
  | nil => rfl
  | cons call calls ih =>
    exact (verdictMonitor _).wp_call_bind_of
      ⟨terminalToolResult_bounded _ _ _ _ _ _, trivial⟩ fun _ _ _ ↦ ih

/-- The calls of a response. -/
theorem verdict_runToolBatch (requestIndex : Nat) (snapshot : ExecutionConfig)
    (calls : List ToolCall) :
    (verdictMonitor ctx.options.limits.maxToolOutputBytes).wp
      (runToolBatch ctx requestIndex snapshot calls)
      (.ofReturned fun _ s' ↦ s' = .undecided) .undecided := by
  induction calls with
  | nil => rfl
  | cons call calls ih =>
    refine (verdictMonitor _).wp_bind_of (verdict_batchStep requestIndex snapshot call) ?_
    rintro (result | path) s₁ hs₁
    · exact (verdictMonitor _).wp_silent_call (verdict_silent rfl) fun _ ↦
        (verdictMonitor _).wp_call_bind_of hs₁ fun _ _ _ ↦ ih
    · obtain rfl : s₁ = .undecided := hs₁
      refine (verdictMonitor _).wp_bind_of (verdict_settleCalls requestIndex _ _ (call :: calls)) ?_
      exact fun _ s₂ hs₂ ↦ hs₂

/-! ## The runner -/

/-- A program of silent operations comes back undecided. -/
theorem verdict_keeps {p : Action α} (hp : p.Uses fun o : Op ↦ o.silent = true) :
    (verdictMonitor maxBytes).Keeps (fun s ↦ s = Verdict.undecided) (fun _ ↦ True) p :=
  (verdictMonitor maxBytes).keeps_of_silent (fun _ _ ↦ trivial) (fun _ ↦ verdict_silent) hp

/-- Nothing is left undecided between the parts of a runner. -/
theorem verdict_rounds [SerdeJson] (ctx : LoopCtx) :
    Rounds ctx fun p ↦ (verdictMonitor ctx.options.limits.maxToolOutputBytes).Keeps
      (fun s ↦ s = Verdict.undecided) (fun _ ↦ True) p where
  toCompositional := (verdictMonitor _).keeps_compositional fun _ _ ↦ trivial
  op o ho := verdict_keeps (Prog.uses_call (Op.silent_of (.inr (.inr ho))))
  drop config := verdict_keeps (uses_dropConfig (fun _ ↦ Op.silent_of_plain) config)
  prompt requestIndex snapshot view deadline s hs := by
    subst hs
    refine (verdictMonitor _).wp_mono_returned (R := fun _ s' ↦ s' = Verdict.undecided) ?_
      fun _ _ h ↦ h
    refine (verdictMonitor _).wp_bind_of
      (verdict_runPortCall (Prog.uses_pure _ _) deadline _ _) fun outcome s₁ hs₁ ↦ ?_
    -- No answer to a prompt decides anything.
    cases outcome with
    | returned result =>
      obtain ⟨deadline, rfl⟩ := hs₁
      rfl
    | _ => exact hs₁
  model requestIndex snapshot request deadline := by
    refine verdict_keeps (Prog.uses_bind (Prog.uses_call rfl) fun _ ↦ Prog.uses_bind ?_ ?_)
    · exact uses_runDetailed (fun _ ↦ Op.silent_of_plain)
        (uses_drainProgress (fun _ ↦ Op.silent_of_plain) ctx requestIndex) fun _ ↦ rfl
    · refine fun result ↦ uses_call_bind rfl fun _ ↦ uses_call_bind rfl fun _ ↦ ?_
      exact Prog.uses_bind (uses_drainProgress (fun _ ↦ Op.silent_of_plain) ctx requestIndex)
        fun _ ↦ trivial
  batch requestIndex snapshot calls s hs := by
    subst hs
    exact verdict_runToolBatch requestIndex snapshot calls
  settle requestIndex outcome message calls s hs := by
    subst hs
    exact verdict_settleCalls requestIndex outcome message calls

end

/-! ## Runs -/

/-- The result that an entry appends. -/
def toolResult? (e : Entry interface Nat) : Option ToolResultHistory :=
  match e.op with
  | .append (.toolResult result) => some result
  | _ => none

/-- The first result that is appended in a trace. -/
def firstResult (trace : List (Entry interface Nat)) : Option ToolResultHistory :=
  trace.reverse.findSome? toolResult?

theorem firstResult_cons (e : Entry interface Nat) (trace : List (Entry interface Nat)) :
    firstResult (e :: trace) = (firstResult trace).or (toolResult? e) := by
  rw [firstResult, List.reverse_cons, List.findSome?_append, firstResult, List.findSome?_singleton]

/-- What was decided stays so until a result is appended, and that result records it. -/
theorem verdict_recorded {maxBytes : Nat} {newer older : List (Entry interface Nat)}
    (h : (verdictMonitor maxBytes).Accepts (newer ++ older))
    (hdecided : (verdictMonitor maxBytes).run older ≠ Verdict.undecided) :
    (firstResult newer = none ∧
        (verdictMonitor maxBytes).run (newer ++ older) = (verdictMonitor maxBytes).run older) ∨
      ∃ result, firstResult newer = some result ∧
        Verdict.Recorded maxBytes result ((verdictMonitor maxBytes).run older) := by
  -- By the operations since the verdict: it stands until the first result is recorded.
  induction newer with
  | nil => exact .inl ⟨rfl, rfl⟩
  | cons e newer ih =>
    obtain ⟨hpast, hallowed, -⟩ := h
    rw [firstResult_cons]
    rcases ih hpast with ⟨hnone, hsame⟩ | ⟨result, hresult, hrecorded⟩
    · obtain ⟨o, n, r⟩ := e
      change (verdictMonitor maxBytes).allowed
        ((verdictMonitor maxBytes).run (newer ++ older)) o at hallowed
      rw [hsame] at hallowed
      rw [hnone, List.cons_append, Monitor.run_cons, hsame]
      cases o with
      | append item =>
        cases item with
        | toolResult result => exact .inr ⟨result, rfl, hallowed.2⟩
        | _ => exact .inl ⟨rfl, rfl⟩
      | pollPort call deadline => exact absurd hallowed hdecided
      | _ => exact .inl ⟨rfl, rfl⟩
    · exact .inr ⟨result, by rw [hresult]; rfl, hrecorded⟩

/-- What becomes of the answer of a port in an accepted trace. -/
theorem verdict_answer {maxBytes : Nat} {newer older : List (Entry interface Nat)} {port : Port}
    {call : PortCall port} {deadline n : Nat} {result : port.Result}
    (h : (verdictMonitor maxBytes).Accepts (newer ++ ⟨.pollPort call deadline, n, .ready result⟩ ::
      older)) (hdecided : call.verdict result ≠ .undecided) :
    (∀ recorded, firstResult newer = some recorded →
        (call.verdict result).Recorded maxBytes recorded) ∧
      ((verdictMonitor maxBytes).run (newer ++ ⟨.pollPort call deadline, n, .ready result⟩ ::
        older) = Verdict.undecided → (firstResult newer).isSome = true) := by
  rcases verdict_recorded h hdecided with ⟨hnone, hsame⟩ | ⟨found, hfound, hrecorded⟩
  · rw [hnone, hsame]
    exact ⟨fun _ hsome ↦ absurd hsome (by simp), fun hundecided ↦ absurd hundecided hdecided⟩
  · rw [hfound]
    refine ⟨fun recorded hsome ↦ ?_, fun _ ↦ rfl⟩
    obtain rfl := Option.some.inj hsome
    exact hrecorded

/-- The results of a run, under any cap. Each result that is appended keeps the cap, and its body is
legal text of a tool. What a tool completed with is recorded by the next result: as a success and
unchanged exactly where it fits, and otherwise as a failure with a fixed text or nothing in its
place. A reason that passed its check is recorded by the next result, as a denial either way, and
unchanged exactly where it fits. In a run that returned there is such a result for both. The body of
a denial is made whatever the policy did, and so is that of every fixed text. -/
theorem tool_results_bounded [SerdeJson] (setup : Setup) (clock : Nat) (schedule : List Turn) :
    let run := setup.run clock schedule
    let maxBytes := setup.ctx.options.limits.maxToolOutputBytes
    (∀ newer result n older,
      run.2.trace = newer ++ ⟨.append (.toolResult result), n, ()⟩ :: older →
      result.output.content.byteLen ≤ maxBytes ∧
        ToolOutput.new result.output.content.asStr = .ok result.output) ∧
    (∀ newer tool invocation instant deadline n output older,
      run.2.trace = newer ++ ⟨.pollPort (.execute tool invocation instant) deadline, n,
        .ready (.ok (.completed output))⟩ :: older →
      (∀ result, firstResult newer = some result →
        CompletedRecord maxBytes invocation output result) ∧
      (∀ report, run.1 = .returned report → (firstResult newer).isSome = true)) ∧
    (∀ newer policy invocation spec instant deadline n reason older,
      run.2.trace = newer ++ ⟨.pollPort (.decide policy invocation spec instant) deadline, n,
        .ready (.ok (.deny reason))⟩ :: older →
      (ToolDecision.deny reason).validate = true →
      (∀ result, firstResult newer = some result →
        DeniedRecord maxBytes invocation reason result) ∧
      (∀ report, run.1 = .returned report → (firstResult newer).isSome = true)) ∧
    (∀ outcome reason, policyStep outcome = .denied reason →
      (deniedOutput reason maxBytes).isSome = true) ∧
    ∀ message : ToolOutput, ToolOutput.new (fallback message.content.asStr maxBytes) =
      .ok (staticOutput message maxBytes) := by
  intro run maxBytes
  have hrun := (verdictMonitor maxBytes).exec_sound machine
    (World.honours_of_expects fun _ _ _ _ ↦ trivial) (runLoopInner setup.ctx setup.request)
    (w := .start setup.ctx.id setup.ctx.options setup.request.history clock schedule)
    trivial trivial ((verdict_rounds setup.ctx).runLoopInner setup.request _ rfl)
  have haccepts : (verdictMonitor maxBytes).Accepts run.2.trace := hrun.2.1
  have hreturned : ∀ report, run.1 = .returned report →
      (verdictMonitor maxBytes).run run.2.trace = Verdict.undecided :=
    fun report hreport ↦ Monitor.Establishes.of_returned _ _ hrun hreport
  refine ⟨?_, ?_, ?_, fun outcome reason h ↦ deniedOutput_of_policyStep h maxBytes, ?_⟩
  · intro newer result n older hsplit
    rw [hsplit] at haccepts
    exact ⟨haccepts.of_split.2.1.1, result.output.new_asStr⟩
  · intro newer tool invocation instant deadline n output older hsplit
    rw [hsplit] at haccepts hreturned
    obtain ⟨hrecorded, hsome⟩ := verdict_answer haccepts nofun
    exact ⟨hrecorded, fun report hreport ↦ hsome (hreturned report hreport)⟩
  · -- A reason that passed its check is what the next result has to record.
    intro newer policy invocation spec instant deadline n reason older hsplit hvalid
    rw [hsplit] at haccepts hreturned
    have hverdict : (PortCall.decide policy invocation spec instant).verdict (.ok (.deny reason)) =
        .denied invocation reason := if_pos hvalid
    have hanswer := verdict_answer haccepts (by rw [hverdict]; exact nofun)
    rw [hverdict] at hanswer
    exact ⟨hanswer.1, fun report hreport ↦ hanswer.2 (hreturned report hreport)⟩
  · intro message
    rw [← staticOutput_asStr]
    exact ToolOutput.new_asStr _

namespace Sample

/-- What the tool of the sample completes with. -/
def done : ToolOutput := .ofStatic "done" (Eq.refl true)

/-- Whether an entry finds that the tool completed. -/
def completes (e : Entry interface Nat) : Bool :=
  match e with
  | ⟨.pollPort (.execute _ _ _) _, _, .ready (.ok (.completed output))⟩ => decide (output = done)
  | _ => false

end Sample

/-- The tool of the sample completes, and what it completed with is its result. -/
theorem tool_results_bounded_sample :
    ∃ newer older result, (Sample.setup.run 0 Sample.schedule).2.trace = newer ++ older ∧
      firstResult newer = some result ∧ result.outcome = .success ∧
      result.output = Sample.done := by
  obtain ⟨report, hreport, -⟩ := Sample.returns
  obtain ⟨-, hcompleted, -⟩ := tool_results_bounded Sample.setup 0 Sample.schedule
  have hany : (Sample.setup.run 0 Sample.schedule).2.trace.any Sample.completes = true := by
    decide +kernel
  obtain ⟨e, he, hcompletes⟩ := List.any_eq_true.mp hany
  obtain ⟨newer, older, hsplit⟩ := List.append_of_mem he
  unfold Sample.completes at hcompletes
  split at hcompletes
  · obtain rfl := of_decide_eq_true hcompletes
    obtain ⟨hrecord, hsome⟩ := hcompleted _ _ _ _ _ _ _ _ hsplit
    obtain ⟨result, hresult⟩ := Option.isSome_iff_exists.mp (hsome report hreport)
    have hfits : Sample.done.content.byteLen ≤
        Sample.setup.ctx.options.limits.maxToolOutputBytes := by decide
    obtain ⟨houtcome, houtput⟩ := (hrecord result hresult).unchanged.mpr hfits
    exact ⟨newer, _, result, hsplit, hresult, houtcome, houtput⟩
  · exact absurd hcompletes (by simp)

end MinicoreRuntime
