import MinicoreRuntime.AgentLoop.Quiet

/-!
# Walks through the rounds of a runner

Most properties of a runner are about few of its operations, and about the reason for which its loop
of requests ends. This module walks through the programs of a round once for all of them. A walk has
a predicate that holds of the monitor's state between two operations, and one for each path on which
the loop can end. It knows what happens inside a port call, inside a request of the driver and
inside a question to the host, and has the rest follow.

## Main definitions

* `FailPath.needsReason`: the paths that a walk has to give a reason for.
* `Traversal`: what a walk has to know.

## Main results

* `Traversal.runToolBatch`: the tool calls of a response.
* `Traversal.requestRound`: a round of the loop of requests.
* `Traversal.ofStable`, `Traversal.ofServing`: port calls and the driver, and questions as well,
  where they change nothing.
-/

namespace MinicoreRuntime

open Interactive

/-- The paths that end a loop from outside, or because of what was counted. -/
def FailPath.needsReason : FailPath → Bool
  | .cancelled | .deadline | .interaction | .maxToolRounds => true
  | _ => false

/-- Calls of the host's ports and models. -/
def Op.calls : Op → Bool
  | .makeFuture _ | .pollPort _ _ | .startModel _ _ _ => true
  | _ => false

/-- The operations of a round outside of calls and interactions, but for the end of accepting. -/
def Op.routine : Op → Bool
  | .publishState _ | .tryEmit _ | .view | .takeConfig | .takeInputs | .append _
  | .commitRevision _ => true
  | _ => false

/-- The operations of a question to the host. -/
def Op.asks : Op → Bool
  | .newInteractionId | .oneshot | .setInteraction _ | .takeInteraction | .pollInteraction _ _
  | .publishState _ | .currentState | .tryEmit _ => true
  | _ => false

/-- The operations of port calls, of the driver and of questions to the host, and the results of
tool calls. -/
def Op.serves : Op → Bool
  | .append (.toolResult _) => true
  | o => o.plain || o.calls || o.asks

theorem Op.serves_of {o : Op} (h : o.plain = true ∨ o.calls = true ∨ o.asks = true) :
    o.serves = true := by
  unfold serves
  split
  · rfl
  · rcases h with h | h | h <;> simp [h]

/-- Whether an operation publishes no pending interaction. -/
def Op.unasked : Op → Bool
  | .publishState state => state.pendingInteraction.isNone
  | _ => true

/-- The operations of the seal and the report. -/
def Op.finishes : Op → Bool
  | .sealState | .sealCancelled _ | .closeAccepting | .cancelToken | .publishState _ | .currentState
  | .sendReport _ | .publishedReport | .intoAppended | .tryEmit _ => true
  | _ => false

/-- A deadline that the loop puts on a call: its own, if it has one. -/
def Horizon (ctx : LoopCtx) (turnDeadline : Nat) : Prop :=
  ∀ deadline, ctx.options.deadline = some deadline → turnDeadline = deadline

section Posts

variable {State : Type} (J : State → Prop) (Ended : FailPath → State → Prop)

/-- The state after a part of a round that may end the loop. -/
def Leaves (path : Option FailPath) (s : State) : Prop :=
  path.elim (J s) fun path ↦ Ended path s

/-- The state after a port call. -/
structure AfterPort {port : Port} (outcome : PortCallOutcome port) (s : State) : Prop where
  holds : J s
  cancelled : outcome = .cancelled → Ended .cancelled s
  deadline : outcome = .deadlineExceeded .turn → Ended .deadline s

/-- The state after a request of the driver. -/
structure AfterDriver (result : Except ModelDriverFailure ModelResponse) (s : State) : Prop where
  holds : J s
  deadline : ∀ failure, result = .error failure → failure.deadlineSource = some .turn →
    Ended .deadline s

end Posts

/-- The path on which a prompt ends the loop. -/
def PromptPrep.path? : PromptPrep → Option FailPath
  | .ready _ => none
  | .stop path => some path

/-- The path on which a policy ends the loop. -/
def PolicyStep.path? : PolicyStep → Option FailPath
  | .cancelled => some .cancelled
  | .turnDeadline => some .deadline
  | _ => none

/-- The path on which a tool ends the loop. -/
def ToolPort.path? : ToolPort → Option FailPath
  | .stop path => some path
  | _ => none

/-- The path on which a call ends the loop. -/
def ToolStep.path? : ToolStep → Option FailPath
  | .result _ => none
  | .stop path => some path

/-- The path on which a question ends the loop. -/
def answerPath? : Except FailPath InteractionAnswer → Option FailPath
  | .ok _ => none
  | .error path => some path

/-- A response without tool calls needs no reason to end the loop. -/
theorem needsReason_noToolFinish (reason : ModelFinishReason) (path : FailPath)
    (h : noToolFinish reason = .error path ∨ noToolFinish reason = .ok path) :
    path.needsReason = false := by
  cases reason <;> rcases h with h | h <;> cases h <;> rfl

/-- What a walk knows: `J` holds between operations, and `Ended path` where the loop ends on
`path`. -/
structure Traversal [SerdeJson] (M : Monitor interface Nat) (ctx : LoopCtx) (J : M.State → Prop)
    (Ended : FailPath → M.State → Prop) : Prop where
  plain : ∀ o, o.plain = true → M.Stable J o
  plainEnded : ∀ path o, o.plain = true → M.Stable (Ended path) o
  result : ∀ item, M.Stable J (.append (.toolResult item))
  resultEnded : ∀ path item, M.Stable (Ended path) (.append (.toolResult item))
  ended : ∀ path s, path.needsReason = false → J s → Ended path s
  cancelled : ∀ s n, J s → M.expects s .isCancelled n true →
    Ended .cancelled (M.next s .isCancelled n true)
  past : ∀ s, J s → M.wp (pastDeadline ctx.options.deadline)
    (.ofReturned fun past s' ↦ J s' ∧ (past = true → Ended .deadline s')) s
  port : ∀ {port : Port} (awaiter : Action Unit) (turnDeadline timeout : Nat)
    (make : Nat → PortCall port) (s : M.State), Horizon ctx turnDeadline →
    awaiter.Uses Op.Plain → J s →
    M.wp (runPortCall awaiter turnDeadline timeout make) (.ofReturned (AfterPort J Ended)) s
  driver : ∀ (driver : ModelDriver) (awaiter : Action Unit) (request : ModelRequest)
    (context : ModelCallContext) (s : M.State), Horizon ctx context.deadline →
    awaiter.Uses Op.Plain → J s →
    M.wp (driver.runDetailed awaiter request context) (.ofReturned (AfterDriver J Ended)) s
  ask : ∀ (invocation : ToolInvocation) (kind : InteractionKind) (s : M.State), J s →
    M.wp (askHost ctx invocation kind)
      (.ofReturned fun answer ↦ Leaves J Ended (answerPath? answer)) s

namespace Traversal

variable [SerdeJson] {M : Monitor interface Nat} {ctx : LoopCtx} {J : M.State → Prop}
  {Ended : FailPath → M.State → Prop} {s : M.State} {α : Type}

/-! ## Plain parts -/

/-- A plain operation, followed by the rest of a program. -/
theorem plain_bind (h : Traversal M ctx J Ended) {o : Op} {f : o.Answer → Action α}
    {R : α → M.State → Prop} (ho : o.plain = true) (hs : J s)
    (hf : ∀ r s', J s' → M.wp (f r) (.ofReturned R) s') :
    M.wp ((perform o).bind f) (.ofReturned R) s :=
  M.wp_stable_bind (h.plain o ho) hs hf

/-- The deadline of a call, followed by the rest of a program. -/
theorem turnDeadline_bind (h : Traversal M ctx J Ended) {f : Nat → Action α}
    {R : α → M.State → Prop} (hs : J s)
    (hf : ∀ deadline s', Horizon ctx deadline → J s' → M.wp (f deadline) (.ofReturned R) s') :
    M.wp ((turnDeadline ctx.options.deadline).bind f) (.ofReturned R) s := by
  cases hdeadline : ctx.options.deadline with
  | some deadline =>
    refine hf deadline s (fun d hd ↦ ?_) hs
    rw [hdeadline] at hd
    exact Option.some.inj hd
  | none =>
    -- A loop without a deadline puts no condition on the call's.
    have hnone : ∀ deadline, Horizon ctx deadline := fun _ d hd ↦ by
      rw [hdeadline] at hd
      exact absurd hd (by simp)
    refine M.wp_uses_bind h.plain (uses_turnDeadline (fun _ ho ↦ ho) none) hs ?_
    exact fun deadline s' hs' ↦ hf deadline s' (hnone deadline) hs'

/-- What follows a port call may be plain before its outcome is looked at. -/
theorem stable_afterPort (h : Traversal M ctx J Ended) {port : Port}
    (outcome : PortCallOutcome port) (o : Op) (ho : o.plain = true) :
    M.Stable (AfterPort J Ended outcome) o := by
  rintro s ⟨hholds, hcancelled, hdeadline⟩
  obtain ⟨hallowed, hnext⟩ := h.plain o ho s hholds
  refine ⟨hallowed, fun n r hr ↦ ⟨hnext n r hr, fun heq ↦ ?_, fun heq ↦ ?_⟩⟩
  · exact (h.plainEnded _ o ho s (hcancelled heq)).2 n r hr
  · exact (h.plainEnded _ o ho s (hdeadline heq)).2 n r hr

/-- What follows a request of the driver may be plain before its result is looked at. -/
theorem stable_afterDriver (h : Traversal M ctx J Ended)
    (result : Except ModelDriverFailure ModelResponse) (o : Op) (ho : o.plain = true) :
    M.Stable (AfterDriver J Ended result) o := by
  rintro s ⟨hholds, hdeadline⟩
  obtain ⟨hallowed, hnext⟩ := h.plain o ho s hholds
  refine ⟨hallowed, fun n r hr ↦ ⟨hnext n r hr, fun failure heq hsource ↦ ?_⟩⟩
  exact (h.plainEnded _ o ho s (hdeadline failure heq hsource)).2 n r hr

/-! ## Tool calls -/

/-- A prompt. -/
theorem preparePrompt (h : Traversal M ctx J Ended) (requestIndex : Nat)
    (snapshot : ExecutionConfig) (view : HistoryView) {deadline : Nat}
    (hdeadline : Horizon ctx deadline) (hs : J s) :
    M.wp (preparePrompt ctx requestIndex snapshot view deadline)
      (.ofReturned fun prep ↦ Leaves J Ended prep.path?) s := by
  refine M.wp_bind_of (h.port _ _ _ _ s hdeadline (Prog.uses_pure _ _) hs) ?_
  rintro outcome s' hafter
  show Leaves J Ended (promptPrep outcome).path? s'
  have hprompt : Ended .prompt s' := h.ended .prompt s' rfl hafter.holds
  unfold promptPrep
  split
  · split
    · exact hprompt
    · exact hafter.holds
  · exact hafter.cancelled rfl
  · exact hafter.deadline rfl
  all_goals exact hprompt

/-- The policy's decision. -/
theorem decidePolicy (h : Traversal M ctx J Ended) (policy : Option PolicyHandle)
    (invocation : ToolInvocation) (spec : ToolSpec) {deadline : Nat}
    (hdeadline : Horizon ctx deadline) (hs : J s) :
    M.wp (decidePolicy ctx policy invocation spec deadline)
      (.ofReturned fun step s' ↦ J s' ∧ Leaves J Ended step.path? s') s := by
  cases policy with
  | none => exact ⟨hs, hs⟩
  | some policy =>
    refine M.wp_bind_of (h.port _ _ _ _ s hdeadline (Prog.uses_pure _ _) hs) ?_
    rintro outcome s' hafter
    refine ⟨hafter.holds, ?_⟩
    show Leaves J Ended (policyStep outcome).path? s'
    unfold policyStep
    split
    · split
      · exact hafter.holds
      · split <;> exact hafter.holds
    · exact hafter.cancelled rfl
    · exact hafter.deadline rfl
    all_goals exact hafter.holds

/-- The execution of a tool. -/
theorem runToolPort (h : Traversal M ctx J Ended) (requestIndex : Nat)
    (invocation : ToolInvocation) (implementation : ToolHandle) {deadline : Nat}
    (hdeadline : Horizon ctx deadline) (hs : J s) :
    M.wp (runToolPort ctx requestIndex invocation implementation deadline)
      (.ofReturned fun tool ↦ Leaves J Ended tool.path?) s := by
  refine h.plain_bind rfl hs fun _ s₁ hs₁ ↦ ?_
  refine M.wp_bind_of (h.port _ _ _ _ s₁ hdeadline
    (uses_awaitTool (fun _ ho ↦ ho) ctx requestIndex) hs₁) ?_
  rintro outcome s₂ hafter
  have hstable := h.stable_afterPort outcome
  refine M.wp_stable_bind (hstable _ rfl) hafter fun _ s₃ hs₃ ↦ ?_
  refine M.wp_stable_bind (hstable _ rfl) hs₃ fun _ s₄ hs₄ ↦ ?_
  refine M.wp_uses_bind hstable (Prog.uses_iterate fun _ ↦
    uses_forwardToolProgress (fun _ ho ↦ ho) ctx requestIndex) hs₄ fun _ s₅ hs₅ ↦ ?_
  refine M.wp_stable_bind (hstable _ rfl) hs₅ fun _ s₆ hs₆ ↦ ?_
  show Leaves J Ended (toolPort outcome).path? s₆
  -- The outcomes in the order of the match.
  unfold toolPort
  split
  · exact hs₆.holds
  · split <;> exact hs₆.holds
  · exact hs₆.cancelled rfl
  · exact hs₆.deadline rfl
  · exact hs₆.holds
  · exact hs₆.holds
  · exact hs₆.holds
  · exact h.ended .internal s₆ rfl hs₆.holds

omit [SerdeJson] in
/-- The result of a denied call. -/
theorem deniedResult (hs : J s) (requestIndex : Nat) (invocation : ToolInvocation)
    (reason : Option BoundedText) :
    M.wp (deniedResult ctx requestIndex invocation reason)
      (.ofReturned fun step ↦ Leaves J Ended step.path?) s := by
  unfold MinicoreRuntime.deniedResult
  split
  · exact hs
  · trivial

/-- A call that may run. -/
theorem executeTool (h : Traversal M ctx J Ended) (requestIndex : Nat)
    (invocation : ToolInvocation) (enabled : EnabledTool) (hs : J s) :
    M.wp (executeTool ctx requestIndex invocation enabled)
      (.ofReturned fun step ↦ Leaves J Ended step.path?) s := by
  refine h.turnDeadline_bind hs fun deadline s₁ hdeadline hs₁ ↦ ?_
  refine M.wp_bind_of
    (h.runToolPort requestIndex invocation enabled.implementation hdeadline hs₁) ?_
  rintro (output | request | - | path) s₂ hs₂
  · exact hs₂
  · refine M.wp_bind_of (h.ask invocation (.toolInput request) s₂ hs₂) ?_
    rintro (path | answer) s₃ hs₃
    · exact hs₃
    · cases answer with
      | approval decision => exact h.ended .internal s₃ rfl hs₃
      | toolInput answer =>
        dsimp only
        split
        · exact hs₃
        · trivial
  · exact hs₂
  · exact hs₂

/-- One call. -/
theorem runToolCall (h : Traversal M ctx J Ended) (requestIndex : Nat)
    (invocation : ToolInvocation) (enabled : EnabledTool) (policy : Option PolicyHandle)
    (hs : J s) :
    M.wp (runToolCall ctx requestIndex invocation enabled policy)
      (.ofReturned fun step ↦ Leaves J Ended step.path?) s := by
  refine h.turnDeadline_bind hs fun deadline s₁ hdeadline hs₁ ↦ ?_
  refine M.wp_bind_of (h.decidePolicy policy invocation enabled.spec hdeadline hs₁) ?_
  rintro step s₂ ⟨hs₂, hstep⟩
  cases step with
  | allow => exact h.executeTool requestIndex invocation enabled hs₂
  | denied reason => exact deniedResult hs₂ requestIndex invocation reason
  | cancelled => exact hstep
  | turnDeadline => exact hstep
  | invalid => exact h.ended .policy s₂ rfl hs₂
  | requireApproval request =>
    refine M.wp_bind_of (h.ask invocation (.approval request) s₂ hs₂) ?_
    rintro (path | answer) s₃ hs₃
    · exact hs₃
    · rcases answer with (- | -) | answer
      · exact h.executeTool requestIndex invocation enabled hs₃
      · exact deniedResult hs₃ requestIndex invocation none
      · exact h.ended .internal s₃ rfl hs₃

/-- One call of a batch. -/
theorem batchStep (h : Traversal M ctx J Ended) (requestIndex : Nat) (snapshot : ExecutionConfig)
    (call : ToolCall) (hs : J s) :
    M.wp (batchStep ctx requestIndex snapshot call)
      (.ofReturned fun step ↦ Leaves J Ended step.path?) s := by
  obtain ⟨hallowed, hnext⟩ := h.plain .isCancelled rfl s hs
  refine M.wp_call_bind_of hallowed fun n cancelled hcancelled ↦ ?_
  cases cancelled with
  | true => exact h.cancelled s n hs hcancelled
  | false =>
    have hs₁ := hnext n false hcancelled
    rw [if_neg (by simp)]
    cases snapshot.tools.find call.name with
    | none => trivial
    | some enabled =>
      refine h.plain_bind rfl hs₁ fun _ s₂ hs₂ ↦ ?_
      exact h.runToolCall requestIndex call.invocation enabled snapshot.policy hs₂

omit [SerdeJson] in
/-- Settling the calls that are left. -/
theorem settleCalls {K : M.State → Prop} (hK : ∀ item, M.Stable K (.append (.toolResult item)))
    (requestIndex : Nat) (outcome : ToolResultOutcome) (message : ToolOutput)
    (calls : List ToolCall) (hs : K s) :
    M.wp (settleCalls ctx requestIndex outcome message calls) (.ofReturned fun _ s' ↦ K s') s := by
  induction calls generalizing s with
  | nil => exact hs
  | cons call calls ih => exact M.wp_stable_bind (hK _) hs fun _ s' hs' ↦ ih hs'

/-- The calls of a response. -/
theorem runToolBatch (h : Traversal M ctx J Ended) (requestIndex : Nat)
    (snapshot : ExecutionConfig) (calls : List ToolCall) (hs : J s) :
    M.wp (runToolBatch ctx requestIndex snapshot calls) (.ofReturned (Leaves J Ended)) s := by
  induction calls generalizing s with
  | nil => exact hs
  | cons call calls ih =>
    refine M.wp_bind_of (h.batchStep requestIndex snapshot call hs) ?_
    rintro (result | path) s₁ hs₁
    · refine h.plain_bind rfl hs₁ fun _ s₂ hs₂ ↦ ?_
      exact M.wp_stable_bind (h.result _) hs₂ fun _ s₃ hs₃ ↦ ih hs₃
    · refine M.wp_bind_of (settleCalls (h.resultEnded path) requestIndex _ _ (call :: calls) hs₁) ?_
      exact fun _ s₂ hs₂ ↦ hs₂

/-! ## Requests -/

/-- A model request. -/
theorem runModel (h : Traversal M ctx J Ended) (requestIndex : Nat) (snapshot : ExecutionConfig)
    (request : ModelRequest) {deadline : Nat} (hdeadline : Horizon ctx deadline) (hs : J s) :
    M.wp (runModel ctx requestIndex snapshot request deadline)
      (.ofReturned (AfterDriver J Ended)) s := by
  refine h.plain_bind rfl hs fun _ s₁ hs₁ ↦ ?_
  refine M.wp_bind_of (h.driver _ _ request _ s₁ hdeadline
    (uses_drainProgress (fun _ ho ↦ ho) ctx requestIndex) hs₁) ?_
  rintro result s₂ hs₂
  have hstable := h.stable_afterDriver result
  refine M.wp_stable_bind (hstable _ rfl) hs₂ fun _ s₃ hs₃ ↦ ?_
  refine M.wp_stable_bind (hstable _ rfl) hs₃ fun _ s₄ hs₄ ↦ ?_
  exact M.wp_uses_bind hstable (uses_drainProgress (fun _ ho ↦ ho) ctx requestIndex) hs₄
    fun _ s₅ hs₅ ↦ hs₅

/-- What a failed model request means. -/
theorem mapModelFailure (h : Traversal M ctx J Ended) {failure : ModelDriverFailure}
    (hs : AfterDriver J Ended (.error failure) s) :
    M.wp (mapModelFailure failure) (.ofReturned fun path s' ↦ Ended path s') s := by
  obtain ⟨hallowed, hnext⟩ := h.stable_afterDriver (.error failure) .isCancelled rfl s hs
  refine M.wp_call_bind_of hallowed fun n cancelled hcancelled ↦ ?_
  cases cancelled with
  | true => exact h.cancelled s n hs.holds hcancelled
  | false =>
    have hs₁ := hnext n false hcancelled
    rw [if_neg (by simp)]
    split
    · rename_i hsource
      exact hs₁.deadline failure rfl hsource
    · split
      all_goals exact h.ended _ _ rfl hs₁.holds

omit [SerdeJson] in
/-- Appending inputs. -/
theorem appendInputs {K : M.State → Prop} (hK : ∀ item, M.Stable K (.append (.user item)))
    (inputs : List UserInput) (hs : K s) :
    M.wp (appendInputs ctx inputs) (.ofReturned fun _ s' ↦ K s') s := by
  induction inputs generalizing s with
  | nil => exact hs
  | cons input inputs ih => exact M.wp_stable_bind (hK _) hs fun _ s' hs' ↦ ih hs'

omit [SerdeJson] in
/-- Taking a configuration and the inputs. -/
theorem takeBoundary {K : M.State → Prop} (hplain : ∀ o, o.plain = true → M.Stable K o)
    (hconfig : M.Stable K .takeConfig) (hinputs : M.Stable K .takeInputs)
    (hK : ∀ item, M.Stable K (.append (.user item))) (pinned : Bool) (config : ExecutionConfig)
    (candidate : Option Nat) (hs : K s) :
    M.wp (takeBoundary ctx pinned config candidate) (.ofReturned fun _ s' ↦ K s') s := by
  refine M.wp_stable_bind hconfig hs fun pending s₁ hs₁ ↦ ?_
  have hrest : ∀ (boundary : List UserInput → Boundary) (s : M.State), K s →
      M.wp ((perform .takeInputs).bind fun inputs ↦
        (MinicoreRuntime.appendInputs ctx inputs).bind fun _ ↦ Prog.pure (boundary inputs))
        (.ofReturned fun _ s' ↦ K s') s := by
    intro boundary s hs
    refine M.wp_stable_bind hinputs hs fun inputs s₂ hs₂ ↦ ?_
    exact M.wp_bind_of (appendInputs hK inputs hs₂) fun _ s₃ hs₃ ↦ hs₃
  cases pending with
  | none => exact hrest _ s₁ hs₁
  | some pending =>
    cases pinned with
    | true => exact hrest (fun _ ↦ ⟨true, pending.config, some pending.revision⟩) s₁ hs₁
    | false =>
      refine M.wp_stable_bind (hplain _ rfl) hs₁ fun _ s₂ hs₂ ↦ ?_
      exact hrest (fun _ ↦ ⟨true, pending.config, some pending.revision⟩) s₂ hs₂

/-! ## Rounds -/

/-- The state after a round, or after a part of one that ends it. -/
def AfterRound (J : M.State → Prop) (Ended : FailPath → M.State → Prop) (x : Locals ⊕ Ending)
    (s : M.State) : Prop :=
  x.elim (fun _ ↦ J s) fun ending ↦ Ended ending.path s

section Rounds

variable (h : Traversal M ctx J Ended)
  (hroutine : ∀ o, o.routine = true → o.unasked = true → M.Stable J o)
  (hlimit : ∀ s, J s → Ended .maxToolRounds s)
  (hfinal : ∀ s, J s → M.allowed s .beginFinal ∧
    ∀ n r, M.expects s .beginFinal n r → Ended .completed (M.next s .beginFinal n r))
include h hroutine

omit [SerdeJson] h in
/-- Publishing a state without a pending interaction. -/
theorem publish_bind (state : LoopState) (hstate : state.pendingInteraction = none)
    {f : Unit → Action α} {R : α → M.State → Prop} (hs : J s)
    (hf : ∀ s', J s' → M.wp (f ()) (.ofReturned R) s') :
    M.wp ((publish state).bind f) (.ofReturned R) s := by
  have hunasked : (Op.publishState state).unasked = true := Option.isNone_iff_eq_none.mpr hstate
  refine M.wp_stable_bind (hroutine (.publishState state) rfl hunasked) hs fun _ s₁ hs₁ ↦ ?_
  refine M.wp_stable_bind (hroutine (.tryEmit (.stateChanged state)) rfl rfl) hs₁ ?_
  exact fun _ s₂ hs₂ ↦ hf s₂ hs₂

include hlimit

/-- The tool calls of a response. -/
theorem runCalls (snapshot : ExecutionConfig) (locals : Locals) (calls : List ToolCall)
    (hs : J s) :
    M.wp (runCalls ctx snapshot locals calls) (.ofReturned (AfterRound J Ended)) s := by
  unfold MinicoreRuntime.runCalls
  split
  · refine M.wp_bind_of (settleCalls h.result locals.requestIndex _ _ calls hs) fun _ s₁ hs₁ ↦ ?_
    exact hlimit s₁ hs₁
  · refine publish_bind hroutine _ rfl hs fun s₁ hs₁ ↦ ?_
    refine M.wp_bind_of (h.runToolBatch _ snapshot calls hs₁) ?_
    rintro (- | path) s₂ hs₂
    · exact hs₂
    · exact hs₂

include hfinal

/-- What follows a response. -/
theorem handleResponse (snapshot : ExecutionConfig) (locals : Locals) (response : ModelResponse)
    (hs : J s) :
    M.wp (handleResponse ctx snapshot locals response) (.ofReturned (AfterRound J Ended)) s := by
  unfold MinicoreRuntime.handleResponse
  split
  · exact h.ended .internal s rfl hs
  dsimp only
  split
  · have hfinish := needsReason_noToolFinish response.finishReason
    cases hpath : noToolFinish response.finishReason with
    | error path => exact h.ended path s (hfinish path (.inl hpath)) hs
    | ok path =>
      refine M.wp_stable_bind (hroutine (.append _) rfl rfl) hs fun _ s₁ hs₁ ↦ ?_
      split
      · rename_i hcompleted
        subst hcompleted
        obtain ⟨hallowed, hnext⟩ := hfinal s₁ hs₁
        exact M.wp_call_bind_of hallowed hnext
      · exact h.ended path s₁ (hfinish path (.inr hpath)) hs₁
  · exact M.wp_stable_bind (hroutine (.append _) rfl rfl) hs fun _ s₁ hs₁ ↦
      h.runCalls hroutine hlimit snapshot _ _ hs₁

/-- A request that is issued. -/
theorem issueRequest (snapshot : ExecutionConfig) (locals : Locals) (request : ModelRequest)
    (hs : J s) :
    M.wp (issueRequest ctx snapshot locals request) (.ofReturned (AfterRound J Ended)) s := by
  refine M.wp_stable_bind (hroutine (.commitRevision _) rfl rfl) hs fun _ s₁ hs₁ ↦ ?_
  refine M.wp_stable_bind (hroutine (.tryEmit _) rfl rfl) hs₁ fun _ s₂ hs₂ ↦ ?_
  refine publish_bind hroutine _ rfl hs₂ fun s₃ hs₃ ↦ ?_
  refine h.turnDeadline_bind hs₃ fun deadline s₄ hdeadline hs₄ ↦ ?_
  refine M.wp_bind_of (h.runModel _ snapshot request hdeadline hs₄) ?_
  rintro (failure | response) s₅ hs₅
  · exact M.wp_bind_of (h.mapModelFailure hs₅) fun _ _ hs₆ ↦ hs₆
  · exact h.handleResponse hroutine hlimit hfinal snapshot _ response hs₅.holds

/-- The preparation of a request. -/
theorem prepareRequest (locals : Locals) (hs : J s) :
    M.wp (prepareRequest ctx locals) (.ofReturned (AfterRound J Ended)) s := by
  refine publish_bind hroutine _ rfl hs fun s₁ hs₁ ↦ ?_
  refine M.wp_stable_bind (hroutine .view rfl rfl) hs₁ fun view s₂ hs₂ ↦ ?_
  refine h.turnDeadline_bind hs₂ fun deadline s₃ hdeadline hs₃ ↦ ?_
  refine M.wp_bind_of (h.preparePrompt _ locals.config view hdeadline hs₃) ?_
  rintro (messages | path) s₄ hs₄
  · refine M.wp_bind_of (takeBoundary h.plain (hroutine _ rfl rfl) (hroutine _ rfl rfl)
      (fun _ ↦ hroutine (.append _) rfl rfl) true locals.config locals.candidateRevision hs₄) ?_
    intro boundary s₅ hs₅
    dsimp only
    split
    · exact h.plain_bind rfl hs₅ fun _ s₆ hs₆ ↦ hs₆
    · split
      · exact h.ended .prompt s₅ rfl hs₅
      · exact h.issueRequest hroutine hlimit hfinal _ _ _ hs₅
  · exact hs₄

/-- A round of the loop of requests. -/
theorem requestRound (locals : Locals) (hs : J s) :
    M.wp (requestRound ctx locals) (.ofReturned (AfterRound J Ended)) s := by
  obtain ⟨hallowed, hnext⟩ := h.plain .isCancelled rfl s hs
  refine M.wp_call_bind_of hallowed fun n cancelled hcancelled ↦ ?_
  cases cancelled with
  | true => exact h.cancelled s n hs hcancelled
  | false =>
    rw [if_neg (by simp)]
    refine M.wp_bind_of (h.past _ (hnext n false hcancelled)) ?_
    rintro (- | -) s₁ ⟨hs₁, hpast⟩
    · rw [if_neg (by simp)]
      refine M.wp_bind_of (takeBoundary h.plain (hroutine _ rfl rfl) (hroutine _ rfl rfl)
        (fun _ ↦ hroutine (.append _) rfl rfl) false locals.config locals.candidateRevision hs₁) ?_
      exact fun boundary s₂ hs₂ ↦ h.prepareRequest hroutine hlimit hfinal _ hs₂
    · exact hpast rfl

/-- The loop of requests. -/
theorem requestRounds (locals : Locals) (hs : J s) :
    M.wp (Prog.iterate (MinicoreRuntime.requestRound ctx) locals)
      (.ofReturned fun ending s' ↦ Ended ending.path s') s :=
  M.wp_iterate (fun _ s' ↦ J s') hs fun locals' _ hs' ↦
    M.wp_mono_returned (h.requestRound hroutine hlimit hfinal locals' hs') fun _ _ hx ↦ hx

end Rounds

/-! ## Calls that change nothing -/

omit [SerdeJson] in
theorem uses_runPortCall {S : Op → Prop} (hS : ∀ o : Op, o.plain = true → S o)
    (hcalls : ∀ o : Op, o.calls = true → S o) {port : Port} {awaiter : Action Unit}
    (hawait : awaiter.Uses S) (turnDeadline timeout : Nat) (make : Nat → PortCall port) :
    (runPortCall awaiter turnDeadline timeout make).Uses S := by
  unfold runPortCall
  refine uses_plain hS rfl fun cancelled ↦ ?_
  split
  · trivial
  refine uses_plain hS rfl fun deadline ↦ ?_
  cases deadline with
  | none => trivial
  | some deadline =>
    refine uses_plain hS rfl fun now ↦ ?_
    split
    · trivial
    refine uses_call_bind (hcalls (.makeFuture _) rfl) fun made ↦ ?_
    split
    · refine Prog.uses_bind (Prog.uses_iterate fun _ ↦ ?_) fun _ ↦ uses_plain hS rfl fun _ ↦ trivial
      refine uses_call_bind (hcalls (.pollPort _ _) rfl) fun polled ↦ ?_
      cases polled with
      | pending => exact Prog.uses_bind hawait fun _ ↦ trivial
      | _ => trivial
    · trivial

section Finishing

variable {S : Op → Prop} (hplain : ∀ o : Op, o.plain = true → S o)
  (hS : ∀ o : Op, o.finishes = true → o.unasked = true → S o)
include hS

omit [SerdeJson] in
theorem uses_finishOnce : finishOnce.Uses S := by
  refine uses_call_bind (hS _ rfl rfl) fun finish ↦ ?_
  have hclose : ((perform .closeAccepting).bind fun discarded ↦
      Prog.pure (finish, discarded)).Uses S := uses_call_bind (hS _ rfl rfl) fun _ ↦ trivial
  cases finish with
  | cancelledPrior source => exact uses_call_bind (hS _ rfl rfl) fun _ ↦ hclose
  | clean => exact hclose
  | alreadyFinished => exact hclose

omit [SerdeJson] in
theorem uses_publishedReport : publishedReport.Uses S := by
  refine uses_call_bind (hS _ rfl rfl) fun report ↦ ?_
  cases report <;> trivial

include hplain

omit [SerdeJson] in
theorem uses_deliverReport (ending : Ending) (revision : Nat) (outcome : LoopOutcome)
    (discarded : Option ExecutionConfig) :
    (deliverReport ctx ending revision outcome discarded).Uses S := by
  refine uses_call_bind (hS _ rfl rfl) fun appended ↦ ?_
  refine Prog.uses_bind
    (uses_call_bind (hS _ rfl rfl) fun state ↦ ⟨hS _ rfl rfl, fun _ ↦ ⟨hS _ rfl rfl,
    fun _ ↦ uses_call_bind (hS _ rfl rfl) fun state ↦ ⟨hS _ rfl rfl, fun _ ↦ ⟨hS _ rfl rfl,
      fun _ ↦ trivial⟩⟩⟩⟩) fun _ ↦ ?_
  refine uses_call_bind (hS _ rfl rfl) fun _ ↦ uses_call_bind (hS _ rfl rfl) fun _ ↦ ?_
  refine uses_call_bind (hS _ rfl rfl) fun _ ↦ ?_
  exact Prog.uses_bind (uses_dropConfig hplain discarded) fun _ ↦ trivial

omit [SerdeJson] in
theorem uses_finishLoop (ending : Ending) : (finishLoop ctx ending).Uses S := by
  refine uses_plain hplain rfl fun revision ↦ ?_
  refine Prog.uses_bind (uses_outcomeFor hplain ending.path) fun intended ↦ ?_
  refine Prog.uses_bind (uses_finishOnce hS) ?_
  rintro ⟨finish, discarded⟩
  cases finish with
  | clean => exact uses_deliverReport hplain hS ending revision intended discarded
  | cancelledPrior source => exact uses_deliverReport hplain hS ending revision _ discarded
  | alreadyFinished => exact uses_publishedReport hS

omit [SerdeJson] in
theorem uses_panicReport (id : LoopId) : (panicReport id).Uses S := by
  refine Prog.uses_bind (uses_finishOnce hS) ?_
  rintro ⟨finish, discarded⟩
  have hdeliver : ∀ report : LoopReport,
      ((perform (.publishState (.new id .finished 0 ConfigRevision.initial))).bind fun _ ↦
        (perform (.sendReport report)).bind fun _ ↦ (perform .cancelToken).bind fun _ ↦
          (dropConfig discarded).bind fun _ ↦ Prog.pure report).Uses S := by
    intro report
    refine uses_call_bind (hS _ rfl rfl) fun _ ↦ uses_call_bind (hS _ rfl rfl) fun _ ↦ ?_
    refine uses_call_bind (hS _ rfl rfl) fun _ ↦ ?_
    exact Prog.uses_bind (uses_dropConfig hplain discarded) fun _ ↦ trivial
  cases finish with
  | clean => exact hdeliver _
  | cancelledPrior source => exact hdeliver _
  | alreadyFinished => exact uses_publishedReport hS

end Finishing

omit [SerdeJson] in
theorem uses_askHost {S : Op → Prop} (hS : ∀ o : Op, o.asks = true → S o)
    (invocation : ToolInvocation) (kind : InteractionKind) :
    (askHost ctx invocation kind).Uses S := by
  -- All it does is ask, or publish that it asks.
  have hasks : ∀ {α : Type} {o : Op} {f : o.Answer → Action α}, o.asks = true →
      (∀ r, (f r).Uses S) → ((perform o).bind f).Uses S :=
    fun h hf ↦ uses_call_bind (hS _ h) hf
  have hpublish : ∀ {α : Type} (state : LoopState) {f : Unit → Action α}, (f ()).Uses S →
      ((publish state).bind f).Uses S :=
    fun _ _ hf ↦ ⟨hS _ rfl, fun _ ↦ ⟨hS _ rfl, fun _ ↦ hf⟩⟩
  refine hasks rfl fun id ↦ ?_
  cases id with
  | none => trivial
  | some id =>
    refine hasks rfl fun channel ↦ hasks rfl fun set ↦ ?_
    cases set with
    | false => trivial
    | true =>
      refine hasks rfl fun waiting ↦ hpublish _ (hasks rfl fun _ ↦ ?_)
      refine Prog.uses_bind (Prog.uses_iterate fun _ ↦ hasks rfl fun polled ↦ ?_) fun answer ↦ ?_
      · rcases polled with - | - | (- | answer) | - | - <;> trivial
      · cases answer with
        | error path => exact hasks rfl fun _ ↦ trivial
        | ok answer =>
          refine hasks rfl fun _ ↦ hasks rfl fun _ ↦ hasks rfl fun running ↦ ?_
          exact hpublish _ trivial

/-- Where port calls and the driver change nothing, and neither cancellation nor a deadline needs a
reason, a walk has to know only what a question does. -/
theorem ofStable (hJ : ∀ o : Op, o.plain = true ∨ o.calls = true → M.Stable J o)
    (hEnded : ∀ path (o : Op), o.plain = true → M.Stable (Ended path) o)
    (hresult : ∀ item, M.Stable J (.append (.toolResult item)))
    (hresultEnded : ∀ path item, M.Stable (Ended path) (.append (.toolResult item)))
    (hended : ∀ path s, path ≠ .interaction → path ≠ .maxToolRounds → J s → Ended path s)
    (hask : ∀ (invocation : ToolInvocation) (kind : InteractionKind) (s : M.State), J s →
      M.wp (askHost ctx invocation kind)
        (.ofReturned fun answer ↦ Leaves J Ended (answerPath? answer)) s) :
    Traversal M ctx J Ended where
  plain o ho := hJ o (.inl ho)
  plainEnded := hEnded
  result := hresult
  resultEnded := hresultEnded
  ended path s hpath hs := by
    refine hended path s ?_ ?_ hs
    · rintro rfl
      exact absurd hpath (by simp [FailPath.needsReason])
    · rintro rfl
      exact absurd hpath (by simp [FailPath.needsReason])
  cancelled s n hs hexpects :=
    hended .cancelled _ (by simp) (by simp) ((hJ .isCancelled (.inl rfl) s hs).2 n true hexpects)
  -- Looking at the clock is plain, and a stable invariant survives it.
  past s hs := by
    have huses : (pastDeadline ctx.options.deadline).Uses Op.Plain := by
      unfold pastDeadline
      split
      · trivial
      · exact ⟨rfl, fun _ ↦ trivial⟩
    refine M.wp_mono (M.wp_of_uses (fun s o ho ↦ hJ o (.inl ho) s) huses hs) ?_ fun _ _ ↦ trivial
    exact fun _ s' hs' ↦ ⟨hs', fun _ ↦ hended .deadline s' (by simp) (by simp) hs'⟩
  port awaiter turnDeadline timeout make s _ hawait hs := by
    have huses : (runPortCall awaiter turnDeadline timeout make).Uses
        fun o : Op ↦ o.plain = true ∨ o.calls = true :=
      uses_runPortCall (fun _ ↦ .inl) (fun _ ↦ .inr) (Prog.uses_mono hawait fun _ ↦ .inl) _ _ _
    refine M.wp_mono (M.wp_of_uses (fun s o ho ↦ hJ o ho s) huses hs) ?_ fun _ _ ↦ trivial
    exact fun _ s' hs' ↦ ⟨hs', fun _ ↦ hended .cancelled s' (by simp) (by simp) hs',
      fun _ ↦ hended .deadline s' (by simp) (by simp) hs'⟩
  driver driver awaiter request context s _ hawait hs := by
    have huses : (driver.runDetailed awaiter request context).Uses
        fun o : Op ↦ o.plain = true ∨ o.calls = true :=
      uses_runDetailed (fun _ ↦ .inl) (Prog.uses_mono hawait fun _ ↦ .inl) fun _ ↦ .inr rfl
    refine M.wp_mono (M.wp_of_uses (fun s o ho ↦ hJ o ho s) huses hs) ?_ fun _ _ ↦ trivial
    exact fun _ s' hs' ↦ ⟨hs', fun _ _ _ ↦ hended .deadline s' (by simp) (by simp) hs'⟩
  ask := hask

/-- Where questions change nothing either, a walk has to know no more. -/
theorem ofServing (h : ∀ o : Op, o.serves = true → M.Stable J o) :
    Traversal M ctx J fun _ s ↦ J s := by
  refine ofStable ?_ (fun _ o ho ↦ h o (Op.serves_of (.inl ho))) (fun _ ↦ h _ rfl)
    (fun _ _ ↦ h _ rfl) (fun _ _ _ _ hs ↦ hs) fun invocation kind s hs ↦ ?_
  · rintro o (ho | ho)
    · exact h o (Op.serves_of (.inl ho))
    · exact h o (Op.serves_of (.inr (.inl ho)))
  · have huses : (askHost ctx invocation kind).Uses fun o : Op ↦ o.serves = true :=
      uses_askHost (fun _ ho ↦ Op.serves_of (.inr (.inr ho))) invocation kind
    refine M.wp_mono (M.wp_of_uses (fun s o ho ↦ h o ho s) huses hs) (fun answer s' hs' ↦ ?_)
      fun _ _ ↦ trivial
    cases answer <;> exact hs'

end Traversal

end MinicoreRuntime
