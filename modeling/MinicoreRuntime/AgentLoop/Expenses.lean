import Mathlib.Algebra.Order.Pi
import Mathlib.Algebra.Order.Monoid.Unbundled.Pow
import Mathlib.Algebra.Order.Ring.Nat
import MinicoreRuntime.AgentLoop.Completion
import MinicoreRuntime.AgentLoop.Footprint
import MinicoreRuntime.AgentLoop.Results
import MinicoreRuntime.AgentLoop.Transcript
import MinicoreRuntime.Interactive.Allowance

/-!
# Expenses

What a run costs its host: how often prompts, policies, tools and models are called, how many
requests are issued and how many questions are asked, and how much the history grows. A request
grants what its retries, its response and the tool calls of the response may cost; a response grants
what its tool calls may cost; and the round limit grants the requests.

## Main definitions

* `Expense`, `Op.cost`: what operations cost.
* `Op.grant`, `runnerAllowance`: what their answers grant.

## Main results

* `pays_runLoop`: a runner pays for everything it performs.
* `expenses_bounded`: how much a run may cost.
* `history_growth_bounded`: how much its history may grow.
-/

namespace MinicoreRuntime

open Interactive

/-! ## Prices -/

/-- What is counted. -/
inductive Expense where
  /-- Prompts that are prepared. -/
  | prompt
  /-- Requests that are issued. -/
  | request
  /-- Models that are started. -/
  | start
  /-- Responses that enter the history. -/
  | response
  /-- Tool calls of these. -/
  | call
  /-- Policies that are asked. -/
  | decision
  /-- Tools that are executed. -/
  | execution
  /-- Questions to the host. -/
  | question
  /-- Bytes that the history grows by. -/
  | bytes
  /-- Items above a ceiling. -/
  | excess
deriving DecidableEq

/-- An amount of each expense. -/
abbrev Purse : Type := Expense → Nat

/-- One of an expense. -/
def Expense.one (expense : Expense) : Purse := fun e ↦ if e = expense then 1 else 0

/-- What calling a port counts as. -/
def Port.expense : Port → Expense
  | .prompt => .prompt
  | .policy => .decision
  | .tool => .execution

/-- How many tool calls an item has. -/
def HistoryItem.calls : HistoryItem → Nat
  | .assistant item => (toolCalls item.content).length
  | _ => 0

/-- Whether an item is a response. -/
def HistoryItem.isResponse : HistoryItem → Bool
  | .assistant _ => true
  | _ => false

/-- What appending an item costs. -/
def HistoryItem.cost (limits : LoopLimits) (item : HistoryItem) : Purse
  | .response => item.isResponse.toNat
  | .call => item.calls
  | .bytes => estimateItemBytes item
  | .excess => (!item.within limits).toNat
  | _ => 0

/-- What an operation costs. -/
def Op.cost (limits : LoopLimits) : Op → Purse
  | @Op.makeFuture port _ => port.expense.one
  | .commitRevision _ => Expense.request.one
  | .startModel _ _ _ => Expense.start.one
  | .setInteraction _ => Expense.question.one
  | .append item => item.cost limits
  | _ => 0

/-- Whether an answer brings a configuration or inputs. -/
def Op.brings : (o : Op) → o.Answer → Bool
  | .takeConfig, pending => pending.isSome
  | .takeInputs, inputs => !inputs.isEmpty
  | _, _ => false

/-- The footprint of inputs. -/
def inputBytes : List UserInput → Nat
  | [] => 0
  | input :: inputs => byteLen input.asText + inputBytes inputs

/-- The footprint of the inputs that an answer brings. -/
def Op.broughtBytes : (o : Op) → o.Answer → Nat
  | .takeInputs, inputs => inputBytes inputs
  | _, _ => 0

/-- The largest footprint of a response with the results of its calls. -/
def LoopLimits.requestBytes (limits : LoopLimits) : Nat :=
  limits.responseBytes + limits.maxToolCallsPerResponse * limits.resultBytes

/-- What an operation and its answer grant. -/
def Op.grant (options : LoopOptions) (o : Op) (r : o.Answer) : Purse
  | .prompt => o.cost options.limits .request + (o.brings r).toNat
  | .request => if options.maxToolRounds = 0 then o.cost options.limits .request else 0
  | .start => options.modelRetryAttempts * o.cost options.limits .request
  | .response => o.cost options.limits .request
  | .call => options.limits.maxToolCallsPerResponse * o.cost options.limits .request
  | .decision => o.cost options.limits .call
  | .execution => o.cost options.limits .call
  | .question => 2 * o.cost options.limits .call
  | .bytes => options.limits.requestBytes * o.cost options.limits .request + o.broughtBytes r
  | .excess => 0

/-- The allowance of a runner. -/
def runnerAllowance (options : LoopOptions) : Allowance interface Purse :=
  ⟨Op.cost options.limits, Op.grant options⟩

/-- What a program of the runner is paid from, and what it leaves. -/
abbrev Pays (options : LoopOptions) (init a : Purse) {α : Type} (p : Action α) (c : α → Purse) :
    Prop :=
  (runnerAllowance options).Affords Nat init a p c

theorem Op.cost_of_plain (limits : LoopLimits) {o : Op} (h : o.plain = true) :
    o.cost limits = 0 := by
  cases o with
  | _ => first | rfl | exact absurd h (by simp [plain])

theorem Op.cost_of_finishes (limits : LoopLimits) {o : Op} (h : o.finishes = true) :
    o.cost limits = 0 := by
  cases o with
  | _ => first | rfl | exact absurd h (by simp [finishes])

section Programs

variable {options : LoopOptions} {init a : Purse} {α : Type} {c : α → Purse}

/-- An operation without a price. -/
theorem pays_op {o : Op} {f : o.Answer → Action α} (ho : o.cost options.limits = 0)
    (hf : ∀ r, Pays options init a (f r) c) : Pays options init a ((perform o).bind f) c :=
  Allowance.affords_free ho hf

/-- A part of plain operations. -/
theorem pays_plain {β : Type} {p : Action β} {f : β → Action α} (hp : p.Uses Op.Plain)
    (hf : ∀ x, Pays options init a (f x) c) : Pays options init a (p.bind f) c :=
  Allowance.affords_bind
    (Allowance.affords_of_uses (Prog.uses_mono hp fun _ ↦ Op.cost_of_plain options.limits)) hf

theorem pays_publish (state : LoopState) {f : Unit → Action α} (hf : Pays options init a (f ()) c) :
    Pays options init a ((publish state).bind f) c :=
  pays_op (o := .publishState state) rfl fun _ ↦
    pays_op (o := .tryEmit (.stateChanged state)) rfl fun _ ↦ hf

theorem pays_turnDeadline (deadline : Option Nat) {f : Nat → Action α}
    (hf : ∀ instant, Pays options init a (f instant) c) :
    Pays options init a ((turnDeadline deadline).bind f) c :=
  pays_plain (uses_turnDeadline (fun _ ↦ id) deadline) hf

/-! ## Calls of the host -/

/-- A port call. -/
theorem pays_runPortCall {port : Port} {awaiter : Action Unit} (hawait : awaiter.Uses Op.Plain)
    (turnDeadline timeout : Nat) (make : Nat → PortCall port) :
    Pays options init port.expense.one (runPortCall awaiter turnDeadline timeout make)
      fun _ ↦ 0 := by
  refine pays_op rfl fun cancelled ↦ ?_
  split
  · exact Allowance.affords_pure zero_le
  refine pays_op rfl fun deadline ↦ ?_
  cases deadline with
  | none => exact Allowance.affords_pure zero_le
  | some deadline =>
    refine pays_op rfl fun now ↦ ?_
    split
    · exact Allowance.affords_pure zero_le
    refine Allowance.affords_op (b := 0) (add_zero _).le fun made ↦ ?_
    refine Allowance.affords_mono (a := 0) ?_ zero_le fun _ ↦ le_rfl
    split
    · refine Allowance.affords_bind (c := fun _ ↦ 0) ?_ fun outcome ↦ pays_op rfl fun _ ↦
        Allowance.affords_pure le_rfl
      refine Allowance.affords_iterate (fun _ ↦ 0) () fun _ ↦ pays_op rfl fun polled ↦ ?_
      cases polled with
      | pending => exact pays_plain hawait fun _ ↦ Allowance.affords_pure le_rfl
      | _ => exact Allowance.affords_pure le_rfl
    · exact Allowance.affords_pure le_rfl

variable {ctx : LoopCtx}

/-- A question to the host. -/
theorem pays_askHost (invocation : ToolInvocation) (kind : InteractionKind) :
    Pays options init Expense.question.one (askHost ctx invocation kind) fun _ ↦ 0 := by
  refine pays_op rfl fun id ↦ ?_
  cases id with
  | none => exact Allowance.affords_pure zero_le
  | some id =>
    refine pays_op rfl fun channel ↦ ?_
    refine Allowance.affords_op (b := 0) (add_zero _).le fun set ↦ ?_
    refine Allowance.affords_mono (a := 0) ?_ zero_le fun _ ↦ le_rfl
    split
    · refine pays_op rfl fun waiting ↦ pays_publish _ (pays_op rfl fun _ ↦ ?_)
      refine Allowance.affords_bind (c := fun _ ↦ 0) ?_ fun answer ↦ ?_
      · refine Allowance.affords_iterate (fun _ ↦ 0) () fun _ ↦ pays_op rfl fun polled ↦ ?_
        rcases polled with - | - | (- | answer) | - | - <;> exact Allowance.affords_pure le_rfl
      · cases answer with
        | error path => exact pays_op rfl fun _ ↦ Allowance.affords_pure le_rfl
        | ok answer =>
          refine pays_op rfl fun _ ↦ pays_op rfl fun _ ↦ pays_op rfl fun running ↦ ?_
          exact pays_publish _ (Allowance.affords_pure le_rfl)
    · exact Allowance.affords_pure le_rfl

/-- A tool. -/
theorem pays_runToolPort (requestIndex : Nat) (invocation : ToolInvocation)
    (implementation : ToolHandle) (deadline : Nat) :
    Pays options init Expense.execution.one
      (runToolPort ctx requestIndex invocation implementation deadline) fun _ ↦ 0 := by
  refine pays_op rfl fun _ ↦ ?_
  refine Allowance.affords_bind (pays_runPortCall (uses_awaitTool (fun _ ↦ id) ctx requestIndex)
    deadline _ fun instant ↦ .execute implementation invocation instant) fun outcome ↦ ?_
  refine pays_op rfl fun dropped ↦ pays_op rfl fun _ ↦ ?_
  refine pays_plain (Prog.uses_iterate fun _ ↦
    uses_forwardToolProgress (fun _ ↦ id) ctx requestIndex) fun _ ↦ ?_
  exact pays_op rfl fun _ ↦ Allowance.affords_pure le_rfl

/-- A tool is executed once, and may ask for input once. -/
theorem pays_executeTool (requestIndex : Nat) (invocation : ToolInvocation)
    (enabled : EnabledTool) :
    Pays options init (Expense.execution.one + Expense.question.one)
      (executeTool ctx requestIndex invocation enabled) fun _ ↦ 0 := by
  refine pays_turnDeadline _ fun deadline ↦ ?_
  refine Allowance.affords_bind (Allowance.affords_frame
    (pays_runToolPort requestIndex invocation enabled.implementation deadline) _) fun outcome ↦ ?_
  rw [zero_add]
  cases outcome with
  | requestInput request =>
    refine Allowance.affords_bind (pays_askHost invocation (.toolInput request)) fun answer ↦ ?_
    rcases answer with path | decision | answer
    · exact Allowance.affords_pure le_rfl
    · exact Allowance.affords_pure le_rfl
    · dsimp only
      split
      · exact Allowance.affords_pure le_rfl
      · exact Allowance.affords_panic
  | _ => exact Allowance.affords_pure zero_le

/-- What a tool call may cost besides its result. -/
def callPurse : Purse :=
  Expense.decision.one + (Expense.question.one + (Expense.execution.one + Expense.question.one))

/-- A call whose result is denied. -/
theorem pays_deniedResult (requestIndex : Nat) (invocation : ToolInvocation)
    (reason : Option BoundedText) :
    Pays options init a (deniedResult ctx requestIndex invocation reason) fun _ ↦ 0 := by
  unfold deniedResult
  split
  · exact Allowance.affords_pure zero_le
  · exact Allowance.affords_panic

/-- One call asks its policy once, the host at most twice, and executes its tool at most once. -/
theorem pays_runToolCall (requestIndex : Nat) (invocation : ToolInvocation)
    (enabled : EnabledTool) (policy : Option PolicyHandle) :
    Pays options init callPurse (runToolCall ctx requestIndex invocation enabled policy)
      fun _ ↦ 0 := by
  refine pays_turnDeadline _ fun deadline ↦ ?_
  -- The policy is asked once, if there is one.
  have hpolicy : Pays options init Expense.decision.one
      (decidePolicy ctx policy invocation enabled.spec deadline) fun _ ↦ 0 := by
    cases policy with
    | none => exact Allowance.affords_pure zero_le
    | some policy =>
      have hcall : Pays options init Port.policy.expense.one
          (runPortCall (pure ()) deadline ctx.options.policyTimeout fun instant ↦
            .decide policy invocation enabled.spec instant) fun _ ↦ 0 :=
        pays_runPortCall (Prog.uses_pure _ ()) _ _ _
      exact Allowance.affords_bind hcall fun outcome ↦ Allowance.affords_pure le_rfl
  refine Allowance.affords_bind (Allowance.affords_frame hpolicy _) fun step ↦ ?_
  rw [zero_add]
  -- What is left pays for the tool, or for a question first.
  cases step with
  | allow =>
    refine Allowance.affords_mono (pays_executeTool requestIndex invocation enabled) ?_ ?_
    · exact le_add_self
    · exact fun _ ↦ le_rfl
  | denied reason => exact pays_deniedResult requestIndex invocation reason
  | requireApproval request =>
    refine Allowance.affords_bind
      (Allowance.affords_frame (pays_askHost invocation (.approval request)) _) fun answer ↦ ?_
    rw [zero_add]
    rcases answer with path | (- | -) | answer
    · exact Allowance.affords_pure zero_le
    · exact pays_executeTool requestIndex invocation enabled
    · exact pays_deniedResult requestIndex invocation none
    · exact Allowance.affords_pure zero_le
  | _ => exact Allowance.affords_pure zero_le

/-! ## Tool batches -/

/-- A step whose result keeps the ceiling. -/
def ToolStep.Within (limits : LoopLimits) : ToolStep → Prop
  | .result item => (HistoryItem.toolResult item).within limits = true
  | .stop _ => True

/-- The body of a denial fits. -/
theorem deniedOutput_bounded {reason : Option BoundedText} {maxBytes : Nat} {output : ToolOutput}
    (h : deniedOutput reason maxBytes = some output) : output.content.byteLen ≤ maxBytes := by
  unfold deniedOutput at h
  split at h
  · split at h
    · rename_i reason hfits
      split at h
      · rename_i hnew
        obtain rfl := Option.some.inj h
        unfold ToolOutput.new at hnew
        split at hnew
        · obtain rfl := Except.ok.inj hnew
          exact hfits
        · exact absurd hnew (by simp)
      · exact absurd h (by simp)
    · obtain rfl := Option.some.inj h
      exact (staticOutput_spec _ _).1
  · obtain rfl := Option.some.inj h
    exact (staticOutput_spec _ _).1

theorem returns_deniedResult (requestIndex : Nat) (invocation : ToolInvocation)
    (reason : Option BoundedText) :
    (deniedResult ctx requestIndex invocation reason).Returns
      (ToolStep.Within ctx.options.limits) := by
  unfold deniedResult
  split
  · rename_i houtput
    exact decide_eq_true (deniedOutput_bounded houtput)
  · trivial

/-- The result of an executed call keeps the ceiling. -/
theorem returns_executeTool (requestIndex : Nat) (invocation : ToolInvocation)
    (enabled : EnabledTool) :
    (executeTool ctx requestIndex invocation enabled).Returns
      (ToolStep.Within ctx.options.limits) := by
  refine Prog.returns_bind (Prog.returns_true _) fun deadline _ ↦ ?_
  refine Prog.returns_bind (Prog.returns_true _) fun outcome _ ↦ ?_
  -- Each result is cut to the limit by the function that makes it.
  cases outcome with
  | completed output =>
    have hrecorded : (Verdict.completed invocation output).Permits
        ctx.options.limits.maxToolOutputBytes _ :=
      completedResult_recorded ctx.id requestIndex invocation output
    show ToolStep.Within _ (.result _)
    exact decide_eq_true hrecorded.1
  | requestInput request =>
    refine Prog.returns_bind (Prog.returns_true _) fun answer _ ↦ ?_
    rcases answer with path | decision | answer
    · trivial
    · trivial
    · dsimp only
      split
      · show ToolStep.Within _ (.result _)
        exact decide_eq_true (providedInputResult_bounded _ _ _ _)
      · trivial
  | failed =>
    show ToolStep.Within _ (.result _)
    exact decide_eq_true (terminalToolResult_bounded _ _ _ _ _ _)
  | stop path => trivial

/-- The result of a call keeps the ceiling, whatever the host does. -/
theorem returns_runToolCall (requestIndex : Nat) (invocation : ToolInvocation)
    (enabled : EnabledTool) (policy : Option PolicyHandle) :
    (runToolCall ctx requestIndex invocation enabled policy).Returns
      (ToolStep.Within ctx.options.limits) := by
  refine Prog.returns_bind (Prog.returns_true _) fun deadline _ ↦ ?_
  refine Prog.returns_bind (Prog.returns_true _) fun step _ ↦ ?_
  cases step with
  | allow => exact returns_executeTool requestIndex invocation enabled
  | denied reason => exact returns_deniedResult requestIndex invocation reason
  | requireApproval request =>
    refine Prog.returns_bind (Prog.returns_true _) fun answer _ ↦ ?_
    rcases answer with path | (- | -) | answer
    · trivial
    · exact returns_executeTool requestIndex invocation enabled
    · exact returns_deniedResult requestIndex invocation none
    · trivial
  | _ => trivial

/-- What the result of a tool call may cost. -/
def resultPurse (limits : LoopLimits) : Purse
  | .bytes => limits.resultBytes
  | _ => 0

/-- A result that is appended. -/
theorem pays_result {result : ToolResultHistory} {f : Unit → Action α}
    (hwithin : (HistoryItem.toolResult result).within options.limits = true)
    (hf : Pays options init a (f ()) c) :
    Pays options init (resultPurse options.limits + a)
      ((perform (.append (.toolResult result))).bind f) c := by
  refine Allowance.affords_op (b := a) (add_le_add_left ?_ a) fun _ ↦
    Allowance.affords_mono hf le_self_add fun _ ↦ le_rfl
  intro e
  cases e with
  | bytes => exact toolResult_bytes hwithin
  | excess =>
    show (!(HistoryItem.toolResult result).within options.limits).toNat ≤ 0
    rw [hwithin]
    exact le_rfl
  | _ => exact le_rfl

/-- The results of calls that are settled. -/
theorem pays_settleCalls (requestIndex : Nat) (outcome : ToolResultOutcome) (message : ToolOutput)
    (calls : List ToolCall) :
    Pays ctx.options init (calls.length • resultPurse ctx.options.limits)
      (settleCalls ctx requestIndex outcome message calls) fun _ ↦ 0 := by
  induction calls with
  | nil => exact Allowance.affords_pure zero_le
  | cons call calls ih =>
    rw [List.length_cons, succ_nsmul']
    exact pays_result (decide_eq_true (terminalToolResult_bounded _ _ _ _ _ _)) ih

/-- The tool calls of a response: each may cost a call and a result. -/
theorem pays_runToolBatch (requestIndex : Nat) (snapshot : ExecutionConfig)
    (calls : List ToolCall) :
    Pays ctx.options init (calls.length • (callPurse + resultPurse ctx.options.limits))
      (runToolBatch ctx requestIndex snapshot calls) fun _ ↦ 0 := by
  induction calls with
  | nil => exact Allowance.affords_pure zero_le
  | cons call calls ih =>
    have hstep : Pays ctx.options init callPurse (batchStep ctx requestIndex snapshot call)
        fun _ ↦ 0 := by
      refine pays_op rfl fun cancelled ↦ ?_
      split
      · exact Allowance.affords_pure zero_le
      split
      · exact Allowance.affords_panic
      · exact pays_op rfl fun _ ↦ pays_runToolCall requestIndex call.invocation _ snapshot.policy
    have hreturns : (batchStep ctx requestIndex snapshot call).Returns
        (ToolStep.Within ctx.options.limits) := by
      refine Prog.returns_call_bind fun cancelled ↦ ?_
      split
      · trivial
      split
      · trivial
      · exact Prog.returns_call_bind fun _ ↦ returns_runToolCall _ _ _ _
    rw [List.length_cons, succ_nsmul', add_assoc]
    refine Allowance.affords_bind_returns (Allowance.affords_frame hstep _) hreturns
      fun step hwithin ↦ ?_
    rw [zero_add]
    cases step with
    | result result => exact pays_op rfl fun _ ↦ pays_result hwithin ih
    | stop path =>
      -- Every call that is left, this one too, is settled.
      have hsettle : Pays ctx.options init _ (settleCalls ctx requestIndex _ _ (call :: calls)) _ :=
        pays_settleCalls requestIndex .cancelled (.ofStatic "tool batch interrupted" (by decide)) _
      rw [List.length_cons, succ_nsmul'] at hsettle
      refine Allowance.affords_bind (Allowance.affords_mono hsettle ?_ fun _ ↦ le_rfl) fun _ ↦
        Allowance.affords_pure le_rfl
      exact add_le_add_right (nsmul_le_nsmul_right le_add_self _) _

end Programs

/-! ## Model requests -/

section Driver

variable [SerdeJson] {awaiter : Action Unit} {driver : ModelDriver} {ε : Type}

/-- A response that stands for a stream of events, well formed within the limits. -/
def Assembled (tools : List ToolSpec) (limits : LoopLimits) : Except ε ModelResponse → Prop
  | .ok response =>
    ∃ events, Stream.WellFormed tools limits events ∧ Stream.Yields events response
  | .error _ => True

/-- The state of an assembler after a stream of events that it accepted. -/
def Assembler.Accepted (tools : List ToolSpec) (limits : LoopLimits) (assembler : Assembler) :
    Prop :=
  ∃ events, Stream.Reflects tools limits events assembler ∧ Stream.Admitted tools limits events

/-- An assembler returns a response only at the end of a well-formed stream. -/
theorem Assembler.Accepted.finish {tools : List ToolSpec} {limits : LoopLimits}
    {assembler : Assembler} (h : assembler.Accepted tools limits) (hlimits : limits.Caps)
    {response : ModelResponse} (hfinish : assembler.finish = some (.ok response)) :
    ∃ events, Stream.WellFormed tools limits events ∧ Stream.Yields events response := by
  obtain ⟨events, hreflects, hadmitted⟩ := h
  obtain ⟨hcomplete, hincomplete⟩ := Stream.finish_of_reflects hlimits hadmitted hreflects
  by_cases hevents : Stream.Complete events
  · obtain ⟨response', hfinish', hyields⟩ := hcomplete hevents
    obtain rfl := Except.ok.inj (Option.some.inj (hfinish.symm.trans hfinish'))
    exact ⟨events, Stream.wellFormed_of_admitted hlimits hadmitted hevents, hyields⟩
  · obtain ⟨e, herror⟩ := hincomplete hevents
    exact absurd (hfinish.symm.trans herror) (by simp)

theorem Assembler.Accepted.push {tools : List ToolSpec} {limits : LoopLimits}
    {assembler assembler' : Assembler} (h : assembler.Accepted tools limits)
    (hlimits : limits.Caps) {event : ModelEvent} {progress : Option ModelDriverProgress}
    (hpush : { assembler with observedEvent := true }.push event = .ok (progress, assembler')) :
    assembler'.Accepted tools limits := by
  obtain ⟨events, hreflects, hadmitted⟩ := h
  have hobserved := hreflects.observed
  exact ⟨events ++ [event], Stream.push_reflects hlimits hobserved hpush,
    Stream.admitted_snoc.mpr ⟨hadmitted, Stream.admits_of_push hlimits hobserved hpush⟩⟩

theorem assembled_pollEvent (hlimits : driver.limits.Caps) {tools : List ToolSpec}
    (deadline : EffectiveDeadline) {assembler : Assembler}
    (h : assembler.Accepted tools driver.limits) :
    (ModelDriver.pollEvent awaiter deadline assembler).Returns fun x ↦
      x.elim (Assembler.Accepted tools driver.limits) (Assembled tools driver.limits) := by
  refine Prog.returns_call_bind fun polled ↦ ?_
  -- Only an event changes the assembler, and only the end of the stream makes a response.
  rcases polled with - | - | (- | (error | event)) | - | -
  · trivial
  · trivial
  · dsimp only
    split
    · trivial
    · rename_i response hfinish
      exact h.finish hlimits hfinish
    · trivial
  · trivial
  · dsimp only
    split
    · trivial
    · rename_i assembler' hpush
      exact h.push hlimits hpush
    · rename_i progress assembler' hpush
      refine Prog.returns_call_bind fun _ ↦ Prog.returns_bind (Prog.returns_true _) fun _ _ ↦ ?_
      exact h.push hlimits hpush
  · trivial
  · exact Prog.returns_bind (Prog.returns_true _) fun _ _ ↦ h

theorem assembled_runAttempt (hlimits : driver.limits.Caps) (request : ModelRequest)
    (context : ModelCallContext) (deadline : EffectiveDeadline) :
    (driver.runAttempt awaiter request context deadline).Returns
      (Assembled request.tools driver.limits) := by
  refine Prog.returns_call_bind fun made ↦ ?_
  split
  · refine Prog.returns_bind (Prog.returns_true _) fun stream _ ↦ ?_
    refine Prog.returns_bind (R := Assembled request.tools driver.limits) ?_ fun result h _ ↦ h
    cases stream with
    | error failure => trivial
    | ok =>
      refine Prog.returns_iterate (Assembler.Accepted request.tools driver.limits) ?_
        fun assembler h ↦ assembled_pollEvent hlimits deadline h
      exact ⟨[], Stream.reflects_new _ _, fun past e rest h ↦ absurd h (by simp)⟩
  · trivial

/-- A response of the driver stands for a well-formed stream. -/
theorem assembled_runDetailed (hlimits : driver.limits.Caps) (request : ModelRequest)
    (context : ModelCallContext) :
    (driver.runDetailed awaiter request context).Returns
      (Assembled request.tools driver.limits) := by
  refine Prog.returns_call_bind fun deadline ↦ ?_
  cases deadline with
  | none => trivial
  | some deadline =>
    refine Prog.returns_bind (Prog.returns_true _) fun checked _ ↦ ?_
    cases checked with
    | error failure => trivial
    | ok =>
      dsimp only
      split
      · trivial
      refine Prog.returns_iterate (fun _ ↦ True) trivial fun attempt _ ↦ ?_
      refine Prog.returns_bind (Prog.returns_true _) fun checked _ ↦ ?_
      cases checked with
      | error failure => trivial
      | ok =>
        -- The response of the request is the response of an attempt.
        refine Prog.returns_bind (assembled_runAttempt hlimits request context deadline) ?_
        intro result hresult
        cases result with
        | ok response => exact hresult
        | error failure =>
          refine Prog.returns_bind (Prog.returns_true _) fun delay _ ↦ ?_
          cases delay with
          | none => trivial
          | some delay =>
            refine Prog.returns_bind (Prog.returns_true _) fun waited _ ↦ ?_
            cases waited <;> trivial

omit [SerdeJson] in
/-- A retry leaves an attempt. -/
theorem attempts_left (policy : RetryPolicySnapshot) (attempt : Nat) (failure : AttemptFailure)
    (deadline : Nat) :
    (policy.evaluateRetry attempt failure deadline).Returns fun delay ↦
      delay.isSome = true → attempt + 1 < policy.maxAttempts := by
  unfold RetryPolicySnapshot.evaluateRetry
  split
  · exact fun h ↦ absurd h (by simp)
  rename_i hleft
  have hlt : attempt + 1 < policy.maxAttempts := by
    simp only [ge_iff_le, Bool.or_eq_true, decide_eq_true_eq, not_or, Nat.not_le] at hleft
    exact hleft.1.1
  split
  · exact fun _ ↦ hlt
  split
  · exact fun _ ↦ hlt
  refine Prog.returns_bind (Prog.returns_true _) fun fits _ ↦ ?_
  split
  · exact fun _ ↦ hlt
  · exact fun _ ↦ hlt

variable {options : LoopOptions} {init a : Purse}

/-- One attempt starts the model once. -/
theorem pays_runAttempt (hawait : awaiter.Uses Op.Plain) (request : ModelRequest)
    (context : ModelCallContext) (deadline : EffectiveDeadline) :
    Pays options init Expense.start.one (driver.runAttempt awaiter request context deadline)
      fun _ ↦ 0 := by
  refine Allowance.affords_op (b := 0) (add_zero _).le fun made ↦ ?_
  refine Allowance.affords_mono (a := 0) ?_ zero_le fun _ ↦ le_rfl
  split
  · refine pays_plain (Prog.uses_iterate fun _ ↦ uses_pollStartCall (fun _ ↦ id) hawait deadline)
      fun stream ↦ ?_
    refine pays_plain ?_ fun result ↦ pays_op rfl fun _ ↦ Allowance.affords_pure le_rfl
    cases stream with
    | error failure => trivial
    | ok => exact Prog.uses_iterate fun assembler ↦ uses_pollEvent (fun _ ↦ id) hawait deadline _
  · exact Allowance.affords_pure le_rfl

/-- The attempts that are left from one on. -/
def attemptPurse (maxAttempts attempt : Nat) : Purse :=
  fun e ↦ if e = .start then max 1 (maxAttempts - attempt) else 0

omit [SerdeJson] in
theorem attemptPurse_succ {maxAttempts attempt : Nat} (h : attempt + 1 < maxAttempts) :
    Expense.start.one + attemptPurse maxAttempts (attempt + 1) ≤
      attemptPurse maxAttempts attempt := by
  intro e
  show (if e = .start then 1 else 0) +
      (if e = .start then max 1 (maxAttempts - (attempt + 1)) else 0) ≤
    if e = .start then max 1 (maxAttempts - attempt) else 0
  split
  · omega
  · exact le_rfl

omit [SerdeJson] in
theorem one_le_attemptPurse (maxAttempts attempt : Nat) :
    Expense.start.one ≤ attemptPurse maxAttempts attempt := by
  intro e
  show (if e = .start then 1 else 0) ≤ if e = .start then max 1 (maxAttempts - attempt) else 0
  split
  · exact Nat.le_max_left _ _
  · exact le_rfl

/-- A round of the attempts leaves what the attempts after it cost. -/
theorem pays_attemptRound (hawait : awaiter.Uses Op.Plain) (request : ModelRequest)
    (context : ModelCallContext) (deadline : EffectiveDeadline) (attempt : Nat) :
    Pays options init (attemptPurse driver.retryPolicy.maxAttempts attempt)
      (driver.attemptRound awaiter request context deadline attempt)
      fun x ↦ x.elim (attemptPurse driver.retryPolicy.maxAttempts) fun _ ↦ 0 := by
  refine pays_plain (uses_precheck (fun _ ↦ id) deadline) fun checked ↦ ?_
  cases checked with
  | error failure => exact Allowance.affords_pure zero_le
  | ok =>
    by_cases hlt : attempt + 1 < driver.retryPolicy.maxAttempts
    · refine Allowance.affords_mono ?_ (attemptPurse_succ hlt) fun _ ↦ le_rfl
      refine Allowance.affords_bind
        (Allowance.affords_frame (pays_runAttempt hawait request context deadline) _)
        fun result ↦ ?_
      rw [zero_add]
      cases result with
      | ok response => exact Allowance.affords_pure zero_le
      | error failure =>
        refine pays_plain (uses_evaluateRetry (fun _ ↦ id) _ attempt failure _) fun delay ↦ ?_
        cases delay with
        | none => exact Allowance.affords_pure zero_le
        | some delay =>
          refine pays_plain (uses_waitForRetry (fun _ ↦ id) hawait deadline delay _) fun waited ↦ ?_
          cases waited with
          | error failure => exact Allowance.affords_pure zero_le
          | ok => exact Allowance.affords_pure le_rfl
    · -- The last attempt is not retried.
      refine Allowance.affords_mono ?_ (one_le_attemptPurse _ attempt) fun _ ↦ le_rfl
      refine Allowance.affords_bind (pays_runAttempt hawait request context deadline)
        fun result ↦ ?_
      cases result with
      | ok response => exact Allowance.affords_pure zero_le
      | error failure =>
        refine Allowance.affords_bind_returns (c := fun _ ↦ 0) ?_
          (attempts_left driver.retryPolicy attempt failure deadline.instant) fun delay hleft ↦ ?_
        · exact Allowance.affords_of_uses (Prog.uses_mono
            (uses_evaluateRetry (fun _ ↦ id) _ attempt failure _)
              fun _ ↦ Op.cost_of_plain options.limits)
        · cases delay with
          | none => exact Allowance.affords_pure zero_le
          | some delay => exact absurd (hleft rfl) hlt

/-- A request starts its model at most as often as it may be attempted. -/
theorem pays_runDetailed (hawait : awaiter.Uses Op.Plain) (request : ModelRequest)
    (context : ModelCallContext) :
    Pays options init (attemptPurse driver.retryPolicy.maxAttempts 0)
      (driver.runDetailed awaiter request context) fun _ ↦ 0 := by
  refine pays_op rfl fun deadline ↦ ?_
  cases deadline with
  | none => exact Allowance.affords_pure zero_le
  | some deadline =>
    refine pays_plain (uses_precheck (fun _ ↦ id) deadline) fun checked ↦ ?_
    cases checked with
    | error failure => exact Allowance.affords_pure zero_le
    | ok =>
      dsimp only
      split
      · exact Allowance.affords_pure zero_le
      · exact Allowance.affords_iterate _ 0 fun attempt ↦
          pays_attemptRound hawait request context deadline attempt

end Driver

/-! ## Rounds -/

section Rounds

variable [SerdeJson] {ctx : LoopCtx} {init a : Purse}

/-- What the next requests may cost, after some rounds of tool calls. -/
def requestPurse (maxToolRounds toolRounds : Nat) : Purse :=
  fun e ↦ if e = .request then
    if maxToolRounds = 0 then 1 else maxToolRounds + 1 - min toolRounds maxToolRounds
  else 0

/-- What a round is entered with: the next requests, and a prompt. -/
def roundPurse (maxToolRounds toolRounds : Nat) : Purse :=
  Expense.prompt.one + requestPurse maxToolRounds toolRounds

/-- What an issued request may cost. -/
def issuedPurse (options : LoopOptions) : Purse
  | .prompt => 1
  | .response => 1
  | .call => options.limits.maxToolCallsPerResponse
  | .bytes => options.limits.requestBytes
  | _ => 0

omit [SerdeJson] in
/-- Inputs that are appended. -/
theorem pays_appendInputs (inputs : List UserInput) :
    Pays ctx.options init (inputBytes inputs • Expense.bytes.one) (appendInputs ctx inputs)
      fun _ ↦ 0 := by
  induction inputs with
  | nil => exact Allowance.affords_pure zero_le
  | cons input inputs ih =>
    rw [inputBytes, add_nsmul]
    refine Allowance.affords_op (b := inputBytes inputs • Expense.bytes.one)
      (add_le_add_left ?_ _) fun _ ↦ Allowance.affords_mono ih le_self_add fun _ ↦ le_rfl
    intro e
    cases e with
    | bytes => exact (Nat.mul_one _).ge
    | _ => exact le_rfl

/-- What is kept for a prompt that is prepared again. -/
def rebuildPurse (taken : Bool) : Purse := if taken then Expense.prompt.one else 0

omit [SerdeJson] in
theorem takeConfig_grant (options : LoopOptions) (pending : Option PendingConfig) :
    rebuildPurse pending.isSome ≤ Op.grant options .takeConfig pending := by
  cases pending with
  | none => exact zero_le
  | some pending =>
    intro e
    cases e with
    | prompt => exact le_rfl
    | _ => exact Nat.zero_le _

omit [SerdeJson] in
theorem takeInputs_grant (options : LoopOptions) (inputs : List UserInput) :
    inputBytes inputs • Expense.bytes.one + rebuildPurse (!inputs.isEmpty) ≤
      Op.grant options .takeInputs inputs := by
  intro e
  cases inputs with
  | nil => cases e <;> exact Nat.zero_le _
  | cons input inputs =>
    cases e with
    | prompt => exact le_rfl
    | bytes =>
      show inputBytes (input :: inputs) * 1 + 0 ≤ _ * 0 + inputBytes (input :: inputs)
      rw [Nat.mul_one, Nat.mul_zero, Nat.zero_add]
      exact le_rfl
    | _ => exact Nat.zero_le _

omit [SerdeJson] in
/-- A boundary keeps what it was entered with, and if anything was taken a prompt besides. -/
theorem pays_takeBoundary (pinned : Bool) (config : ExecutionConfig) (candidate : Option Nat) :
    Pays ctx.options init a (takeBoundary ctx pinned config candidate)
      fun boundary ↦ rebuildPurse boundary.taken + a := by
  -- The inputs pay for themselves: the host grants their bytes as it hands them over.
  have hinputs : ∀ {b : Purse} (boundary : List UserInput → Boundary),
      (∀ inputs, rebuildPurse (boundary inputs).taken + a ≤ rebuildPurse (!inputs.isEmpty) + b) →
      Pays ctx.options init b ((perform .takeInputs).bind fun inputs ↦
        (appendInputs ctx inputs).bind fun _ ↦ Prog.pure (boundary inputs))
        fun boundary ↦ rebuildPurse boundary.taken + a := by
    intro b boundary hleft
    refine Allowance.affords_op (b := b) (zero_add b).le fun inputs ↦ ?_
    have hgrant : inputBytes inputs • Expense.bytes.one + (rebuildPurse (!inputs.isEmpty) + b) ≤
        b + Op.grant ctx.options .takeInputs inputs := by
      rw [← add_assoc, add_comm b]
      exact add_le_add (takeInputs_grant ctx.options inputs) le_rfl
    refine Allowance.affords_mono (Allowance.affords_bind
      (Allowance.affords_frame (pays_appendInputs inputs) _) fun _ ↦ ?_) hgrant fun _ ↦ le_rfl
    rw [zero_add]
    exact Allowance.affords_pure (hleft inputs)
  refine Allowance.affords_op (b := a) (zero_add a).le fun pending ↦ ?_
  -- A configuration that is taken grants the preparation it makes necessary.
  have hgrant : rebuildPurse pending.isSome + a ≤ a + Op.grant ctx.options .takeConfig pending := by
    rw [add_comm]
    exact add_le_add le_rfl (takeConfig_grant ctx.options pending)
  refine Allowance.affords_mono ?_ hgrant fun _ ↦ le_rfl
  cases pending with
  | none =>
    refine hinputs (fun inputs ↦ ⟨!inputs.isEmpty, config, candidate⟩) fun inputs ↦ ?_
    exact add_le_add le_rfl le_add_self
  | some pending =>
    have htaken := hinputs (b := rebuildPurse true + a)
      (fun _ ↦ ⟨true, pending.config, some pending.revision⟩) fun inputs ↦ le_add_self
    cases pinned with
    | true => exact htaken
    | false => exact pays_op (o := .dropConfig config) rfl fun _ ↦ htaken

/-- What the requests after an issued one may cost. -/
def laterPurse (maxToolRounds toolRounds : Nat) : Purse :=
  fun e ↦ if e = .request then
    if maxToolRounds = 0 then 1 else maxToolRounds - min toolRounds maxToolRounds
  else 0

/-- What a round leaves for the next. -/
def AfterRoundPurse (options : LoopOptions) (x : Locals ⊕ Ending) : Purse :=
  x.elim (fun locals ↦ roundPurse options.maxToolRounds locals.toolRounds) fun _ ↦ 0

omit [SerdeJson] in
/-- A round of tool calls below the limit leaves the next requests. -/
theorem requestPurse_succ {maxToolRounds toolRounds : Nat}
    (hbounded : maxToolRounds ≤ MinicoreRuntime.maxToolRounds)
    (hlimit : ¬ (maxToolRounds ≠ 0 ∧ toolRounds ≥ maxToolRounds)) :
    requestPurse maxToolRounds (saturatingAdd 64 toolRounds 1) ≤
      laterPurse maxToolRounds toolRounds := by
  have hcap : MinicoreRuntime.maxToolRounds < 2 ^ 64 - 1 := by decide
  intro e
  show (if e = .request then if maxToolRounds = 0 then 1 else maxToolRounds + 1 -
      min (min (toolRounds + 1) (2 ^ 64 - 1)) maxToolRounds else 0) ≤
    if e = .request then if maxToolRounds = 0 then 1 else maxToolRounds -
      min toolRounds maxToolRounds else 0
  split
  · split
    · exact le_rfl
    · omega
  · exact le_rfl

omit [SerdeJson] in
/-- The tool calls of a response. -/
theorem pays_runCalls (hbounded : ctx.options.maxToolRounds ≤ maxToolRounds)
    (snapshot : ExecutionConfig) (locals : Locals) (calls : List ToolCall) :
    Pays ctx.options init
      (calls.length • (callPurse + resultPurse ctx.options.limits) +
        (Expense.prompt.one + laterPurse ctx.options.maxToolRounds locals.toolRounds))
      (runCalls ctx snapshot locals calls) (AfterRoundPurse ctx.options) := by
  unfold runCalls
  split
  · have hsettle : Pays ctx.options init _ (settleCalls ctx locals.requestIndex _ _ calls) _ :=
      pays_settleCalls locals.requestIndex .failed
        (.ofStatic "tool round limit reached" (by decide)) _
    refine Allowance.affords_bind (Allowance.affords_mono hsettle ?_ fun _ ↦ le_rfl) fun _ ↦
      Allowance.affords_pure le_rfl
    exact (nsmul_le_nsmul_right le_add_self _).trans le_self_add
  · rename_i hlimit
    refine pays_publish _ (Allowance.affords_bind
      (Allowance.affords_frame (pays_runToolBatch _ snapshot calls) _) fun path ↦ ?_)
    rw [zero_add]
    cases path with
    | some path => exact Allowance.affords_pure zero_le
    | none =>
      exact Allowance.affords_pure (add_le_add le_rfl (requestPurse_succ hbounded hlimit))

/-- What follows a response. -/
theorem pays_handleResponse (hbounded : ctx.options.maxToolRounds ≤ maxToolRounds)
    (snapshot : ExecutionConfig) (locals : Locals) {response : ModelResponse}
    {tools : List ToolSpec}
    (hassembled : Assembled tools ctx.options.limits (.ok response : Except Unit ModelResponse)) :
    Pays ctx.options init
      (issuedPurse ctx.options + laterPurse ctx.options.maxToolRounds locals.toolRounds)
      (handleResponse ctx snapshot locals response) (AfterRoundPurse ctx.options) := by
  obtain ⟨events, hformed, hyields⟩ := hassembled
  unfold handleResponse
  split
  · exact Allowance.affords_pure zero_le
  rename_i usage husage
  dsimp only
  have hcontent : (assistantHistory ctx locals.requestIndex snapshot response).content =
    response.parts := rfl
  have hfits := Stream.fits_of_yields hformed hyields hcontent
  have hcalls : (toolCalls response.parts).length ≤
      ctx.options.limits.maxToolCallsPerResponse := by
    have hwithin := hfits.1
    simp only [HistoryItem.within, Bool.and_eq_true, decide_eq_true_eq] at hwithin
    exact hwithin.2
  generalize hitem : HistoryItem.assistant
    (assistantHistory ctx locals.requestIndex snapshot response) = item at hfits ⊢
  have hn : item.calls = (toolCalls response.parts).length := by
    rw [← hitem]
    rfl
  have hresponse : item.isResponse = true := by
    rw [← hitem]
    rfl
  -- The response and the results of its calls are paid for by the request.
  have happend : ∀ {f : Unit → Action (Locals ⊕ Ending)},
      Pays ctx.options init
        ((toolCalls response.parts).length • (callPurse + resultPurse ctx.options.limits) +
          (Expense.prompt.one + laterPurse ctx.options.maxToolRounds locals.toolRounds))
        (f ()) (AfterRoundPurse ctx.options) →
      Pays ctx.options init
        (issuedPurse ctx.options + laterPurse ctx.options.maxToolRounds locals.toolRounds)
        ((perform (.append item)).bind f) (AfterRoundPurse ctx.options) := by
    intro f hf
    have hprice : item.cost ctx.options.limits + item.calls • resultPurse ctx.options.limits +
        Expense.prompt.one ≤ issuedPurse ctx.options := by
      intro e
      cases e with
      | response =>
        show item.isResponse.toNat + item.calls * 0 + 0 ≤ 1
        rw [hresponse]
        exact le_rfl
      | call =>
        show item.calls + item.calls * 0 + 0 ≤ _
        rw [hn]
        exact hcalls
      | bytes =>
        show estimateItemBytes item + item.calls * ctx.options.limits.resultBytes + 0 ≤
          ctx.options.limits.requestBytes
        rw [hn, Nat.add_zero]
        exact Nat.add_le_add hfits.2 (Nat.mul_le_mul_right _ hcalls)
      | excess =>
        show (!item.within ctx.options.limits).toNat + item.calls * 0 + 0 ≤ 0
        rw [hfits.1]
        exact le_rfl
      | prompt => exact le_rfl
      | _ => exact Nat.zero_le _
    have hgrant : item.calls • callPurse ≤ Op.grant ctx.options (.append item) () := by
      intro e
      cases e with
      | question => exact (Nat.mul_comm _ _).le
      | decision => exact (Nat.mul_one _).le
      | execution => exact (Nat.mul_one _).le
      | _ => exact Nat.zero_le _
    refine Allowance.affords_op (b := item.calls • resultPurse ctx.options.limits +
      (Expense.prompt.one + laterPurse ctx.options.maxToolRounds locals.toolRounds)) ?_
      fun _ ↦ Allowance.affords_mono hf ?_ fun _ ↦ le_rfl
    · rw [← add_assoc, ← add_assoc]
      exact add_le_add hprice le_rfl
    · rw [← hn, nsmul_add, add_comm (item.calls • callPurse), add_assoc,
        add_comm (item.calls • callPurse), ← add_assoc]
      exact add_le_add le_rfl hgrant
  split
  · split
    · exact Allowance.affords_pure zero_le
    · refine happend ?_
      split
      · exact pays_op rfl fun _ ↦ Allowance.affords_pure zero_le
      · exact Allowance.affords_pure zero_le
  · exact happend (pays_runCalls hbounded snapshot { locals with usage := usage } _)

/-- What is left of the requests when one of them is issued. -/
def sparePurse (maxToolRounds toolRounds : Nat) : Purse :=
  fun e ↦ if e = .request then
    if maxToolRounds = 0 then 0 else maxToolRounds - min toolRounds maxToolRounds
  else 0

omit [SerdeJson] in
theorem requestPurse_price (maxToolRounds toolRounds : Nat) :
    Expense.request.one + sparePurse maxToolRounds toolRounds ≤
      requestPurse maxToolRounds toolRounds := by
  intro e
  show (if e = .request then 1 else 0) + (if e = .request then
      if maxToolRounds = 0 then 0 else maxToolRounds - min toolRounds maxToolRounds else 0) ≤
    if e = .request then
      if maxToolRounds = 0 then 1 else maxToolRounds + 1 - min toolRounds maxToolRounds else 0
  split
  · split <;> omega
  · exact le_rfl

omit [SerdeJson] in
/-- What issuing a request grants. -/
theorem commitRevision_grant {options : LoopOptions} (hattempts : 0 < options.modelRetryAttempts)
    (toolRounds revision : Nat) :
    attemptPurse options.modelRetryAttempts 0 +
        (issuedPurse options + laterPurse options.maxToolRounds toolRounds) ≤
      sparePurse options.maxToolRounds toolRounds +
        Op.grant options (.commitRevision revision) () := by
  intro e
  -- One currency at a time.
  cases e with
  | request =>
    show 0 + (0 + if options.maxToolRounds = 0 then 1 else _) ≤
      (if options.maxToolRounds = 0 then 0 else _) + if options.maxToolRounds = 0 then 1 else 0
    split <;> omega
  | start =>
    show max 1 (options.modelRetryAttempts - 0) + (0 + 0) ≤ 0 + options.modelRetryAttempts * 1
    omega
  | prompt => exact le_rfl
  | response => exact le_rfl
  | call =>
    show 0 + (options.limits.maxToolCallsPerResponse + 0) ≤
      0 + options.limits.maxToolCallsPerResponse * 1
    omega
  | bytes =>
    show 0 + (options.limits.requestBytes + 0) ≤ 0 + (options.limits.requestBytes * 1 + 0)
    omega
  | _ => exact Nat.zero_le _

/-- A model request. -/
theorem pays_runModel (requestIndex : Nat) (snapshot : ExecutionConfig) (request : ModelRequest)
    (deadline : Nat) :
    Pays ctx.options init (attemptPurse ctx.options.modelRetryAttempts 0)
      (runModel ctx requestIndex snapshot request deadline) fun _ ↦ 0 := by
  have hdrain := uses_drainProgress (S := Op.Plain) (fun _ ↦ id) ctx requestIndex
  have hpays : Pays ctx.options init
      (attemptPurse (modelDriver ctx snapshot).retryPolicy.maxAttempts 0)
      ((modelDriver ctx snapshot).runDetailed (drainProgress ctx requestIndex) request
        ⟨ctx.id, requestIndex, deadline⟩) _ :=
    pays_runDetailed hdrain request _
  refine pays_op rfl fun _ ↦ Allowance.affords_bind hpays fun result ↦ ?_
  refine pays_op rfl fun dropped ↦ pays_op rfl fun _ ↦ pays_plain hdrain fun _ ↦ ?_
  exact Allowance.affords_pure le_rfl

theorem assembled_runModel (hlimits : ctx.options.limits.Caps) (requestIndex : Nat)
    (snapshot : ExecutionConfig) (request : ModelRequest) (deadline : Nat) :
    (runModel ctx requestIndex snapshot request deadline).Returns
      (Assembled request.tools ctx.options.limits) := by
  refine Prog.returns_call_bind fun _ ↦ Prog.returns_bind
    (R := Assembled request.tools (modelDriver ctx snapshot).limits)
    (assembled_runDetailed hlimits request _) fun result h ↦ ?_
  refine Prog.returns_call_bind fun dropped ↦ Prog.returns_call_bind fun _ ↦ ?_
  exact Prog.returns_bind (Prog.returns_true _) fun _ _ ↦ h

/-- The options of a loop that was started. -/
structure LoopOptions.Started (options : LoopOptions) : Prop where
  rounds : options.maxToolRounds ≤ MinicoreRuntime.maxToolRounds
  attempts : 0 < options.modelRetryAttempts
  limits : options.limits.Caps

/-- A request that is issued. -/
theorem pays_issueRequest (h : ctx.options.Started) (snapshot : ExecutionConfig) (locals : Locals)
    (request : ModelRequest) :
    Pays ctx.options init (requestPurse ctx.options.maxToolRounds locals.toolRounds)
      (issueRequest ctx snapshot locals request) (AfterRoundPurse ctx.options) := by
  refine Allowance.affords_op (requestPurse_price _ _) fun _ ↦ ?_
  refine Allowance.affords_mono (pays_op rfl fun _ ↦ pays_publish _ (pays_turnDeadline _
    fun deadline ↦ ?_)) (commitRevision_grant h.attempts _ _) fun _ ↦ le_rfl
  refine Allowance.affords_bind_returns
    (Allowance.affords_frame (pays_runModel locals.requestIndex snapshot request deadline) _)
    (assembled_runModel h.limits locals.requestIndex snapshot request deadline)
    fun result hassembled ↦ ?_
  rw [zero_add]
  cases result with
  | ok response => exact pays_handleResponse h.rounds snapshot { locals with
      candidateRevision := none
      issuedRevision := locals.candidateRevision.getD locals.issuedRevision
      requests := saturatingAdd 32 locals.requests 1
      lastIssuedRequestIndex := some locals.requestIndex } hassembled
  | error failure =>
    exact pays_plain (uses_mapModelFailure (fun _ ↦ id) failure) fun path ↦
      Allowance.affords_pure zero_le

/-- A request that is prepared. A prompt that became stale is paid for by what made it so. -/
theorem pays_prepareRequest (h : ctx.options.Started) (locals : Locals) :
    Pays ctx.options init (roundPurse ctx.options.maxToolRounds locals.toolRounds)
      (prepareRequest ctx locals) (AfterRoundPurse ctx.options) := by
  -- A prompt costs one call of the provider.
  have hprompt : ∀ view deadline, Pays ctx.options init Port.prompt.expense.one
      (preparePrompt ctx locals.requestIndex locals.config view deadline) fun _ ↦ 0 := by
    intro view deadline
    have hcall : Pays ctx.options init Port.prompt.expense.one
        (runPortCall (pure ()) deadline ctx.options.promptTimeout fun instant ↦
          .prepare locals.config.prompt
            (promptRequest ctx locals.requestIndex locals.config view instant)) fun _ ↦ 0 :=
      pays_runPortCall (Prog.uses_pure _ ()) _ _ _
    exact Allowance.affords_bind hcall fun outcome ↦ Allowance.affords_pure le_rfl
  refine pays_publish _ (pays_op rfl fun view ↦ pays_turnDeadline _ fun deadline ↦ ?_)
  refine Allowance.affords_bind (Allowance.affords_frame (hprompt view deadline) _) fun prep ↦ ?_
  rw [zero_add]
  cases prep with
  | stop path => exact Allowance.affords_pure zero_le
  | ready messages =>
    refine Allowance.affords_bind
      (pays_takeBoundary true locals.config locals.candidateRevision) fun boundary ↦ ?_
    dsimp only
    -- A stale prompt: what the boundary granted pays for the next preparation.
    split
    · rename_i htaken
      rw [htaken]
      exact pays_op rfl fun _ ↦ Allowance.affords_pure le_rfl
    · refine Allowance.affords_mono ?_ le_add_self fun _ ↦ le_rfl
      split
      · exact Allowance.affords_pure zero_le
      · exact pays_issueRequest h locals.config { locals with
          config := boundary.config, candidateRevision := boundary.candidateRevision } _

/-- A round of the loop of requests. -/
theorem pays_requestRound (h : ctx.options.Started) (locals : Locals) :
    Pays ctx.options init (roundPurse ctx.options.maxToolRounds locals.toolRounds)
      (requestRound ctx locals) (AfterRoundPurse ctx.options) := by
  refine pays_op rfl fun cancelled ↦ ?_
  split
  · exact Allowance.affords_pure zero_le
  have hpast : (pastDeadline ctx.options.deadline).Uses Op.Plain := by
    unfold pastDeadline
    split
    · trivial
    · exact ⟨rfl, fun _ ↦ trivial⟩
  refine pays_plain hpast fun past ↦ ?_
  split
  · exact Allowance.affords_pure zero_le
  refine Allowance.affords_bind
    (pays_takeBoundary false locals.config locals.candidateRevision) fun boundary ↦ ?_
  exact Allowance.affords_mono (pays_prepareRequest h { locals with
    config := boundary.config, candidateRevision := boundary.candidateRevision })
    le_add_self fun _ ↦ le_rfl

/-- What a loop is started with. -/
def startPurse (options : LoopOptions) (input : UserInput) : Purse :=
  roundPurse options.maxToolRounds 0 + byteLen input.asText • Expense.bytes.one

/-- The runner up to its report. -/
theorem pays_runLoopInner (h : ctx.options.Started) (request : LoopRequest) :
    Pays ctx.options init (startPurse ctx.options request.input) (runLoopInner ctx request)
      fun _ ↦ 0 := by
  refine pays_op rfl fun _ ↦ Allowance.affords_op
    (b := roundPurse ctx.options.maxToolRounds 0) ?_ fun _ ↦ ?_
  · rw [add_comm, startPurse]
    refine add_le_add le_rfl ?_
    intro e
    cases e with
    | bytes => exact (Nat.mul_one _).ge
    | _ => exact Nat.zero_le _
  refine Allowance.affords_mono ?_ le_self_add fun _ ↦ le_rfl
  refine Allowance.affords_bind (Allowance.affords_iterate
    (fun locals : Locals ↦ roundPurse ctx.options.maxToolRounds locals.toolRounds)
    (.start request.config) fun locals ↦ pays_requestRound h locals) fun ending ↦ ?_
  refine Allowance.affords_bind (c := fun _ ↦ 0) (Allowance.affords_of_uses
    (Traversal.uses_finishLoop (fun _ ho ↦ Op.cost_of_plain _ ho)
      (fun _ ho _ ↦ Op.cost_of_finishes _ ho) ending)) fun report ↦ ?_
  refine Allowance.affords_bind (c := fun _ ↦ 0) (Allowance.affords_of_uses
    (uses_dropConfig (fun _ ho ↦ Op.cost_of_plain _ ho) ending.discardedConfig)) fun _ ↦ ?_
  exact pays_op rfl fun _ ↦ Allowance.affords_pure le_rfl

/-- The task of a loop. -/
theorem pays_runLoop (h : ctx.options.Started) (request : LoopRequest) :
    Pays ctx.options init (startPurse ctx.options request.input) (runLoop ctx request)
      fun _ ↦ 0 := by
  refine Allowance.affords_bind (c := fun _ ↦ 0) ?_ fun report ↦ ?_
  · refine Allowance.affords_catchUnwind (pays_runLoopInner h request) ?_ ?_
    · exact fun _ ↦ Allowance.affords_pure le_rfl
    · exact Allowance.affords_pure le_rfl
  · cases report with
    | some report => exact Allowance.affords_pure le_rfl
    | none =>
      exact Allowance.affords_of_uses (Traversal.uses_panicReport
        (fun _ ho ↦ Op.cost_of_plain _ ho) (fun _ ho _ ↦ Op.cost_of_finishes _ ho) ctx.id)

end Rounds

/-! ## Runs -/

/-- What a log cost. -/
def costIn (limits : LoopLimits) (log : List Record) (e : Expense) : Nat :=
  ((traceOf log).map fun entry ↦ entry.op.cost limits e).sum

/-- How often a configuration or inputs were taken in a log. -/
def broughtIn (log : List Record) : Nat :=
  ((traceOf log).map fun entry ↦ (entry.op.brings entry.answer).toNat).sum

/-- The footprint of the inputs that were taken in a log. -/
def broughtBytesIn (log : List Record) : Nat :=
  ((traceOf log).map fun entry ↦ entry.op.broughtBytes entry.answer).sum

theorem spent_apply (options : LoopOptions) (trace : List (Entry interface Nat)) (e : Expense) :
    (runnerAllowance options).spent trace e =
      (trace.map fun entry ↦ entry.op.cost options.limits e).sum := by
  induction trace with
  | nil => rfl
  | cons entry trace ih =>
    rw [List.map_cons, List.sum_cons, ← ih, Nat.add_comm]
    rfl

theorem granted_apply (options : LoopOptions) (trace : List (Entry interface Nat)) (e : Expense) :
    (runnerAllowance options).granted trace e =
      (trace.map fun entry ↦ entry.op.grant options entry.answer e).sum := by
  induction trace with
  | nil => rfl
  | cons entry trace ih =>
    rw [List.map_cons, List.sum_cons, ← ih, Nat.add_comm]
    rfl

/-- What an execution costs is paid for by what it was started with and what was granted. -/
theorem exec_pays {α : Type} {options : LoopOptions} {p : Action α} {a : Purse}
    (h : Pays options a a p fun _ ↦ 0) (id : LoopId) (base : List HistoryItem) (clock : Nat)
    (schedule : List Turn) (e : Expense) :
    let log := (machine.exec p (.start id options base clock schedule)).2.log
    costIn options.limits log e ≤
      a e + ((traceOf log).map fun entry ↦ entry.op.grant options entry.answer e).sum := by
  intro log
  have hwp : ((runnerAllowance options).monitor Nat a).wp p
      ⟨fun _ s ↦ s.Holds (0 + 0), fun s ↦ s.Holds 0⟩ ⟨a, 0⟩ := by
    refine h 0 _ ?_
    show (0 : Purse) + _ ≤ _
    rw [zero_add, add_zero]
  have hrun := Monitor.exec_sound _ machine (World.honours_of_expects fun _ _ _ _ ↦ trivial) p
    (w := .start id options base clock schedule) trivial trivial hwp
  have hspent := Allowance.spent_le hrun.2.1 e
  rw [spent_apply] at hspent
  refine hspent.trans_eq ?_
  rw [Pi.add_apply, granted_apply]
  rfl

theorem task_pays [SerdeJson] (setup : Setup) (h : setup.ctx.options.Started) (clock : Nat)
    (schedule : List Turn) (e : Expense) :
    costIn setup.ctx.options.limits (setup.task clock schedule).2.log e ≤
      startPurse setup.ctx.options setup.request.input e +
        ((traceOf (setup.task clock schedule).2.log).map
          fun entry ↦ entry.op.grant setup.ctx.options entry.answer e).sum :=
  exec_pays (pays_runLoop h setup.request) setup.ctx.id setup.request.history clock schedule e

theorem started_of_validate {options : LoopOptions} {now : Nat} (h : options.validate now = true) :
    options.Started := by
  refine ⟨?_, options.attempts_of_validate h,
    LoopLimits.caps_of_validate (options.limits_of_validate h)⟩
  simp only [LoopOptions.validate, Bool.and_eq_true, Bool.not_eq_true', Bool.or_eq_false_iff,
    decide_eq_false_iff_not] at h
  omega

/-- An expense that is granted in proportion to another, and with what answers bring. -/
theorem task_bounded [SerdeJson] (setup : Setup) (h : setup.ctx.options.Started) (clock : Nat)
    (schedule : List Turn) {e d : Expense} (n : Nat) (f : (o : Op) → o.Answer → Nat)
    (hgrant : ∀ (o : Op) (r : o.Answer), o.grant setup.ctx.options r e =
      n * o.cost setup.ctx.options.limits d + f o r) :
    costIn setup.ctx.options.limits (setup.task clock schedule).2.log e ≤
      startPurse setup.ctx.options setup.request.input e +
        (n * costIn setup.ctx.options.limits (setup.task clock schedule).2.log d +
          ((traceOf (setup.task clock schedule).2.log).map
            fun entry ↦ f entry.op entry.answer).sum) := by
  refine (task_pays setup h clock schedule e).trans_eq (congrArg _ ?_)
  show _ = n * ((traceOf _).map _).sum + _
  induction traceOf (setup.task clock schedule).2.log with
  | nil => rfl
  | cons entry trace ih =>
    simp only [List.map_cons, List.sum_cons]
    rw [ih, hgrant, Nat.mul_add]
    omega

/-- How much a run may cost its host. With a round limit the requests are bounded; a prompt is
prepared again only after a request or when something was taken; and what is done for a request is
bounded by the retries, the calls of its response, and two questions for each of them. -/
theorem expenses_bounded [SerdeJson] (setup : Setup) (now : Nat)
    (hvalid : setup.ctx.options.validate now = true) (clock : Nat) (schedule : List Turn) :
    let log := (setup.task clock schedule).2.log
    let cost := costIn setup.ctx.options.limits log
    (setup.ctx.options.maxToolRounds ≠ 0 →
      cost .request ≤ setup.ctx.options.maxToolRounds + 1) ∧
    cost .prompt ≤ 1 + cost .request + broughtIn log ∧
    cost .start ≤ setup.ctx.options.modelRetryAttempts * cost .request ∧
    cost .response ≤ cost .request ∧
    cost .call ≤ setup.ctx.options.limits.maxToolCallsPerResponse * cost .request ∧
    cost .decision ≤ cost .call ∧ cost .execution ≤ cost .call ∧
    cost .question ≤ 2 * cost .call := by
  intro log cost
  have hstarted := started_of_validate hvalid
  have hzero : ∀ trace : List (Entry interface Nat),
      (trace.map fun _ ↦ (0 : Nat)).sum = 0 := by simp
  -- What is granted at most `n` times for each unit of another expense.
  have hscaled : ∀ {e e' : Expense} (n : Nat), (∀ (o : Op) (r : o.Answer),
        o.grant setup.ctx.options r e = n * o.cost setup.ctx.options.limits e') →
      startPurse setup.ctx.options setup.request.input e = 0 → cost e ≤ n * cost e' := by
    intro e e' n h hstart
    have hle := task_bounded setup hstarted clock schedule n (fun _ _ ↦ 0) h
    rwa [hstart, hzero, Nat.zero_add] at hle
  have honce : ∀ {e e' : Expense}, (∀ (o : Op) (r : o.Answer),
        o.grant setup.ctx.options r e = o.cost setup.ctx.options.limits e') →
      startPurse setup.ctx.options setup.request.input e = 0 → cost e ≤ cost e' := by
    intro e e' h hstart
    have hle := hscaled 1 (fun o r ↦ (h o r).trans (Nat.one_mul _).symm) hstart
    rwa [Nat.one_mul] at hle
  -- Rounds are granted at the start, and one more request than there are rounds.
  have hrequest : setup.ctx.options.maxToolRounds ≠ 0 →
      cost .request ≤ setup.ctx.options.maxToolRounds + 1 := by
    intro hlimit
    have hle := task_bounded setup hstarted clock schedule 0 (fun _ _ ↦ 0) (e := .request)
      (d := .request) fun o r ↦ (if_neg hlimit).trans (Nat.zero_mul _).symm
    rw [hzero, Nat.zero_mul] at hle
    refine hle.trans_eq ?_
    show 0 + (if setup.ctx.options.maxToolRounds = 0 then 1 else _) + _ * 0 + 0 = _
    rw [if_neg hlimit]
    omega
  -- A prompt is prepared once at the start, after each request, and after what was brought.
  have hprompt : cost .prompt ≤ 1 + cost .request + broughtIn log := by
    have hle := task_bounded setup hstarted clock schedule 1 (fun o r ↦ (o.brings r).toNat)
      (e := .prompt) (d := .request) fun o r ↦ congrArg (· + _) (Nat.one_mul _).symm
    rw [Nat.one_mul, ← Nat.add_assoc] at hle
    exact hle
  exact ⟨hrequest, hprompt, hscaled _ (fun _ _ ↦ rfl) rfl, honce (fun _ _ ↦ rfl) rfl,
    hscaled _ (fun _ _ ↦ rfl) rfl, honce (fun _ _ ↦ rfl) rfl, honce (fun _ _ ↦ rfl) rfl,
    hscaled _ (fun _ _ ↦ rfl) rfl⟩

namespace Sample

/-- The sample with a round limit. -/
def limited : Setup :=
  { setup with ctx := ⟨setup.ctx.id, { options with maxToolRounds := 3 }⟩ }

end Sample

/-- The sample issues a request and executes a tool. -/
theorem expenses_bounded_sample :
    let cost := costIn Sample.limited.ctx.options.limits
      (Sample.limited.task 0 Sample.schedule).2.log
    cost .execution = 1 ∧ cost .execution ≤ cost .call ∧ cost .request ≤ 4 := by
  have hexecuted : costIn Sample.limited.ctx.options.limits
      (Sample.limited.task 0 Sample.schedule).2.log .execution = 1 := by decide +kernel
  obtain ⟨hrequest, -, -, -, -, -, hexecution, -⟩ :=
    expenses_bounded Sample.limited 0 (by decide) 0 Sample.schedule
  exact ⟨hexecuted, hexecution, hrequest (by decide)⟩

/-! ## The history -/

/-- The working history has the items that were appended. -/
theorem appended_kept : World.Kept (fun _ _ ↦ True)
    fun w ↦ w.working.appended = appendedItems (traceOf w.log) where
  host w s h := by
    have htrace := w.hostStep_trace s
    exact (congrArg WorkingHistory.appended (w.hostStep_frame s).1).trans
      (h.trans (congrArg appendedItems htrace.symm))
  pass w schedule clock _ h := h
  answered w turn o r h _ _ := by
    show (w.effect o).working.appended = appendedItems (⟨o, w.clock, r⟩ :: traceOf (w.effect o).log)
    rw [(effect_mirror w o).1, World.effect_log]
    cases o with
    | append item => exact congrArg (· ++ [item]) h
    | _ => exact h

theorem task_appended [SerdeJson] (setup : Setup) (clock : Nat) (schedule : List Turn) :
    (setup.task clock schedule).2.working.appended =
      appendedItems (traceOf (setup.task clock schedule).2.log) :=
  appended_kept.exec (runLoop setup.ctx setup.request)
    (w := .start setup.ctx.id setup.ctx.options setup.request.history clock schedule) rfl

/-- What appending items costs adds up over the items. -/
theorem cost_appendedItems (limits : LoopLimits) (e : Expense)
    (he : ∀ o : Op, (∀ item, o ≠ .append item) → o.cost limits e = 0)
    (trace : List (Entry interface Nat)) :
    (trace.map fun entry ↦ entry.op.cost limits e).sum =
      ((appendedItems trace).map fun item ↦ item.cost limits e).sum := by
  induction trace with
  | nil => rfl
  | cons entry trace ih =>
    obtain ⟨o, n, r⟩ := entry
    rw [List.map_cons, List.sum_cons, ih]
    by_cases happends : ∃ item, o = .append item
    · obtain ⟨item, rfl⟩ := happends
      show item.cost limits e + _ = ((appendedItems trace ++ [item]).map _).sum
      rw [List.map_append, List.sum_append, Nat.add_comm]
      rfl
    · rw [he o fun item h ↦ happends ⟨item, h⟩, Nat.zero_add]
      cases o <;> first | rfl | exact absurd ⟨_, rfl⟩ happends

/-- How much the history of a loop may grow: by the prompt, by the inputs that were taken, and by a
bounded amount for each request. -/
theorem history_growth_bounded [SerdeJson] (setup : Setup) (now : Nat)
    (hvalid : setup.ctx.options.validate now = true) (clock : Nat) (schedule : List Turn) :
    let run := setup.task clock schedule
    estimateHistoryBytes run.2.working.appended ≤
      byteLen setup.request.input.asText + broughtBytesIn run.2.log +
        setup.ctx.options.limits.requestBytes *
          costIn setup.ctx.options.limits run.2.log .request := by
  intro run
  have hle := task_bounded setup (started_of_validate hvalid) clock schedule
    setup.ctx.options.limits.requestBytes (fun o r ↦ o.broughtBytes r) (e := .bytes)
    (d := .request) fun _ _ ↦ rfl
  -- What was appended is what was spent on bytes.
  have hcost : costIn setup.ctx.options.limits run.2.log .bytes =
      (run.2.working.appended.map estimateItemBytes).sum := by
    rw [task_appended]
    refine cost_appendedItems _ _ (fun o ho ↦ ?_) _
    cases o with
    | append item => exact absurd rfl (ho item)
    | @makeFuture port call => cases port <;> rfl
    | _ => rfl
  have hstart : startPurse setup.ctx.options setup.request.input .bytes =
      byteLen setup.request.input.asText := by
    show 0 + 0 + byteLen setup.request.input.asText * 1 = _
    rw [Nat.mul_one, Nat.zero_add]
  calc
    estimateHistoryBytes run.2.working.appended ≤
        (run.2.working.appended.map estimateItemBytes).sum := saturatingSum_le _
    _ = costIn setup.ctx.options.limits run.2.log .bytes := hcost.symm
    _ ≤ _ := hle
    _ = _ := by
      rw [hstart, Nat.add_comm (setup.ctx.options.limits.requestBytes * _), ← Nat.add_assoc]
      rfl

/-- The history of the sample grows by 13 bytes, two of them of an input. -/
theorem history_growth_bounded_sample :
    estimateHistoryBytes (Sample.limited.task 0 Sample.schedule).2.working.appended = 13 ∧
      broughtBytesIn (Sample.limited.task 0 Sample.schedule).2.log = 2 ∧
      estimateHistoryBytes (Sample.limited.task 0 Sample.schedule).2.working.appended ≤
        byteLen Sample.limited.request.input.asText +
            broughtBytesIn (Sample.limited.task 0 Sample.schedule).2.log +
          Sample.limited.ctx.options.limits.requestBytes *
            costIn Sample.limited.ctx.options.limits
              (Sample.limited.task 0 Sample.schedule).2.log .request := by
  have hbytes :
      estimateHistoryBytes (Sample.limited.task 0 Sample.schedule).2.working.appended = 13 ∧
        broughtBytesIn (Sample.limited.task 0 Sample.schedule).2.log = 2 := by decide +kernel
  exact ⟨hbytes.1, hbytes.2,
    history_growth_bounded Sample.limited 0 (by decide) 0 Sample.schedule⟩

end MinicoreRuntime
