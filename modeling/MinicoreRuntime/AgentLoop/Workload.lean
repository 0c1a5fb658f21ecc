import MinicoreRuntime.AgentLoop.Expenses
import MinicoreRuntime.AgentLoop.Liveness

/-!
# The work of a runner

How much a runner does by itself. Every operation is paid for: by the request, the start of a model
or the tool call that it is made for, or by something that came from outside, such as an event of a
stream, an input, or a poll that has to be made again. As requests, starts and calls are limited by
the options, the work of a run is bounded by the options and by what came from outside.

## Main definitions

* `Op.stimulus`: the work that comes from outside.
* `Op.wage`, `workAllowance`: how many operations an answer pays for.
* `LoopOptions.effort`: the work for one request.

## Main results

* `works_runLoop`: every operation of a runner is paid for.
* `work_bounded`: how much a run of the task does, and why it ends.
-/

namespace MinicoreRuntime

open Interactive

/-! ## Wages -/

/-- A poll that brings nothing is made again, after a look for reports. -/
def Polled.again {α : Type} : Polled α → Nat
  | .pending | .panicked => 2
  | .cancelled | .expired | .ready _ => 0

/-- The operations that an answer from outside causes. -/
def Op.stimulus : (o : Op) → o.Answer → Nat
  | .pollPort _ _, polled => polled.again
  | .pollStart _, polled => polled.again
  | .pollRetry _ _, polled => polled.again
  | .pollInteraction _ _, polled => polled.again
  -- A delta is offered and forwarded, and the next event is polled.
  | .pollStream _, .ready (some (.ok _)) => 3
  | .pollStream _, polled => polled.again
  -- A report is counted, forwarded, and followed by a look for the next one.
  | .recvToolProgress, some _ => 4
  | .recvModelProgress, some _ => 4
  -- What is taken makes the prompt stale, which is prepared again.
  | .takeConfig, some _ => 19
  | .takeInputs, inputs => inputs.length + if inputs.isEmpty then 0 else 18
  | _, _ => 0

/-- How many operations an answer pays for. -/
def Op.wage : (o : Op) → o.Answer → Nat
  | .commitRevision _, _ => 34
  | .startModel _ _ _, _ => 9
  | .append item, _ => 49 * item.calls
  | o, r => o.stimulus r

/-- The allowance of all operations alike. -/
def workAllowance : Allowance interface Nat := ⟨fun _ ↦ 1, Op.wage⟩

/-- What a program of the runner has to be paid, and what is left when it returns. -/
abbrev Earns (init a : Nat) {α : Type} (p : Action α) (c : α → Nat) : Prop :=
  workAllowance.Affords Nat init a p c

/-- How much a program has to be paid. -/
abbrev Works (init n : Nat) {α : Type} (p : Action α) : Prop := Earns init n p fun _ ↦ 0

/-! ## Rules -/

section Rules

variable {init n m k : Nat} {α β : Type}

/-- An operation and what its answer pays for. -/
theorem earns_op {o : Op} {f : o.Answer → Action α} {c : α → Nat}
    (hf : ∀ r, Earns init (n + o.wage r) (f r) c) : Earns init (n + 1) ((perform o).bind f) c :=
  Allowance.affords_op (b := n) (Nat.add_comm 1 n).le hf

/-- An operation whose answer need not pay for anything. -/
theorem earns_plain {o : Op} {f : o.Answer → Action α} {c : α → Nat}
    (hf : ∀ r, Earns init n (f r) c) : Earns init (n + 1) ((perform o).bind f) c :=
  earns_op fun r ↦ Allowance.affords_mono (hf r) (Nat.le_add_right _ _) fun _ ↦ le_rfl

theorem works_pure (x : α) : Works init n (Prog.pure x) := Allowance.affords_pure (Nat.zero_le n)

theorem works_last (o : Op) : Works init (n + 1) (perform o) :=
  earns_plain (o := o) (f := .pure) works_pure

theorem works_mono {p : Action α} (hp : Works init n p) (h : n ≤ m) : Works init m p :=
  Allowance.affords_mono hp h fun _ ↦ le_rfl

/-- A part of a program, and what its rest is left with. -/
theorem earns_bind (m : Nat) {p : Action α} {f : α → Action β} {c : β → Nat}
    (hp : Works init n p) (hf : ∀ x, Earns init m (f x) c) (h : n + m ≤ k) :
    Earns init k (p.bind f) c := by
  refine Allowance.affords_mono (Allowance.affords_bind (Allowance.affords_frame hp m) fun x ↦ ?_) h
    fun _ ↦ le_rfl
  rw [Nat.zero_add]
  exact hf x

/-- A loop each round of which pays for the next. -/
theorem works_iterate {σ : Type} {body : σ → Action (σ ⊕ α)} (i : σ)
    (h : ∀ j, Earns init n (body j) fun x ↦ x.elim (fun _ ↦ n) fun _ ↦ 0) :
    Works init n (Prog.iterate body i) :=
  Allowance.affords_iterate (fun _ ↦ n) i h

/-- A loop of polls. A poll that brings nothing pays for looking for reports and for the next. -/
theorem earns_again {awaiter : Action Unit} (hawait : Works init 1 awaiter) {σ : Type} (i : σ) :
    Earns init 2 (awaiter.bind fun _ ↦ Prog.pure (Sum.inl i : σ ⊕ α)) fun x ↦
      x.elim (fun _ ↦ 1) fun _ ↦ 0 :=
  earns_bind 1 hawait (fun _ ↦ Allowance.affords_pure le_rfl) le_rfl

end Rules

section Programs

variable {init n : Nat} {α : Type} {c : α → Nat} {ctx : LoopCtx}

/-! ## Parts shared by all phases -/

theorem earns_publish (state : LoopState) {f : Unit → Action α} (hf : Earns init n (f ()) c) :
    Earns init (n + 2) ((publish state).bind f) c :=
  earns_plain (o := .publishState state) fun _ ↦
    earns_plain (o := .tryEmit (.stateChanged state)) fun _ ↦ hf

theorem earns_turnDeadline (deadline : Option Nat) {f : Nat → Action α}
    (hf : ∀ instant, Earns init n (f instant) c) :
    Earns init (n + 1) ((turnDeadline deadline).bind f) c := by
  refine earns_bind n (n := 1) ?_ hf (Nat.add_comm 1 n).le
  unfold turnDeadline
  -- What is added to the clock plays no part, and must not be evaluated.
  generalize loopHorizon = horizon
  split
  · exact works_pure _
  · refine earns_plain fun now ↦ ?_
    split
    · exact works_pure _
    · exact Allowance.affords_panic

theorem works_dropConfig (config : Option ExecutionConfig) : Works init 1 (dropConfig config) := by
  cases config with
  | none => exact works_pure _
  | some config =>
    refine Allowance.affords_bind (c := fun _ ↦ 0) ?_ fun _ ↦ works_pure _
    refine Allowance.affords_catchUnwind (works_last (.dropConfig config)) ?_ ?_
    · exact fun _ ↦ works_pure _
    · exact works_pure _

/-- A port call: two looks, its deadline, its future, and a poll. -/
theorem works_runPortCall {port : Port} {awaiter : Action Unit} (hawait : Works init 1 awaiter)
    (turnDeadline timeout : Nat) (make : Nat → PortCall port) :
    Works init 6 (runPortCall awaiter turnDeadline timeout make) := by
  refine earns_plain fun cancelled ↦ ?_
  split
  · exact works_pure _
  refine earns_plain fun deadline ↦ ?_
  cases deadline with
  | none => exact works_pure _
  | some deadline =>
    refine earns_plain fun now ↦ ?_
    split
    · exact works_pure _
    refine earns_plain fun made ↦ ?_
    split
    · refine earns_bind 1 (n := 1) ?_ (fun outcome ↦ earns_plain fun _ ↦ works_pure _) le_rfl
      refine works_iterate () fun _ ↦ earns_op (n := 0) fun polled ↦ ?_
      cases polled with
      | pending => exact earns_again hawait ()
      | _ => exact Allowance.affords_pure (Nat.zero_le _)
    · exact works_pure _

/-! ## Tool calls -/

/-- A look for a report of a tool. A report that is found pays for being forwarded. -/
theorem earns_forwardToolProgress (requestIndex : Nat) :
    Earns init 1 (forwardToolProgress ctx requestIndex) fun x ↦ x.elim (fun _ ↦ 1) fun _ ↦ 0 := by
  refine earns_op (n := 0) fun report ↦ ?_
  cases report with
  | none => exact Allowance.affords_pure le_rfl
  | some report =>
    refine earns_plain fun dropped ↦ earns_plain fun _ ↦ earns_plain fun _ ↦ ?_
    exact Allowance.affords_pure le_rfl

theorem works_awaitTool (requestIndex : Nat) : Works init 1 (awaitTool ctx requestIndex) :=
  Allowance.affords_bind (earns_forwardToolProgress requestIndex) fun _ ↦ works_pure _

theorem works_runToolPort (requestIndex : Nat) (invocation : ToolInvocation)
    (implementation : ToolHandle) (deadline : Nat) :
    Works init 11 (runToolPort ctx requestIndex invocation implementation deadline) := by
  refine earns_plain fun _ ↦ earns_bind 4 (works_runPortCall (works_awaitTool requestIndex) deadline
    _ fun instant ↦ .execute implementation invocation instant) (fun outcome ↦ ?_) le_rfl
  refine earns_plain fun dropped ↦ earns_plain fun _ ↦ ?_
  refine earns_bind 1 (works_iterate () fun _ ↦ earns_forwardToolProgress requestIndex)
    (fun _ ↦ ?_) le_rfl
  exact earns_plain fun _ ↦ works_pure _

/-- A question: its channel, two states, a poll, and its events. -/
theorem works_askHost (invocation : ToolInvocation) (kind : InteractionKind) :
    Works init 13 (askHost ctx invocation kind) := by
  refine earns_plain fun id ↦ ?_
  cases id with
  | none => exact works_pure _
  | some id =>
    refine earns_plain fun channel ↦ earns_plain fun set ↦ ?_
    split
    · refine earns_plain fun waiting ↦ earns_publish _ (earns_plain fun _ ↦ ?_)
      refine earns_bind 5 (n := 1) ?_ (fun answer ↦ ?_) le_rfl
      · refine works_iterate () fun _ ↦ earns_op (n := 0) fun polled ↦ ?_
        -- A poll that brings nothing is made again at once.
        rcases polled with - | - | (- | answer) | - | - <;>
          exact Allowance.affords_pure (Nat.le_of_ble_eq_true rfl)
      · cases answer with
        | error path => exact earns_plain fun _ ↦ works_pure _
        | ok answer =>
          refine earns_plain fun _ ↦ earns_plain fun _ ↦ earns_plain fun running ↦ ?_
          exact earns_publish _ (works_pure _)
    · exact works_pure _

theorem works_executeTool (requestIndex : Nat) (invocation : ToolInvocation)
    (enabled : EnabledTool) : Works init 25 (executeTool ctx requestIndex invocation enabled) := by
  refine earns_turnDeadline _ fun deadline ↦ ?_
  refine earns_bind 13 (works_runToolPort requestIndex invocation enabled.implementation deadline)
    (fun outcome ↦ ?_) le_rfl
  cases outcome with
  | requestInput request =>
    refine earns_bind 0 (works_askHost invocation (.toolInput request)) (fun answer ↦ ?_) le_rfl
    rcases answer with path | decision | answer
    · exact works_pure _
    · exact works_pure _
    · dsimp only
      split
      · exact works_pure _
      · exact Allowance.affords_panic
  | _ => exact works_pure _

theorem works_decidePolicy (policy : Option PolicyHandle) (invocation : ToolInvocation)
    (spec : ToolSpec) (deadline : Nat) :
    Works init 6 (decidePolicy ctx policy invocation spec deadline) := by
  cases policy with
  | none => exact works_pure _
  | some policy =>
    have hcall :
        Works init 6 (runPortCall (pure ()) deadline ctx.options.policyTimeout fun instant ↦
        .decide policy invocation spec instant) := works_runPortCall (works_pure ()) _ _ _
    exact Allowance.affords_bind hcall fun outcome ↦ works_pure _

theorem works_deniedResult (requestIndex : Nat) (invocation : ToolInvocation)
    (reason : Option BoundedText) :
    Works init n (deniedResult ctx requestIndex invocation reason) := by
  unfold deniedResult
  split
  · exact works_pure _
  · exact Allowance.affords_panic

theorem works_runToolCall (requestIndex : Nat) (invocation : ToolInvocation)
    (enabled : EnabledTool) (policy : Option PolicyHandle) :
    Works init 45 (runToolCall ctx requestIndex invocation enabled policy) := by
  refine earns_turnDeadline _ fun deadline ↦ ?_
  refine earns_bind 38 (works_decidePolicy policy invocation enabled.spec deadline)
    (fun step ↦ ?_) le_rfl
  have hexecute : Works init 25 (executeTool ctx requestIndex invocation enabled) :=
    works_executeTool requestIndex invocation enabled
  cases step with
  | allow => exact works_mono hexecute (by decide)
  | denied reason => exact works_deniedResult requestIndex invocation reason
  | requireApproval request =>
    refine earns_bind 25 (works_askHost invocation (.approval request)) (fun answer ↦ ?_) le_rfl
    rcases answer with path | (- | -) | answer
    · exact works_pure _
    · exact hexecute
    · exact works_deniedResult requestIndex invocation none
    · exact works_pure _
  | _ => exact works_pure _

theorem works_batchStep (requestIndex : Nat) (snapshot : ExecutionConfig) (call : ToolCall) :
    Works init 47 (batchStep ctx requestIndex snapshot call) := by
  refine earns_plain fun cancelled ↦ ?_
  split
  · exact works_pure _
  · split
    · exact Allowance.affords_panic
    · exact earns_plain fun _ ↦ works_runToolCall requestIndex _ _ snapshot.policy

theorem works_settleCalls (requestIndex : Nat) (outcome : ToolResultOutcome) (message : ToolOutput)
    (calls : List ToolCall) :
    Works init calls.length (settleCalls ctx requestIndex outcome message calls) := by
  induction calls with
  | nil => exact works_pure _
  | cons call calls ih => exact earns_plain fun _ ↦ ih

/-- A batch. Where a call stops it, the rest pays for their results. -/
theorem works_runToolBatch (requestIndex : Nat) (snapshot : ExecutionConfig)
    (calls : List ToolCall) :
    Works init (49 * calls.length) (runToolBatch ctx requestIndex snapshot calls) := by
  induction calls with
  | nil => exact works_pure _
  | cons call calls ih =>
    refine earns_bind (49 * calls.length + 2) (works_batchStep requestIndex snapshot call)
      (fun step ↦ ?_) (by rw [List.length_cons]; omega)
    cases step with
    | result result => exact earns_plain fun _ ↦ earns_plain fun _ ↦ ih
    | stop path =>
      refine earns_bind 0 (works_settleCalls requestIndex _ _ (call :: calls))
        (fun _ ↦ works_pure _) ?_
      rw [List.length_cons]
      omega

/-! ## Model calls -/

theorem works_drainProgress (requestIndex : Nat) :
    Works init 1 (drainProgress ctx requestIndex) := by
  refine works_iterate () fun _ ↦ earns_op (n := 0) fun delta ↦ ?_
  cases delta with
  | none => exact Allowance.affords_pure le_rfl
  | some delta =>
    have hforward : Works init 3 (forwardProgress ctx requestIndex delta) :=
      earns_plain fun dropped ↦ earns_plain fun _ ↦ works_last _
    -- What is left pays for the look for the next delta.
    exact earns_bind 1 hforward (fun _ ↦ Allowance.affords_pure le_rfl) le_rfl

theorem works_precheck (deadline : EffectiveDeadline) : Works init 2 (precheck deadline) := by
  refine earns_plain fun cancelled ↦ ?_
  split
  · exact works_pure _
  · refine earns_plain fun now ↦ ?_
    split
    · exact works_pure _
    · exact works_pure _

theorem works_evaluateRetry (policy : RetryPolicySnapshot) (attempt : Nat)
    (failure : AttemptFailure) (deadline : Nat) :
    Works init 1 (policy.evaluateRetry attempt failure deadline) := by
  unfold RetryPolicySnapshot.evaluateRetry
  split
  · exact works_pure _
  · split
    · exact works_pure _
    · split
      · exact works_pure _
      · have hfits : ∀ delay, Works init 1 (retryFits deadline delay) :=
          fun delay ↦ earns_plain fun now ↦ works_pure _
        refine earns_bind 0 (hfits _) (fun fits ↦ ?_) le_rfl
        split
        · exact works_pure _
        · exact works_pure _

section Driver

variable {awaiter : Action Unit} (hawait : Works init 1 awaiter)
include hawait

theorem works_waitForRetry (deadline : EffectiveDeadline) (delay : Nat) (error : ModelError) :
    Works init 2 (waitForRetry awaiter deadline delay error) := by
  refine earns_plain fun now ↦ ?_
  split
  · exact Allowance.affords_panic
  · refine works_iterate () fun _ ↦ earns_op (n := 0) fun polled ↦ ?_
    cases polled with
    | panicked => exact earns_again hawait ()
    | pending => exact earns_again hawait ()
    | _ => exact Allowance.affords_pure (Nat.zero_le _)

theorem works_startPolls (deadline : EffectiveDeadline) :
    Works init 1 (Prog.iterate (fun _ ↦ ModelDriver.pollStartCall awaiter deadline) ()) := by
  refine works_iterate () fun _ ↦ earns_op (n := 0) fun polled ↦ ?_
  cases polled with
  | pending => exact earns_again hawait ()
  | ready result => cases result with
    | _ => exact Allowance.affords_pure (Nat.zero_le _)
  | _ => exact Allowance.affords_pure (Nat.zero_le _)

variable [SerdeJson]

/-- A poll of a stream. An event pays for its delta and for the next poll. -/
theorem earns_pollEvent (deadline : EffectiveDeadline) (assembler : Assembler) :
    Earns init 1 (ModelDriver.pollEvent awaiter deadline assembler) fun x ↦
      x.elim (fun _ ↦ 1) fun _ ↦ 0 := by
  refine earns_op (n := 0) fun polled ↦ ?_
  cases polled with
  | pending => exact earns_again hawait assembler
  | ready item =>
    cases item with
    | none =>
      dsimp only
      split
      · exact Allowance.affords_panic
      · exact Allowance.affords_pure (Nat.zero_le _)
      · exact Allowance.affords_pure (Nat.zero_le _)
    | some item =>
      cases item with
      | error error => exact Allowance.affords_pure (Nat.zero_le _)
      | ok event =>
        dsimp only
        split
        · exact Allowance.affords_pure (Nat.zero_le _)
        · exact Allowance.affords_pure (Nat.le_add_left 1 2)
        · exact earns_plain fun _ ↦ earns_again hawait _
  | _ => exact Allowance.affords_pure (Nat.zero_le _)

/-- An attempt. The start pays for the attempt and for what leads to the next. -/
theorem earns_runAttempt (driver : ModelDriver) (request : ModelRequest)
    (context : ModelCallContext) (deadline : EffectiveDeadline) :
    Earns init 1 (ModelDriver.runAttempt awaiter driver request context deadline) fun _ ↦ 6 := by
  refine earns_op (n := 0) fun started ↦ ?_
  split
  · refine earns_bind 8 (works_startPolls hawait deadline) (fun stream ↦ ?_) le_rfl
    have hstream :
        Works init 1 (ModelDriver.readStream awaiter driver request deadline stream) := by
      cases stream with
      | error failure => exact works_pure _
      | ok _ => exact works_iterate _ (earns_pollEvent hawait deadline)
    refine earns_bind 7 hstream (fun result ↦ ?_) le_rfl
    exact earns_plain fun _ ↦ Allowance.affords_pure le_rfl
  · exact Allowance.affords_pure (Nat.le_add_left 6 3)

/-- A round of the attempts leaves what the next one costs up to its start. -/
theorem earns_attemptRound (driver : ModelDriver) (request : ModelRequest)
    (context : ModelCallContext) (deadline : EffectiveDeadline) (attempt : Nat) :
    Earns init 3 (ModelDriver.attemptRound awaiter driver request context deadline attempt) fun x ↦
      x.elim (fun _ ↦ 3) fun _ ↦ 0 := by
  refine earns_bind 1 (works_precheck deadline) (fun checked ↦ ?_) le_rfl
  cases checked with
  | error failure => exact Allowance.affords_pure (Nat.zero_le _)
  | ok _ =>
    refine Allowance.affords_bind (earns_runAttempt hawait driver request context deadline)
      fun result ↦ ?_
    cases result with
    | ok response => exact Allowance.affords_pure (Nat.zero_le _)
    | error failure =>
      refine earns_bind 5 (works_evaluateRetry driver.retryPolicy attempt failure deadline.instant)
        (fun delay ↦ ?_) le_rfl
      cases delay with
      | none => exact Allowance.affords_pure (Nat.zero_le _)
      | some delay =>
        refine earns_bind 3 (works_waitForRetry hawait deadline delay failure.error)
          (fun waited ↦ ?_) le_rfl
        cases waited with
        | error failure => exact Allowance.affords_pure (Nat.zero_le _)
        | ok _ => exact Allowance.affords_pure le_rfl

theorem works_runDetailed (driver : ModelDriver) (request : ModelRequest)
    (context : ModelCallContext) :
    Works init 6 (driver.runDetailed awaiter request context) := by
  refine earns_plain fun deadline ↦ ?_
  cases deadline with
  | none => exact works_pure _
  | some deadline =>
    refine earns_bind 3 (works_precheck deadline) (fun checked ↦ ?_) le_rfl
    cases checked with
    | error failure => exact works_pure _
    | ok _ =>
      dsimp only
      split
      · exact works_pure _
      · exact works_iterate 0 (earns_attemptRound hawait driver request context deadline)

end Driver

theorem works_runModel [SerdeJson] (requestIndex : Nat) (snapshot : ExecutionConfig)
    (request : ModelRequest) (deadline : Nat) :
    Works init 10 (runModel ctx requestIndex snapshot request deadline) := by
  refine earns_plain fun _ ↦ earns_bind 3 (works_runDetailed (works_drainProgress requestIndex)
    (modelDriver ctx snapshot) request _) (fun result ↦ ?_) le_rfl
  refine earns_plain fun dropped ↦ earns_plain fun _ ↦ ?_
  exact earns_bind 0 (works_drainProgress requestIndex) (fun _ ↦ works_pure _) le_rfl

theorem works_mapModelFailure (failure : ModelDriverFailure) :
    Works init 1 (mapModelFailure failure) := by
  refine earns_plain fun cancelled ↦ ?_
  split
  · exact works_pure _
  · split
    · exact works_pure _
    · split <;> exact works_pure _

/-! ## Rounds -/

theorem works_appendInputs (inputs : List UserInput) :
    Works init inputs.length (appendInputs ctx inputs) := by
  induction inputs with
  | nil => exact works_pure _
  | cons input inputs ih => exact earns_plain fun _ ↦ ih

/-- What a boundary leaves: where something was taken, the work of preparing the prompt again. -/
def rebuildWork (taken : Bool) : Nat := if taken then 18 else 0

theorem earns_takeBoundary (pinned : Bool) (config : ExecutionConfig) (candidate : Option Nat) :
    Earns init 2 (takeBoundary ctx pinned config candidate) fun boundary ↦
      rebuildWork boundary.taken := by
  have hinputs : ∀ {k : Nat} (boundary : List UserInput → Boundary),
      (∀ inputs, rebuildWork (boundary inputs).taken ≤ rebuildWork (!inputs.isEmpty) + k) →
      Earns init (k + 1) ((perform .takeInputs).bind fun inputs ↦
        (appendInputs ctx inputs).bind fun _ ↦ Prog.pure (boundary inputs))
        fun boundary ↦ rebuildWork boundary.taken := by
    intro k boundary hleft
    refine earns_op fun inputs ↦ ?_
    refine earns_bind (rebuildWork (!inputs.isEmpty) + k) (works_appendInputs inputs)
      (fun _ ↦ Allowance.affords_pure (hleft inputs)) ?_
    show _ ≤ k + (inputs.length + if inputs.isEmpty then 0 else 18)
    unfold rebuildWork
    cases inputs.isEmpty <;> simp <;> omega
  refine earns_op (n := 1) fun pending ↦ ?_
  cases pending with
  | none => exact hinputs (k := 0) _ fun inputs ↦ le_rfl
  | some pending =>
    have htaken : Earns init 19 _ _ :=
      hinputs (k := 18) (fun _ ↦ ⟨true, pending.config, some pending.revision⟩)
        fun inputs ↦ Nat.le_add_left 18 _
    -- A configuration that nothing else holds is dropped here.
    cases pinned with
    | true => exact Allowance.affords_mono htaken (Nat.le_succ 19) fun _ ↦ le_rfl
    | false => exact earns_plain (o := .dropConfig config) fun _ ↦ htaken

/-- What a round leaves for the next. -/
def nextRound (x : Locals ⊕ Ending) : Nat := x.elim (fun _ ↦ 17) fun _ ↦ 0

theorem earns_break (locals : Locals) (path : FailPath) :
    Earns init n (Prog.pure (locals.break path)) nextRound :=
  Allowance.affords_pure (Nat.zero_le n)

theorem earns_runCalls (snapshot : ExecutionConfig) (locals : Locals) (calls : List ToolCall) :
    Earns init (49 * calls.length + 19) (runCalls ctx snapshot locals calls) nextRound := by
  unfold runCalls
  split
  · exact earns_bind 0 (works_settleCalls locals.requestIndex _ _ calls)
      (fun _ ↦ earns_break _ _) (by omega)
  · refine earns_publish _ ?_
    refine earns_bind 17 (works_runToolBatch locals.requestIndex snapshot calls)
      (fun path ↦ ?_) le_rfl
    cases path with
    | some path => exact earns_break _ path
    | none => exact Allowance.affords_pure le_rfl

/-- What follows a response. Its calls are paid for when it enters the history. -/
theorem earns_handleResponse (snapshot : ExecutionConfig) (locals : Locals)
    (response : ModelResponse) :
    Earns init 20 (handleResponse ctx snapshot locals response) nextRound := by
  unfold handleResponse
  split
  · exact earns_break _ _
  · dsimp only
    split
    · split
      · exact earns_break _ _
      · refine earns_plain fun _ ↦ ?_
        split
        · exact earns_plain fun _ ↦ Allowance.affords_pure (Nat.zero_le _)
        · exact earns_break _ _
    · refine earns_op (n := 19) fun _ ↦ ?_
      refine Allowance.affords_mono (earns_runCalls snapshot _ _) ?_ fun _ ↦ le_rfl
      exact (Nat.add_comm _ _).le

variable [SerdeJson]

theorem earns_issueRequest (snapshot : ExecutionConfig) (locals : Locals)
    (request : ModelRequest) :
    Earns init 1 (issueRequest ctx snapshot locals request) nextRound := by
  refine earns_op (n := 0) fun _ ↦ earns_plain (n := 33) fun _ ↦ earns_publish _ ?_
  refine earns_turnDeadline _ fun deadline ↦ ?_
  refine earns_bind 20 (works_runModel locals.requestIndex snapshot request deadline)
    (fun result ↦ ?_) le_rfl
  cases result with
  | error failure =>
    exact earns_bind 0 (works_mapModelFailure failure) (fun path ↦ earns_break _ path) (by decide)
  | ok response => exact earns_handleResponse snapshot _ response

/-- A request that is prepared. What makes the prompt stale pays for the next round. -/
theorem earns_prepareRequest (locals : Locals) :
    Earns init 13 (prepareRequest ctx locals) nextRound := by
  have hprompt : ∀ view deadline, Works init 6
      (preparePrompt ctx locals.requestIndex locals.config view deadline) := by
    intro view deadline
    have hcall : Works init 6 (runPortCall (pure ()) deadline ctx.options.promptTimeout
        fun instant ↦ .prepare locals.config.prompt
          (promptRequest ctx locals.requestIndex locals.config view instant)) :=
      works_runPortCall (works_pure ()) _ _ _
    exact Allowance.affords_bind hcall fun outcome ↦ works_pure _
  refine earns_publish _ (earns_plain fun view ↦ earns_turnDeadline _ fun deadline ↦ ?_)
  refine earns_bind 3 (hprompt view deadline) (fun prep ↦ ?_) le_rfl
  -- Three operations are left after the prompt, or what the boundary earned.
  cases prep with
  | stop path => exact earns_break _ path
  | ready messages =>
    refine Allowance.affords_bind (Allowance.affords_frame
      (earns_takeBoundary true locals.config locals.candidateRevision) 1) fun boundary ↦ ?_
    dsimp only
    split
    · rename_i htaken
      rw [htaken]
      exact earns_plain (n := 18) fun _ ↦ Allowance.affords_pure (Nat.le_succ 17)
    · refine Allowance.affords_mono (a := 1) ?_ (Nat.le_add_left 1 _) fun _ ↦ le_rfl
      split
      · exact earns_break _ _
      · exact earns_issueRequest locals.config _ _

theorem earns_requestRound (locals : Locals) :
    Earns init 17 (requestRound ctx locals) nextRound := by
  refine earns_plain fun cancelled ↦ ?_
  split
  · exact earns_break _ _
  have hpast : Works init 1 (pastDeadline ctx.options.deadline) := by
    unfold pastDeadline
    split
    · exact works_pure _
    · exact earns_plain fun now ↦ works_pure _
  refine earns_bind 15 hpast (fun past ↦ ?_) le_rfl
  split
  · exact earns_break _ _
  refine Allowance.affords_bind (Allowance.affords_frame
    (earns_takeBoundary false locals.config locals.candidateRevision) 13) fun boundary ↦ ?_
  refine Allowance.affords_mono (earns_prepareRequest _) (Nat.le_add_left 13 _) fun _ ↦ le_rfl

/-! ## The report -/

omit [SerdeJson] in
theorem works_finishOnce : Works init 3 finishOnce := by
  refine earns_plain fun finish ↦ ?_
  have hclose : Works init 1 ((perform .closeAccepting).bind fun discarded ↦
      Prog.pure (finish, discarded)) := earns_plain fun _ ↦ works_pure _
  cases finish with
  | cancelledPrior source => exact earns_plain (o := .sealCancelled source) fun _ ↦ hclose
  | _ => exact works_mono hclose (by decide)

omit [SerdeJson] in
theorem works_publishedReport : Works init 1 publishedReport := by
  refine earns_plain fun report ↦ ?_
  cases report with
  | some report => exact works_pure _
  | none => exact Allowance.affords_panic

omit [SerdeJson] in
theorem works_deliverReport (ending : Ending) (revision : Nat) (outcome : LoopOutcome)
    (discarded : Option ExecutionConfig) :
    Works init 11 (deliverReport ctx ending revision outcome discarded) := by
  have hstates : Works init 6
      (publishFinalStates ctx (ending.locals.lastIssuedRequestIndex.getD 0) revision) :=
    earns_plain fun state ↦ earns_publish _ (earns_plain fun state ↦
      earns_plain fun _ ↦ works_last _)
  refine earns_plain fun appended ↦ earns_bind 4 hstates (fun _ ↦ ?_) le_rfl
  refine earns_plain fun _ ↦ earns_plain fun _ ↦ earns_plain fun _ ↦ ?_
  exact earns_bind 0 (works_dropConfig discarded) (fun _ ↦ works_pure _) le_rfl

omit [SerdeJson] in
theorem works_finishLoop (ending : Ending) : Works init 16 (finishLoop ctx ending) := by
  have houtcome : Works init 1 (outcomeFor ending.path) := by
    unfold outcomeFor
    split
    · exact works_pure _
    · exact earns_plain fun _ ↦ works_pure _
    all_goals exact works_pure _
  refine earns_plain fun revision ↦ earns_bind 14 houtcome (fun intended ↦ ?_) le_rfl
  refine earns_bind 11 works_finishOnce ?_ le_rfl
  rintro ⟨finish, discarded⟩
  cases finish with
  | clean => exact works_deliverReport ending revision intended discarded
  | cancelledPrior source => exact works_deliverReport ending revision _ discarded
  | alreadyFinished => exact works_mono works_publishedReport (by decide)

omit [SerdeJson] in
theorem works_panicReport (id : LoopId) : Works init 7 (panicReport id) := by
  refine earns_bind 4 works_finishOnce ?_ le_rfl
  rintro ⟨finish, discarded⟩
  have hdeliver : ∀ report : LoopReport, Works init 4
      ((perform (.publishState (.new id .finished 0 ConfigRevision.initial))).bind fun _ ↦
        (perform (.sendReport report)).bind fun _ ↦ (perform .cancelToken).bind fun _ ↦
          (dropConfig discarded).bind fun _ ↦ .pure report) := by
    refine fun report ↦ earns_plain fun _ ↦ earns_plain fun _ ↦ earns_plain fun _ ↦ ?_
    exact earns_bind 0 (works_dropConfig discarded) (fun _ ↦ works_pure _) le_rfl
  cases finish with
  | clean => exact hdeliver _
  | cancelledPrior source => exact hdeliver _
  | alreadyFinished => exact works_mono works_publishedReport (by decide)

theorem works_runLoopInner (request : LoopRequest) :
    Works init 37 (runLoopInner ctx request) := by
  refine earns_plain fun _ ↦ earns_plain fun _ ↦ ?_
  refine earns_bind 18 (works_iterate (.start request.config) earns_requestRound)
    (fun ending ↦ ?_) le_rfl
  refine earns_bind 2 (works_finishLoop ending) (fun report ↦ ?_) le_rfl
  refine earns_bind 1 (works_dropConfig ending.discardedConfig) (fun _ ↦ ?_) le_rfl
  exact earns_plain fun _ ↦ works_pure _

/-- The task of a loop. The report of a runner that unwound is paid for beforehand. -/
theorem works_runLoop (request : LoopRequest) : Works init 44 (runLoop ctx request) := by
  have hcaught : Earns init 44 (Prog.catching (runLoopInner ctx request))
      fun report ↦ if report.isSome then 0 else 7 := by
    refine Allowance.affords_catchUnwind_reserve (a := 37) (b := 7)
      (works_runLoopInner request) ?_ ?_
    · exact fun report ↦ Allowance.affords_pure (Nat.zero_le _)
    · exact Allowance.affords_pure le_rfl
  refine Allowance.affords_bind hcaught fun report ↦ ?_
  cases report with
  | some report => exact works_pure _
  | none => exact works_panicReport ctx.id

end Programs

/-! ## Runs -/

/-- The work that came from outside in a log. -/
def stimuliIn (log : List Record) : Nat :=
  ((traceOf log).map fun entry ↦ entry.op.stimulus entry.answer).sum

/-- The work for one request: its own, that of its attempts, and that of the calls of its response.
-/
def LoopOptions.effort (options : LoopOptions) : Nat :=
  34 + 9 * options.modelRetryAttempts + 49 * options.limits.maxToolCallsPerResponse

theorem spent_eq_length (trace : List (Entry interface Nat)) :
    workAllowance.spent trace = trace.length := by
  induction trace with
  | nil => rfl
  | cons entry trace ih => exact congrArg (· + 1) ih

/-- A wage is paid for a request, a start, the calls of a response, or what came from outside. -/
theorem Op.wage_eq (limits : LoopLimits) (o : Op) (r : o.Answer) :
    o.wage r = 34 * o.cost limits .request + 9 * o.cost limits .start +
      49 * o.cost limits .call + o.stimulus r := by
  cases o with
  | append item =>
    show 49 * item.calls = 34 * 0 + 9 * 0 + 49 * item.calls + 0
    omega
  | @makeFuture port call => cases port <;> rfl
  | _ => exact (Nat.zero_add _).symm

theorem granted_eq (limits : LoopLimits) (log : List Record) :
    workAllowance.granted (traceOf log) =
      34 * costIn limits log .request + 9 * costIn limits log .start +
        49 * costIn limits log .call + stimuliIn log := by
  unfold costIn stimuliIn
  induction traceOf log with
  | nil => rfl
  | cons entry trace ih =>
    have hwage := entry.op.wage_eq limits entry.answer
    simp only [List.map_cons, List.sum_cons]
    show workAllowance.granted trace + entry.op.wage entry.answer = _
    omega

/-- Every operation of a run is paid for. -/
theorem task_works [SerdeJson] (setup : Setup) (clock : Nat) (schedule : List Turn) :
    let log := (setup.task clock schedule).2.log
    (traceOf log).length ≤ 44 + workAllowance.granted (traceOf log) := by
  intro log
  have hworks : Works 44 44 (runLoop setup.ctx setup.request) := works_runLoop setup.request
  have hwp := hworks 0 ⟨44, 0⟩ (show 0 + (44 + 0) ≤ 44 by decide)
  have hrun := Monitor.exec_sound _ machine (World.honours_of_expects fun _ _ _ _ ↦ trivial)
    (runLoop setup.ctx setup.request)
    (w := .start setup.ctx.id setup.ctx.options setup.request.history clock schedule)
    trivial trivial hwp
  have hspent := Allowance.spent_le hrun.2.1
  rwa [spent_eq_length] at hspent

/-- The work of a run is bounded by its options and by what comes from outside: for each request the
runner performs a bounded number of operations, besides those that are caused by events, reports,
inputs, configurations and polls that have to be made again. With a round limit the requests are
bounded too, so that a run ends once nothing comes any more; if it has not, it is because the world
has no more answers. -/
theorem work_bounded [SerdeJson] (setup : Setup) (now : Nat)
    (hvalid : setup.ctx.options.validate now = true) (clock : Nat) (schedule : List Turn) :
    let run := setup.task clock schedule
    let requests := costIn setup.ctx.options.limits run.2.log .request
    (traceOf run.2.log).length ≤
        44 + setup.ctx.options.effort * requests + stimuliIn run.2.log ∧
      (setup.ctx.options.maxToolRounds ≠ 0 → (traceOf run.2.log).length ≤
        44 + setup.ctx.options.effort * (setup.ctx.options.maxToolRounds + 1) +
          stimuliIn run.2.log) ∧
      (run.1 = .stalled → run.2.schedule = []) := by
  intro run requests
  have hstarted := started_of_validate hvalid
  have hzero :
      ∀ trace : List (Entry interface Nat), (trace.map fun _ ↦ (0 : Nat)).sum = 0 := by simp
  have hscaled : ∀ {e d : Expense} (n : Nat), (∀ (o : Op) (r : o.Answer),
        o.grant setup.ctx.options r e = n * o.cost setup.ctx.options.limits d) →
      costIn setup.ctx.options.limits run.2.log e ≤
        startPurse setup.ctx.options setup.request.input e +
          n * costIn setup.ctx.options.limits run.2.log d := by
    intro e d n h
    have hle := task_bounded setup hstarted clock schedule n (fun _ _ ↦ 0) h
    rwa [hzero] at hle
  -- Starts and calls are limited for each request, and requests by the round limit.
  have hstarts : costIn setup.ctx.options.limits run.2.log .start ≤
      setup.ctx.options.modelRetryAttempts * requests :=
    (hscaled _ fun _ _ ↦ rfl).trans_eq (Nat.zero_add _)
  have hcalls : costIn setup.ctx.options.limits run.2.log .call ≤
      setup.ctx.options.limits.maxToolCallsPerResponse * requests :=
    (hscaled _ fun _ _ ↦ rfl).trans_eq (Nat.zero_add _)
  have hwork : (traceOf run.2.log).length ≤
      44 + setup.ctx.options.effort * requests + stimuliIn run.2.log := by
    calc
      (traceOf run.2.log).length ≤ 44 + workAllowance.granted (traceOf run.2.log) :=
        task_works setup clock schedule
      _ = 44 + (34 * requests + 9 * costIn setup.ctx.options.limits run.2.log .start +
            49 * costIn setup.ctx.options.limits run.2.log .call + stimuliIn run.2.log) :=
        congrArg _ (granted_eq setup.ctx.options.limits run.2.log)
      _ ≤ 44 + (34 * requests + 9 * (setup.ctx.options.modelRetryAttempts * requests) +
            49 * (setup.ctx.options.limits.maxToolCallsPerResponse * requests) +
              stimuliIn run.2.log) := by gcongr
      _ = _ := by
        rw [LoopOptions.effort, Nat.add_mul, Nat.add_mul, Nat.mul_assoc, Nat.mul_assoc]
        omega
  refine ⟨hwork, fun hlimit ↦ hwork.trans ?_, task_stalls setup clock schedule⟩
  have hrequests : requests ≤ setup.ctx.options.maxToolRounds + 1 := by
    refine (hscaled (e := .request) (d := .request) 0 fun o r ↦
      (if_neg hlimit).trans (Nat.zero_mul _).symm).trans_eq ?_
    show 0 + (if setup.ctx.options.maxToolRounds = 0 then 1 else _) + _ * 0 + 0 * requests = _
    rw [if_neg hlimit]
    omega
  gcongr

/-- The sample performs 83 operations. -/
theorem work_bounded_sample :
    (traceOf (Sample.limited.task 0 Sample.schedule).2.log).length = 83 ∧
      (traceOf (Sample.limited.task 0 Sample.schedule).2.log).length ≤
        44 + Sample.limited.ctx.options.effort * (Sample.limited.ctx.options.maxToolRounds + 1) +
          stimuliIn (Sample.limited.task 0 Sample.schedule).2.log := by
  have hlength : (traceOf (Sample.limited.task 0 Sample.schedule).2.log).length = 83 := by
    decide +kernel
  exact ⟨hlength, (work_bounded Sample.limited 0 (by decide) 0 Sample.schedule).2.1 (by decide)⟩

end MinicoreRuntime
