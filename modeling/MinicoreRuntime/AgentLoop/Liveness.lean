import MinicoreRuntime.AgentLoop.Completion
import MinicoreRuntime.Interactive.Guarded

/-!
# Liveness

The task of a loop never gets stuck by itself: all its loops are guarded, and whatever it waits for
is asked of the world. A run of it ends unless the world has nothing more to answer.

## Main results

* `machine_wanes`: every operation uses up one turn of the schedule.
* `guarded_runLoop`: the loops of the task are guarded.
* `task_stalls`: a run stalls only where its schedule is used up.
-/

namespace MinicoreRuntime

open Interactive

/-! ## The machine -/

namespace World

/-- Other threads leave the schedule alone. -/
theorem hostStep_schedule (w : World) (s : HostStep) : (w.hostStep s).schedule = w.schedule := by
  have heffect := w.hostEffect s
  generalize w.hostStep s = w' at heffect ⊢
  cases heffect <;> rfl

theorem hostSteps_schedule (w : World) (steps : List HostStep) :
    (w.hostSteps steps).schedule = w.schedule := by
  induction steps generalizing w with
  | nil => rfl
  | cons s steps ih => exact (ih (w.hostStep s)).trans (w.hostStep_schedule s)

theorem effect_schedule (w : World) (o : Op) : (w.effect o).schedule = w.schedule := by
  unfold effect
  split <;> first | rfl | (split <;> rfl)

theorem advance_schedule (w : World) (turn : Turn) (rest : List Turn) (o : Op) :
    (w.advance turn rest o).schedule = rest := by
  have hhost := hostSteps_schedule { w with schedule := rest } turn.host
  unfold advance
  split
  · exact hhost
  · exact hhost

/-- An operation uses up one turn of the schedule. -/
theorem step_schedule {w w' : World} {o : Op} {out : Outcome o.Answer}
    (h : w.step o = (out, w')) (hout : out ≠ .stalled) :
    w'.schedule.length < w.schedule.length := by
  cases out with
  | returned r =>
    obtain ⟨turn, rest, hschedule, -, rfl⟩ := step_returned h
    show (effect _ _).schedule.length < _
    rw [effect_schedule, advance_schedule, hschedule]
    exact Nat.lt_succ_self _
  | panicked =>
    obtain ⟨turn, rest, hschedule, -, rfl⟩ := step_panicked h
    rw [effect_schedule, advance_schedule, hschedule]
    exact Nat.lt_succ_self _
  | stalled => exact absurd rfl hout

end World

/-- The machine has one answer for every turn of its schedule. -/
theorem machine_wanes : machine.Wanes fun w : World ↦ w.schedule.length where
  fuel w := Nat.lt_succ_self _
  returned h := World.step_schedule h (by simp)
  panicked h := World.step_schedule h (by simp)
  stalled h := by
    obtain ⟨hschedule, rfl⟩ := World.step_stalled h
    have hnone := congrArg List.length hschedule
    exact ⟨hnone, hnone⟩

/-! ## Guarded loops -/

section Shared

theorem guarded_turnDeadline (deadline : Option Nat) : (turnDeadline deadline).Guarded := by
  unfold turnDeadline
  -- What is added to the clock plays no part, and must not be evaluated.
  generalize loopHorizon = horizon
  split
  · exact Prog.guarded_pure _
  · refine Prog.guarded_op fun now ↦ ?_
    split
    · exact Prog.guarded_pure _
    · exact Prog.guarded_panic

theorem guarded_publish (state : LoopState) : (publish state).Guarded := fun _ _ ↦ trivial

theorem guarded_dropConfig (config : Option ExecutionConfig) : (dropConfig config).Guarded := by
  cases config with
  | none => trivial
  | some config => exact ⟨fun _ ↦ trivial, fun _ ↦ trivial⟩

theorem guarded_runPortCall {port : Port} {awaiter : Action Unit} (hawait : awaiter.Guarded)
    (turnDeadline timeout : Nat) (make : Nat → PortCall port) :
    (runPortCall awaiter turnDeadline timeout make).Guarded := by
  refine Prog.guarded_op fun cancelled ↦ ?_
  split
  · trivial
  refine Prog.guarded_op fun deadline ↦ ?_
  cases deadline with
  | none => trivial
  | some deadline =>
    refine Prog.guarded_op fun now ↦ ?_
    split
    · trivial
    refine Prog.guarded_op fun made ↦ ?_
    split
    · -- The wait for the port: every turn of the loop yields first.
      refine Prog.guarded_bind
        (Prog.guarded_iterate fun _ ↦ ⟨trivial, Prog.guarded_op fun polled ↦ ?_⟩) ?_
      · cases polled with
        | pending => exact Prog.guarded_bind hawait fun _ ↦ trivial
        | _ => trivial
      · exact fun outcome _ ↦ trivial
    · trivial

theorem guarded_drainProgress (ctx : LoopCtx) (requestIndex : Nat) :
    (drainProgress ctx requestIndex).Guarded := by
  refine Prog.guarded_iterate fun _ ↦ ⟨trivial, Prog.guarded_op fun received ↦ ?_⟩
  cases received with
  | none => trivial
  | some value => exact fun _ _ _ ↦ trivial

theorem guarded_forwardToolProgress (ctx : LoopCtx) (requestIndex : Nat) :
    (forwardToolProgress ctx requestIndex).Guarded := by
  refine Prog.guarded_op fun received ↦ ?_
  cases received with
  | none => trivial
  | some received => exact fun _ _ _ ↦ trivial

end Shared

section Driver

theorem guarded_precheck (deadline : EffectiveDeadline) : (precheck deadline).Guarded := by
  refine Prog.guarded_op fun cancelled ↦ ?_
  split
  · trivial
  · refine Prog.guarded_op fun now ↦ ?_
    split <;> trivial

theorem guarded_evaluateRetry (policy : RetryPolicySnapshot) (attempt : Nat)
    (failure : AttemptFailure) (deadline : Nat) :
    (policy.evaluateRetry attempt failure deadline).Guarded := by
  unfold RetryPolicySnapshot.evaluateRetry
  split
  · trivial
  split
  · trivial
  split
  · trivial
  refine Prog.guarded_bind (fun _ ↦ trivial) fun fits ↦ ?_
  split <;> trivial

variable {awaiter : Action Unit} (hawait : awaiter.Guarded)
include hawait

theorem guarded_waitForRetry (deadline : EffectiveDeadline) (delay : Nat) (error : ModelError) :
    (waitForRetry awaiter deadline delay error).Guarded := by
  refine Prog.guarded_op fun now ↦ ?_
  split
  · trivial
  refine Prog.guarded_iterate fun _ ↦ ⟨trivial, Prog.guarded_op fun polled ↦ ?_⟩
  cases polled with
  | panicked => exact Prog.guarded_bind hawait fun _ ↦ trivial
  | pending => exact Prog.guarded_bind hawait fun _ ↦ trivial
  | _ => trivial

variable [SerdeJson]

theorem guarded_readStream (driver : ModelDriver) (request : ModelRequest)
    (deadline : EffectiveDeadline) (started : Except AttemptFailure Unit) :
    (ModelDriver.readStream awaiter driver request deadline started).Guarded := by
  cases started with
  | error failure => trivial
  | ok u =>
    refine Prog.guarded_iterate fun assembler ↦ ⟨trivial, Prog.guarded_op fun polled ↦ ?_⟩
    rcases polled with - | - | (- | (error | event)) | - | -
    · trivial
    · trivial
    · dsimp only
      split <;> trivial
    · trivial
    · dsimp only
      split
      · trivial
      · trivial
      · exact Prog.guarded_op fun _ ↦ Prog.guarded_bind hawait fun _ ↦ trivial
    · trivial
    · exact Prog.guarded_bind hawait fun _ ↦ trivial

theorem guarded_runAttempt (driver : ModelDriver) (request : ModelRequest)
    (context : ModelCallContext) (deadline : EffectiveDeadline) :
    (driver.runAttempt awaiter request context deadline).Guarded := by
  refine Prog.guarded_op fun started ↦ ?_
  split
  · refine Prog.guarded_bind
      (Prog.guarded_iterate fun _ ↦ ⟨trivial, Prog.guarded_op fun polled ↦ ?_⟩) fun stream ↦ ?_
    · cases polled with
      | pending => exact Prog.guarded_bind hawait fun _ ↦ trivial
      | ready result => cases result <;> trivial
      | _ => trivial
    · refine Prog.guarded_bind ?_ fun result _ ↦ trivial
      exact guarded_readStream hawait driver request deadline stream
  · trivial

theorem guarded_runDetailed (driver : ModelDriver) (request : ModelRequest)
    (context : ModelCallContext) : (driver.runDetailed awaiter request context).Guarded := by
  refine Prog.guarded_op fun deadline ↦ ?_
  cases deadline with
  | none => trivial
  | some deadline =>
    refine Prog.guarded_bind (guarded_precheck deadline) fun checked ↦ ?_
    cases checked with
    | error failure => trivial
    | ok u =>
      dsimp only
      split
      · trivial
      -- Every attempt begins with a look at the token.
      refine Prog.guarded_iterate fun attempt ↦ ⟨trivial, ?_⟩
      refine Prog.guarded_bind (guarded_precheck deadline) fun checked ↦ ?_
      cases checked with
      | error failure => trivial
      | ok u =>
        refine Prog.guarded_bind (guarded_runAttempt hawait driver request context deadline) ?_
        intro result
        cases result with
        | ok response => trivial
        | error failure =>
          refine Prog.guarded_bind (guarded_evaluateRetry _ attempt failure _) fun delay ↦ ?_
          cases delay with
          | none => trivial
          | some delay =>
            refine Prog.guarded_bind (guarded_waitForRetry hawait deadline delay _) fun waited ↦ ?_
            cases waited <;> trivial

end Driver

section Calls

variable (ctx : LoopCtx)

theorem guarded_runToolPort (requestIndex : Nat) (invocation : ToolInvocation)
    (implementation : ToolHandle) (deadline : Nat) :
    (runToolPort ctx requestIndex invocation implementation deadline).Guarded := by
  have hforward := guarded_forwardToolProgress ctx requestIndex
  refine Prog.guarded_op fun _ ↦ Prog.guarded_bind (guarded_runPortCall ?_ _ _ _) fun outcome ↦ ?_
  · exact Prog.guarded_bind hforward fun _ ↦ trivial
  · refine Prog.guarded_op fun dropped ↦ Prog.guarded_op fun _ ↦ ?_
    exact Prog.guarded_bind (Prog.guarded_iterate fun _ ↦ ⟨trivial, hforward⟩) fun _ _ ↦ trivial

theorem guarded_askHost (invocation : ToolInvocation) (kind : InteractionKind) :
    (askHost ctx invocation kind).Guarded := by
  refine Prog.guarded_op fun id ↦ ?_
  cases id with
  | none => trivial
  | some id =>
    refine Prog.guarded_op fun channel ↦ Prog.guarded_op fun set ↦ ?_
    cases set with
    | false => trivial
    | true =>
      refine Prog.guarded_op fun waiting ↦ Prog.guarded_bind (guarded_publish _) fun _ ↦ ?_
      refine Prog.guarded_op fun _ ↦ ?_
      refine Prog.guarded_bind
        (Prog.guarded_iterate fun _ ↦ ⟨trivial, Prog.guarded_op fun polled ↦ ?_⟩) ?_
      · rcases polled with - | - | (- | answer) | - | - <;> trivial
      · intro answer
        cases answer with
        | error path => exact fun _ ↦ trivial
        | ok answer => exact fun _ _ _ _ _ ↦ trivial

theorem guarded_deniedResult (requestIndex : Nat) (invocation : ToolInvocation)
    (reason : Option BoundedText) : (deniedResult ctx requestIndex invocation reason).Guarded := by
  unfold deniedResult
  split <;> trivial

theorem guarded_executeTool (requestIndex : Nat) (invocation : ToolInvocation)
    (enabled : EnabledTool) : (executeTool ctx requestIndex invocation enabled).Guarded := by
  refine Prog.guarded_bind (guarded_turnDeadline _) fun deadline ↦ ?_
  refine Prog.guarded_bind (guarded_runToolPort ctx _ _ _ _) fun tool ↦ ?_
  cases tool with
  | requestInput request =>
    refine Prog.guarded_bind (guarded_askHost ctx invocation _) fun answer ↦ ?_
    rcases answer with path | decision | answer
    · trivial
    · trivial
    · dsimp only
      split <;> trivial
  | _ => trivial

theorem guarded_runToolCall (requestIndex : Nat) (invocation : ToolInvocation)
    (enabled : EnabledTool) (policy : Option PolicyHandle) :
    (runToolCall ctx requestIndex invocation enabled policy).Guarded := by
  have hpolicy : ∀ deadline,
      (decidePolicy ctx policy invocation enabled.spec deadline).Guarded := by
    intro deadline
    cases policy with
    | none => trivial
    | some policy =>
      exact Prog.guarded_bind (guarded_runPortCall (Prog.guarded_pure ()) _ _ _) fun _ ↦ trivial
  refine Prog.guarded_bind (guarded_turnDeadline _) fun deadline ↦ ?_
  refine Prog.guarded_bind (hpolicy deadline) fun step ↦ ?_
  cases step with
  | allow => exact guarded_executeTool ctx requestIndex invocation enabled
  | denied reason => exact guarded_deniedResult ctx requestIndex invocation reason
  | requireApproval request =>
    refine Prog.guarded_bind (guarded_askHost ctx invocation _) fun answer ↦ ?_
    rcases answer with path | (- | -) | answer
    · trivial
    · exact guarded_executeTool ctx requestIndex invocation enabled
    · exact guarded_deniedResult ctx requestIndex invocation none
    · trivial
  | _ => trivial

theorem guarded_settleCalls (requestIndex : Nat) (outcome : ToolResultOutcome)
    (message : ToolOutput) (calls : List ToolCall) :
    (settleCalls ctx requestIndex outcome message calls).Guarded := by
  induction calls with
  | nil => trivial
  | cons call calls ih => exact Prog.guarded_op fun _ ↦ ih

theorem guarded_runToolBatch (requestIndex : Nat) (snapshot : ExecutionConfig)
    (calls : List ToolCall) : (runToolBatch ctx requestIndex snapshot calls).Guarded := by
  induction calls with
  | nil => trivial
  | cons call calls ih =>
    have hstep : (batchStep ctx requestIndex snapshot call).Guarded := by
      refine Prog.guarded_op fun cancelled ↦ ?_
      split
      · trivial
      · split
        · trivial
        · exact Prog.guarded_op fun _ ↦ guarded_runToolCall ctx _ _ _ _
    refine Prog.guarded_bind hstep fun step ↦ ?_
    cases step with
    | result result => exact Prog.guarded_op fun _ ↦ Prog.guarded_op fun _ ↦ ih
    | stop path => exact Prog.guarded_bind (guarded_settleCalls ctx _ _ _ _) fun _ ↦ trivial

end Calls

section Rounds

variable (ctx : LoopCtx)

theorem guarded_takeBoundary (pinned : Bool) (config : ExecutionConfig) (candidate : Option Nat) :
    (takeBoundary ctx pinned config candidate).Guarded := by
  have happend : ∀ inputs, (appendInputs ctx inputs).Guarded := by
    intro inputs
    induction inputs with
    | nil => trivial
    | cons input inputs ih => exact Prog.guarded_op fun _ ↦ ih
  have hinputs : ∀ f : List UserInput → Boundary, ((perform .takeInputs).bind fun inputs ↦
      (appendInputs ctx inputs).bind fun _ ↦ Prog.pure (f inputs)).Guarded :=
    fun f ↦ Prog.guarded_op fun inputs ↦ Prog.guarded_bind (happend inputs) fun _ ↦ trivial
  refine Prog.guarded_op fun pending ↦ ?_
  cases pending with
  | none => exact hinputs _
  | some pending =>
    cases pinned with
    | true => exact hinputs fun _ ↦ ⟨true, pending.config, some pending.revision⟩
    | false => exact fun _ ↦ hinputs fun _ ↦ ⟨true, pending.config, some pending.revision⟩

theorem guarded_handleResponse (snapshot : ExecutionConfig) (locals : Locals)
    (response : ModelResponse) : (handleResponse ctx snapshot locals response).Guarded := by
  unfold handleResponse
  split
  · trivial
  dsimp only
  split
  · split
    · trivial
    · refine Prog.guarded_op fun _ ↦ ?_
      split
      · exact fun _ ↦ trivial
      · trivial
  · refine Prog.guarded_op fun _ ↦ ?_
    unfold runCalls
    split
    · exact Prog.guarded_bind (guarded_settleCalls ctx _ _ _ _) fun _ ↦ trivial
    · refine Prog.guarded_bind (guarded_publish _) fun _ ↦ ?_
      refine Prog.guarded_bind (guarded_runToolBatch ctx _ _ _) fun path ↦ ?_
      cases path <;> trivial

variable [SerdeJson]

theorem guarded_issueRequest (snapshot : ExecutionConfig) (locals : Locals)
    (request : ModelRequest) : (issueRequest ctx snapshot locals request).Guarded := by
  refine Prog.guarded_op fun _ ↦ Prog.guarded_op fun _ ↦ ?_
  refine Prog.guarded_bind (guarded_publish _) fun _ ↦ ?_
  refine Prog.guarded_bind (guarded_turnDeadline _) fun deadline ↦ ?_
  have hmodel : ∀ requestIndex,
      (runModel ctx requestIndex snapshot request deadline).Guarded := by
    intro requestIndex
    have hdrain := guarded_drainProgress ctx requestIndex
    refine Prog.guarded_op fun _ ↦ Prog.guarded_bind (guarded_runDetailed hdrain _ _ _) ?_
    refine fun result ↦ Prog.guarded_op fun dropped ↦ Prog.guarded_op fun _ ↦ ?_
    exact Prog.guarded_bind hdrain fun _ ↦ trivial
  refine Prog.guarded_bind (hmodel _) fun result ↦ ?_
  cases result with
  | ok response => exact guarded_handleResponse ctx snapshot _ response
  | error failure =>
    refine Prog.guarded_bind (Prog.guarded_op fun cancelled ↦ ?_) fun _ ↦ trivial
    split
    · trivial
    · split
      · trivial
      · split <;> trivial

theorem guarded_prepareRequest (locals : Locals) : (prepareRequest ctx locals).Guarded := by
  refine Prog.guarded_bind (guarded_publish _) fun _ ↦ Prog.guarded_op fun view ↦ ?_
  refine Prog.guarded_bind (guarded_turnDeadline _) fun deadline ↦ ?_
  refine Prog.guarded_bind ?_ fun prep ↦ ?_
  · exact Prog.guarded_bind (guarded_runPortCall (Prog.guarded_pure ()) _ _ _) fun _ ↦ trivial
  cases prep with
  | stop path => trivial
  | ready messages =>
    refine Prog.guarded_bind (guarded_takeBoundary ctx _ _ _) fun boundary ↦ ?_
    dsimp only
    split
    · exact fun _ ↦ trivial
    · split
      · trivial
      · exact guarded_issueRequest ctx _ _ _

/-- A round of the loop of requests begins with a look at the token. -/
theorem guarded_requestRound (locals : Locals) :
    (requestRound ctx locals).Begins ∧ (requestRound ctx locals).Guarded := by
  refine ⟨trivial, Prog.guarded_op fun cancelled ↦ ?_⟩
  split
  · trivial
  refine Prog.guarded_bind ?_ fun past ↦ ?_
  · unfold pastDeadline
    split
    · trivial
    · exact fun _ ↦ trivial
  · split
    · trivial
    · exact Prog.guarded_bind (guarded_takeBoundary ctx _ _ _) fun boundary ↦
        guarded_prepareRequest ctx _

end Rounds

section Report

theorem guarded_finishOnce : finishOnce.Guarded := by
  refine Prog.guarded_op fun finish ↦ ?_
  cases finish with
  | cancelledPrior source => exact fun _ _ ↦ trivial
  | clean => exact fun _ ↦ trivial
  | alreadyFinished => exact fun _ ↦ trivial

theorem guarded_publishedReport : publishedReport.Guarded := by
  refine Prog.guarded_op fun report ↦ ?_
  cases report <;> trivial

theorem guarded_finishLoop (ctx : LoopCtx) (ending : Ending) :
    (finishLoop ctx ending).Guarded := by
  have hdeliver : ∀ revision outcome discarded,
      (deliverReport ctx ending revision outcome discarded).Guarded := by
    intro revision outcome discarded
    refine Prog.guarded_op fun appended ↦ Prog.guarded_bind ?_ fun _ ↦ Prog.guarded_op fun _ ↦ ?_
    · refine Prog.guarded_op fun _ ↦ Prog.guarded_bind (guarded_publish _) fun _ ↦ ?_
      exact Prog.guarded_op fun _ ↦ guarded_publish _
    · refine Prog.guarded_op fun _ ↦ Prog.guarded_op fun _ ↦ ?_
      exact Prog.guarded_bind (guarded_dropConfig discarded) fun _ ↦ trivial
  refine Prog.guarded_op fun revision ↦ Prog.guarded_bind ?_ fun intended ↦ ?_
  · cases ending.path with
    | cancelled => exact fun _ ↦ trivial
    | _ => trivial
  refine Prog.guarded_bind guarded_finishOnce ?_
  rintro ⟨finish, discarded⟩
  cases finish with
  | clean => exact hdeliver _ _ _
  | cancelledPrior source => exact hdeliver _ _ _
  | alreadyFinished => exact guarded_publishedReport

theorem guarded_panicReport (id : LoopId) : (panicReport id).Guarded := by
  refine Prog.guarded_bind guarded_finishOnce ?_
  rintro ⟨finish, discarded⟩
  have hdeliver : ∀ report : LoopReport,
      ((perform (.publishState (.new id .finished 0 ConfigRevision.initial))).bind fun _ ↦
        (perform (.sendReport report)).bind fun _ ↦ (perform .cancelToken).bind fun _ ↦
          (dropConfig discarded).bind fun _ ↦ Prog.pure report).Guarded := by
    refine fun report ↦ Prog.guarded_op fun _ ↦ Prog.guarded_op fun _ ↦ Prog.guarded_op fun _ ↦ ?_
    exact Prog.guarded_bind (guarded_dropConfig discarded) fun _ ↦ trivial
  cases finish with
  | clean => exact hdeliver _
  | cancelledPrior source => exact hdeliver _
  | alreadyFinished => exact guarded_publishedReport

end Report

/-- All loops of the task are guarded. -/
theorem guarded_runLoop [SerdeJson] (ctx : LoopCtx) (request : LoopRequest) :
    (runLoop ctx request).Guarded := by
  have hinner : (runLoopInner ctx request).Guarded := by
    refine Prog.guarded_op fun _ ↦ Prog.guarded_op fun _ ↦ ?_
    refine Prog.guarded_bind (Prog.guarded_iterate (guarded_requestRound ctx)) fun ending ↦ ?_
    refine Prog.guarded_bind (guarded_finishLoop ctx ending) fun report ↦ ?_
    exact Prog.guarded_bind (guarded_dropConfig _) fun _ _ ↦ trivial
  refine Prog.guarded_bind (Prog.guarded_catching hinner) fun report ↦ ?_
  cases report with
  | some report => trivial
  | none => exact guarded_panicReport ctx.id

/-! ## Runs -/

/-- The task never gets stuck: whatever its host does, a run of it ends, or has used up every turn
of its schedule. -/
theorem task_stalls [SerdeJson] (setup : Setup) (clock : Nat) (schedule : List Turn)
    (h : (setup.task clock schedule).1 = .stalled) :
    (setup.task clock schedule).2.schedule = [] := by
  have hstalled : machine.exec (runLoop setup.ctx setup.request)
      (.start setup.ctx.id setup.ctx.options setup.request.history clock schedule) =
      (.stalled, (setup.task clock schedule).2) := Prod.ext h rfl
  exact List.eq_nil_of_length_eq_zero
    (machine_wanes.exec_stalled (guarded_runLoop setup.ctx setup.request) hstalled)

end MinicoreRuntime
