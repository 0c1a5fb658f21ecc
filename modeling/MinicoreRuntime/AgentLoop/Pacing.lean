import MinicoreRuntime.AgentLoop.Traversal
import MinicoreRuntime.Interactive.Pace

/-!
# The pace of the runner

How often the runner looks whether it is cancelled. Each look that finds the token alone starts the
count of operations again; a look that finds it cancelled ends what the runner does. A forwarded
report of a tool or delta of a model pays for its forwarding, and an item for its being appended, so
that what is counted is the code's alone.

## Main definitions

* `Op.live`: the answers that show the token alone.
* `runnerPace`: the count of operations since the last of them.

## Main results

* `steady_runLoop`: the task of a loop performs at most 41 operations between two looks.
-/

namespace MinicoreRuntime

open Interactive

/-- Whether a poll found the token cancelled. -/
def Polled.isCancelled {α : Type} : Polled α → Bool
  | .cancelled => true
  | _ => false

/-- The answers to a look at the token that show it is not cancelled. A poll looks at the token
before anything else. -/
def Op.live : (o : Op) → o.Answer → Bool
  | .isCancelled, cancelled => !cancelled
  | .pollPort _ _, polled => !polled.isCancelled
  | .pollStart _, polled => !polled.isCancelled
  | .pollStream _, polled => !polled.isCancelled
  | .pollRetry _ _, polled => !polled.isCancelled
  | .pollInteraction _ _, polled => !polled.isCancelled
  | _, _ => false

/-- How many operations an answer pays for. -/
def Op.credit : (o : Op) → o.Answer → Nat
  -- It is received, what was dropped before it is counted, and it is emitted.
  | .recvToolProgress, some _ => 4
  | .recvModelProgress, some _ => 4
  | .append _, _ => 1
  | _, _ => 0

/-- The count of operations since the last look that found the token alone. -/
def runnerPace : Pace interface := ⟨Op.live, Op.credit⟩

/-- The pace of a program of the runner. -/
abbrev Steady (bound limit a : Nat) {α : Type} (p : Action α) (c : α → Nat) : Prop :=
  runnerPace.Paced Nat bound limit a p c

variable {bound limit a : Nat} {α : Type} {c : α → Nat}

/-- An operation that neither looks at the token nor pays for anything. -/
theorem steady_op {o : Op} {f : o.Answer → Action α} (hlimit : limit < bound) (ha : a ≤ limit)
    (hcount : ∀ r, runnerPace.after a o r = a + 1)
    (hf : ∀ r, Steady bound limit (a + 1) (f r) c) :
    Steady bound limit a ((perform o).bind f) c := by
  refine Pace.paced_op hlimit ha fun r ↦ ?_
  rw [hcount r]
  exact hf r

/-- An item that is appended. -/
theorem steady_append {item : HistoryItem} {f : Unit → Action α} (hlimit : limit < bound)
    (ha : a ≤ limit) (hf : Steady bound limit a (f ()) c) :
    Steady bound limit a ((perform (.append item)).bind f) c :=
  Pace.paced_op hlimit ha fun _ ↦ hf

/-- A look at the token. -/
theorem steady_look {f : Bool → Action α} (hlimit : limit < bound) (ha : a ≤ limit)
    (hcancelled : Steady bound limit (a + 1) (f true) c)
    (hlive : Steady bound limit 0 (f false) c) :
    Steady bound limit a ((perform .isCancelled).bind f) c := by
  refine Pace.paced_op hlimit ha fun cancelled ↦ ?_
  cases cancelled with
  | true => exact hcancelled
  | false => exact hlive

/-- The last operation of a program, where it neither looks at the token nor pays for anything. -/
theorem steady_last {o : Op} {c : o.Answer → Nat} (hlimit : limit < bound) (ha : a ≤ limit)
    (hcount : ∀ r, runnerPace.after a o r = a + 1) (hc : ∀ r, a + 1 ≤ c r) :
    Steady bound limit a (perform o) c :=
  steady_op (f := .pure) hlimit ha hcount fun r ↦ Pace.paced_pure (hc r)

variable (hlimit : limit < bound)
include hlimit

/-! ## Parts shared by all phases -/

theorem steady_publish (state : LoopState) (ha : a + 1 ≤ limit) :
    Steady bound limit a (publish state) fun _ ↦ a + 2 := by
  refine steady_op hlimit (by omega) (fun _ ↦ rfl) fun _ ↦ ?_
  exact steady_last hlimit ha (fun _ ↦ rfl) fun _ ↦ Nat.le_refl _

theorem steady_turnDeadline (deadline : Option Nat) (ha : a + 1 ≤ limit) :
    Steady bound limit a (turnDeadline deadline) fun _ ↦ a + 1 := by
  cases deadline with
  | some deadline => exact Pace.paced_pure (Nat.le_succ a)
  | none =>
    refine steady_op hlimit (by omega) (fun _ ↦ rfl) fun now ↦ ?_
    split
    · exact Pace.paced_pure (Nat.le_refl _)
    · exact Pace.paced_panic ha

theorem steady_dropConfig (config : Option ExecutionConfig) (ha : a ≤ limit) :
    Steady bound limit a (dropConfig config) fun _ ↦ a + 1 := by
  cases config with
  | none => exact Pace.paced_pure (Nat.le_succ a)
  | some config =>
    refine Pace.paced_catchUnwind (m := a) (d := fun _ ↦ a + 1) ?_ ?_ ?_
    · exact steady_last (by omega) (Nat.le_refl _) (fun _ ↦ rfl) fun _ ↦ Nat.le_refl _
    · exact fun _ ↦ Pace.paced_pure (Nat.le_refl _)
    · exact Pace.paced_pure (Nat.le_succ a)

/-- The count after a port call, where `b` counts from a look at the token that the call made. -/
def portCount (a b : Nat) {port : Port} : PortCallOutcome port → Nat
  | .cancelled => a
  | _ => b

/-- The polls of a port call, where what runs while it waits takes at most one operation that
nothing paid for. -/
theorem steady_polls {port : Port} {awaiter : Action Unit} (call : PortCall port)
    (deadline : EffectiveDeadline) (hawait : Steady bound limit 3 awaiter fun _ ↦ 4)
    (hfour : 4 ≤ limit) :
    Steady bound limit 4 (Prog.iterate (fun _ ↦ pollPortCall awaiter call deadline) ())
      (portCount 5 0) := by
  refine Pace.paced_iterate fun _ ↦ Pace.paced_op hlimit hfour fun polled ↦ ?_
  cases polled with
  | cancelled => exact Pace.paced_pure (Nat.le_refl 5)
  | expired => exact Pace.paced_pure (Nat.le_refl 0)
  | ready result => exact Pace.paced_pure (Nat.le_refl 0)
  | panicked => exact Pace.paced_pure (Nat.le_refl 0)
  | pending =>
    refine Pace.paced_bind (Pace.paced_mono hawait (Nat.zero_le 3) fun _ ↦ Nat.le_refl _) ?_
    exact fun _ ↦ Pace.paced_pure (Nat.le_refl 4)

/-- A port call. -/
theorem steady_runPortCall {port : Port} {awaiter : Action Unit} (turnDeadline timeout : Nat)
    (make : Nat → PortCall port) (hawait : Steady bound limit 3 awaiter fun _ ↦ 4)
    (hmin : 5 ≤ a) (ha : a ≤ limit) :
    Steady bound limit a (runPortCall awaiter turnDeadline timeout make) (portCount (a + 1) 3) := by
  refine steady_look hlimit ha (Pace.paced_pure (Nat.le_refl _)) ?_
  refine steady_op hlimit (by omega) (fun _ ↦ rfl) fun deadline ↦ ?_
  cases deadline with
  | none => exact Pace.paced_pure (show 1 ≤ 3 by decide)
  | some deadline =>
    refine steady_op hlimit (by omega) (fun _ ↦ rfl) fun now ↦ ?_
    split
    · exact Pace.paced_pure (show 2 ≤ 3 by decide)
    · refine steady_op hlimit (by omega) (fun _ ↦ rfl) fun made ↦ ?_
      split
      · have hpolls := steady_polls hlimit (make deadline.instant) deadline hawait (by omega)
        refine Pace.paced_bind (Pace.paced_mono hpolls (by decide) fun _ ↦ Nat.le_refl _) ?_
        intro outcome
        -- The future is dropped however the call ended.
        have hdrop : portCount 5 0 outcome + 1 ≤ portCount (a + 1) 3 outcome := by
          cases outcome with
          | cancelled => exact Nat.add_le_add_right hmin 1
          | _ => exact show 1 ≤ 3 by decide
        have hle : portCount 5 0 outcome ≤ limit := by
          cases outcome with
          | cancelled => exact hmin.trans ha
          | _ => exact Nat.zero_le limit
        exact steady_op hlimit hle (fun _ ↦ rfl) fun _ ↦ Pace.paced_pure hdrop
      · exact Pace.paced_pure (show 3 ≤ 3 by decide)

/-! ## Tool calls -/

/-- Forwarding a report is paid for by the report. -/
theorem steady_forwardToolProgress (ctx : LoopCtx) (requestIndex : Nat) (hmin : 3 ≤ a)
    (ha : a ≤ limit) :
    Steady bound limit a (forwardToolProgress ctx requestIndex)
      fun x ↦ x.elim (fun _ ↦ a) fun _ ↦ a + 1 := by
  refine Pace.paced_op hlimit ha fun received ↦ ?_
  cases received with
  | none => exact Pace.paced_pure (Nat.le_refl (a + 1))
  | some received =>
    have hpaid : Steady bound limit (a - 3) (do
        perform (.recordDropped (← perform .takeToolDropped))
        perform (.tryEmit (.toolProgress ctx.id requestIndex received.1 received.2))
        return .inl ()) fun x : Unit ⊕ Unit ↦ x.elim (fun _ ↦ a) fun _ ↦ a + 1 := by
      refine steady_op hlimit (by omega) (fun _ ↦ rfl) fun dropped ↦ ?_
      refine steady_op hlimit (by omega) (fun _ ↦ rfl) fun _ ↦ ?_
      refine steady_op hlimit (by omega) (fun _ ↦ rfl) fun _ ↦ Pace.paced_pure ?_
      exact show a - 3 + 1 + 1 + 1 ≤ a by omega
    exact Pace.paced_mono hpaid (show a + 1 - 4 ≤ a - 3 by omega) fun _ ↦ Nat.le_refl _

theorem steady_awaitTool (ctx : LoopCtx) (requestIndex : Nat) (ha : 3 ≤ limit) :
    Steady bound limit 3 (awaitTool ctx requestIndex) fun _ ↦ 4 := by
  refine Pace.paced_bind (steady_forwardToolProgress hlimit ctx requestIndex (Nat.le_refl 3) ha) ?_
  rintro (- | -)
  · exact Pace.paced_pure (show 3 ≤ 4 by decide)
  · exact Pace.paced_pure (Nat.le_refl 4)

/-- The count after a part that may end the loop, where `b` counts from a look at the token. -/
def stopCount (a b : Nat) : Option FailPath → Nat
  | some _ => a
  | none => b

omit hlimit in
theorem stopCount_mono {a a' b b' : Nat} (ha : a ≤ a') (hb : b ≤ b') (path : Option FailPath) :
    stopCount a b path ≤ stopCount a' b' path := by
  cases path with
  | some path => exact ha
  | none => exact hb

theorem steady_runToolPort (ctx : LoopCtx) (requestIndex : Nat) (invocation : ToolInvocation)
    (implementation : ToolHandle) (deadline : Nat) (hmin : 4 ≤ a) (ha : a + 6 ≤ limit) :
    Steady bound limit a (runToolPort ctx requestIndex invocation implementation deadline)
      fun tool ↦ stopCount (a + 6) 7 tool.path? := by
  refine steady_op hlimit (by omega) (fun _ ↦ rfl) fun _ ↦ ?_
  refine Pace.paced_bind (steady_runPortCall hlimit _ _ _
    (steady_awaitTool hlimit ctx requestIndex (by omega)) (by omega) (by omega)) fun outcome ↦ ?_
  have hle :
      portCount (a + 1 + 1) 3 outcome + 4 ≤ stopCount (a + 6) 7 (toolPort outcome).path? := by
    unfold toolPort
    split
    · exact Nat.le_refl 7
    · split <;> exact Nat.le_refl 7
    all_goals exact show _ ≤ _ by simp only [portCount, ToolPort.path?, stopCount]; omega
  have hmost : portCount (a + 1 + 1) 3 outcome ≤ a + 2 := by
    cases outcome with
    | cancelled => exact Nat.le_refl _
    | _ => exact show 3 ≤ a + 2 by omega
  have hleast : 3 ≤ portCount (a + 1 + 1) 3 outcome := by
    cases outcome with
    | cancelled => exact show 3 ≤ a + 1 + 1 by omega
    | _ => exact Nat.le_refl 3
  generalize portCount (a + 1 + 1) 3 outcome = b at hle hmost hleast
  refine steady_op hlimit (by omega) (fun _ ↦ rfl) fun dropped ↦ ?_
  refine steady_op hlimit (by omega) (fun _ ↦ rfl) fun _ ↦ ?_
  -- What is still in the channel pays for being forwarded.
  refine Pace.paced_bind (Pace.paced_iterate fun _ ↦
    steady_forwardToolProgress hlimit ctx requestIndex (by omega) (by omega)) fun _ ↦ ?_
  exact steady_op hlimit (by omega) (fun _ ↦ rfl) fun _ ↦ Pace.paced_pure hle

/-- A question: an answer is found by a poll, and so is that there will be none. -/
theorem steady_waitInteraction (ctx : LoopCtx) (invocation : ToolInvocation)
    (interactionId : InteractionId) (kind : InteractionKind) (channel : Nat) (ha : a + 6 ≤ limit)
    (hfive : 5 ≤ limit) :
    Steady bound limit a (waitInteraction ctx invocation interactionId kind channel)
      fun answer ↦ stopCount (a + 7) 5 (answerPath? answer) := by
  refine steady_op hlimit (by omega) (fun _ ↦ rfl) fun set ↦ ?_
  split
  · refine steady_op hlimit (by omega) (fun _ ↦ rfl) fun waiting ↦ ?_
    refine Pace.paced_bind (steady_publish hlimit _ (by omega)) fun _ ↦ ?_
    refine steady_op hlimit (by omega) (fun _ ↦ rfl) fun _ ↦ ?_
    -- A poll that is told of the cancellation is the only one that does not start the count anew.
    have hpolls : Steady bound limit (a + 5)
        (Prog.iterate (fun _ ↦ pollAnswer channel ctx.options.deadline) ())
        fun answer ↦ stopCount (a + 6) 0 (answerPath? answer) := by
      refine Pace.paced_iterate fun _ ↦ Pace.paced_op hlimit (by omega) fun polled ↦ ?_
      rcases polled with - | - | (- | answer) | - | -
      · exact Pace.paced_pure (Nat.le_refl (a + 6))
      · exact Pace.paced_pure (Nat.zero_le (a + 6))
      · exact Pace.paced_pure (Nat.zero_le (a + 6))
      · exact Pace.paced_pure (Nat.le_refl 0)
      · exact Pace.paced_pure (Nat.zero_le (a + 5))
      · exact Pace.paced_pure (Nat.zero_le (a + 5))
    refine Pace.paced_bind hpolls fun answer ↦ ?_
    cases answer with
    | error path =>
      exact steady_op hlimit ha (fun _ ↦ rfl) fun _ ↦ Pace.paced_pure (Nat.le_refl (a + 7))
    -- The poll that found the answer found the token alone: the count starts again.
    | ok answer =>
      show Steady bound limit 0 _ _
      refine steady_op hlimit (Nat.zero_le limit) (fun _ ↦ rfl) fun _ ↦ ?_
      refine steady_op hlimit (by omega) (fun _ ↦ rfl) fun _ ↦ ?_
      refine steady_op hlimit (by omega) (fun _ ↦ rfl) fun running ↦ ?_
      refine Pace.paced_bind (steady_publish hlimit _ (by omega)) fun _ ↦ ?_
      exact Pace.paced_pure (Nat.le_refl 5)
  · exact Pace.paced_pure (show a + 1 ≤ a + 7 by omega)

theorem steady_askHost (ctx : LoopCtx) (invocation : ToolInvocation) (kind : InteractionKind)
    (ha : a + 8 ≤ limit) :
    Steady bound limit a (askHost ctx invocation kind)
      fun answer ↦ stopCount (a + 9) 5 (answerPath? answer) := by
  refine steady_op hlimit (by omega) (fun _ ↦ rfl) fun id ↦ ?_
  cases id with
  | none => exact Pace.paced_pure (show a + 1 ≤ a + 9 by omega)
  | some id =>
    refine steady_op hlimit (by omega) (fun _ ↦ rfl) fun channel ↦ ?_
    exact steady_waitInteraction hlimit ctx invocation id kind channel (by omega) (by omega)

theorem steady_executeTool (ctx : LoopCtx) (requestIndex : Nat) (invocation : ToolInvocation)
    (enabled : EnabledTool) (hmin : 9 ≤ a) (ha : a + 7 ≤ limit) :
    Steady bound limit a (executeTool ctx requestIndex invocation enabled)
      fun step ↦ stopCount (a + 7) 7 step.path? := by
  refine Pace.paced_bind (steady_turnDeadline hlimit _ (by omega)) fun deadline ↦ ?_
  refine Pace.paced_bind (steady_runToolPort hlimit ctx requestIndex invocation
    enabled.implementation deadline (by omega) (by omega)) fun tool ↦ ?_
  cases tool with
  | completed output => exact Pace.paced_pure (Nat.le_refl 7)
  | failed => exact Pace.paced_pure (Nat.le_refl 7)
  | stop path => exact Pace.paced_pure (Nat.le_refl (a + 7))
  | requestInput request =>
    have hask : Steady bound limit 7 (askHost ctx invocation (.toolInput request)) _ :=
      steady_askHost hlimit ctx invocation _ (by omega)
    refine Pace.paced_bind hask fun answer ↦ ?_
    rcases answer with path | decision | answer
    · exact Pace.paced_pure (show 7 + 9 ≤ a + 7 by omega)
    · exact Pace.paced_pure (show 5 ≤ a + 7 by omega)
    · dsimp only
      split
      · exact Pace.paced_pure (show 5 ≤ 7 by decide)
      · exact Pace.paced_panic (show 5 ≤ limit by omega)

/-- The count after the policy: without one nothing is asked. -/
def policyCount (a : Nat) : PolicyStep → Nat
  | .allow => a
  | .denied _ | .requireApproval _ => 3
  | .cancelled | .turnDeadline | .invalid => a + 1

theorem steady_decidePolicy (ctx : LoopCtx) (policy : Option PolicyHandle)
    (invocation : ToolInvocation) (spec : ToolSpec) (deadline : Nat) (hmin : 5 ≤ a)
    (ha : a ≤ limit) :
    Steady bound limit a (decidePolicy ctx policy invocation spec deadline) (policyCount a) := by
  cases policy with
  | none => exact Pace.paced_pure (Nat.le_refl a)
  | some policy =>
    refine Pace.paced_bind
      (steady_runPortCall hlimit _ _ _ (Pace.paced_pure (by decide)) hmin ha) ?_
    intro outcome
    refine Pace.paced_pure ?_
    unfold policyStep
    split
    · split
      · exact show 3 ≤ a + 1 by omega
      · split
        · exact show 3 ≤ a by omega
        · exact Nat.le_refl 3
        · exact Nat.le_refl 3
    · exact Nat.le_refl (a + 1)
    · exact show 3 ≤ a + 1 by omega
    all_goals exact Nat.le_refl 3

omit hlimit in
theorem steady_deniedResult (ctx : LoopCtx) (requestIndex : Nat) (invocation : ToolInvocation)
    (reason : Option BoundedText) (hmax : a ≤ 7) (ha : a ≤ limit) :
    Steady bound limit a (deniedResult ctx requestIndex invocation reason)
      fun step ↦ stopCount 0 7 step.path? := by
  unfold deniedResult
  split
  · exact Pace.paced_pure hmax
  · exact Pace.paced_panic ha

theorem steady_runToolCall (ctx : LoopCtx) (requestIndex : Nat) (invocation : ToolInvocation)
    (enabled : EnabledTool) (policy : Option PolicyHandle) (hmin : 8 ≤ a) (ha : a + 8 ≤ limit) :
    Steady bound limit a (runToolCall ctx requestIndex invocation enabled policy)
      fun step ↦ stopCount (a + 8) 7 step.path? := by
  have hdenied : ∀ (b : Nat) (reason : Option BoundedText), b ≤ 7 →
      Steady bound limit b (deniedResult ctx requestIndex invocation reason)
        fun step ↦ stopCount (a + 8) 7 step.path? :=
    fun b reason hb ↦ Pace.paced_mono (steady_deniedResult ctx requestIndex invocation reason
      hb (by omega)) (Nat.le_refl b) fun _ ↦ stopCount_mono (Nat.zero_le _) (Nat.le_refl 7) _
  refine Pace.paced_bind (steady_turnDeadline hlimit _ (by omega)) fun deadline ↦ ?_
  refine Pace.paced_bind (steady_decidePolicy hlimit ctx policy invocation enabled.spec deadline
    (by omega) (by omega)) fun step ↦ ?_
  -- What each way out adds to the count since the last look at the token.
  cases step with
  | allow =>
    show Steady bound limit (a + 1) _ _
    exact steady_executeTool hlimit ctx requestIndex invocation enabled (by omega) (by omega)
  | denied reason => exact hdenied 3 reason (by decide)
  | cancelled => exact Pace.paced_pure (show a + 2 ≤ a + 8 by omega)
  | turnDeadline => exact Pace.paced_pure (show a + 2 ≤ a + 8 by omega)
  | invalid => exact Pace.paced_pure (show a + 2 ≤ a + 8 by omega)
  | requireApproval request =>
    have hask : Steady bound limit 3 (askHost ctx invocation (.approval request)) _ :=
      steady_askHost hlimit ctx invocation _ (by omega)
    refine Pace.paced_bind hask fun answer ↦ ?_
    rcases answer with path | (- | -) | answer
    · exact Pace.paced_pure (show 3 + 9 ≤ a + 8 by omega)
    · have htool := steady_executeTool (a := 9) hlimit ctx requestIndex invocation enabled
        (Nat.le_refl 9) (by omega)
      exact Pace.paced_mono htool (show 5 ≤ 9 by decide)
        fun _ ↦ stopCount_mono (by omega) (Nat.le_refl 7) _
    · exact hdenied 5 none (by decide)
    · exact Pace.paced_pure (show 5 ≤ a + 8 by omega)

theorem steady_batchStep (ctx : LoopCtx) (requestIndex : Nat) (snapshot : ExecutionConfig)
    (call : ToolCall) (hmin : 15 ≤ a) (ha : a + 1 ≤ limit) :
    Steady bound limit a (batchStep ctx requestIndex snapshot call)
      fun step ↦ stopCount (a + 1) 7 step.path? := by
  refine steady_look hlimit (by omega) (Pace.paced_pure (Nat.le_refl (a + 1))) ?_
  rw [if_neg Bool.false_ne_true]
  split
  · exact Pace.paced_panic (Nat.zero_le limit)
  · rename_i enabled _
    refine steady_op hlimit (Nat.zero_le limit) (fun _ ↦ rfl) fun _ ↦ ?_
    have hcall := steady_runToolCall (a := 8) hlimit ctx requestIndex call.invocation enabled
      snapshot.policy (Nat.le_refl 8) (by omega)
    exact Pace.paced_mono hcall (by decide) fun _ ↦ stopCount_mono (by omega) (Nat.le_refl 7) _

/-- Every result that is settled pays for itself. -/
theorem steady_settleCalls (ctx : LoopCtx) (requestIndex : Nat) (outcome : ToolResultOutcome)
    (message : ToolOutput) (calls : List ToolCall) (ha : a ≤ limit) :
    Steady bound limit a (settleCalls ctx requestIndex outcome message calls) fun _ ↦ a := by
  induction calls with
  | nil => exact Pace.paced_pure (Nat.le_refl a)
  | cons call calls ih => exact steady_append hlimit ha ih

/-- The calls of a response, however many. -/
theorem steady_runToolBatch (ctx : LoopCtx) (requestIndex : Nat) (snapshot : ExecutionConfig)
    (calls : List ToolCall) (hmin : 15 ≤ a) (ha : a + 1 ≤ limit) :
    Steady bound limit a (runToolBatch ctx requestIndex snapshot calls) (stopCount (a + 1) a) := by
  induction calls with
  | nil => exact Pace.paced_pure (Nat.le_refl a)
  | cons call calls ih =>
    refine Pace.paced_bind (steady_batchStep hlimit ctx requestIndex snapshot call hmin ha) ?_
    intro step
    cases step with
    | result result =>
      refine steady_op hlimit (show 7 ≤ limit by omega) (fun _ ↦ rfl) fun _ ↦ ?_
      refine steady_append hlimit (show 8 ≤ limit by omega) ?_
      exact Pace.paced_mono ih (show 8 ≤ a by omega) fun _ ↦ Nat.le_refl _
    | stop path =>
      refine Pace.paced_bind (steady_settleCalls hlimit ctx requestIndex _ _ _ ha) fun _ ↦ ?_
      exact Pace.paced_pure (Nat.le_refl (a + 1))

/-! ## Model calls -/

/-- The count after a part that may fail, where `b` counts from a look at the token. -/
def failCount (a b : Nat) {ε β : Type} : Except ε β → Nat
  | .error _ => a
  | .ok _ => b

/-- Forwarding a delta is paid for by the delta. -/
theorem steady_drainProgress (ctx : LoopCtx) (requestIndex : Nat) (hmin : 3 ≤ a) (ha : a ≤ limit) :
    Steady bound limit a (drainProgress ctx requestIndex) fun _ ↦ a + 1 := by
  refine Pace.paced_iterate fun _ ↦ Pace.paced_op hlimit ha fun received ↦ ?_
  cases received with
  | none => exact Pace.paced_pure (Nat.le_refl (a + 1))
  | some value =>
    have hpaid : Steady bound limit (a - 3) (forwardProgress ctx requestIndex value)
        fun _ ↦ a := by
      refine steady_op hlimit (by omega) (fun _ ↦ rfl) fun dropped ↦ ?_
      refine steady_op hlimit (by omega) (fun _ ↦ rfl) fun _ ↦ ?_
      exact steady_last hlimit (by omega) (fun _ ↦ rfl) fun _ ↦ by omega
    refine Pace.paced_bind (Pace.paced_mono hpaid (show a + 1 - 4 ≤ a - 3 by omega)
      fun _ ↦ Nat.le_refl _) fun _ ↦ ?_
    exact Pace.paced_pure (Nat.le_refl a)

theorem steady_precheck (deadline : EffectiveDeadline) (ha : a ≤ limit) :
    Steady bound limit a (precheck deadline) (failCount (a + 1) 1) := by
  refine steady_look hlimit ha (Pace.paced_pure (Nat.le_refl (a + 1))) ?_
  rw [if_neg Bool.false_ne_true]
  refine steady_op hlimit (Nat.zero_le limit) (fun _ ↦ rfl) fun now ↦ ?_
  split
  · exact Pace.paced_pure (show 1 ≤ a + 1 by omega)
  · exact Pace.paced_pure (Nat.le_refl 1)

theorem steady_evaluateRetry (policy : RetryPolicySnapshot) (attempt : Nat)
    (failure : AttemptFailure) (deadline : Nat) (ha : a ≤ limit) :
    Steady bound limit a (policy.evaluateRetry attempt failure deadline) fun _ ↦ a + 1 := by
  have hnone : Steady bound limit a (.pure (none : Option Nat)) fun _ ↦ a + 1 :=
    Pace.paced_pure (Nat.le_succ a)
  unfold RetryPolicySnapshot.evaluateRetry
  split
  · exact hnone
  · split
    · exact hnone
    · split
      · exact hnone
      · refine Pace.paced_bind (c := fun _ ↦ a + 1) ?_ fun fits ↦ ?_
        · refine steady_op hlimit ha (fun _ ↦ rfl) fun now ↦ ?_
          exact Pace.paced_pure (Nat.le_refl _)
        · split <;> exact Pace.paced_pure (Nat.le_refl _)

section Driver

variable {awaiter : Action Unit} (hawait : Steady bound limit 3 awaiter fun _ ↦ 4)
include hawait

omit hlimit in
/-- What runs while a poll is pending, followed by the next round. -/
theorem steady_await {β γ : Type} {x : β ⊕ γ} {c : β ⊕ γ → Nat} (hx : 4 ≤ c x) :
    Steady bound limit 0 (awaiter.bind fun _ ↦ .pure x) c := by
  refine Pace.paced_bind (Pace.paced_mono hawait (Nat.zero_le 3) fun _ ↦ Nat.le_refl _) ?_
  exact fun _ ↦ Pace.paced_pure hx

theorem steady_waitForRetry (deadline : EffectiveDeadline) (delay : Nat) (error : ModelError)
    (hmin : 3 ≤ a) (ha : a + 1 ≤ limit) :
    Steady bound limit a (waitForRetry awaiter deadline delay error) (failCount (a + 2) 0) := by
  refine steady_op hlimit (by omega) (fun _ ↦ rfl) fun now ↦ ?_
  split
  · exact Pace.paced_panic ha
  · refine Pace.paced_iterate fun _ ↦ Pace.paced_op hlimit ha fun polled ↦ ?_
    cases polled with
    | cancelled => exact Pace.paced_pure (Nat.le_refl (a + 2))
    | expired => exact Pace.paced_pure (Nat.zero_le (a + 2))
    | ready u => exact Pace.paced_pure (Nat.le_refl 0)
    | panicked => exact steady_await hawait (show 4 ≤ a + 1 by omega)
    | pending => exact steady_await hawait (show 4 ≤ a + 1 by omega)

theorem steady_startPolls (deadline : EffectiveDeadline) (hfour : 4 ≤ limit) :
    Steady bound limit 4 (Prog.iterate (fun _ ↦ ModelDriver.pollStartCall awaiter deadline) ())
      (failCount 5 0) := by
  refine Pace.paced_iterate fun _ ↦ Pace.paced_op hlimit hfour fun polled ↦ ?_
  rcases polled with - | - | (failure | u) | - | -
  · exact Pace.paced_pure (Nat.le_refl 5)
  · exact Pace.paced_pure (Nat.zero_le 5)
  · exact Pace.paced_pure (Nat.zero_le 5)
  · exact Pace.paced_pure (Nat.le_refl 0)
  · exact Pace.paced_pure (Nat.zero_le 5)
  · exact steady_await hawait (show 4 ≤ 4 by decide)

variable [SerdeJson]

theorem steady_pollEvent (deadline : EffectiveDeadline) (assembler : Assembler)
    (hfour : 4 ≤ limit) :
    Steady bound limit 4 (ModelDriver.pollEvent awaiter deadline assembler)
      fun x ↦ x.elim (fun _ ↦ 4) (failCount 5 0) := by
  refine Pace.paced_op hlimit hfour fun polled ↦ ?_
  rcases polled with - | - | (- | (error | event)) | - | -
  · exact Pace.paced_pure (Nat.le_refl 5)
  · exact Pace.paced_pure (Nat.zero_le 5)
  · dsimp only
    split
    · exact Pace.paced_panic (Nat.zero_le limit)
    · exact Pace.paced_pure (Nat.le_refl 0)
    · exact Pace.paced_pure (Nat.zero_le 5)
  · exact Pace.paced_pure (Nat.zero_le 5)
  · dsimp only
    split
    · exact Pace.paced_pure (Nat.zero_le 5)
    · exact Pace.paced_pure (Nat.zero_le 4)
    · refine steady_op hlimit (Nat.zero_le limit) (fun _ ↦ rfl) fun _ ↦ ?_
      refine Pace.paced_bind (Pace.paced_mono hawait (show 1 ≤ 3 by decide)
        fun _ ↦ Nat.le_refl _) fun _ ↦ ?_
      exact Pace.paced_pure (Nat.le_refl 4)
  · exact Pace.paced_pure (Nat.zero_le 5)
  · exact steady_await hawait (show 4 ≤ 4 by decide)

theorem steady_runAttempt (driver : ModelDriver) (request : ModelRequest)
    (context : ModelCallContext) (deadline : EffectiveDeadline) (hfive : 5 ≤ limit) :
    Steady bound limit 1 (driver.runAttempt awaiter request context deadline) (failCount 6 1) := by
  refine steady_op hlimit (by omega) (fun _ ↦ rfl) fun started ↦ ?_
  split
  · refine Pace.paced_bind (Pace.paced_mono
      (steady_startPolls hlimit hawait deadline (by omega)) (show 2 ≤ 4 by decide)
      fun _ ↦ Nat.le_refl _) fun stream ↦ ?_
    have hread : Steady bound limit (failCount 5 0 stream)
        (ModelDriver.readStream awaiter driver request deadline stream) (failCount 5 0) := by
      cases stream with
      | error failure => exact Pace.paced_pure (Nat.le_refl 5)
      | ok u =>
        refine Pace.paced_mono (Pace.paced_iterate (a := 4) fun assembler ↦ ?_) (Nat.zero_le 4)
          fun _ ↦ Nat.le_refl _
        exact steady_pollEvent hlimit hawait deadline assembler (by omega)
    refine Pace.paced_bind hread fun result ↦ ?_
    -- The stream is dropped however the attempt ended.
    cases result with
    | error failure =>
      exact steady_op hlimit hfive (fun _ ↦ rfl) fun _ ↦ Pace.paced_pure (Nat.le_refl 6)
    | ok response =>
      exact steady_op hlimit (Nat.zero_le limit) (fun _ ↦ rfl) fun _ ↦
        Pace.paced_pure (Nat.le_refl 1)
  · exact Pace.paced_pure (show 2 ≤ 6 by decide)

theorem steady_attemptRound (driver : ModelDriver) (request : ModelRequest)
    (context : ModelCallContext) (deadline : EffectiveDeadline) (attempt : Nat)
    (height : 8 ≤ limit) :
    Steady bound limit 8 (driver.attemptRound awaiter request context deadline attempt)
      fun x ↦ x.elim (fun _ ↦ 8) (failCount 9 1) := by
  refine Pace.paced_bind (steady_precheck hlimit deadline height) fun checked ↦ ?_
  cases checked with
  | error failure => exact Pace.paced_pure (Nat.le_refl 9)
  | ok u =>
    refine Pace.paced_bind (steady_runAttempt hlimit hawait driver request context deadline
      (by omega)) fun result ↦ ?_
    cases result with
    | ok response => exact Pace.paced_pure (Nat.le_refl 1)
    | error failure =>
      -- The attempt ended at most six operations after its last look at the token.
      show Steady bound limit 6 _ _
      refine Pace.paced_bind (steady_evaluateRetry hlimit _ attempt failure _ (by omega)) ?_
      intro delay
      cases delay with
      | none => exact Pace.paced_pure (show 7 ≤ 9 by decide)
      | some delay =>
        refine Pace.paced_bind (steady_waitForRetry hlimit hawait deadline delay failure.error
          (by decide) height) fun waited ↦ ?_
        cases waited with
        | error failure => exact Pace.paced_pure (Nat.le_refl 9)
        | ok u => exact Pace.paced_pure (Nat.zero_le 8)

theorem steady_runDetailed (driver : ModelDriver) (request : ModelRequest)
    (context : ModelCallContext) (hmin : 7 ≤ a) (ha : a + 1 ≤ limit) :
    Steady bound limit a (driver.runDetailed awaiter request context) (failCount (a + 2) 1) := by
  refine steady_op hlimit (by omega) (fun _ ↦ rfl) fun deadline ↦ ?_
  cases deadline with
  | none => exact Pace.paced_pure (Nat.le_succ (a + 1))
  | some deadline =>
    refine Pace.paced_bind (steady_precheck hlimit deadline ha) fun checked ↦ ?_
    cases checked with
    | error failure => exact Pace.paced_pure (Nat.le_refl (a + 2))
    | ok u =>
      dsimp only
      split
      · exact Pace.paced_pure (show 1 ≤ a + 2 by omega)
      · refine Pace.paced_mono (Pace.paced_iterate (a := 8) (d := failCount 9 1) fun attempt ↦ ?_)
          (show 1 ≤ 8 by decide) fun result ↦ ?_
        · exact steady_attemptRound hlimit hawait driver request context deadline attempt (by omega)
        · cases result with
          | error failure => exact show 9 ≤ a + 2 by omega
          | ok response => exact Nat.le_refl 1

end Driver

section Requests

variable [SerdeJson]

theorem steady_runModel (ctx : LoopCtx) (requestIndex : Nat) (snapshot : ExecutionConfig)
    (request : ModelRequest) (deadline : Nat) (hmin : 6 ≤ a) (ha : a + 5 ≤ limit) :
    Steady bound limit a (runModel ctx requestIndex snapshot request deadline)
      (failCount (a + 6) 4) := by
  refine steady_op hlimit (by omega) (fun _ ↦ rfl) fun _ ↦ ?_
  refine Pace.paced_bind (steady_runDetailed hlimit
    (steady_drainProgress hlimit ctx requestIndex (Nat.le_refl 3) (by omega)) _ _ _ (by omega)
    (by omega)) fun result ↦ ?_
  have hrest : ∀ b, 1 ≤ b → b + 2 ≤ limit → b + 3 ≤ failCount (a + 6) 4 result →
      Steady bound limit b ((perform .takeModelDropped).bind fun dropped ↦
        (perform (.recordDropped dropped)).bind fun _ ↦
          (drainProgress ctx requestIndex).bind fun _ ↦ .pure result) (failCount (a + 6) 4) := by
    intro b hb hlt hle
    refine steady_op hlimit (by omega) (fun _ ↦ rfl) fun dropped ↦ ?_
    refine steady_op hlimit (by omega) (fun _ ↦ rfl) fun _ ↦ ?_
    refine Pace.paced_bind (steady_drainProgress hlimit ctx requestIndex (by omega) (by omega)) ?_
    exact fun _ ↦ Pace.paced_pure hle
  cases result with
  | error failure => exact hrest (a + 3) (by omega) (by omega) (Nat.le_refl _)
  | ok response => exact hrest 1 (by decide) (by omega) (Nat.le_refl _)

omit [SerdeJson] in
theorem steady_mapModelFailure (failure : ModelDriverFailure) (ha : a ≤ limit) :
    Steady bound limit a (mapModelFailure failure) fun _ ↦ a + 1 := by
  refine steady_look hlimit ha (Pace.paced_pure (Nat.le_refl (a + 1))) ?_
  rw [if_neg Bool.false_ne_true]
  split
  · exact Pace.paced_pure (Nat.zero_le _)
  · split <;> exact Pace.paced_pure (Nat.zero_le _)

omit [SerdeJson] in
theorem steady_preparePrompt (ctx : LoopCtx) (requestIndex : Nat) (snapshot : ExecutionConfig)
    (view : HistoryView) (deadline : Nat) (hmin : 5 ≤ a) (ha : a ≤ limit) :
    Steady bound limit a (preparePrompt ctx requestIndex snapshot view deadline)
      fun prep ↦ stopCount (a + 1) 3 prep.path? := by
  refine Pace.paced_bind (steady_runPortCall hlimit _ _ _ (Pace.paced_pure (by decide)) hmin ha) ?_
  intro outcome
  refine Pace.paced_pure ?_
  unfold promptPrep
  split
  · split
    · exact show 3 ≤ a + 1 by omega
    · exact Nat.le_refl 3
  · exact Nat.le_refl (a + 1)
  all_goals exact show 3 ≤ a + 1 by omega

omit [SerdeJson] in
/-- Every input that is appended pays for itself. -/
theorem steady_appendInputs (ctx : LoopCtx) (inputs : List UserInput) (ha : a ≤ limit) :
    Steady bound limit a (appendInputs ctx inputs) fun _ ↦ a := by
  induction inputs with
  | nil => exact Pace.paced_pure (Nat.le_refl a)
  | cons input inputs ih => exact steady_append hlimit ha ih

omit [SerdeJson] in
theorem steady_takeBoundary (ctx : LoopCtx) (pinned : Bool) (config : ExecutionConfig)
    (candidate : Option Nat) (ha : a + 3 ≤ limit) :
    Steady bound limit a (takeBoundary ctx pinned config candidate)
      fun _ ↦ a + cond pinned 2 3 := by
  have hinputs : ∀ (b : Nat) (f : List UserInput → Boundary), b + 1 ≤ a + cond pinned 2 3 →
      Steady bound limit b ((perform .takeInputs).bind fun inputs ↦
        (appendInputs ctx inputs).bind fun _ ↦ .pure (f inputs)) fun _ ↦ a + cond pinned 2 3 := by
    intro b f hb
    have hmost : cond pinned 2 3 ≤ 3 := by cases pinned <;> decide
    refine steady_op hlimit (by omega) (fun _ ↦ rfl) fun inputs ↦ ?_
    refine Pace.paced_bind (steady_appendInputs hlimit ctx inputs (by omega)) fun _ ↦ ?_
    exact Pace.paced_pure hb
  have hleast : 2 ≤ cond pinned 2 3 := by cases pinned <;> decide
  refine steady_op hlimit (by omega) (fun _ ↦ rfl) fun pending ↦ ?_
  cases pending with
  | none => exact hinputs (a + 1) _ (by omega)
  | some pending =>
    cases pinned with
    | true => exact hinputs (a + 1) _ (Nat.le_refl (a + 2))
    | false =>
      refine steady_op hlimit (by omega) (fun _ ↦ rfl) fun _ ↦ ?_
      exact hinputs (a + 2) _ (Nat.le_refl (a + 3))

/-- The count after a part of a round, which ends the loop with a count of at most 17. -/
def roundCount {β γ : Type} : β ⊕ γ → Nat
  | .inl _ => 16
  | .inr _ => 17

omit [SerdeJson] in
theorem steady_runCalls (ctx : LoopCtx) (snapshot : ExecutionConfig) (locals : Locals)
    (calls : List ToolCall) (ha : 16 ≤ limit) :
    Steady bound limit 4 (runCalls ctx snapshot locals calls) roundCount := by
  unfold runCalls
  split
  · refine Pace.paced_bind (steady_settleCalls hlimit ctx _ _ _ calls (by omega)) fun _ ↦ ?_
    exact Pace.paced_pure (show 4 ≤ 17 by decide)
  · refine Pace.paced_bind (steady_publish hlimit _ (by omega)) fun _ ↦ ?_
    have hbatch := steady_runToolBatch (a := 15) hlimit ctx locals.requestIndex snapshot calls
      (Nat.le_refl 15) ha
    refine Pace.paced_bind (Pace.paced_mono hbatch (show 6 ≤ 15 by decide)
      fun _ ↦ Nat.le_refl _) fun path ↦ ?_
    cases path with
    | none => exact Pace.paced_pure (show 15 ≤ 16 by decide)
    | some path => exact Pace.paced_pure (show 16 ≤ 17 by decide)

omit [SerdeJson] in
theorem steady_handleResponse (ctx : LoopCtx) (snapshot : ExecutionConfig) (locals : Locals)
    (response : ModelResponse) (ha : 16 ≤ limit) :
    Steady bound limit 4 (handleResponse ctx snapshot locals response) roundCount := by
  have hbreak : ∀ (locals : Locals) (path : FailPath),
      Steady bound limit 4 (.pure (locals.break path)) roundCount :=
    fun _ _ ↦ Pace.paced_pure (show 4 ≤ 17 by decide)
  unfold handleResponse
  split
  · exact hbreak _ _
  · dsimp only
    split
    · split
      · exact hbreak _ _
      · refine steady_append hlimit (by omega) ?_
        split
        · refine steady_op hlimit (by omega) (fun _ ↦ rfl) fun discarded ↦ ?_
          exact Pace.paced_pure (show 5 ≤ 17 by decide)
        · exact hbreak _ _
    · exact steady_append hlimit (by omega) (steady_runCalls hlimit ctx snapshot _ _ ha)

theorem steady_issueRequest (ctx : LoopCtx) (snapshot : ExecutionConfig) (locals : Locals)
    (request : ModelRequest) (ha : 16 ≤ limit) :
    Steady bound limit 5 (issueRequest ctx snapshot locals request) roundCount := by
  refine steady_op hlimit (by omega) (fun _ ↦ rfl) fun _ ↦ ?_
  refine steady_op hlimit (by omega) (fun _ ↦ rfl) fun _ ↦ ?_
  refine Pace.paced_bind (steady_publish hlimit _ (by omega)) fun _ ↦ ?_
  refine Pace.paced_bind (steady_turnDeadline hlimit _ (by omega)) fun deadline ↦ ?_
  refine Pace.paced_bind (steady_runModel (a := 10) hlimit ctx _ snapshot request deadline
    (by omega) (by omega)) fun result ↦ ?_
  cases result with
  | error failure =>
    refine Pace.paced_bind (steady_mapModelFailure (a := 16) hlimit failure ha) fun path ↦ ?_
    exact Pace.paced_pure (Nat.le_refl 17)
  | ok response => exact steady_handleResponse hlimit ctx snapshot _ response ha

theorem steady_prepareRequest (ctx : LoopCtx) (locals : Locals) (ha : 16 ≤ limit) :
    Steady bound limit 4 (prepareRequest ctx locals) roundCount := by
  refine Pace.paced_bind (steady_publish hlimit _ (by omega)) fun _ ↦ ?_
  refine steady_op hlimit (by omega) (fun _ ↦ rfl) fun view ↦ ?_
  refine Pace.paced_bind (steady_turnDeadline hlimit _ (by omega)) fun deadline ↦ ?_
  refine Pace.paced_bind
    (steady_preparePrompt hlimit ctx _ _ view deadline (by omega) (by omega)) ?_
  intro prep
  cases prep with
  | stop path => exact Pace.paced_pure (show 9 ≤ 17 by decide)
  | ready messages =>
    show Steady bound limit 3 _ _
    refine Pace.paced_bind (steady_takeBoundary hlimit ctx true _ _ (by omega)) fun boundary ↦ ?_
    show Steady bound limit 5 _ _
    split
    · refine steady_op hlimit (by omega) (fun _ ↦ rfl) fun _ ↦ ?_
      exact Pace.paced_pure (show 6 ≤ 16 by decide)
    · split
      · exact Pace.paced_pure (show 5 ≤ 17 by decide)
      · exact steady_issueRequest hlimit ctx _ _ _ ha

/-- A round of the loop of requests. -/
theorem steady_requestRound (ctx : LoopCtx) (locals : Locals) (ha : 16 ≤ limit) :
    Steady bound limit 16 (requestRound ctx locals) roundCount := by
  refine steady_look hlimit ha (Pace.paced_pure (Nat.le_refl 17)) ?_
  rw [if_neg Bool.false_ne_true]
  have hpast : Steady bound limit 0 (pastDeadline ctx.options.deadline) fun _ ↦ 1 := by
    unfold pastDeadline
    split
    · exact Pace.paced_pure (Nat.zero_le 1)
    · exact steady_op hlimit (Nat.zero_le limit) (fun _ ↦ rfl) fun now ↦
        Pace.paced_pure (Nat.le_refl 1)
  refine Pace.paced_bind hpast fun past ↦ ?_
  split
  · exact Pace.paced_pure (show 1 ≤ 17 by decide)
  · refine Pace.paced_bind (steady_takeBoundary hlimit ctx false _ _ (by omega)) fun boundary ↦ ?_
    exact steady_prepareRequest hlimit ctx _ ha

end Requests

/-! ## The report -/

theorem steady_finishOnce (ha : a + 2 ≤ limit) :
    Steady bound limit a finishOnce fun _ ↦ a + 3 := by
  have hclose : ∀ (b : Nat) (finish : FinishSeal), b ≤ a + 2 →
      Steady bound limit b ((perform .closeAccepting).bind fun discarded ↦
        .pure (finish, discarded)) fun _ ↦ a + 3 := by
    intro b finish hb
    refine steady_op hlimit (by omega) (fun _ ↦ rfl) fun discarded ↦ ?_
    exact Pace.paced_pure (Nat.add_le_add_right hb 1)
  refine steady_op hlimit (by omega) (fun _ ↦ rfl) fun finish ↦ ?_
  cases finish with
  | clean => exact hclose (a + 1) _ (by omega)
  | alreadyFinished => exact hclose (a + 1) _ (by omega)
  | cancelledPrior source =>
    refine steady_op hlimit (by omega) (fun _ ↦ rfl) fun _ ↦ ?_
    exact hclose (a + 2) _ (Nat.le_refl _)

theorem steady_publishedReport (ha : a + 1 ≤ limit) :
    Steady bound limit a publishedReport fun _ ↦ a + 1 := by
  refine steady_op hlimit (by omega) (fun _ ↦ rfl) fun report ↦ ?_
  cases report with
  | none => exact Pace.paced_panic ha
  | some report => exact Pace.paced_pure (Nat.le_refl _)

theorem steady_deliverReport (ctx : LoopCtx) (ending : Ending) (revision : Nat)
    (outcome : LoopOutcome) (discarded : Option ExecutionConfig) (ha : a + 10 ≤ limit) :
    Steady bound limit a (deliverReport ctx ending revision outcome discarded) fun _ ↦ a + 11 := by
  refine steady_op hlimit (by omega) (fun _ ↦ rfl) fun appended ↦ ?_
  have hstates : Steady bound limit (a + 1) (publishFinalStates ctx
      (ending.locals.lastIssuedRequestIndex.getD 0) revision) fun _ ↦ a + 7 := by
    refine steady_op hlimit (by omega) (fun _ ↦ rfl) fun state ↦ ?_
    refine Pace.paced_bind (steady_publish hlimit _ (by omega)) fun _ ↦ ?_
    refine steady_op hlimit (by omega) (fun _ ↦ rfl) fun state ↦ ?_
    exact steady_publish hlimit _ (by omega)
  refine Pace.paced_bind hstates fun _ ↦ ?_
  refine steady_op hlimit (by omega) (fun _ ↦ rfl) fun _ ↦ ?_
  refine steady_op hlimit (by omega) (fun _ ↦ rfl) fun _ ↦ ?_
  refine steady_op hlimit (by omega) (fun _ ↦ rfl) fun _ ↦ ?_
  refine Pace.paced_bind (steady_dropConfig hlimit discarded ha) fun _ ↦ ?_
  exact Pace.paced_pure (Nat.le_refl _)

theorem steady_finishLoop (ctx : LoopCtx) (ending : Ending) (ha : a + 15 ≤ limit) :
    Steady bound limit a (finishLoop ctx ending) fun _ ↦ a + 16 := by
  refine steady_op hlimit (by omega) (fun _ ↦ rfl) fun revision ↦ ?_
  have houtcome : Steady bound limit (a + 1) (outcomeFor ending.path) fun _ ↦ a + 2 := by
    cases ending.path with
    | cancelled =>
      refine steady_op hlimit (by omega) (fun _ ↦ rfl) fun reason ↦ ?_
      exact Pace.paced_pure (Nat.le_refl _)
    | _ => exact Pace.paced_pure (Nat.le_succ _)
  refine Pace.paced_bind houtcome fun intended ↦ ?_
  refine Pace.paced_bind (steady_finishOnce hlimit (by omega)) ?_
  rintro ⟨finish, discarded⟩
  cases finish with
  | clean => exact steady_deliverReport hlimit ctx ending revision intended discarded (by omega)
  | cancelledPrior source =>
    exact steady_deliverReport hlimit ctx ending revision _ discarded (by omega)
  | alreadyFinished =>
    exact Pace.paced_mono (steady_publishedReport hlimit (by omega)) (Nat.le_refl _)
      fun _ ↦ show a + 2 + 3 + 1 ≤ a + 16 by omega

/-! ## The task -/

variable [SerdeJson]

theorem steady_runLoopInner (ctx : LoopCtx) (request : LoopRequest) (ha : 34 ≤ limit) :
    Steady bound limit 0 (runLoopInner ctx request) fun _ ↦ 35 := by
  refine steady_op hlimit (Nat.zero_le limit) (fun _ ↦ rfl) fun _ ↦ ?_
  refine steady_append hlimit (by omega) ?_
  have hrounds : Steady bound limit 16 (Prog.iterate (requestRound ctx) (.start request.config))
      fun _ ↦ 17 := by
    refine Pace.paced_iterate fun locals ↦ ?_
    refine Pace.paced_mono (steady_requestRound hlimit ctx locals (by omega)) (Nat.le_refl 16) ?_
    rintro (locals | ending)
    · exact Nat.le_refl 16
    · exact Nat.le_refl 17
  refine Pace.paced_bind (Pace.paced_mono hrounds (show 1 ≤ 16 by decide) fun _ ↦ Nat.le_refl _) ?_
  intro ending
  refine Pace.paced_bind (steady_finishLoop hlimit ctx ending (by omega)) fun report ↦ ?_
  refine Pace.paced_bind (steady_dropConfig hlimit _ (by omega)) fun _ ↦ ?_
  exact steady_op hlimit ha (fun _ ↦ rfl) fun _ ↦ Pace.paced_pure (Nat.le_refl 35)

omit hlimit [SerdeJson] in
theorem steady_panicReport (id : LoopId) :
    Steady 41 40 34 (panicReport id) fun _ ↦ 41 := by
  refine Pace.paced_bind (steady_finishOnce (by decide) (by decide)) ?_
  rintro ⟨finish, discarded⟩
  have hdeliver : ∀ report : LoopReport, Steady 41 40 37
      ((perform (.publishState (.new id .finished 0 ConfigRevision.initial))).bind fun _ ↦
        (perform (.sendReport report)).bind fun _ ↦ (perform .cancelToken).bind fun _ ↦
          (dropConfig discarded).bind fun _ ↦ .pure report) fun _ ↦ 41 := by
    intro report
    refine steady_op (by decide) (by decide) (fun _ ↦ rfl) fun _ ↦ ?_
    refine steady_op (by decide) (by decide) (fun _ ↦ rfl) fun _ ↦ ?_
    refine steady_op (by decide) (by decide) (fun _ ↦ rfl) fun _ ↦ ?_
    refine Pace.paced_bind (steady_dropConfig (by decide) discarded (by decide)) fun _ ↦ ?_
    exact Pace.paced_pure (Nat.le_refl 41)
  cases finish with
  | clean => exact hdeliver _
  | cancelledPrior source => exact hdeliver _
  | alreadyFinished =>
    exact Pace.paced_mono (steady_publishedReport (by decide) (by decide)) (Nat.le_refl 37)
      fun _ ↦ show 38 ≤ 41 by decide

omit hlimit in
/-- The task of a loop performs at most 41 operations between two looks at the token. -/
theorem steady_runLoop (ctx : LoopCtx) (request : LoopRequest) :
    Steady 41 40 0 (runLoop ctx request) fun _ ↦ 41 := by
  refine Pace.paced_catchUnwind (m := 34) (d := fun _ ↦ 35) ?_ ?_ ?_
  · exact steady_runLoopInner (by decide) ctx request (Nat.le_refl 34)
  · exact fun report ↦ Pace.paced_pure (show 35 ≤ 41 by decide)
  · exact steady_panicReport ctx.id

end MinicoreRuntime
