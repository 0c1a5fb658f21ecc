import MinicoreRuntime.AgentLoop.Conformance
import MinicoreRuntime.AgentLoop.Rounds

/-!
# Approvals

The host is asked to approve a tool call only what the policy asked for: an interaction for an
approval is set right after the policy ruled that the call needs one, and with its request.

## Main definitions

* `Ruling`, `lastRuling`: the last decision of a policy since an item was appended.
* `approvalMonitor`: interactions for approvals are those that a policy asked for.

## Main results

* `approval_runToolCall`: one call.
* `run_approvals`: every run.
-/

namespace MinicoreRuntime

open Interactive

/-! ## Rulings -/

/-- A decision of a policy. -/
structure Ruling where
  policy : PolicyHandle
  invocation : ToolInvocation
  decision : ToolDecision

/-- The decision that an operation answers with. -/
def Op.ruling? : (o : Op) → o.Answer → Option Ruling
  | .pollPort (.decide policy invocation _ _) _, .ready (.ok decision) =>
    some ⟨policy, invocation, decision⟩
  | _, _ => none

/-- Whether an operation appends an item. -/
def Op.appends : Op → Bool
  | .append _ => true
  | _ => false

/-- The last decision of a policy since an item was appended. -/
def lastRuling : List (Entry interface Nat) → Option Ruling
  | [] => none
  | e :: past => if e.op.appends then none else (e.op.ruling? e.answer).or (lastRuling past)

theorem lastRuling_cons {o : Op} (happends : o.appends = false) {r : o.Answer}
    (hruling : o.ruling? r = none) (n : Nat) (past : List (Entry interface Nat)) :
    lastRuling (⟨o, n, r⟩ :: past) = lastRuling past := by
  rw [lastRuling, if_neg (by simp [happends]), hruling, Option.none_or]

/-- The last decision asks for this approval. -/
def AsksFor (request : ApprovalRequest) (t : List (Entry interface Nat)) : Prop :=
  ∃ ruling, lastRuling t = some ruling ∧ ruling.decision = .requireApproval request

/-! ## The monitor -/

/-- Interactions for approvals are those that a policy asked for. -/
def approvalMonitor : Monitor interface Nat :=
  .history (fun past o ↦ match o with
    | .setInteraction slot => ∀ request, slot.expected = .approval request → AsksFor request past
    | _ => True) fun _ _ _ _ ↦ True

/-- Whether an operation sets an interaction. -/
def Op.sets : Op → Bool
  | .setInteraction _ => true
  | _ => false

section

variable {t : List (Entry interface Nat)} {α : Type}

/-- Operations that set no interaction are free. -/
theorem approval_free {o : Op} (ho : o.sets = false) : approvalMonitor.Free o := by
  intro t
  cases o with
  | setInteraction slot => exact absurd ho (by simp [Op.sets])
  | _ => trivial

/-- A program of such operations. -/
theorem approval_keeps {p : Action α} (hp : p.Uses fun o : Op ↦ o.sets = false) :
    approvalMonitor.Keeps (fun _ ↦ True) (fun _ ↦ True) p :=
  approvalMonitor.keeps_of_free (fun _ ↦ approval_free) hp

/-- Only questions set interactions. -/
theorem Op.sets_of {o : Op} (h : o.plain = true ∨ o.calls = true ∨ o.outer = true) :
    o.sets = false := by
  cases o with
  | setInteraction slot =>
    exact absurd h (by simp [Op.calls, Op.outer, Op.plain, Op.routine, Op.finishes])
  | _ => rfl

theorem Op.sets_of_plain {o : Op} (h : o.plain = true) : o.sets = false := sets_of (.inl h)

theorem Op.sets_of_calls {o : Op} (h : o.calls = true) : o.sets = false := sets_of (.inr (.inl h))

/-! ## Questions -/

variable {ctx : LoopCtx}

/-- A question to the host, for an approval only where the policy asks for it. -/
theorem approval_askHost (invocation : ToolInvocation) (kind : InteractionKind)
    (h : ∀ request, kind = .approval request → AsksFor request t) :
    approvalMonitor.wp (askHost ctx invocation kind) (.ofReturned fun _ _ ↦ True) t := by
  refine approvalMonitor.wp_call_bind_of trivial fun n id _ ↦ ?_
  cases id with
  | none => trivial
  | some id =>
  refine approvalMonitor.wp_call_bind_of trivial fun n₁ channel _ ↦ ?_
  -- Neither the identifier nor the channel is a decision.
  have hasks : ∀ request, kind = .approval request →
      AsksFor request (⟨.oneshot, n₁, channel⟩ :: ⟨.newInteractionId, n, some id⟩ :: t) := by
    intro request hkind
    obtain ⟨ruling, hruling, hdecision⟩ := h request hkind
    refine ⟨ruling, ?_, hdecision⟩
    rwa [lastRuling_cons rfl rfl, lastRuling_cons rfl rfl]
  refine approvalMonitor.wp_call_bind_of hasks fun n₂ set _ ↦ ?_
  cases set with
  | false => trivial
  | true =>
  refine approvalMonitor.wp_free_call (approval_free rfl) fun waiting t₁ ↦ ?_
  refine wp_free_publish (approval_free rfl) (approval_free rfl) fun t₂ ↦ ?_
  refine approvalMonitor.wp_free_call (approval_free rfl) fun _ t₃ ↦ ?_
  refine approvalMonitor.wp_bind_of (Q := fun _ _ ↦ True) ?_ ?_
  · refine approvalMonitor.wp_iterate (fun _ _ ↦ True) trivial fun _ t₄ _ ↦ ?_
    refine approvalMonitor.wp_call_bind_of trivial fun n₄ polled _ ↦ ?_
    rcases polled with - | - | (- | answer) | - | - <;> trivial
  · rintro (path | answer) t₅ -
    · exact approvalMonitor.wp_free_call (approval_free rfl) fun _ _ ↦ trivial
    · refine approvalMonitor.wp_free_call (approval_free rfl) fun _ t₆ ↦ ?_
      refine approvalMonitor.wp_free_call (approval_free rfl) fun _ t₇ ↦ ?_
      refine approvalMonitor.wp_free_call (approval_free rfl) fun running t₈ ↦ ?_
      exact wp_free_publish (approval_free rfl) (approval_free rfl) fun _ ↦ trivial

/-! ## Calls -/

/-- What the policy returned is the last decision. -/
theorem approval_runPortCall (policy : PolicyHandle) (invocation : ToolInvocation) (spec : ToolSpec)
    (turnDeadline timeout : Nat) :
    approvalMonitor.wp
      (runPortCall (pure ()) turnDeadline timeout fun deadline ↦
        .decide policy invocation spec deadline)
      (.ofReturned fun outcome t' ↦ ∀ decision, outcome = .returned (.ok decision) →
        lastRuling t' = some ⟨policy, invocation, decision⟩) t := by
  refine approvalMonitor.wp_call_bind_of trivial fun n cancelled _ ↦ ?_
  -- Only a poll that is ready returns a decision, and that poll is the last ruling.
  cases cancelled with
  | true => exact fun decision heq ↦ absurd heq (by simp)
  | false =>
  refine approvalMonitor.wp_call_bind_of trivial fun n₁ deadline _ ↦ ?_
  cases deadline with
  | none => exact fun decision heq ↦ absurd heq (by simp)
  | some deadline =>
  refine approvalMonitor.wp_call_bind_of trivial fun n₂ now _ ↦ ?_
  dsimp only
  split
  · exact fun decision heq ↦ absurd heq (by simp)
  refine approvalMonitor.wp_call_bind_of trivial fun n₃ made _ ↦ ?_
  cases made with
  | false => exact fun decision heq ↦ absurd heq (by simp)
  | true =>
  refine approvalMonitor.wp_bind_of (Q := fun outcome t' ↦ ∀ decision,
    outcome = .returned (.ok decision) → lastRuling t' = some ⟨policy, invocation, decision⟩) ?_ ?_
  · refine approvalMonitor.wp_iterate (fun _ _ ↦ True) trivial fun _ t₄ _ ↦ ?_
    refine approvalMonitor.wp_call_bind_of trivial fun n₄ polled _ ↦ ?_
    cases polled with
    | ready result =>
      intro decision heq
      obtain rfl : result = .ok decision := PortCallOutcome.returned.inj heq
      rfl
    | pending => trivial
    | _ => exact fun decision heq ↦ absurd heq (by simp)
  · -- Dropping the future rules on nothing.
    intro outcome t₄ ht₄
    refine approvalMonitor.wp_call_bind_of trivial fun n₅ r _ ↦ fun decision heq ↦ ?_
    exact (lastRuling_cons (o := .dropFuture) rfl rfl n₅ t₄).trans (ht₄ decision heq)

/-- Where the policy's decision leads to a question, it asked for the approval. -/
theorem approval_decidePolicy (policy : Option PolicyHandle) (invocation : ToolInvocation)
    (spec : ToolSpec) (deadline : Nat) :
    approvalMonitor.wp (decidePolicy ctx policy invocation spec deadline)
      (.ofReturned fun step t' ↦ ∀ request, step = .requireApproval request → AsksFor request t')
      t := by
  unfold decidePolicy
  cases policy with
  | none => exact fun request heq ↦ absurd heq (by simp)
  | some policy =>
    refine approvalMonitor.wp_bind_of
      (approval_runPortCall policy invocation spec deadline ctx.options.policyTimeout) ?_
    intro outcome t' hruled request heq
    exact ⟨_, hruled _ (policyStep_requireApproval heq).1, rfl⟩

theorem uses_runToolPort_sets (requestIndex : Nat) (invocation : ToolInvocation)
    (implementation : ToolHandle) (deadline : Nat) :
    (runToolPort ctx requestIndex invocation implementation deadline).Uses
      fun o : Op ↦ o.sets = false := by
  refine uses_call_bind rfl fun _ ↦ Prog.uses_bind ?_ fun result ↦ ?_
  · exact Traversal.uses_runPortCall (fun _ ↦ Op.sets_of_plain) (fun _ ↦ Op.sets_of_calls)
      (uses_awaitTool (fun _ ↦ Op.sets_of_plain) ctx requestIndex) _ _ _
  · refine uses_call_bind rfl fun _ ↦ uses_call_bind rfl fun _ ↦ ?_
    refine Prog.uses_bind (Prog.uses_iterate fun _ ↦ ?_) fun _ ↦ uses_call_bind rfl fun _ ↦ trivial
    exact uses_forwardToolProgress (fun _ ↦ Op.sets_of_plain) ctx requestIndex

/-- A call that may run asks the host for no approval. -/
theorem approval_executeTool (requestIndex : Nat) (invocation : ToolInvocation)
    (enabled : EnabledTool) :
    approvalMonitor.wp (executeTool ctx requestIndex invocation enabled)
      (.ofReturned fun _ _ ↦ True) t := by
  refine approvalMonitor.wp_free_bind (fun _ ↦ approval_free)
    (uses_turnDeadline (fun _ ↦ Op.sets_of_plain) _) fun deadline t₁ ↦ ?_
  refine approvalMonitor.wp_free_bind (fun _ ↦ approval_free)
    (uses_runToolPort_sets requestIndex invocation _ deadline) ?_
  rintro (output | request | - | path) t₂
  · trivial
  · refine approvalMonitor.wp_bind_of
      (approval_askHost invocation (.toolInput request) fun _ heq ↦ absurd heq (by simp)) ?_
    rintro (path | (decision | answer)) t₃ -
    · trivial
    · trivial
    · dsimp only
      split <;> trivial
  · trivial
  · trivial

theorem approval_deniedResult (requestIndex : Nat) (invocation : ToolInvocation)
    (reason : Option BoundedText) :
    approvalMonitor.wp (deniedResult ctx requestIndex invocation reason)
      (.ofReturned fun _ _ ↦ True) t := by
  unfold deniedResult
  split <;> trivial

/-- One call. -/
theorem approval_runToolCall (requestIndex : Nat) (invocation : ToolInvocation)
    (enabled : EnabledTool) (policy : Option PolicyHandle) :
    approvalMonitor.wp (runToolCall ctx requestIndex invocation enabled policy)
      (.ofReturned fun _ _ ↦ True) t := by
  refine approvalMonitor.wp_free_bind (fun _ ↦ approval_free)
    (uses_turnDeadline (fun _ ↦ Op.sets_of_plain) _) fun deadline t₁ ↦ ?_
  refine approvalMonitor.wp_bind_of
    (approval_decidePolicy policy invocation enabled.spec deadline) fun step t₂ hstep ↦ ?_
  cases step with
  | allow => exact approval_executeTool requestIndex invocation enabled
  | denied reason => exact approval_deniedResult requestIndex invocation reason
  | requireApproval request =>
    -- The question that is put is the one of the last ruling.
    have hasks :
        ∀ asked, InteractionKind.approval request = .approval asked → AsksFor asked t₂ := by
      rintro asked ⟨⟩
      exact hstep request rfl
    refine approvalMonitor.wp_bind_of (approval_askHost invocation (.approval request) hasks) ?_
    rintro (path | ((- | -) | answer)) t₃ -
    · trivial
    · exact approval_executeTool requestIndex invocation enabled
    · exact approval_deniedResult requestIndex invocation none
    · trivial
  | _ => trivial

theorem approval_settleCalls (requestIndex : Nat) (outcome : ToolResultOutcome)
    (message : ToolOutput) (calls : List ToolCall) :
    approvalMonitor.wp (settleCalls ctx requestIndex outcome message calls)
      (.ofReturned fun _ _ ↦ True) t := by
  induction calls generalizing t with
  | nil => trivial
  | cons call calls ih => exact approvalMonitor.wp_free_call (approval_free rfl) fun _ _ ↦ ih

/-- The calls of a response. -/
theorem approval_runToolBatch (requestIndex : Nat) (snapshot : ExecutionConfig)
    (calls : List ToolCall) :
    approvalMonitor.wp (runToolBatch ctx requestIndex snapshot calls)
      (.ofReturned fun _ _ ↦ True) t := by
  -- By the calls; each is free to ask what its policy requires.
  induction calls generalizing t with
  | nil => trivial
  | cons call calls ih =>
    have hstep : approvalMonitor.wp (batchStep ctx requestIndex snapshot call)
        (.ofReturned fun _ _ ↦ True) t := by
      refine approvalMonitor.wp_free_call (approval_free rfl) fun cancelled t₁ ↦ ?_
      split
      · trivial
      · split
        · trivial
        · exact approvalMonitor.wp_free_call (approval_free rfl) fun _ _ ↦
            approval_runToolCall _ _ _ _
    refine approvalMonitor.wp_bind_of hstep ?_
    rintro (result | path) t₁ -
    · exact approvalMonitor.wp_free_call (approval_free rfl) fun _ _ ↦
        approvalMonitor.wp_free_call (approval_free rfl) fun _ _ ↦ ih
    · exact approvalMonitor.wp_bind_of (approval_settleCalls _ _ _ (call :: calls))
        fun _ _ _ ↦ trivial

/-! ## The runner -/

/-- Every part of a runner asks only for approvals that a policy asked for. -/
theorem approval_rounds [SerdeJson] (ctx : LoopCtx) :
    Rounds ctx fun p ↦ approvalMonitor.Keeps (fun _ ↦ True) (fun _ ↦ True) p where
  toCompositional := approvalMonitor.keeps_compositional fun _ _ ↦ trivial
  op o ho := approval_keeps (Prog.uses_call (Op.sets_of (.inr (.inr ho))))
  drop config := approval_keeps (uses_dropConfig (fun _ ↦ Op.sets_of_plain) config)
  prompt requestIndex snapshot view deadline := by
    refine approval_keeps (Prog.uses_bind ?_ fun _ ↦ trivial)
    exact Traversal.uses_runPortCall (fun _ ↦ Op.sets_of_plain) (fun _ ↦ Op.sets_of_calls)
      (Prog.uses_pure _ _) _ _ _
  model requestIndex snapshot request deadline := by
    refine approval_keeps (Prog.uses_bind (Prog.uses_call rfl) fun _ ↦ Prog.uses_bind ?_ ?_)
    · exact uses_runDetailed (fun _ ↦ Op.sets_of_plain)
        (uses_drainProgress (fun _ ↦ Op.sets_of_plain) ctx requestIndex) fun _ ↦ rfl
    · refine fun result ↦ uses_call_bind rfl fun _ ↦ uses_call_bind rfl fun _ ↦ ?_
      exact Prog.uses_bind (uses_drainProgress (fun _ ↦ Op.sets_of_plain) ctx requestIndex)
        fun _ ↦ trivial
  batch requestIndex snapshot calls t _ :=
    approval_runToolBatch requestIndex snapshot calls
  settle requestIndex outcome message calls t _ :=
    approval_settleCalls requestIndex outcome message calls

end

/-- In every run the host is asked for the approvals that policies asked for, and no others. -/
theorem run_approvals [SerdeJson] (setup : Setup) (clock : Nat) (schedule : List Turn) :
    approvalMonitor.Accepts (setup.run clock schedule).2.trace := by
  have hrun := approvalMonitor.exec_sound machine
    (World.honours_of_expects fun _ _ _ _ ↦ trivial) (runLoopInner setup.ctx setup.request)
    (w := .start setup.ctx.id setup.ctx.options setup.request.history clock schedule)
    trivial trivial ((approval_rounds setup.ctx).runLoopInner setup.request _ trivial)
  exact hrun.2.1

end MinicoreRuntime
