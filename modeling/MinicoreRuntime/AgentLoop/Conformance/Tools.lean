import MinicoreRuntime.AgentLoop.Quiet

/-!
# Tool calls conform

A runner keeps the rules of its session. This module has the logic to say so and walks through the
programs for the tool calls of a response, bottom up, with one specification for each: what it needs
of the session where it starts, and what it leaves.

## Main definitions

* `Setup.Ensures`: a program keeps the rules and leaves a session with a given property.
* `InBatch`, `InTurn`: the session during the tool calls of a request, and during the turn of one.

## Main results

* `ensures_runPortCall`: a port call.
* `ensures_runToolBatch`: the tool calls of a response.
-/

namespace MinicoreRuntime

open Interactive Session

/-- From the session `s`, the program `p` keeps the rules and leaves a session with `Q`. -/
abbrev Setup.Ensures (setup : Setup) (s : Session) {α : Type} (p : Action α)
    (Q : α → Session → Prop) : Prop :=
  (sessionMonitor setup).wp p (.ofReturned Q) s

section

variable {setup : Setup} {s : Session} {α β : Type}

theorem ensures_mono {p : Action α} {Q R : α → Session → Prop} (h : setup.Ensures s p Q)
    (hR : ∀ a s', Q a s' → R a s') : setup.Ensures s p R :=
  (sessionMonitor setup).wp_mono_returned h hR

theorem ensures_pure {a : α} {Q : α → Session → Prop} (h : Q a s) :
    setup.Ensures s (pure a) Q := h

theorem ensures_bind {p : Action α} {f : α → Action β} {Q : α → Session → Prop}
    {R : β → Session → Prop} (hp : setup.Ensures s p Q)
    (hf : ∀ a s', Q a s' → setup.Ensures s' (f a) R) : setup.Ensures s (p.bind f) R :=
  (sessionMonitor setup).wp_bind_of hp hf

theorem ensures_op {o : Op} {f : o.Answer → Action α} {R : α → Session → Prop}
    (hpermits : s.Permits setup o)
    (hf : ∀ n r, s.Expects o n r → setup.Ensures (s.next o n r) (f r) R) :
    setup.Ensures s ((perform o).bind f) R :=
  (sessionMonitor setup).wp_call_bind_of hpermits hf

/-- A quiet operation leaves the session alone. -/
theorem ensures_quiet {o : Op} {f : o.Answer → Action α} {R : α → Session → Prop}
    (h : o.quiet = true) (hf : ∀ r, setup.Ensures s (f r) R) :
    setup.Ensures s ((perform o).bind f) R :=
  (sessionMonitor setup).wp_silent_call (quiet_silent setup h) hf

/-- A program of quiet operations leaves the session alone. -/
theorem ensures_uses_bind {p : Action α} {f : α → Action β} {R : β → Session → Prop}
    (hp : p.Uses Op.Quiet) (hf : ∀ a, setup.Ensures s (f a) R) :
    setup.Ensures s (p.bind f) R :=
  (sessionMonitor setup).wp_silent_bind (fun _ ↦ quiet_silent setup) hp hf

/-- Publishing a state the rules allow. -/
theorem ensures_publish {state : LoopState} {f : Unit → Action α} {R : α → Session → Prop}
    (h : s.PermitsState state) (hf : setup.Ensures { s with state := state } (f ()) R) :
    setup.Ensures s ((publish state).bind f) R := by
  show setup.Ensures s ((perform (.publishState state)).bind fun _ ↦
    (perform (.tryEmit (.stateChanged state))).bind f) R
  refine ensures_op h fun n r _ ↦ ?_
  exact ensures_op rfl fun n r _ ↦ hf

/-! ## Port calls -/

/-- A port call changes the session where its future is made and where it answers. -/
theorem ensures_runPortCall {port : Port} {awaiter : Action Unit} {turnDeadline timeout : Nat}
    {make : Nat → PortCall port} (hawait : awaiter.Uses Op.Quiet)
    (hmake : ∀ d, s.PermitsCall setup false (make d))
    (hpoll : ∀ d, (s.afterMake (make d)).PermitsCall setup true (make d)) :
    setup.Ensures s (runPortCall awaiter turnDeadline timeout make) fun outcome s' ↦
      (∃ d result, outcome = .returned result ∧
        s' = (s.afterMake (make d)).afterReady (make d) result) ∨
      (∀ result, outcome ≠ .returned result) ∧ (s' = s ∨ ∃ d, s' = s.afterMake (make d)) := by
  unfold runPortCall
  refine ensures_quiet rfl fun cancelled ↦ ?_
  split
  · exact .inr ⟨by simp, .inl rfl⟩
  refine ensures_quiet rfl fun deadline ↦ ?_
  cases deadline with
  | none => exact .inr ⟨by simp, .inl rfl⟩
  | some deadline =>
    refine ensures_quiet rfl fun now ↦ ?_
    split
    · exact .inr ⟨by simp, .inl rfl⟩
    -- Everything before is quiet; the future is made in the phase of the call.
    refine ensures_op (hmake deadline.instant) fun n made _ ↦ ?_
    split
    · refine ensures_bind (Q := fun outcome s' ↦
        (∃ d result, outcome = .returned result ∧
          s' = (s.afterMake (make d)).afterReady (make d) result) ∨
        (∀ result, outcome ≠ .returned result) ∧ ∃ d, s' = s.afterMake (make d)) ?_ ?_
      · refine (sessionMonitor setup).wp_iterate
          (fun _ s' ↦ s' = s.afterMake (make deadline.instant)) rfl ?_
        rintro - s' rfl
        refine ensures_op (hpoll deadline.instant) fun n polled _ ↦ ?_
        -- Only a poll that is ready changes the phase once more.
        cases polled with
        | ready result => exact .inl ⟨_, result, rfl, rfl⟩
        | cancelled => exact .inr ⟨by simp, _, rfl⟩
        | expired => exact .inr ⟨by simp, _, rfl⟩
        | panicked => exact .inr ⟨by simp, _, rfl⟩
        | pending => exact ensures_uses_bind hawait fun _ ↦ rfl
      · rintro outcome s' (h | ⟨h, d, rfl⟩)
        · exact ensures_quiet rfl fun _ ↦ .inl h
        · exact ensures_quiet rfl fun _ ↦ .inr ⟨h, .inr ⟨d, rfl⟩⟩
    · exact .inr ⟨by simp, .inr ⟨_, rfl⟩⟩

end

/-! ## Tool calls -/

/-- The session during the tool calls of a request: nothing is taken, and the published state is
that of the request. -/
structure InBatch (base : Session) (issue : Issue) (s : Session) : Prop where
  queue : s.queue = []
  running : s.Running
  config : s.config = base.config
  revision : s.revision = base.revision
  responses : s.responses = base.responses
  stateRevision : s.state.configRevision = issue.revision
  stateIndex : s.state.requestIndex = issue.index

/-- The session during the turn of a tool call. -/
structure InTurn (base : Session) (c : Calling) (s : Session) : Prop extends
    InBatch base c.issue s where
  phase : s.phase = .calling c

/-- A result of a tool call. -/
structure IsResultOf (setup : Setup) (c : Calling) (result : ToolResultHistory) : Prop where
  loopId : result.loopId = setup.ctx.id
  requestIndex : result.requestIndex = c.issue.index
  callId : result.callId = c.call.toolCallId
  toolName : result.toolName = c.call.name

section

variable {setup : Setup} {base s : Session} {c : Calling}

theorem InTurn.withPhase (h : InTurn base c s) {c' : Calling} (hissue : c'.issue = c.issue) :
    InTurn base c' { s with phase := .calling c' } :=
  ⟨⟨h.queue, h.running, h.config, h.revision, h.responses, by rw [hissue]; exact h.stateRevision,
    by rw [hissue]; exact h.stateIndex⟩, rfl⟩

/-- Only an `Allow` of the policy allows a call. -/
theorem policyStep_allow {outcome : PortCallOutcome .policy} (h : policyStep outcome = .allow) :
    outcome = .returned (.ok .allow) := by
  unfold policyStep at h
  split at h
  · split at h
    · exact absurd h (by simp)
    · split at h
      · rfl
      · exact absurd h (by simp)
      · exact absurd h (by simp)
  all_goals exact absurd h (by simp)

/-- Only a valid `RequireApproval` of the policy asks for approval. -/
theorem policyStep_requireApproval {outcome : PortCallOutcome .policy} {request : ApprovalRequest}
    (h : policyStep outcome = .requireApproval request) :
    outcome = .returned (.ok (.requireApproval request)) ∧ request.validate = true := by
  unfold policyStep at h
  split at h
  · split at h
    · exact absurd h (by simp)
    · rename_i hvalid
      split at h
      · exact absurd h (by simp)
      · exact absurd h (by simp)
      · cases h
        exact ⟨rfl, by simpa [ToolDecision.validate] using hvalid⟩
  all_goals exact absurd h (by simp)

/-- The policy's decision about a call whose turn begins. -/
theorem ensures_decidePolicy (h : InTurn base c s) (hstarted : c.started = false)
    {enabled : EnabledTool} (henabled : c.issue.config.tools.find c.call.name = some enabled)
    (deadline : Nat) :
    setup.Ensures s
      (decidePolicy setup.ctx c.issue.config.policy c.call.invocation enabled.spec deadline)
      fun step s' ↦ ∃ clearance, InTurn base { c with clearance := clearance } s' ∧
        (step = .allow → Calling.Cleared { c with clearance := clearance }) ∧
        ∀ request, step = .requireApproval request → clearance = .asked request := by
  unfold decidePolicy
  cases hpolicy : c.issue.config.policy with
  | none => exact ⟨c.clearance, h, fun _ ↦ .inl hpolicy, by simp⟩
  | some policy =>
    have hpermits : ∀ made d,
        s.PermitsCall setup made (.decide policy c.call.invocation enabled.spec d) :=
      fun _ _ ↦ ⟨c, enabled, h.phase, hpolicy, rfl, hstarted, henabled, rfl⟩
    refine ensures_bind (ensures_runPortCall (Prog.uses_pure _ _) (hpermits false)
      (hpermits true)) ?_
    rintro outcome s' (⟨d, result, rfl, rfl⟩ | ⟨hnone, hs'⟩)
    · cases result with
      | error e => exact ⟨c.clearance, h, by simp [policyStep], by simp [policyStep]⟩
      | ok decision =>
        have hafter : (s.afterMake (.decide policy c.call.invocation enabled.spec d)).afterReady
            (.decide policy c.call.invocation enabled.spec d) (.ok decision) =
            { s with phase := .calling { c with clearance := decided decision } } := by
          simp only [afterMake, afterReady, mapClearance, h.phase]
        rw [hafter]
        refine ⟨decided decision, h.withPhase rfl, fun hallow ↦ ?_, fun request hrequest ↦ ?_⟩
        · have heq := policyStep_allow hallow
          obtain rfl : decision = .allow := by simpa using heq
          exact .inr (.inl rfl)
        · obtain ⟨heq, hvalid⟩ := policyStep_requireApproval hrequest
          obtain rfl : decision = .requireApproval request := by simpa using heq
          simp [decided, hvalid]
    · -- Without an answer the session is what it was, and the call is not allowed.
      have hs : s' = s := by
        rcases hs' with rfl | ⟨d, rfl⟩
        · rfl
        · rfl
      subst hs
      exact ⟨c.clearance, h, fun hallow ↦ absurd (policyStep_allow hallow) (hnone _),
        fun request hrequest ↦ absurd (policyStep_requireApproval hrequest).1 (hnone _)⟩

/-- An approval of the host, asked for by the policy, is granted. -/
def GrantedBy (kind : InteractionKind) (answer : Except FailPath InteractionAnswer)
    (before after : Clearance) : Prop :=
  ∀ request request', before = .asked request → kind = .approval request' →
    answer = .ok (.approval .allowOnce) → ∃ slot, after = .granted slot

/-- The wait for an answer on the channel of the last interaction. -/
theorem ensures_pollAnswer (h : InTurn base c s) (channel : Nat) (deadline : Option Nat) :
    setup.Ensures s (Prog.iterate (fun _ ↦ pollAnswer channel deadline) ()) fun answer s' ↦
      ∃ clearance, InTurn base { c with clearance := clearance } s' ∧
        (answer = .ok (.approval .allowOnce) → clearance = grantedOn channel c.clearance) := by
  refine (sessionMonitor setup).wp_iterate (fun _ s' ↦ s' = s) rfl ?_
  rintro - s' rfl
  -- Any answer but a grant leaves the clearance alone.
  have hsame : ∀ answer : Except FailPath InteractionAnswer, answer ≠ .ok (.approval .allowOnce) →
      ∃ clearance, InTurn base { c with clearance := clearance } s' ∧
        (answer = .ok (.approval .allowOnce) → clearance = grantedOn channel c.clearance) :=
    fun answer hne ↦ ⟨c.clearance, h, fun heq ↦ absurd heq hne⟩
  refine ensures_op trivial fun n polled _ ↦ ?_
  cases polled with
  | cancelled => exact hsame _ (by simp)
  | expired => exact hsame _ (by simp)
  | panicked => rfl
  | pending => rfl
  | ready answer =>
    cases answer with
    | none => exact hsame _ (by simp)
    | some answer =>
      cases answer with
      | toolInput answer => exact hsame _ (by simp)
      | approval decision =>
        cases decision with
        | deny => exact hsame _ (by simp)
        | allowOnce =>
          refine ⟨grantedOn channel c.clearance, ?_, fun _ ↦ rfl⟩
          have hnext : { s' with phase := mapClearance (grantedOn channel) s'.phase } =
              { s' with phase := .calling { c with clearance := grantedOn channel c.clearance } } :=
            by simp only [mapClearance, h.phase]
          show InTurn base _ { s' with phase := mapClearance (grantedOn channel) s'.phase }
          rw [hnext]
          exact h.withPhase rfl

/-- A question to the host during the turn of a call. -/
theorem ensures_askHost (h : InTurn base c s) (kind : InteractionKind) :
    setup.Ensures s (askHost setup.ctx c.call.invocation kind) fun answer s' ↦
      ∃ clearance, InTurn base { c with clearance := clearance } s' ∧
        GrantedBy kind answer c.clearance clearance := by
  have hsame : ∀ path : FailPath, ∃ clearance, InTurn base { c with clearance := clearance } s ∧
      GrantedBy kind (.error path) c.clearance clearance :=
    fun path ↦ ⟨c.clearance, h, fun _ _ _ _ heq ↦ absurd heq (by simp)⟩
  unfold askHost
  refine ensures_quiet rfl fun id ↦ ?_
  cases id with
  | none => exact hsame _
  | some id =>
    refine ensures_op trivial fun n channel hchannel ↦ ?_
    obtain ⟨rfl, hfresh⟩ : channel = s.channels ∧ ∀ slot ∈ s.slots, slot.reply ≠ channel := hchannel
    let s₀ : Session := { s with channels := s.channels + 1 }
    show setup.Ensures s₀ (waitInteraction setup.ctx c.call.invocation id kind s.channels) _
    have h₀ : InTurn base c s₀ := ⟨⟨h.queue, h.running, h.config, h.revision, h.responses,
      h.stateRevision, h.stateIndex⟩, h.phase⟩
    let slot : InteractionSlot := ⟨id, kind, s.channels⟩
    have hpermits : s₀.Permits setup (.setInteraction slot) :=
      ⟨⟨c, h.phase⟩, Nat.lt_succ_self _, hfresh⟩
    unfold waitInteraction
    refine ensures_op hpermits fun n set _ ↦ ?_
    cases set with
    | false => exact ⟨c.clearance, h₀, fun _ _ _ _ heq ↦ absurd heq (by simp)⟩
    | true =>
      -- The slot is set; from here on the clearance may wait for it.
      let c₁ : Calling := { c with clearance := waitingFor slot c.clearance }
      have hnext : s₀.next (.setInteraction slot) n true =
          { s₀ with slots := slot :: s₀.slots, phase := .calling c₁ } := by
        simp only [Session.next, mapClearance, h₀.phase, c₁]
      have h₁ : InTurn base c₁ (s₀.next (.setInteraction slot) n true) := by
        rw [hnext]
        exact ⟨⟨h.queue, h.running, h.config, h.revision, h.responses, h.stateRevision,
          h.stateIndex⟩, rfl⟩
      generalize s₀.next (.setInteraction slot) n true = s₁ at h₁
      refine ensures_op trivial fun n waiting hwaiting ↦ ?_
      obtain rfl : waiting = s₁.state := hwaiting
      refine ensures_publish ⟨c₁, h₁.phase, h₁.stateRevision, h₁.stateIndex⟩ ?_
      have h₂ : InTurn base c₁ { s₁ with state := { s₁.state with
          status := .waitingForInput
          pendingInteraction :=
            some ⟨id, c.call.invocation.toolCallId, c.call.invocation.toolName, kind⟩ } } :=
        ⟨⟨h₁.queue, h₁.running, h₁.config, h₁.revision, h₁.responses, h₁.stateRevision,
          h₁.stateIndex⟩, h₁.phase⟩
      refine ensures_quiet rfl fun _ ↦ ?_
      refine ensures_bind (ensures_pollAnswer h₂ s.channels setup.ctx.options.deadline) ?_
      rintro answer s₃ ⟨clearance, h₃, hgranted⟩
      have hby : GrantedBy kind answer c.clearance clearance := by
        rintro request request' hasked rfl hanswer
        refine ⟨slot, ?_⟩
        rw [hgranted hanswer]
        simp [c₁, hasked, waitingFor, slot, grantedOn]
      cases answer with
      | error path => exact ensures_quiet rfl fun _ ↦ ⟨clearance, h₃, hby⟩
      | ok answer =>
        refine ensures_quiet rfl fun _ ↦ ensures_quiet rfl fun _ ↦ ?_
        refine ensures_op trivial fun n running hrunning ↦ ?_
        obtain rfl : running = s₃.state := hrunning
        refine ensures_publish ⟨_, h₃.phase, h₃.stateRevision, h₃.stateIndex⟩ ?_
        exact ⟨clearance, ⟨⟨h₃.queue, h₃.running, h₃.config, h₃.revision, h₃.responses,
          h₃.stateRevision, h₃.stateIndex⟩, h₃.phase⟩, hby⟩

/-- Two descriptions of the turn of one call. -/
def SameTurn (c c' : Calling) : Prop :=
  c'.issue = c.issue ∧ c'.call = c.call ∧ c'.rest = c.rest

/-- What a step of a tool call leaves: the call's turn, and a result of the call. -/
def AfterStep (setup : Setup) (base : Session) (c : Calling) (step : ToolStep) (s : Session) :
    Prop :=
  (∃ c', SameTurn c c' ∧ InTurn base c' s) ∧
    ∀ result, step = .result result → IsResultOf setup c result

theorem InTurn.afterStop {c' : Calling} {path : FailPath} (h : InTurn base c' s)
    (hsame : SameTurn c c') : AfterStep setup base c (.stop path) s :=
  ⟨⟨c', hsame, h⟩, by simp⟩

theorem InTurn.afterResult {c' : Calling} {result : ToolResultHistory} (h : InTurn base c' s)
    (hsame : SameTurn c c') (hresult : IsResultOf setup c result) :
    AfterStep setup base c (.result result) s :=
  ⟨⟨c', hsame, h⟩, by rintro _ ⟨⟩; exact hresult⟩

theorem isResultOf_terminal (outcome : ToolResultOutcome) (message : ToolOutput) (max : Nat) :
    IsResultOf setup c (terminalToolResult setup.ctx.id c.issue.index c.call.toolCallId c.call.name
      outcome message max) :=
  ⟨rfl, rfl, rfl, rfl⟩

theorem isResultOf_completed (output : ToolOutput) (max : Nat) :
    IsResultOf setup c
      (completedResult setup.ctx.id c.issue.index c.call.invocation output max) := by
  unfold completedResult
  split
  · exact ⟨rfl, rfl, rfl, rfl⟩
  · exact isResultOf_terminal _ _ _

theorem isResultOf_providedInput (content : Text) (max : Nat) :
    IsResultOf setup c
      (providedInputResult setup.ctx.id c.issue.index c.call.invocation content max) := by
  unfold providedInputResult
  split
  · split
    · exact ⟨rfl, rfl, rfl, rfl⟩
    · exact isResultOf_terminal _ _ _
  · exact isResultOf_terminal _ _ _

theorem ensures_deniedResult (c : Calling) {c' : Calling} (h : InTurn base c' s)
    (hsame : SameTurn c c') (reason : Option BoundedText) :
    setup.Ensures s (deniedResult setup.ctx c.issue.index c.call.invocation reason)
      (AfterStep setup base c) := by
  unfold deniedResult
  split
  · exact ensures_pure (h.afterResult hsame ⟨rfl, rfl, rfl, rfl⟩)
  · trivial

/-- The execution of a tool whose call is cleared. -/
theorem ensures_runToolPort (h : InTurn base c s) (hcleared : c.Cleared)
    (hstarted : c.started = false) {enabled : EnabledTool}
    (henabled : c.issue.config.tools.find c.call.name = some enabled) (deadline : Nat) :
    setup.Ensures s
      (runToolPort setup.ctx c.issue.index c.call.invocation enabled.implementation deadline)
      fun _ s' ↦ ∃ started, InTurn base { c with started := started } s' := by
  unfold runToolPort
  refine ensures_quiet rfl fun _ ↦ ?_
  have hmade : ∀ d, s.afterMake (.execute enabled.implementation c.call.invocation d) =
      { s with phase := .calling { c with started := true } } := by
    intro d
    simp only [afterMake, h.phase]
  -- What follows the call is quiet, whatever its outcome.
  have hrest : ∀ (s' : Session) (result : PortCallOutcome .tool),
      (∃ started, InTurn base { c with started := started } s') →
      setup.Ensures s' ((perform .takeToolDropped).bind fun dropped ↦
        (perform (.recordDropped dropped)).bind fun _ ↦
        (Prog.iterate (fun _ ↦ forwardToolProgress setup.ctx c.issue.index) ()).bind fun _ ↦
        (perform .closeToolProgress).bind fun _ ↦ Prog.pure (toolPort result))
        fun _ s' ↦ ∃ started, InTurn base { c with started := started } s' := by
    intro s' result hs'
    refine ensures_quiet rfl fun _ ↦ ensures_quiet rfl fun _ ↦ ?_
    refine ensures_uses_bind (Prog.uses_iterate fun _ ↦
      uses_forwardToolProgress (fun _ ↦ Op.quiet_of_plain) setup.ctx c.issue.index) fun _ ↦ ?_
    exact ensures_quiet rfl fun _ ↦ hs'
  refine ensures_bind
    (ensures_runPortCall (uses_awaitTool (fun _ ↦ Op.quiet_of_plain) _ _) ?_ ?_) ?_
  · exact fun d ↦ ⟨c, enabled, h.phase, hcleared, rfl, hstarted, henabled, rfl⟩
  · intro d
    rw [hmade]
    exact ⟨_, enabled, rfl, hcleared, rfl, rfl, henabled, rfl⟩
  · -- The call ended with a result, before its future was made, or without a result.
    rintro outcome s' (⟨d, result, rfl, rfl⟩ | ⟨-, rfl | ⟨d, rfl⟩⟩)
    · refine hrest _ _ ⟨true, ?_⟩
      rw [hmade]
      exact h.withPhase rfl
    · exact hrest _ _ ⟨c.started, h⟩
    · refine hrest _ _ ⟨true, ?_⟩
      rw [hmade]
      exact h.withPhase rfl

/-- The rest of a call that is cleared. -/
theorem ensures_executeTool (c : Calling) {c' : Calling} (h : InTurn base c' s)
    (hsame : SameTurn c c') (hcleared : c'.Cleared) (hstarted : c'.started = false)
    {enabled : EnabledTool} (henabled : c.issue.config.tools.find c.call.name = some enabled) :
    setup.Ensures s (executeTool setup.ctx c.issue.index c.call.invocation enabled)
      (AfterStep setup base c) := by
  obtain ⟨issue, call, rest, clearance, started⟩ := c'
  obtain ⟨rfl, rfl, rfl⟩ := hsame
  unfold executeTool
  refine ensures_uses_bind (uses_turnDeadline (fun _ ↦ Op.quiet_of_plain) _) fun deadline ↦ ?_
  refine ensures_bind (ensures_runToolPort h hcleared hstarted henabled deadline) ?_
  rintro outcome s' ⟨started, h'⟩
  cases outcome with
  | completed output =>
    exact ensures_pure (h'.afterResult ⟨rfl, rfl, rfl⟩ (isResultOf_completed _ _))
  | failed => exact ensures_pure (h'.afterResult ⟨rfl, rfl, rfl⟩ (isResultOf_terminal _ _ _))
  | stop path => exact ensures_pure (h'.afterStop ⟨rfl, rfl, rfl⟩)
  | requestInput request =>
    refine ensures_bind (ensures_askHost h' (.toolInput request)) ?_
    rintro answer s'' ⟨clearance', h'', -⟩
    cases answer with
    | error path => exact ensures_pure (h''.afterStop ⟨rfl, rfl, rfl⟩)
    | ok answer =>
      cases answer with
      -- An answer of the other kind never comes, and would end the loop.
      | approval decision => exact ensures_pure (h''.afterStop ⟨rfl, rfl, rfl⟩)
      | toolInput answer =>
        dsimp only
        split
        · exact ensures_pure (h''.afterResult ⟨rfl, rfl, rfl⟩ (isResultOf_providedInput _ _))
        · trivial

/-- One call from the beginning of its turn. -/
theorem ensures_runToolCall (h : InTurn base c s) (hstarted : c.started = false)
    {enabled : EnabledTool} (henabled : c.issue.config.tools.find c.call.name = some enabled) :
    setup.Ensures s
      (runToolCall setup.ctx c.issue.index c.call.invocation enabled c.issue.config.policy)
      (AfterStep setup base c) := by
  unfold runToolCall
  refine ensures_uses_bind (uses_turnDeadline (fun _ ↦ Op.quiet_of_plain) _) fun deadline ↦ ?_
  refine ensures_bind (ensures_decidePolicy h hstarted henabled deadline) ?_
  rintro step s' ⟨clearance, h', hallow, happroval⟩
  cases step with
  | allow => exact ensures_executeTool c h' ⟨rfl, rfl, rfl⟩ (hallow rfl) hstarted henabled
  | denied reason => exact ensures_deniedResult c h' ⟨rfl, rfl, rfl⟩ reason
  | cancelled => exact ensures_pure (h'.afterStop ⟨rfl, rfl, rfl⟩)
  | turnDeadline => exact ensures_pure (h'.afterStop ⟨rfl, rfl, rfl⟩)
  | invalid => exact ensures_pure (h'.afterStop ⟨rfl, rfl, rfl⟩)
  | requireApproval request =>
    refine ensures_bind (ensures_askHost h' (.approval request)) ?_
    rintro answer s'' ⟨clearance', h'', hgranted⟩
    cases answer with
    | error path => exact ensures_pure (h''.afterStop ⟨rfl, rfl, rfl⟩)
    | ok answer =>
      cases answer with
      | toolInput answer => exact ensures_pure (h''.afterStop ⟨rfl, rfl, rfl⟩)
      | approval decision =>
        cases decision with
        | deny => exact ensures_deniedResult c h'' ⟨rfl, rfl, rfl⟩ none
        -- The grant that was found clears the call.
        | allowOnce =>
          obtain ⟨slot, hslot⟩ := hgranted request request (happroval request rfl) rfl rfl
          exact ensures_executeTool c h'' ⟨rfl, rfl, rfl⟩ (.inr (.inr ⟨slot, hslot⟩)) hstarted
            henabled

/-! ## Tool batches -/

/-- The phase when the turn passes to the rest of the calls. -/
def nextTurn (issue : Issue) : List ToolCall → Phase
  | [] => .boundary
  | call :: rest => .calling ⟨issue, call, rest, .undecided, false⟩

/-- The session after the result of a call. -/
theorem InTurn.append {c' : Calling} (h : InTurn base c' s) (hsame : SameTurn c c')
    {result : ToolResultHistory} (hresult : IsResultOf setup c result) :
    s.Permits setup (.append (.toolResult result)) ∧
      ∀ n r, InBatch base c.issue (s.next (.append (.toolResult result)) n r) ∧
        (s.next (.append (.toolResult result)) n r).phase = nextTurn c.issue c.rest := by
  obtain ⟨issue, call, rest, clearance, started⟩ := c'
  obtain ⟨rfl, rfl, rfl⟩ := hsame
  refine ⟨⟨h.queue, _, h.phase, hresult.loopId, hresult.requestIndex, hresult.callId,
    hresult.toolName⟩, fun n r ↦ ⟨⟨h.queue, h.running, h.config, h.revision, h.responses,
    h.stateRevision, h.stateIndex⟩, ?_⟩⟩
  show afterAppend s.phase (.toolResult result) = _
  rw [h.phase]
  cases c.rest with
  | nil => rfl
  | cons next rest => rfl

/-- Settling the calls that are left. -/
theorem ensures_settleCalls {c' : Calling} (h : InTurn base c' s) (hsame : SameTurn c c')
    (outcome : ToolResultOutcome) (message : ToolOutput) :
    setup.Ensures s (settleCalls setup.ctx c.issue.index outcome message (c.call :: c.rest))
      fun _ s' ↦ InBatch base c.issue s' ∧ s'.phase = .boundary := by
  obtain ⟨issue, call, rest, clearance, started⟩ := c
  induction rest generalizing s call clearance started c' with
  | nil =>
    obtain ⟨hpermits, hnext⟩ := h.append hsame (isResultOf_terminal outcome message
      setup.ctx.options.limits.maxToolOutputBytes)
    exact ensures_op hpermits fun n r _ ↦ hnext n r
  | cons next rest ih =>
    obtain ⟨hpermits, hnext⟩ := h.append hsame (isResultOf_terminal outcome message
      setup.ctx.options.limits.maxToolOutputBytes)
    refine ensures_op hpermits fun n r _ ↦ ?_
    have h' : InTurn base ⟨issue, next, rest, .undecided, false⟩ _ := ⟨(hnext n r).1, (hnext n r).2⟩
    exact ih h' next .undecided false ⟨rfl, rfl, rfl⟩

/-- One call of a batch from the beginning of its turn. -/
theorem ensures_batchStep (h : InTurn base c s) (hstarted : c.started = false) :
    setup.Ensures s (batchStep setup.ctx c.issue.index c.issue.config c.call)
      (AfterStep setup base c) := by
  unfold batchStep
  refine ensures_quiet rfl fun cancelled ↦ ?_
  split
  · exact ensures_pure (h.afterStop ⟨rfl, rfl, rfl⟩)
  · cases henabled : c.issue.config.tools.find c.call.name with
    | none => trivial
    | some enabled =>
      refine ensures_quiet rfl fun _ ↦ ?_
      exact ensures_runToolCall h hstarted henabled

/-- The calls of a response in order. -/
theorem ensures_runToolBatch (h : InTurn base c s) (hstarted : c.started = false) :
    setup.Ensures s (runToolBatch setup.ctx c.issue.index c.issue.config (c.call :: c.rest))
      fun _ s' ↦ InBatch base c.issue s' ∧ s'.phase = .boundary := by
  obtain ⟨issue, call, rest, clearance, started⟩ := c
  induction rest generalizing s call clearance started with
  | nil =>
    refine ensures_bind (ensures_batchStep h hstarted) ?_
    rintro step s' ⟨⟨c', hsame, h'⟩, hresult⟩
    cases step with
    | stop path => exact ensures_bind (ensures_settleCalls h' hsame .cancelled _) fun _ _ hs ↦ hs
    | result result =>
      refine ensures_quiet rfl fun _ ↦ ?_
      obtain ⟨hpermits, hnext⟩ := h'.append hsame (hresult result rfl)
      exact ensures_op hpermits fun n r _ ↦ hnext n r
  | cons next rest ih =>
    refine ensures_bind (ensures_batchStep h hstarted) ?_
    rintro step s' ⟨⟨c', hsame, h'⟩, hresult⟩
    cases step with
    | stop path => exact ensures_bind (ensures_settleCalls h' hsame .cancelled _) fun _ _ hs ↦ hs
    | result result =>
      refine ensures_quiet rfl fun _ ↦ ?_
      obtain ⟨hpermits, hnext⟩ := h'.append hsame (hresult result rfl)
      refine ensures_op hpermits fun n r _ ↦ ?_
      -- The result moves the turn on to the next call.
      exact ih next .undecided false ⟨(hnext n r).1, (hnext n r).2⟩ rfl

end

end MinicoreRuntime
