import MinicoreRuntime.AgentLoop.Conformance.Tools

/-!
# Runners conform

The walk through the programs of a runner, continued from the tool calls to the whole: boundaries,
requests, the loop of requests and the report.

## Main definitions

* `Ready`: the session at the start of a round.
* `Stopped`: the session where the loop of requests has ended.

## Main results

* `ensures_requestRound`: one round of the loop of requests.
* `ensures_runLoopInner`: the runner of a loop.
-/

namespace MinicoreRuntime

open Interactive Session

variable {setup : Setup} {s : Session}

/-! ## Boundaries -/

/-- What taking inputs leaves of the session `base`. -/
structure AfterInputs (base : Session) (inputs : List UserInput) (s : Session) : Prop where
  queue : s.queue = []
  running : s.Running
  responses : s.responses = base.responses
  config : s.config = base.config
  revision : s.revision = base.revision
  phase : s.phase = if inputs.isEmpty then base.phase else .boundary
  untouched : inputs = [] → s = base

/-- What a boundary leaves of the session `base`. -/
structure AfterBoundary (base : Session) (issuedRevision : Nat) (boundary : Boundary)
    (s : Session) : Prop where
  queue : s.queue = []
  running : s.Running
  responses : s.responses = base.responses
  config : s.config = boundary.config
  revision : s.revision = boundary.candidateRevision.getD issuedRevision
  taken : boundary.taken = true → s.phase = .boundary
  untouched : boundary.taken = false → s = { base with fresh := true }

/-- Appending the inputs that were handed over. -/
theorem ensures_appendInputs {inputs : List UserInput} (hqueue : s.queue = inputs)
    (hrunning : s.Running) (hphase : inputs ≠ [] → s.phase = .boundary) :
    setup.Ensures s (appendInputs setup.ctx inputs) fun _ s' ↦
      s'.queue = [] ∧ s'.phase = s.phase ∧ s'.config = s.config ∧ s'.revision = s.revision ∧
        s'.responses = s.responses ∧ s'.Running ∧ (inputs = [] → s' = s) := by
  induction inputs generalizing s with
  | nil => exact ⟨hqueue, rfl, rfl, rfl, rfl, hrunning, fun _ ↦ rfl⟩
  | cons input inputs ih =>
    have hboundary := hphase (by simp)
    refine ensures_op ⟨rfl, hboundary, inputs, hqueue⟩ fun n r _ ↦ ?_
    refine ensures_mono (ih ?_ hrunning fun _ ↦ hboundary) ?_
    · show s.queue.tail = inputs
      rw [hqueue]
      rfl
    · rintro - s' ⟨h₁, h₂, h₃, h₄, h₅, h₆, -⟩
      exact ⟨h₁, h₂, h₃, h₄, h₅, h₆, by simp⟩

/-- Taking the inputs. -/
theorem ensures_takeInputs (hboundary : s.AtBoundary) {α : Type} {f : List UserInput → Action α}
    {R : α → Session → Prop}
    (hf : ∀ inputs s', AfterInputs s inputs s' → setup.Ensures s' (f inputs) R) :
    setup.Ensures s ((perform .takeInputs).bind fun inputs ↦
      (appendInputs setup.ctx inputs).bind fun _ ↦ f inputs) R := by
  refine ensures_op hboundary fun n inputs _ ↦ ?_
  -- Nothing was queued before, so that the inputs taken are the ones appended.
  refine ensures_bind (ensures_appendInputs ?_ hboundary.2.1 ?_) ?_
  · show s.queue ++ inputs = inputs
    rw [hboundary.1, List.nil_append]
  · intro hne
    show (if inputs.isEmpty then s.phase else .boundary) = .boundary
    rw [if_neg (by simpa using hne)]
  · rintro - s' ⟨h₁, h₂, h₃, h₄, h₅, h₆, h₇⟩
    refine hf inputs s' ⟨h₁, h₆, h₅, h₃, h₄, h₂, ?_⟩
    rintro rfl
    rw [h₇ rfl]
    simp [Session.next]

/-- Taking a configuration and the inputs. -/
theorem ensures_takeBoundary (hboundary : s.AtBoundary) (pinned : Bool)
    {config : ExecutionConfig} (hconfig : s.config = config) {candidate : Option Nat}
    {issuedRevision : Nat} (hrevision : s.revision = candidate.getD issuedRevision) :
    setup.Ensures s (takeBoundary setup.ctx pinned config candidate)
      (AfterBoundary s issuedRevision) := by
  unfold takeBoundary
  refine ensures_op hboundary fun n pending _ ↦ ?_
  cases pending with
  | none =>
    have hboundary₁ : Session.AtBoundary { s with fresh := true } := hboundary
    refine ensures_takeInputs hboundary₁ fun inputs s' h ↦ ?_
    refine ensures_pure ⟨h.queue, h.running, h.responses, h.config.trans hconfig,
      h.revision.trans hrevision, fun htaken ↦ ?_, fun htaken ↦ ?_⟩
    · rw [h.phase, if_neg (by simpa using htaken)]
    · exact h.untouched (by simpa using htaken)
  | some pending =>
    -- A configuration that was taken makes any prepared prompt stale.
    let s₁ : Session := { s with
      config := pending.config, revision := pending.revision, fresh := true, phase := .boundary }
    have hrest : setup.Ensures s₁ ((perform .takeInputs).bind fun inputs ↦
        (appendInputs setup.ctx inputs).bind fun _ ↦
          pure ⟨true, pending.config, some pending.revision⟩) (AfterBoundary s issuedRevision) := by
      have hboundary₁ : s₁.AtBoundary := ⟨hboundary.1, hboundary.2.1, .inl rfl⟩
      refine ensures_takeInputs hboundary₁ fun inputs s' h ↦ ?_
      refine ensures_pure ⟨h.queue, h.running, h.responses, h.config, h.revision, fun _ ↦ ?_,
        by simp⟩
      rw [h.phase, ite_self]
    cases pinned with
    | true => exact hrest
    | false => exact ensures_quiet rfl fun _ ↦ hrest

/-! ## Requests -/

/-- The session at the start of a round. -/
structure Ready (locals : Locals) (s : Session) : Prop where
  queue : s.queue = []
  running : s.Running
  phase : s.phase = .boundary
  config : s.config = locals.config
  revision : s.revision = locals.candidateRevision.getD locals.issuedRevision
  index : s.index = locals.requestIndex

/-- The session where the loop of requests has ended. -/
structure Stopped (s : Session) : Prop where
  settled : s.Settled
  report : s.report = none

/-- The session after a round. -/
def AfterRound (x : Locals ⊕ Ending) (s : Session) : Prop :=
  x.elim (fun locals ↦ Ready locals s) fun _ ↦ Stopped s

theorem Ready.stopped {locals : Locals} (h : Ready locals s) : Stopped s :=
  ⟨⟨h.queue, by simp [h.phase], by simp [h.phase]⟩, h.running.1⟩

/-- Only messages make a prompt ready. -/
theorem promptPrep_ready {outcome : PortCallOutcome .prompt} {messages : List ModelMessage}
    (h : promptPrep outcome = .ready messages) : outcome = .returned (.ok messages) := by
  unfold promptPrep at h
  split at h
  · split at h
    · exact absurd h (by simp)
    · cases h
      rfl
  all_goals exact absurd h (by simp)

/-- The preparation of a prompt from the history. -/
theorem ensures_preparePrompt {locals : Locals} (h : Ready locals s) (deadline : Nat) :
    setup.Ensures s
      (preparePrompt setup.ctx locals.requestIndex locals.config s.working.view deadline)
      fun prep s' ↦ Stopped s' ∧ ∀ messages, prep = .ready messages →
        ∃ request : PromptRequest, request.history = s.working.view ∧
          s' = { s with
            phase := .prepared locals.config.prompt request messages, fresh := false } := by
  unfold preparePrompt
  have hpermits : ∀ made d, s.PermitsCall setup made (.prepare locals.config.prompt
      (promptRequest setup.ctx locals.requestIndex locals.config s.working.view d)) := by
    intro made d
    refine ⟨h.queue, h.phase, by rw [h.config], ?_⟩
    rw [h.index, h.config]
    rfl
  refine ensures_bind (ensures_runPortCall (Prog.uses_pure _ _) (hpermits false)
    (hpermits true)) ?_
  -- The provider answered, or the call ended otherwise and left the boundary as it was.
  rintro outcome s' (⟨d, result, rfl, rfl⟩ | ⟨hnone, hs'⟩)
  · cases result with
    | error e => exact ⟨h.stopped, by simp [promptPrep]⟩
    | ok messages =>
      let request := promptRequest setup.ctx locals.requestIndex locals.config s.working.view d
      let s₁ : Session :=
        { s with phase := .prepared locals.config.prompt request messages, fresh := false }
      show Stopped s₁ ∧ ∀ messages', promptPrep (.returned (.ok messages)) = .ready messages' →
        ∃ request, request.history = s.working.view ∧
          s₁ = { s with
            phase := .prepared locals.config.prompt request messages', fresh := false }
      have hstopped : Stopped s₁ := ⟨⟨h.queue, by simp [s₁], by simp [s₁]⟩, h.running.1⟩
      refine ⟨hstopped, fun messages' hready ↦ ?_⟩
      obtain rfl : messages = messages' := by simpa using promptPrep_ready hready
      exact ⟨request, rfl, rfl⟩
  · have hs : s' = s := by
      rcases hs' with rfl | ⟨d, rfl⟩
      · rfl
      · rfl
    subst hs
    exact ⟨h.stopped, fun messages hready ↦ absurd (promptPrep_ready hready) (hnone _)⟩

/-! ## Responses -/

/-- A result whose response, if there is one, was made by the constructor of responses. -/
def Built {ε : Type} (result : Except ε ModelResponse) : Prop :=
  ∀ response, result = .ok response → response.Constructed

theorem built_error {ε : Type} (e : ε) : Built (.error e : Except ε ModelResponse) := by
  intro response h
  exact absurd h (by simp)

theorem Assembler.built_finish {a : Assembler} {result : Except ModelError ModelResponse}
    (h : a.finish = some result) : Built result := by
  rintro response rfl
  -- Only the last branch yields a response, made by the constructor.
  unfold Assembler.finish at h
  split at h
  · exact absurd h (by simp)
  · dsimp only at h
    split at h
    · exact absurd h (by simp)
    · split at h
      · exact absurd h (by simp)
      · split at h
        · exact absurd h (by simp)
        · exact absurd h (by simp)
        · split at h
          · rename_i hnew
            obtain rfl : _ = response := by simpa using h
            exact ModelResponse.constructed_of_eq_ok hnew
          · exact absurd h (by simp)

section Driver

variable [SerdeJson]

theorem returns_pollEvent (awaiter : Action Unit) (deadline : EffectiveDeadline)
    (assembler : Assembler) :
    (ModelDriver.pollEvent awaiter deadline assembler).Returns fun x ↦
      x.elim (fun _ ↦ True) Built := by
  refine Prog.returns_call_bind fun polled ↦ ?_
  split
  · exact built_error _
  · exact built_error _
  · split
    · exact built_error _
    · trivial
    · refine Prog.returns_call_bind fun _ ↦ ?_
      exact Prog.returns_bind (Prog.returns_true awaiter) fun _ _ ↦ trivial
  · exact built_error _
  · -- Only the end of the stream yields a response, and the assembler built it.
    cases hfinish : assembler.finish with
    | none => trivial
    | some result =>
      have hbuilt := Assembler.built_finish hfinish
      cases result with
      | error e => exact built_error _
      | ok response =>
        intro response' h
        obtain rfl : response = response' := by simpa using h
        exact hbuilt response rfl
  · exact built_error _
  · exact Prog.returns_bind (Prog.returns_true awaiter) fun _ _ ↦ trivial

theorem returns_runAttempt (awaiter : Action Unit) (driver : ModelDriver) (request : ModelRequest)
    (context : ModelCallContext) (deadline : EffectiveDeadline) :
    (driver.runAttempt awaiter request context deadline).Returns Built := by
  refine Prog.returns_call_bind fun started ↦ ?_
  split
  · refine Prog.returns_bind (Prog.returns_true _) fun stream _ ↦ ?_
    refine Prog.returns_bind (R := Built) ?_ fun result hresult _ ↦ hresult
    cases stream with
    | error failure => exact built_error _
    | ok u =>
      exact Prog.returns_iterate (fun _ ↦ True) trivial
        fun a _ ↦ returns_pollEvent awaiter deadline a
  · exact built_error _

/-- A response of the driver was made by the constructor of responses. -/
theorem returns_runDetailed (awaiter : Action Unit) (driver : ModelDriver) (request : ModelRequest)
    (context : ModelCallContext) : (driver.runDetailed awaiter request context).Returns Built := by
  refine Prog.returns_call_bind fun deadline ↦ ?_
  rcases deadline with - | deadline
  · exact built_error _
  refine Prog.returns_bind (Prog.returns_true _) fun checked _ ↦ ?_
  cases checked with
  | error failure => exact built_error _
  | ok u =>
    dsimp only
    split
    · exact built_error _
    -- A round returns the response of its attempt, or goes on.
    refine Prog.returns_iterate (fun _ ↦ True) trivial fun attempt _ ↦ ?_
    refine Prog.returns_bind (Prog.returns_true _) fun checked _ ↦ ?_
    cases checked with
    | error failure => exact built_error _
    | ok u =>
      refine Prog.returns_bind (returns_runAttempt awaiter driver request context deadline) ?_
      intro result hresult
      cases result with
      | ok response =>
        intro response' h
        obtain rfl : response = response' := by simpa using h
        exact hresult response rfl
      | error failure =>
        refine Prog.returns_bind (Prog.returns_true _) fun delay _ ↦ ?_
        cases delay with
        | none => exact built_error _
        | some delay =>
          refine Prog.returns_bind (Prog.returns_true _) fun waited _ ↦ ?_
          cases waited with
          | error failure => exact built_error _
          | ok u => trivial

end Driver

/-! ## Rounds -/

/-- The session of a request that was issued, once its state is published. -/
structure InRequest (issue : Issue) (s : Session) : Prop where
  queue : s.queue = []
  running : s.Running
  phase : s.phase = .issued issue
  config : s.config = issue.config
  revision : s.revision = issue.revision
  index : s.index = issue.index
  stateRevision : s.state.configRevision = issue.revision
  stateIndex : s.state.requestIndex = issue.index

/-- The local variables of a request that was issued. -/
structure Issued (issue : Issue) (locals : Locals) : Prop where
  config : locals.config = issue.config
  revision : locals.issuedRevision = issue.revision
  candidate : locals.candidateRevision = none
  index : locals.requestIndex = issue.index

theorem InRequest.stopped {issue : Issue} (h : InRequest issue s) : Stopped s :=
  ⟨⟨h.queue, by simp [h.phase], by simp [h.phase]⟩, h.running.1⟩

/-- The index of the request after a response. -/
theorem index_succ {base : Session} {index : Nat} (h : base.index = index) (s : Session)
    (hresponses : s.responses = base.responses + 1) : s.index = saturatingAdd 32 index 1 := by
  unfold Session.index saturatingAdd at *
  omega

/-- The tool calls of a response. -/
theorem ensures_runCalls {base : Session} {c : Calling} {locals : Locals}
    (h : InTurn base c s) (hstarted : c.started = false) (hissued : Issued c.issue locals)
    (hconfig : base.config = c.issue.config) (hrevision : base.revision = c.issue.revision)
    (hindex : base.index = saturatingAdd 32 c.issue.index 1) :
    setup.Ensures s (runCalls setup.ctx c.issue.config locals (c.call :: c.rest)) AfterRound := by
  unfold runCalls
  -- A batch that ended, settled or interrupted, is back at the boundary.
  have hdone : ∀ s', InBatch base c.issue s' → s'.phase = .boundary → Stopped s' :=
    fun s' h hphase ↦ ⟨⟨h.queue, by simp [hphase], by simp [hphase]⟩, h.running.1⟩
  rw [hissued.index]
  split
  · refine ensures_bind (ensures_settleCalls h ⟨rfl, rfl, rfl⟩ .failed _) ?_
    rintro - s' ⟨h', hphase'⟩
    exact ensures_pure (hdone s' h' hphase')
  · refine ensures_publish ⟨c, h.phase, hissued.revision, rfl⟩ ?_
    refine ensures_bind (ensures_runToolBatch (show InTurn base c _ from ⟨?_, h.phase⟩) hstarted) ?_
    · exact ⟨h.queue, h.running, h.config, h.revision, h.responses, hissued.revision, rfl⟩
    rintro path s' ⟨h', hphase'⟩
    cases path with
    | some path => exact ensures_pure (hdone s' h' hphase')
    | none =>
      -- The next round: the candidate is used up, and the index is one more.
      refine ensures_pure ⟨h'.queue, h'.running, hphase', ?_, ?_, ?_⟩
      · exact h'.config.trans (hconfig.trans hissued.config.symm)
      · show s'.revision = locals.candidateRevision.getD locals.issuedRevision
        rw [hissued.candidate, h'.revision, hrevision, hissued.revision]
        rfl
      · show min s'.responses _ = saturatingAdd 32 c.issue.index 1
        rw [h'.responses, ← hindex]
        rfl

/-- The session after a response: its tool calls are run if it has any. -/
theorem InRequest.append {issue : Issue} (h : InRequest issue s) {response : ModelResponse}
    (hresponse : response.Constructed) :
    let item := HistoryItem.assistant
      (assistantHistory setup.ctx issue.index issue.config response)
    s.Permits setup (.append item) ∧ ∀ n r,
      (toolCalls response.parts = [] → Stopped (s.next (.append item) n r)) ∧
      ∀ call rest, toolCalls response.parts = call :: rest →
        InTurn (s.next (.append item) n r) ⟨issue, call, rest, .undecided, false⟩
          (s.next (.append item) n r) := by
  intro item
  refine ⟨⟨h.queue, issue, response, h.phase, rfl, hresponse⟩, fun n r ↦ ?_⟩
  -- The response ends the request: it concludes the loop, or its first call is next.
  have hphase : (s.next (.append item) n r).phase = afterAppend (.issued issue) item := by
    rw [← h.phase]
    rfl
  refine ⟨fun hcalls ↦ ?_, fun call rest hcalls ↦ ?_⟩
  · rw [show afterAppend (.issued issue) item = .concluded by
      simp only [afterAppend, item, assistantHistory, hcalls]] at hphase
    exact ⟨⟨h.queue, by simp [hphase], by simp [hphase]⟩, h.running.1⟩
  · rw [show afterAppend (.issued issue) item = .calling ⟨issue, call, rest, .undecided, false⟩ by
      simp only [afterAppend, item, assistantHistory, hcalls]] at hphase
    exact ⟨⟨h.queue, h.running, rfl, rfl, rfl, h.stateRevision, h.stateIndex⟩, hphase⟩

/-- What follows a response. -/
theorem ensures_handleResponse {issue : Issue} {locals : Locals} (h : InRequest issue s)
    (hissued : Issued issue locals) {response : ModelResponse} (hresponse : response.Constructed) :
    setup.Ensures s (handleResponse setup.ctx issue.config locals response) AfterRound := by
  unfold handleResponse
  rw [hissued.index]
  split
  · exact h.stopped
  rename_i usage husage
  obtain ⟨hpermits, hnext⟩ : s.Permits setup _ ∧ _ := h.append hresponse
  cases hcalls : toolCalls response.parts with
  | nil =>
    -- A response without tool calls is the last one.
    cases noToolFinish response.finishReason with
    | error path => exact h.stopped
    | ok path =>
      refine ensures_op hpermits fun n r _ ↦ ?_
      have hstopped := (hnext n r).1 hcalls
      split
      · exact ensures_op trivial fun n discarded _ ↦ ⟨hstopped.settled, hstopped.report⟩
      · exact hstopped
  | cons call rest =>
    refine ensures_op hpermits fun n r _ ↦ ?_
    have hturn := (hnext n r).2 call rest hcalls
    exact ensures_runCalls hturn rfl ⟨hissued.config, hissued.revision, hissued.candidate, rfl⟩
      h.config h.revision (index_succ h.index _ rfl)

/-- The request of an issue. -/
def Issue.request (issue : Issue) : ModelRequest :=
  ⟨issue.messages, issue.config.tools.specs, .default, issue.config.reasoning⟩

/-- The driver starts the model of the request; nothing else it does is about the session. -/
theorem ensures_runModel [SerdeJson] {issue : Issue} (h : s.phase = .issued issue)
    (deadline : Nat) :
    setup.Ensures s (runModel setup.ctx issue.index issue.config issue.request deadline)
      fun result s' ↦ s' = s ∧ Built result := by
  unfold runModel
  -- What the driver does: quiet operations, and starts of this request.
  let S : Op → Prop := fun o ↦ o.Quiet ∨ ∃ d, o = .startModel issue.config.model issue.request
    ⟨setup.ctx.id, issue.index, d⟩
  have hstable : ∀ s' o, S o → s' = s →
      (sessionMonitor setup).allowed s' o ∧
        ∀ n r, (sessionMonitor setup).expects s' o n r →
          (sessionMonitor setup).next s' o n r = s := by
    rintro s' o (ho | ⟨d, rfl⟩) rfl
    · exact ⟨(quiet_silent setup ho s').1, fun n r _ ↦ (quiet_silent setup ho s').2 n r⟩
    · exact ⟨⟨issue, h, rfl, rfl, rfl, rfl⟩, fun n r _ ↦ rfl⟩
  have hdriver : setup.Ensures s ((modelDriver setup.ctx issue.config).runDetailed
      (drainProgress setup.ctx issue.index) issue.request ⟨setup.ctx.id, issue.index, deadline⟩)
      fun result s' ↦ s' = s ∧ Built result := by
    have huses : ((modelDriver setup.ctx issue.config).runDetailed
        (drainProgress setup.ctx issue.index) issue.request
        ⟨setup.ctx.id, issue.index, deadline⟩).Uses S :=
      uses_runDetailed (fun _ ho ↦ .inl (Op.quiet_of_plain ho))
        (uses_drainProgress (fun _ ho ↦ .inl (Op.quiet_of_plain ho)) setup.ctx issue.index)
        fun d ↦ .inr ⟨d, rfl⟩
    have hwp := (sessionMonitor setup).wp_of_uses hstable huses (s := s) rfl
    exact (sessionMonitor setup).wp_mono ((sessionMonitor setup).wp_and_returns hwp
      (returns_runDetailed _ _ _ _)) (fun _ _ h ↦ h) fun _ _ ↦ trivial
  refine ensures_quiet rfl fun _ ↦ ensures_bind hdriver ?_
  rintro result s' ⟨rfl, hbuilt⟩
  refine ensures_quiet rfl fun _ ↦ ensures_quiet rfl fun _ ↦ ?_
  refine ensures_uses_bind (uses_drainProgress (fun _ ↦ Op.quiet_of_plain) _ _) fun _ ↦ ?_
  exact ensures_pure ⟨rfl, hbuilt⟩

/-- A request that is issued, and its response. -/
theorem ensures_issueRequest [SerdeJson] {locals : Locals} {request : PromptRequest}
    {messages : List ModelMessage} (hready : Ready locals { s with phase := .boundary })
    (hphase : s.phase = .prepared locals.config.prompt request messages)
    (hfresh : s.fresh = true) (hhistory : request.history = s.working.view)
    {modelRequest : ModelRequest}
    (hbuild : buildModelRequest messages locals.config = .ok modelRequest) :
    setup.Ensures s (issueRequest setup.ctx locals.config locals modelRequest) AfterRound := by
  let issue : Issue :=
    ⟨locals.candidateRevision.getD locals.issuedRevision, locals.config, request, messages,
      locals.requestIndex⟩
  have hconfig : s.config = locals.config := hready.config
  have hindex : s.index = locals.requestIndex := hready.index
  have hrequest : modelRequest = issue.request :=
    (ModelRequest.withValidatedTools_eq_ok.mp hbuild).2.2
  -- The request that was built is the one the issue stands for.
  rw [hrequest] at hbuild ⊢
  unfold issueRequest
  refine ensures_op (o := .commitRevision issue.revision) ⟨hready.queue, hready.revision.symm,
    hfresh, request, messages, by rw [hphase, hconfig], hhistory, by rw [hconfig]; exact hbuild⟩
    fun n r _ ↦ ?_
  have hnext : s.next (.commitRevision issue.revision) n r =
      { s with issues := s.issues + 1, phase := .issued issue } := by
    simp only [Session.next, hphase, issue, hconfig, hindex]
  rw [hnext]
  refine ensures_op ⟨issue, rfl, rfl, rfl, rfl, rfl, rfl⟩ fun n r _ ↦ ?_
  let running : LoopState := ⟨setup.ctx.id, .runningModel, issue.index, issue.revision,
    some issue.config.descriptor.modelRef, none⟩
  refine ensures_publish (show Session.PermitsState _ running from ⟨issue, rfl, rfl, rfl⟩) ?_
  -- From here on the request is under way.
  have hin : InRequest issue
      { s with issues := s.issues + 1, phase := .issued issue, state := running } :=
    ⟨hready.queue, hready.running, rfl, hready.config, hready.revision, hready.index, rfl, rfl⟩
  refine ensures_uses_bind (uses_turnDeadline (fun _ ↦ Op.quiet_of_plain) _) fun deadline ↦ ?_
  refine ensures_bind (ensures_runModel hin.phase deadline) ?_
  rintro result s' ⟨rfl, hbuilt⟩
  cases result with
  | error failure =>
    refine ensures_uses_bind (uses_mapModelFailure (fun _ ↦ Op.quiet_of_plain) failure)
      fun path ↦ ?_
    exact hin.stopped
  | ok response =>
    refine ensures_handleResponse hin ?_ (hbuilt response rfl)
    exact ⟨rfl, rfl, rfl, rfl⟩

/-- The preparation of a request. -/
theorem ensures_prepareRequest [SerdeJson] {locals : Locals} (h : Ready locals s) :
    setup.Ensures s (prepareRequest setup.ctx locals) AfterRound := by
  unfold prepareRequest
  refine ensures_publish trivial ?_
  let s₁ : Session :=
    { s with state := .new setup.ctx.id .starting locals.requestIndex locals.issuedRevision }
  show setup.Ensures s₁ _ _
  have h₁ : Ready locals s₁ := ⟨h.queue, h.running, h.phase, h.config, h.revision, h.index⟩
  refine ensures_op trivial fun n view hview ↦ ?_
  obtain rfl : view = s₁.working.view := hview
  show setup.Ensures s₁ _ _
  refine ensures_uses_bind (uses_turnDeadline (fun _ ↦ Op.quiet_of_plain) _) fun deadline ↦ ?_
  refine ensures_bind (ensures_preparePrompt h₁ deadline) ?_
  rintro prep s₂ ⟨hstopped, hready⟩
  cases prep with
  | stop path => exact hstopped
  | ready messages =>
    obtain ⟨request, hhistory, rfl⟩ := hready messages rfl
    let s₂ : Session :=
      { s₁ with phase := .prepared locals.config.prompt request messages, fresh := false }
    -- The prompt is prepared: what came in the meantime decides whether it is used.
    have hboundary : s₂.AtBoundary := ⟨h₁.queue, h₁.running, .inr ⟨_, _, _, rfl⟩⟩
    have hconfig : s₂.config = locals.config := h₁.config
    have hrevision : s₂.revision = locals.candidateRevision.getD locals.issuedRevision :=
      h₁.revision
    refine ensures_bind (ensures_takeBoundary hboundary true hconfig hrevision) ?_
    rintro boundary s₃ h₃
    have hindex : s₃.index = locals.requestIndex := by
      show min s₃.responses _ = _
      rw [h₃.responses]
      exact h₁.index
    dsimp only
    split
    · -- Something was taken: the prompt is stale and the round starts over.
      rename_i htaken
      refine ensures_quiet rfl fun _ ↦ ?_
      exact ⟨h₃.queue, h₃.running, h₃.taken htaken, h₃.config, h₃.revision, hindex⟩
    · rename_i htaken
      obtain rfl : s₃ = { s₂ with fresh := true } := h₃.untouched (by simpa using htaken)
      have hsame : locals.config = boundary.config := hconfig.symm.trans h₃.config
      split
      · exact ⟨hstopped.settled, hstopped.report⟩
      · rename_i modelRequest hbuild
        rw [hsame] at hbuild ⊢
        let locals' : Locals := { locals with
          config := boundary.config, candidateRevision := boundary.candidateRevision }
        let s₃ : Session := { s₂ with fresh := true }
        have hready' : Ready locals' { s₃ with phase := .boundary } :=
          ⟨h₁.queue, h₁.running, rfl, h₃.config, h₃.revision, hindex⟩
        refine ensures_issueRequest hready' ?_ rfl hhistory hbuild
        show Phase.prepared locals.config.prompt request messages = _
        rw [hsame]

/-- One round of the loop of requests. -/
theorem ensures_requestRound [SerdeJson] {locals : Locals} (h : Ready locals s) :
    setup.Ensures s (requestRound setup.ctx locals) AfterRound := by
  unfold requestRound
  refine ensures_quiet rfl fun cancelled ↦ ?_
  split
  · exact h.stopped
  refine ensures_uses_bind ?_ fun past ↦ ?_
  · cases setup.ctx.options.deadline with
    | none => trivial
    | some deadline => exact uses_plain (fun _ ↦ Op.quiet_of_plain) rfl fun _ ↦ trivial
  split
  · exact h.stopped
  -- The round begins at a boundary, with nothing queued.
  have hboundary : s.AtBoundary := ⟨h.queue, h.running, .inl h.phase⟩
  refine ensures_bind (ensures_takeBoundary hboundary false h.config h.revision) ?_
  rintro boundary s₁ h₁
  refine ensures_prepareRequest ⟨h₁.queue, h₁.running, ?_, h₁.config, h₁.revision, ?_⟩
  · cases htaken : boundary.taken with
    | true => exact h₁.taken htaken
    | false =>
      rw [h₁.untouched htaken]
      exact h.phase
  · show min s₁.responses _ = _
    rw [h₁.responses]
    exact h.index

/-! ## The report -/

/-- The last two states. -/
theorem ensures_publishFinalStates (requestIndex revision : Nat) :
    setup.Ensures s (publishFinalStates setup.ctx requestIndex revision) fun _ s' ↦
      ∃ state, s' = { s with state := state } := by
  refine ensures_op trivial fun n state _ ↦ ?_
  refine ensures_publish trivial ?_
  refine ensures_op trivial fun n state' _ ↦ ?_
  refine ensures_op trivial fun n _ _ ↦ ?_
  exact (sessionMonitor setup).wp_call_of rfl fun n _ _ ↦ ⟨_, rfl⟩

/-- The report carries everything that was appended. -/
theorem ensures_deliverReport (h : Stopped s) (ending : Ending) (revision : Nat)
    (outcome : LoopOutcome) (discarded : Option ExecutionConfig) :
    setup.Ensures s (deliverReport setup.ctx ending revision outcome discarded) fun report s' ↦
      s'.report = some report := by
  unfold deliverReport
  refine ensures_op h.settled fun n appended happended ↦ ?_
  obtain rfl : appended = s.working.appended := happended
  refine ensures_bind (ensures_publishFinalStates _ _) ?_
  rintro - s' ⟨state, rfl⟩
  refine ensures_op ⟨h.settled, rfl⟩ fun n _ _ ↦ ?_
  refine ensures_quiet rfl fun _ ↦ ensures_quiet rfl fun _ ↦ ?_
  refine ensures_uses_bind (uses_dropConfig (fun _ ↦ Op.quiet_of_plain) discarded) fun _ ↦ ?_
  exact ensures_pure rfl

/-- Sealing the loop closes it to updates. -/
theorem ensures_finishOnce :
    setup.Ensures s finishOnce fun _ s' ↦ s' = { s with closed := true } := by
  unfold finishOnce
  refine ensures_quiet rfl fun finish ↦ ?_
  have hclose : setup.Ensures s ((perform .closeAccepting).bind fun discarded ↦
      Prog.pure (finish, discarded)) fun _ s' ↦ s' = { s with closed := true } :=
    ensures_op trivial fun n discarded _ ↦ ensures_pure rfl
  cases finish with
  | cancelledPrior source => exact ensures_quiet rfl fun _ ↦ hclose
  | clean => exact hclose
  | alreadyFinished => exact hclose

/-- The seal and the report. -/
theorem ensures_finishLoop (h : Stopped s) (ending : Ending) :
    setup.Ensures s (finishLoop setup.ctx ending) fun report s' ↦ s'.report = some report := by
  unfold finishLoop
  refine ensures_quiet rfl fun revision ↦ ?_
  refine ensures_uses_bind (uses_outcomeFor (fun _ ↦ Op.quiet_of_plain) ending.path)
    fun intended ↦ ?_
  refine ensures_bind ensures_finishOnce ?_
  rintro ⟨finish, discarded⟩ s' rfl
  have h' : Stopped { s with closed := true } := ⟨h.settled, h.report⟩
  cases finish with
  | clean => exact ensures_deliverReport h' ending revision intended discarded
  | cancelledPrior source => exact ensures_deliverReport h' ending revision _ discarded
  | alreadyFinished =>
    -- Nobody else seals the loop, so that there would be no report to hand back.
    refine ensures_op trivial fun n report hreport ↦ ?_
    obtain rfl : report = s.report := hreport
    rw [h.report]
    trivial

/-- The runner of a loop. -/
theorem ensures_runLoopInner [SerdeJson] (setup : Setup) :
    setup.Ensures (.init setup) (runLoopInner setup.ctx setup.request) fun report s ↦
      s.report = some report := by
  unfold runLoopInner
  refine ensures_quiet rfl fun _ ↦ ?_
  refine ensures_op ⟨rfl, rfl, rfl⟩ fun n _ _ ↦ ?_
  refine ensures_bind (Q := fun _ s ↦ Stopped s) ?_ fun ending s hs ↦ ?_
  · refine (sessionMonitor setup).wp_iterate (fun locals s ↦ Ready locals s) ?_ ?_
    · exact ⟨rfl, ⟨rfl, rfl⟩, rfl, rfl, rfl, rfl⟩
    · exact fun locals s h ↦ ensures_mono (ensures_requestRound h) fun x s' hx ↦ hx
  · refine ensures_bind (ensures_finishLoop hs ending) fun report s' hreport ↦ ?_
    refine ensures_uses_bind
      (uses_dropConfig (fun _ ↦ Op.quiet_of_plain) ending.discardedConfig) fun _ ↦ ?_
    exact ensures_quiet rfl fun _ ↦ ensures_pure hreport

end MinicoreRuntime
