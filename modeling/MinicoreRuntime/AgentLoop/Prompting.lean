import MinicoreRuntime.AgentLoop.Delivery
import MinicoreRuntime.AgentLoop.Continuity
import MinicoreRuntime.AgentLoop.Freshness
import MinicoreRuntime.AgentLoop.Verdicts

/-!
# Loops with default prompts

A host that brings no prompt provider of its own uses the default one. Its prompt is a fixed system
prompt and the history, item by item. Every request of such a loop repeats what the requests before
it said and adds what was appended since, and no request is refused for its messages: where the loop
fails with its prompt, the provider gave none.

## Main definitions

* `DefaultsIn`: the prompts of a trace are those of default providers.
* `Sendable`: messages that every request accepts.
* `lastPrompt`: the prompt that the provider gave when it was last asked.
* `Setup.configIn`: the configuration that was taken last.

## Main results

* `projects_of_accepts`: the messages of a request are the projection of the whole history.
* `issued_config`: a request goes by the configuration that was taken last.
* `prompt_refused`: a loop that fails with its prompt had none, or none that can be sent.
* `default_prompts`: the requests of a loop with default prompts.
-/

namespace MinicoreRuntime

open Interactive

/-! ## Default prompts -/

/-- Messages that every request accepts. -/
def Sendable (messages : List ModelMessage) : Prop :=
  messages ≠ [] ∧ validateToolExchange messages = .ok ()

/-- The system prompt is empty, or text that a message accepts. -/
def DefaultPromptProvider.LegalSystem (provider : DefaultPromptProvider) : Prop :=
  ∀ message ∈ provider.systemMessages, message.validate = .ok ()

/-- The prompts of a trace are those of default providers. -/
def DefaultsIn (providers : PromptHandle → DefaultPromptProvider)
    (trace : List (Entry interface Nat)) : Prop :=
  ∀ handle request deadline n messages,
    (⟨.pollPort (.prepare handle request) deadline, n, .ready (.ok messages)⟩ :
      Entry interface Nat) ∈ trace →
    (providers handle).project request.history = .ok messages

/-- The prompt that the provider gave when it was last asked, after an operation. -/
def promptAfter (last : Option (List ModelMessage)) : (o : Op) → o.Answer →
    Option (List ModelMessage)
  -- The runner looks at the history before it asks for a prompt, and at no other time.
  | .view, _ => none
  | .pollPort (.prepare _ _) _, .ready (.ok messages) => some messages
  | _, _ => last

/-- The prompt that the provider gave when it was last asked, if it gave one. -/
def lastPrompt : List (Entry interface Nat) → Option (List ModelMessage)
  | [] => none
  | e :: older => promptAfter (lastPrompt older) e.op e.answer

/-- The configuration that was taken last, or the one the loop started with. -/
def Setup.configIn (setup : Setup) : List (Entry interface Nat) → ExecutionConfig
  | [] => setup.request.config
  | e :: older => Session.configAfter (setup.configIn older) e.op e.answer

section

variable {provider : DefaultPromptProvider} {history items : List HistoryItem}
  {messages : List ModelMessage}

theorem Sendable.build (h : Sendable messages) (config : ExecutionConfig) :
    buildModelRequest messages config =
      .ok ⟨messages, config.tools.specs, .default, config.reasoning⟩ :=
  ModelRequest.withValidatedTools_eq_ok.mpr ⟨h.1, h.2, rfl⟩

namespace DefaultPromptProvider

/-- A prompt is the system prompt and the messages of the history. -/
theorem project_eq_ok {view : HistoryView} :
    provider.project view = .ok messages ↔
      messages ≠ [] ∧ ∃ body, projectItems view.items = .ok body ∧
        messages = provider.systemMessages ++ body := by
  unfold project
  cases projectItems view.items with
  | error e => simp
  | ok body =>
    dsimp only
    split
    · rename_i hempty
      simp only [List.isEmpty_iff] at hempty
      constructor
      · exact fun h ↦ absurd h (by simp)
      · rintro ⟨hne, _, ⟨⟩, rfl⟩
        exact absurd hempty hne
    · rename_i hempty
      constructor
      · rintro ⟨⟩
        exact ⟨by simpa using hempty, body, rfl, rfl⟩
      · rintro ⟨-, _, ⟨⟩, rfl⟩
        rfl

/-- There is at most one system message. -/
theorem systemMessages_shape (provider : DefaultPromptProvider) :
    provider.systemMessages = [] ∨ ∃ text, provider.systemMessages = [.system text] := by
  unfold systemMessages
  split
  · split
    · exact .inl rfl
    · exact .inr ⟨_, rfl⟩
  · exact .inl rfl

/-- The system prompt leaves no tool call pending. -/
theorem exchange_system (h : provider.LegalSystem) :
    exchangeFrom ⟨[], []⟩ provider.systemMessages = .ok ⟨[], []⟩ := by
  unfold LegalSystem at h
  rcases provider.systemMessages_shape with hnone | ⟨text, hsome⟩
  · rw [hnone]
    rfl
  · rw [hsome] at h ⊢
    have hvalid : (ModelMessage.system text).validate = .ok () := h _ List.mem_cons_self
    simp [exchangeFrom, exchangeStep, hvalid]

/-- The default prompt of an accepted history that closed items follow can be sent. -/
theorem sendable (h : provider.LegalSystem) (hhistory : AcceptedHistory history)
    (hitems : Closed items) (hne : items ≠ [])
    (hproject : provider.project ⟨history, items⟩ = .ok messages) : Sendable messages := by
  obtain ⟨before, after, hbefore, hcontinued, -, hrequest⟩ := hhistory.continued hitems hne
  obtain ⟨hmessages, body, hbody, rfl⟩ := project_eq_ok.mp hproject
  obtain ⟨-, body', hbody', hsame⟩ := project_eq_ok.mp hcontinued
  obtain rfl : before ++ after = body := by
    rw [hbody] at hbody'
    rw [hsame]
    exact (Except.ok.inj hbody').symm
  refine ⟨hmessages, validateToolExchange_eq_ok.mpr ?_⟩
  obtain ⟨completed, hcompleted⟩ := validateToolExchange_eq_ok.mp
    (ModelRequest.withValidatedTools_eq_ok.mp (hrequest [] .default .auto)).2.1
  refine ⟨completed, ?_⟩
  rw [exchange_append, exchange_system h]
  exact hcompleted

end DefaultPromptProvider

end

/-! ## Prompts of a session -/

/-- The messages that a phase is about, and the provider they came from. -/
def Phase.prompt? : Phase → Option (PromptHandle × List ModelMessage)
  | .prepared provider _ messages => some (provider, messages)
  | .issued issue => some (issue.config.prompt, issue.messages)
  | .starting | .boundary | .calling _ | .concluded => none

/-- The messages of a session are the projection of its whole history. -/
def Session.Projects (providers : PromptHandle → DefaultPromptProvider) (s : Session) : Prop :=
  ∀ handle messages, s.phase.prompt? = some (handle, messages) →
    (providers handle).project s.working.view = .ok messages

section

variable {setup : Setup} {s : Session} {providers : PromptHandle → DefaultPromptProvider}

theorem prompt?_mapClearance (f : Clearance → Clearance) (phase : Phase) :
    (Session.mapClearance f phase).prompt? = phase.prompt? := by
  cases phase <;> rfl

/-- What is appended belongs to no prompt yet. -/
theorem prompt?_afterAppend {item : HistoryItem} (h : s.PermitsItem setup item) :
    (Session.afterAppend s.phase item).prompt? = none := by
  cases item with
  | user item =>
    obtain ⟨loopId, kind, input⟩ := item
    cases kind with
    | prompt => rfl
    | steering =>
      -- Steering is appended between the rounds only, where no prompt is held.
      obtain ⟨-, hphase, -⟩ := h
      rw [hphase]
      rfl
  | assistant item =>
    unfold Session.afterAppend
    dsimp only
    split <;> rfl
  | toolResult result =>
    obtain ⟨-, c, hc, -⟩ := h
    rw [hc]
    unfold Session.afterAppend
    dsimp only
    split <;> simp_all [Phase.prompt?]
  | summary item => exact h.elim

/-- A prompt that was not just prepared was there before, and nothing was appended since. -/
theorem Session.prompt_of_next {o : Op} {n : Nat} {r : o.Answer} (hpermits : s.Permits setup o)
    (hanswer : promptAfter none o r = none) {p : PromptHandle × List ModelMessage}
    (h : (s.next o n r).phase.prompt? = some p) :
    s.phase.prompt? = some p ∧ (s.next o n r).working = s.working := by
  have hworking := (s.next_changes o n r).working
  cases o with
  | append item =>
    -- No item is appended while a request waits for its prompt or its response.
    have hitem : s.PermitsItem setup item := hpermits
    exact absurd ((prompt?_afterAppend hitem).symm.trans h) (by simp)
  | takeConfig =>
    cases r with
    | none => exact ⟨h, hworking⟩
    | some pending => exact absurd h (by simp [next, Phase.prompt?])
  | takeInputs =>
    cases r with
    | nil => exact ⟨h, hworking⟩
    | cons input inputs => exact absurd h (by simp [next, Phase.prompt?])
  | commitRevision revision =>
    -- The prompt is of the configuration that the request is issued under.
    obtain ⟨-, -, -, request, messages, hphase, -⟩ := hpermits
    refine ⟨?_, hworking⟩
    rw [hphase]
    simp only [next, hphase] at h
    exact h
  | makeFuture call =>
    refine ⟨?_, hworking⟩
    cases call with
    | execute tool invocation deadline =>
      cases hphase : s.phase <;> simp_all [next, afterMake, Phase.prompt?]
    | prepare provider request => exact h
    | decide policy invocation spec deadline => exact h
  | pollPort call deadline =>
    refine ⟨?_, hworking⟩
    cases r with
    | ready result =>
      cases call with
      | prepare provider request =>
        cases result with
        | ok messages => exact absurd hanswer (by simp [promptAfter])
        | error e => exact h
      | decide policy invocation spec deadline =>
        cases result with
        | ok decision =>
          exact (prompt?_mapClearance (fun _ ↦ decided decision) s.phase).symm.trans h
        | error e => exact h
      | execute tool invocation deadline => exact h
    | _ => exact h
  | setInteraction slot =>
    cases r with
    | false => exact ⟨h, hworking⟩
    | true => exact ⟨(prompt?_mapClearance (waitingFor slot) s.phase).symm.trans h, hworking⟩
  | pollInteraction channel deadline =>
    refine ⟨?_, hworking⟩
    simp only [next, afterPoll] at h
    split at h
    · exact (prompt?_mapClearance (grantedOn channel) s.phase).symm.trans h
    · exact h
  | _ => exact ⟨h, hworking⟩

/-- The request under way is of the configuration of the session. -/
def Session.Pinned (s : Session) : Prop :=
  ∀ issue, s.phase.basis? = some (.issued issue) → issue.config = s.config

/-- A request is issued under the configuration of the session, and none is under way when another
configuration is taken. -/
theorem Session.Pinned.step (h : s.Pinned) (o : Op) (n : Nat) (r : o.Answer) :
    (s.next o n r).Pinned := by
  intro issue hissue
  cases hissues : o.issues with
  | true =>
    unfold Op.issues at hissues
    split at hissues
    · cases hphase : s.phase with
      | prepared provider request messages =>
        simp only [next, hphase, Phase.basis?, Option.some.injEq, Basis.issued.injEq] at hissue
        exact hissue ▸ rfl
      | _ =>
        simp only [next, hphase] at hissue
        exact h issue (hphase ▸ hissue)
    · exact absurd hissues (by simp)
  | false =>
    cases hprepares : o.prepares r with
    | true =>
      -- A prompt was just prepared.
      unfold Op.prepares at hprepares
      split at hprepares
      · exact absurd hissue (by simp [next, afterReady, Phase.basis?])
      · exact absurd hprepares (by simp)
    | false =>
      have hsame : (s.next o n r).phase.basis? = s.phase.basis? := by
        rcases s.basis?_next hissues hprepares with hnone | hsame
        · exact absurd (hnone.symm.trans hissue) (by simp)
        · exact hsame
      have hconfig := (s.next_changes o n r).config
      cases o with
      | takeConfig =>
        cases r with
        | none => exact h issue hissue
        | some pending => exact absurd hissue (by simp [next, Phase.basis?])
      | _ => exact (h issue (hsame ▸ hissue)).trans hconfig.symm

/-- The configuration of a session is the one that was taken last. -/
theorem config_run (setup : Setup) (trace : List (Entry interface Nat)) :
    Session.config ((sessionMonitor setup).run trace) = setup.configIn trace := by
  induction trace with
  | nil => rfl
  | cons e past ih =>
    have hconfig := (Session.next_changes ((sessionMonitor setup).run past) e.op e.note
      e.answer).config
    exact hconfig.trans (congrArg (Session.configAfter · e.op e.answer) ih)

/-- A request goes by the configuration that was taken last. -/
theorem issued_config (setup : Setup) (trace : List (Entry interface Nat)) {issue : Issue}
    (h : Session.phase ((sessionMonitor setup).run trace) = .issued issue) :
    issue.config = setup.configIn trace := by
  have hpinned : Session.Pinned ((sessionMonitor setup).run trace) := by
    clear h
    induction trace with
    | nil =>
      exact fun issue hissue ↦ absurd hissue (by simp [sessionMonitor, Session.init, Phase.basis?])
    | cons e past ih => exact ih.step e.op e.note e.answer
  have hbasis : Phase.basis? (Session.phase ((sessionMonitor setup).run trace)) =
      some (.issued issue) := by
    rw [h]
    rfl
  rw [hpinned issue hbasis, config_run]

/-- A prompt was given by a provider that was asked. -/
theorem entry_of_prompt {o : Op} {r : o.Answer} {messages : List ModelMessage}
    (h : promptAfter none o r = some messages) (n : Nat) :
    ∃ handle request deadline, (⟨o, n, r⟩ : Entry interface Nat) =
      ⟨.pollPort (.prepare handle request) deadline, n, .ready (.ok messages)⟩ := by
  unfold promptAfter at h
  split at h
  · exact absurd h (by simp)
  · obtain rfl := Option.some.inj h
    exact ⟨_, _, _, rfl⟩
  · exact absurd h (by simp)

/-- An operation that gives no prompt keeps the last one, or starts over. -/
theorem promptAfter_of_none {o : Op} {r : o.Answer} (h : promptAfter none o r = none)
    (last : Option (List ModelMessage)) :
    promptAfter last o r = none ∨ promptAfter last o r = last := by
  unfold promptAfter at h ⊢
  split
  · exact .inl rfl
  · exact absurd h (by simp)
  · exact .inr rfl

/-- The last prompt of a trace was given in it. -/
theorem exists_lastPrompt {trace : List (Entry interface Nat)} {messages : List ModelMessage}
    (h : lastPrompt trace = some messages) :
    ∃ newer handle request deadline n older,
      trace = newer ++ ⟨.pollPort (.prepare handle request) deadline, n,
        .ready (.ok messages)⟩ :: older := by
  induction trace with
  | nil => exact absurd h (by simp [lastPrompt])
  | cons e past ih =>
    obtain ⟨o, n, r⟩ := e
    cases hanswer : promptAfter none o r with
    | some messages' =>
      obtain ⟨handle, request, deadline, he⟩ := entry_of_prompt hanswer n
      cases he
      obtain rfl := Option.some.inj h
      exact ⟨[], handle, request, deadline, n, past, rfl⟩
    | none =>
      -- The prompt is older than the operation.
      have hpast : lastPrompt past = some messages := by
        rcases promptAfter_of_none hanswer (lastPrompt past) with hnone | hsame
        · exact absurd (hnone.symm.trans h) (by simp)
        · exact hsame.symm.trans h
      obtain ⟨newer, handle, request, deadline, m, older, rfl⟩ := ih hpast
      exact ⟨⟨o, n, r⟩ :: newer, handle, request, deadline, m, older, rfl⟩

/-- The messages of every session are the projection of its whole history. -/
theorem projects_of_accepts {trace : List (Entry interface Nat)}
    (haccepts : (sessionMonitor setup).Accepts trace) (hdefaults : DefaultsIn providers trace) :
    Session.Projects providers ((sessionMonitor setup).run trace) := by
  induction trace with
  | nil =>
    intro handle messages h
    exact absurd h (by simp [sessionMonitor, Session.init, Phase.prompt?])
  | cons e past ih =>
    obtain ⟨hpast, hpermits, -⟩ := haccepts
    have hprojects := ih hpast fun handle request deadline n messages hmem ↦
      hdefaults handle request deadline n messages (List.mem_cons_of_mem e hmem)
    intro handle messages h
    obtain ⟨o, n, r⟩ := e
    cases hanswer : promptAfter none o r with
    | none =>
      obtain ⟨hprompt, hworking⟩ := Session.prompt_of_next hpermits hanswer h
      show DefaultPromptProvider.project _ (Session.working (Session.next _ _ _ _)).view = _
      rw [hworking]
      exact hprojects handle messages hprompt
    | some messages' =>
      -- A prompt is asked for with all that was appended, and prepared right then.
      obtain ⟨handle', request, deadline, he⟩ := entry_of_prompt hanswer n
      cases he
      obtain ⟨rfl, rfl⟩ := Prod.mk.inj (Option.some.inj h)
      obtain ⟨-, -, -, hrequest⟩ := hpermits
      have hproject := hdefaults handle' request deadline n messages' List.mem_cons_self
      rw [congrArg PromptRequest.history hrequest] at hproject
      exact hproject

end

/-! ## Loops that fail with their prompt -/

/-- There is no prompt, or none that can be sent. -/
def Refused (last : Option (List ModelMessage)) : Prop :=
  ∀ messages, last = some messages → ¬ Sendable messages

/-- The monitor of prompts: a report blames the prompt only where it is refused. -/
def promptMonitor : Monitor interface Nat where
  State := Option (List ModelMessage)
  init := none
  allowed last o := match o with
    | .sendReport report => report.outcome.summary = .failed .prompt → Refused last
    | _ => True
  expects _ _ _ _ := True
  next last o _ r := promptAfter last o r

/-- The operations that prompts and reports are about. -/
def Op.prompts : Op → Bool
  | .view | .pollPort (.prepare _ _) _ | .sendReport _ => true
  | _ => false

/-- The prompt that a port call gave. -/
def PortCallOutcome.messages? : PortCallOutcome .prompt → Option (List ModelMessage)
  | .returned (.ok messages) => some messages
  | _ => none

/-- Where a loop ends on its prompt, the prompt is refused. -/
def Blamed (path : FailPath) (last : Option (List ModelMessage)) : Prop :=
  path = .prompt → Refused last

section

variable {ctx : LoopCtx} {last : Option (List ModelMessage)} {α β : Type}

theorem prompt_silent {o : Op} (h : o.prompts = false) : promptMonitor.Silent o := by
  refine fun last ↦ ⟨?_, fun n r ↦ ?_⟩
  · cases o with
    | sendReport report => exact absurd h (by simp [Op.prompts])
    | _ => trivial
  · show promptAfter last o r = last
    cases o with
    | view => exact absurd h (by simp [Op.prompts])
    | pollPort call deadline =>
      cases call with
      | prepare provider request => exact absurd h (by simp [Op.prompts])
      | _ => rfl
    | _ => rfl

theorem prompts_of_plain {o : Op} (h : o.plain = true) : o.prompts = false := by
  cases o <;> first | rfl | exact absurd h (by simp [Op.plain])

/-- Whatever an operation answers, it is permitted unless it delivers a report. -/
theorem prompt_free {o : Op} (h : ∀ report, o ≠ .sendReport report) : promptMonitor.Free o := by
  intro last
  cases o with
  | sendReport report => exact absurd rfl (h report)
  | _ => trivial

/-- One call of a prompt provider gives the prompt that it returns. -/
theorem prompt_runPortCall (turnDeadline timeout : Nat) (make : Nat → PortCall .prompt) :
    promptMonitor.wp (runPortCall (pure ()) turnDeadline timeout make)
      (.ofReturned fun outcome last ↦ last = outcome.messages?) none := by
  unfold runPortCall
  refine promptMonitor.wp_silent_call (prompt_silent rfl) fun cancelled ↦ ?_
  split
  · rfl
  refine promptMonitor.wp_silent_call (prompt_silent rfl) fun deadline ↦ ?_
  cases deadline with
  | none => rfl
  | some deadline =>
    refine promptMonitor.wp_silent_call (prompt_silent rfl) fun now ↦ ?_
    split
    · rfl
    generalize make deadline.instant = call
    cases call with
    | prepare handle request =>
    refine promptMonitor.wp_silent_call (prompt_silent rfl) fun made ↦ ?_
    split
    · refine promptMonitor.wp_bind_of (Q := fun outcome last ↦ last = outcome.messages?) ?_ ?_
      · -- There is no prompt until the provider answers.
        refine promptMonitor.wp_iterate (fun _ last ↦ last = none) rfl ?_
        rintro - _ rfl
        refine promptMonitor.wp_call_bind_of trivial fun n polled _ ↦ ?_
        cases polled with
        | ready result => cases result <;> rfl
        | _ => rfl
      · rintro outcome last rfl
        exact promptMonitor.wp_silent_call (prompt_silent rfl) fun _ ↦ rfl
    · rfl

/-- A prompt that stops the loop is refused. -/
theorem prompt_preparePrompt (requestIndex : Nat) (snapshot : ExecutionConfig)
    (view : HistoryView) (deadline : Nat) :
    promptMonitor.wp (preparePrompt ctx requestIndex snapshot view deadline)
      (.ofReturned fun prep last ↦ match prep with
        | .ready messages => last = some messages
        | .stop path => Blamed path last) none := by
  refine promptMonitor.wp_bind_of (prompt_runPortCall _ _ _) ?_
  rintro outcome last rfl
  have hnone : Blamed .prompt none := fun _ messages hsome ↦ absurd hsome (by simp)
  rcases outcome with (e | messages) | - | (- | -) | - | -
  · exact hnone
  · -- A list without messages is taken for no prompt, and none can be sent.
    show promptMonitor.wp (Prog.pure (promptPrep (.returned (.ok messages)))) _ _
    rw [promptPrep]
    split
    · rename_i hempty
      rintro - _ ⟨⟩ ⟨hne, -⟩
      exact hne (List.isEmpty_iff.mp hempty)
    · rfl
  · exact fun h ↦ absurd h (by simp)
  · exact fun h ↦ absurd h (by simp)
  all_goals exact hnone

/-! ### What follows a request -/

/-- The round does not end the loop with its prompt. -/
def Unblamed (x : Locals ⊕ Ending) : Prop :=
  x.elim (fun _ ↦ True) fun ending ↦ ending.path ≠ .prompt

theorem ne_prompt_of_stops {path : FailPath} (h : path.stops = true) : path ≠ .prompt := by
  rintro rfl
  exact absurd h (by simp [FailPath.stops])

theorem returns_runCalls (snapshot : ExecutionConfig) (locals : Locals) (calls : List ToolCall) :
    (runCalls ctx snapshot locals calls).Returns Unblamed := by
  unfold runCalls
  split
  · refine Prog.returns_bind (Prog.returns_true _) fun _ _ ↦ ?_
    exact fun h ↦ absurd h (by simp)
  · refine Prog.returns_bind (Prog.returns_true _) fun _ _ ↦ ?_
    refine Prog.returns_bind (batchStop_runToolBatch locals.requestIndex snapshot calls) ?_
    rintro (- | path) hpath
    · trivial
    · exact ne_prompt_of_stops hpath

theorem noToolFinish_ne_prompt {reason : ModelFinishReason} {path : FailPath}
    (h : noToolFinish reason = .error path ∨ noToolFinish reason = .ok path) : path ≠ .prompt := by
  cases reason <;> rcases h with h | h <;> cases h <;> simp

theorem returns_handleResponse (snapshot : ExecutionConfig) (locals : Locals)
    (response : ModelResponse) :
    (handleResponse ctx snapshot locals response).Returns Unblamed := by
  unfold handleResponse
  split
  · exact fun h ↦ absurd h (by simp)
  dsimp only
  split
  · cases hpath : noToolFinish response.finishReason with
    | error path => exact noToolFinish_ne_prompt (.inl hpath)
    | ok path =>
      have hne := noToolFinish_ne_prompt (.inr hpath)
      refine Prog.returns_call_bind fun _ ↦ ?_
      split
      · exact Prog.returns_call_bind fun _ ↦ hne
      · exact hne
  · exact Prog.returns_call_bind fun _ ↦ returns_runCalls snapshot _ _

/-- Once a request is issued, the loop does not end with its prompt. -/
theorem returns_issueRequest [SerdeJson] (snapshot : ExecutionConfig) (locals : Locals)
    (request : ModelRequest) : (issueRequest ctx snapshot locals request).Returns Unblamed := by
  refine Prog.returns_call_bind fun _ ↦ Prog.returns_call_bind fun _ ↦ ?_
  refine Prog.returns_bind (Prog.returns_true _) fun _ _ ↦ ?_
  refine Prog.returns_bind (Prog.returns_true _) fun deadline _ ↦ ?_
  refine Prog.returns_bind (Prog.returns_true _) ?_
  rintro (failure | response) -
  · refine Prog.returns_bind (Tally.returns_mapModelFailure_unanswered failure) fun path hpath ↦ ?_
    rintro rfl
    exact absurd hpath (by simp [FailPath.unanswered])
  · exact returns_handleResponse snapshot _ response

/-! ### Rounds -/

/-- Whatever is asked of the host, only a report is judged. -/
theorem prompt_traversal [SerdeJson] :
    Traversal promptMonitor ctx (fun _ ↦ True) fun _ _ ↦ True := by
  refine .ofServing fun o ho ↦ Monitor.Free.stable (prompt_free ?_)
  rintro report rfl
  exact absurd ho (by simp [Op.serves, Op.plain, Op.calls, Op.asks])

/-- The prompt after a round. -/
abbrev AfterPrompt (x : Locals ⊕ Ending) (last : Option (List ModelMessage)) : Prop :=
  Traversal.AfterRound (M := promptMonitor) (fun _ ↦ True) Blamed x last

theorem prompt_issueRequest [SerdeJson] (snapshot : ExecutionConfig) (locals : Locals)
    (request : ModelRequest) :
    promptMonitor.wp (issueRequest ctx snapshot locals request) (.ofReturned AfterPrompt) last := by
  have hroutine : ∀ o : Op, o.routine = true → o.unasked = true →
      promptMonitor.Stable (fun _ ↦ True) o := by
    refine fun o ho _ ↦ Monitor.Free.stable (prompt_free ?_)
    rintro report rfl
    exact absurd ho (by simp [Op.routine])
  have hrest : promptMonitor.wp (issueRequest ctx snapshot locals request) (.ofReturned
      (Traversal.AfterRound (M := promptMonitor) (fun _ ↦ True) fun _ _ ↦ True)) last :=
    prompt_traversal.issueRequest hroutine (fun _ _ ↦ trivial)
      (fun _ _ ↦ ⟨trivial, fun _ _ _ ↦ trivial⟩) snapshot locals request trivial
  refine promptMonitor.wp_mono (promptMonitor.wp_and_returns hrest
    (returns_issueRequest snapshot locals request)) ?_ fun _ _ ↦ trivial
  -- What the walk does not say about the path, the program does.
  rintro (locals' | ending) last' ⟨-, hunblamed⟩
  · trivial
  · exact fun hprompt ↦ absurd hprompt hunblamed

theorem prompt_prepareRequest [SerdeJson] (locals : Locals) :
    promptMonitor.wp (prepareRequest ctx locals) (.ofReturned AfterPrompt) last := by
  unfold prepareRequest
  refine wp_silent_publish (prompt_silent rfl) (prompt_silent rfl) ?_
  -- Looking at the history starts over.
  refine promptMonitor.wp_call_bind_of trivial fun n view _ ↦ ?_
  show promptMonitor.wp _ _ none
  refine promptMonitor.wp_silent_bind (fun _ ↦ prompt_silent)
    (uses_turnDeadline (fun _ ↦ prompts_of_plain) _) fun deadline ↦ ?_
  refine promptMonitor.wp_bind_of (prompt_preparePrompt _ _ _ _) ?_
  rintro (messages | path) last hprep
  · refine promptMonitor.wp_bind_of (Traversal.takeBoundary (K := fun last ↦ last = some messages)
      (fun _ ho ↦ (prompt_silent (prompts_of_plain ho)).stable _) ((prompt_silent rfl).stable _)
      ((prompt_silent rfl).stable _) (fun _ ↦ (prompt_silent rfl).stable _) true locals.config
      locals.candidateRevision hprep) ?_
    rintro boundary _ rfl
    dsimp only
    split
    · exact promptMonitor.wp_silent_call (prompt_silent rfl) fun _ ↦ trivial
    · split
      · -- The request was refused, which it would not be for messages that can be sent.
        rename_i hbuild
        rintro - _ ⟨⟩ hsendable
        exact absurd (hbuild.symm.trans (hsendable.build _)) (by simp)
      · exact prompt_issueRequest _ _ _
  · exact hprep

theorem prompt_requestRound [SerdeJson] (locals : Locals) :
    promptMonitor.wp (requestRound ctx locals) (.ofReturned AfterPrompt) last := by
  unfold requestRound
  refine promptMonitor.wp_silent_call (prompt_silent rfl) fun cancelled ↦ ?_
  split
  · exact fun h ↦ absurd h (by simp)
  have hdeadline := uses_pastDeadline (S := fun o : Op ↦ o.prompts = false) rfl ctx.options.deadline
  refine promptMonitor.wp_silent_bind (fun _ ↦ prompt_silent) hdeadline fun past ↦ ?_
  split
  · exact fun h ↦ absurd h (by simp)
  · refine promptMonitor.wp_bind_of (Traversal.takeBoundary (K := fun _ ↦ True)
      (fun _ ho ↦ (prompt_silent (prompts_of_plain ho)).stable _) ((prompt_silent rfl).stable _)
      ((prompt_silent rfl).stable _) (fun _ ↦ (prompt_silent rfl).stable _) false locals.config
      locals.candidateRevision trivial) ?_
    exact fun boundary last _ ↦ prompt_prepareRequest _

/-! ### The report -/

/-- Only the prompt is reported as the prompt. -/
theorem eq_prompt_of_tells {path : FailPath} (h : path.tells (.failed .prompt) = true) :
    path = .prompt := by
  unfold FailPath.tells at h
  split at h <;> simp_all

theorem prompt_deliverReport {ending : Ending} (hblamed : Blamed ending.path last) (revision : Nat)
    {outcome : LoopOutcome} (houtcome : outcome.summary = .failed .prompt → ending.path = .prompt)
    (discarded : Option ExecutionConfig) :
    promptMonitor.wp (deliverReport ctx ending revision outcome discarded)
      (.ofReturned fun _ _ ↦ True) last := by
  refine promptMonitor.wp_silent_call (prompt_silent rfl) fun appended ↦ ?_
  have hfinal := uses_finalStates (S := fun o : Op ↦ o.prompts = false) ctx rfl (fun _ ↦ rfl)
    (fun _ ↦ rfl) (ending.locals.lastIssuedRequestIndex.getD 0) revision
  refine promptMonitor.wp_silent_bind (fun _ ↦ prompt_silent) hfinal fun _ ↦ ?_
  refine promptMonitor.wp_call_bind_of (fun hprompt ↦ hblamed (houtcome hprompt)) fun _ _ _ ↦ ?_
  refine promptMonitor.wp_silent_call (prompt_silent rfl) fun _ ↦ ?_
  refine promptMonitor.wp_silent_call (prompt_silent rfl) fun _ ↦ ?_
  exact promptMonitor.wp_silent_bind (fun _ ↦ prompt_silent)
    (uses_dropConfig (fun _ ↦ prompts_of_plain) discarded) fun _ ↦ trivial

theorem prompt_finishLoop {ending : Ending} (hblamed : Blamed ending.path last) :
    promptMonitor.wp (finishLoop ctx ending) (.ofReturned fun _ _ ↦ True) last := by
  unfold finishLoop
  refine promptMonitor.wp_silent_call (prompt_silent rfl) fun revision ↦ ?_
  refine promptMonitor.wp_silent_bind_returns (fun _ ↦ prompt_silent)
    (uses_outcomeFor (fun _ ↦ prompts_of_plain) ending.path)
    (Tally.returns_outcomeFor_tells ending.path) fun intended hintended ↦ ?_
  have hseal := uses_seal (S := fun o : Op ↦ o.prompts = false) rfl (fun _ ↦ rfl) rfl
  refine promptMonitor.wp_silent_bind (fun _ ↦ prompt_silent) hseal ?_
  rintro ⟨finish, discarded⟩
  -- A clean seal keeps the intended outcome; one that came after a cancellation never blames
  -- the prompt.
  cases finish with
  | clean =>
    refine prompt_deliverReport hblamed revision (fun hprompt ↦ ?_) discarded
    exact eq_prompt_of_tells (hprompt ▸ hintended)
  | cancelledPrior source =>
    refine prompt_deliverReport hblamed revision (fun hprompt ↦ ?_) discarded
    exact absurd hprompt (by simp [LoopOutcome.summary])
  | alreadyFinished =>
    refine promptMonitor.wp_silent_call (prompt_silent rfl) fun report ↦ ?_
    cases report <;> trivial

theorem prompt_runLoopInner [SerdeJson] (ctx : LoopCtx) (request : LoopRequest) :
    promptMonitor.wp (runLoopInner ctx request) (.ofReturned fun _ _ ↦ True) none := by
  unfold runLoopInner
  refine promptMonitor.wp_silent_call (prompt_silent rfl) fun _ ↦ ?_
  refine promptMonitor.wp_silent_call (prompt_silent rfl) fun _ ↦ ?_
  refine promptMonitor.wp_bind_of (Q := fun ending last ↦ Blamed ending.path last) ?_ ?_
  · refine promptMonitor.wp_iterate (fun _ _ ↦ True) trivial fun locals last _ ↦ ?_
    exact promptMonitor.wp_mono_returned (prompt_requestRound locals) fun _ _ hx ↦ hx
  · intro ending last hblamed
    refine promptMonitor.wp_bind_of (prompt_finishLoop hblamed) fun report last' _ ↦ ?_
    refine promptMonitor.wp_silent_bind (fun _ ↦ prompt_silent)
      (uses_dropConfig (fun _ ↦ prompts_of_plain) _) fun _ ↦ ?_
    exact promptMonitor.wp_silent_call (prompt_silent rfl) fun _ ↦ trivial

theorem prompt_run (trace : List (Entry interface Nat)) :
    promptMonitor.run trace = lastPrompt trace := by
  induction trace with
  | nil => rfl
  | cons e past ih => exact congrArg (promptAfter · e.op e.answer) ih

/-- Where a loop fails with its prompt, the provider gave none, or none that can be sent. -/
theorem prompt_refused [SerdeJson] (setup : Setup) (clock : Nat) (schedule : List Turn)
    {newer older : List (Entry interface Nat)} {report : LoopReport} {n : Nat} {r : Unit}
    (hsplit : (setup.run clock schedule).2.trace = newer ++ ⟨.sendReport report, n, r⟩ :: older)
    (hprompt : report.outcome.summary = .failed .prompt) : Refused (lastPrompt older) := by
  have haccepts : promptMonitor.Accepts (setup.run clock schedule).2.trace :=
    (promptMonitor.exec_sound machine (World.honours_of_expects fun _ _ _ _ ↦ trivial)
      (runLoopInner setup.ctx setup.request)
      (w := .start setup.ctx.id setup.ctx.options setup.request.history clock schedule)
      trivial trivial (prompt_runLoopInner setup.ctx setup.request)).2.1
  rw [hsplit] at haccepts
  obtain ⟨-, hallowed, -⟩ := haccepts.of_split
  have hrefused : Refused (promptMonitor.run older) := hallowed hprompt
  rwa [prompt_run] at hrefused

end

/-! ## Runs -/

theorem appendedItems_append (newer older : List (Entry interface Nat)) :
    appendedItems (newer ++ older) = appendedItems older ++ appendedItems newer := by
  induction newer with
  | nil => simp [appendedItems]
  | cons e newer ih =>
    obtain ⟨o, n, r⟩ := e
    cases o with
    | append item =>
      show appendedItems (newer ++ older) ++ [item] =
        appendedItems older ++ (appendedItems newer ++ [item])
      rw [ih, List.append_assoc]
    | _ => exact ih

section

variable {setup : Setup} {providers : PromptHandle → DefaultPromptProvider}
  {trace newer older : List (Entry interface Nat)}

theorem DefaultsIn.past (h : DefaultsIn providers (newer ++ older)) :
    DefaultsIn providers older :=
  fun handle request deadline n messages hmem ↦
    h handle request deadline n messages (List.mem_append_right newer hmem)

/-- What was handed over up to some point is a part of what was handed over. -/
theorem legal_past {input : UserInput}
    (h : ∀ input' ∈ input :: handedOver (newer ++ older), LegalInput input') :
    ∀ input' ∈ input :: handedOver older, LegalInput input' := by
  rw [handedOver_append] at h
  intro input' hinput
  apply h
  rcases List.mem_cons.mp hinput with rfl | hinput
  · exact List.mem_cons_self
  · exact List.mem_cons_of_mem _ (List.mem_append_left _ hinput)

/-- The messages of a request are the system prompt of the provider of the configuration that was
taken last, and the projection of the history when it is sent. -/
theorem startModel_projects (haccepts : (sessionMonitor setup).Accepts trace)
    (hdefaults : DefaultsIn providers trace) {model : ModelHandle} {request : ModelRequest}
    {context : ModelCallContext} {n : Nat} {r : Bool}
    (hsplit : trace = newer ++ ⟨.startModel model request context, n, r⟩ :: older) :
    model = (setup.configIn older).model ∧ ∃ body,
      projectItems (setup.request.history ++ appendedItems older) = .ok body ∧
      request = ⟨(providers (setup.configIn older).prompt).systemMessages ++ body,
        (setup.configIn older).tools.specs, .default, (setup.configIn older).reasoning⟩ := by
  subst hsplit
  obtain ⟨hpast, ⟨issue, hphase, hmodel, hrequest, -⟩, -⟩ := haccepts.of_split
  rw [← issued_config setup older hphase]
  rw [List.append_cons] at hdefaults
  have hprojects := projects_of_accepts hpast hdefaults.past
  -- The messages that were issued are the ones the provider prepared last.
  have hproject := hprojects issue.config.prompt issue.messages (by rw [hphase]; rfl)
  obtain ⟨-, body, hbody, hmessages⟩ := DefaultPromptProvider.project_eq_ok.mp hproject
  obtain ⟨-, -, happended, hbase⟩ := session_run setup older
  refine ⟨hmodel, body, ?_, ?_⟩
  · rw [← hbody, ← hbase, ← happended]
    rfl
  · rw [hrequest, hmessages]

/-- Between requests, what was appended leaves no tool call pending. -/
theorem closed_appended (haccepts : (sessionMonitor setup).Accepts trace)
    (hphase : Session.phase ((sessionMonitor setup).run trace) = .boundary)
    (hinputs : ∀ input ∈ setup.request.input :: handedOver trace, LegalInput input) :
    Closed (appendedItems trace) ∧ appendedItems trace ≠ [] := by
  obtain ⟨-, htaken, happended, -⟩ := session_run setup trace
  have hcontinues := continues_of_accepts haccepts
  obtain ⟨rounds, tail, hitems⟩ := hcontinues.reported.shaped.exists_transcript
    (by rw [hphase]; simp) (by rw [hphase]; simp)
  have hsound := hcontinues.sound
  rw [happended, htaken] at hsound
  rw [happended] at hitems
  rw [hitems] at hsound ⊢
  exact ⟨closed_transcript hinputs hsound, by simp [transcript]⟩

/-- The prompts of default providers can be sent. -/
theorem sendable_lastPrompt (haccepts : (sessionMonitor setup).Accepts trace)
    (hdefaults : DefaultsIn providers trace) (hsystem : ∀ handle, (providers handle).LegalSystem)
    (hbase : AcceptedHistory setup.request.history)
    (hinputs : ∀ input ∈ setup.request.input :: handedOver trace, LegalInput input)
    {messages : List ModelMessage} (hlast : lastPrompt trace = some messages) :
    Sendable messages := by
  obtain ⟨newer, handle, request, deadline, n, older, rfl⟩ := exists_lastPrompt hlast
  obtain ⟨hpast, ⟨-, hphase, -, hrequest⟩, -⟩ := haccepts.of_split
  have hproject := hdefaults handle request deadline n messages
    (List.mem_append_right _ List.mem_cons_self)
  rw [List.append_cons] at hinputs
  obtain ⟨hclosed, hne⟩ := closed_appended hpast hphase (legal_past hinputs)
  -- The provider was given the history the loop started with, and all that was appended.
  have hview : request.history = ⟨setup.request.history, appendedItems older⟩ := by
    obtain ⟨-, -, happended, hhistory⟩ := session_run setup older
    rw [congrArg PromptRequest.history hrequest, ← happended, ← hhistory]
    rfl
  rw [hview] at hproject
  exact DefaultPromptProvider.sendable (hsystem handle) hbase hclosed hne hproject

end

/-- A loop whose prompts are those of default providers: what a request says is the system prompt of
the provider that the configuration taken last names, and the projection of the whole history. There
it repeats what every earlier request said before it adds what was appended since. Where the loop
fails with its prompt, the provider gave none when it was last asked: no prompt is refused. -/
theorem default_prompts [SerdeJson] (setup : Setup) (clock : Nat) (schedule : List Turn)
    (providers : PromptHandle → DefaultPromptProvider)
    (hdefaults : DefaultsIn providers (setup.run clock schedule).2.trace)
    (hsystem : ∀ handle, (providers handle).LegalSystem)
    (hbase : AcceptedHistory setup.request.history)
    (hinputs : ∀ input ∈ setup.request.input :: handedOver (setup.run clock schedule).2.trace,
      LegalInput input) :
    (∀ newer model request context n r older, (setup.run clock schedule).2.trace =
        newer ++ ⟨.startModel model request context, n, r⟩ :: older →
      model = (setup.configIn older).model ∧ ∃ body,
        projectItems (setup.request.history ++ appendedItems older) = .ok body ∧
        request = ⟨(providers (setup.configIn older).prompt).systemMessages ++ body,
          (setup.configIn older).tools.specs, .default, (setup.configIn older).reasoning⟩ ∧
        ∀ between model' earlier context' n' r' past,
          older = between ++ ⟨.startModel model' earlier context', n', r'⟩ :: past →
          ∃ said added,
            earlier.messages = (providers (setup.configIn past).prompt).systemMessages ++ said ∧
            body = said ++ added ∧ projectItems (appendedItems between) = .ok added) ∧
    ∀ newer report n r older, (setup.run clock schedule).2.trace =
        newer ++ ⟨.sendReport report, n, r⟩ :: older →
      report.outcome.summary = .failed .prompt → lastPrompt older = none := by
  obtain ⟨-, haccepts, -⟩ := conforms setup clock schedule
  refine ⟨fun newer model request context n r older hsplit ↦ ?_,
    fun newer report n r older hsplit hprompt ↦ ?_⟩
  · obtain ⟨hmodel, body, hbody, hrequest⟩ := startModel_projects haccepts hdefaults hsplit
    refine ⟨hmodel, body, hbody, hrequest, ?_⟩
    rintro between model' earlier context' n' r' past rfl
    have hearlier : (setup.run clock schedule).2.trace =
        (newer ++ ⟨.startModel model request context, n, r⟩ :: between) ++
          ⟨.startModel model' earlier context', n', r'⟩ :: past := by
      rw [hsplit, List.append_assoc, List.cons_append]
    obtain ⟨-, said, hsaid, hrequest'⟩ := startModel_projects haccepts hdefaults hearlier
    -- What was appended since the earlier request comes last.
    have happended : setup.request.history ++
        appendedItems (between ++ ⟨.startModel model' earlier context', n', r'⟩ :: past) =
          (setup.request.history ++ appendedItems past) ++ appendedItems between := by
      rw [appendedItems_append, List.append_assoc]
      rfl
    rw [happended] at hbody
    obtain ⟨said', added, hsaid', hadded, rfl⟩ := projectItems_append.mp hbody
    obtain rfl : said' = said := Except.ok.inj (hsaid'.symm.trans hsaid)
    exact ⟨said', added, congrArg ModelRequest.messages hrequest', rfl, hadded⟩
  · have hrefused := prompt_refused setup clock schedule hsplit hprompt
    cases hlast : lastPrompt older with
    | none => rfl
    | some messages =>
      rw [hsplit, List.append_cons] at hdefaults hinputs
      rw [hsplit] at haccepts
      obtain ⟨hpast, -⟩ := haccepts.of_split
      have hsendable := sendable_lastPrompt hpast hdefaults.past hsystem hbase
        (legal_past hinputs) hlast
      exact absurd hsendable (hrefused messages hlast)

namespace Sample

/-- A default provider with a system prompt. -/
def provider : DefaultPromptProvider := ⟨some ⟨"Be brief.".toList, by decide⟩⟩

/-- The prompt of the sample is answered by the default provider: what the loop was started with,
and the input that was handed over. -/
def prompting : List Turn :=
  schedule.set 14
    { reply := .port .prompt
        (.ok [.system "Be brief.".toList, .user "hi".toList, .user "go".toList]) }

/-- Two lists of the same texts. -/
def sameTexts : List ModelMessage → List ModelMessage → Bool
  | [], [] => true
  | .system text :: rest, .system text' :: rest' => text == text' && sameTexts rest rest'
  | .user text :: rest, .user text' :: rest' => text == text' && sameTexts rest rest'
  | _, _ => false

theorem eq_of_sameTexts {messages messages' : List ModelMessage}
    (h : sameTexts messages messages' = true) : messages = messages' := by
  induction messages generalizing messages' with
  | nil =>
    cases messages' with
    | nil => rfl
    | cons message rest => exact absurd h (by simp [sameTexts])
  | cons message rest ih =>
    unfold sameTexts at h
    split at h <;> simp_all
    all_goals exact ih h.2

/-- Whether a prompt is the projection of the default provider. -/
def answersDefault (e : Entry interface Nat) : Bool :=
  match e with
  | ⟨.pollPort (.prepare _ request) _, _, .ready (.ok messages)⟩ =>
    match provider.project request.history with
    | .ok projected => sameTexts projected messages
    | .error _ => false
  | _ => true

theorem defaultsIn_of_all {trace : List (Entry interface Nat)}
    (h : trace.all answersDefault = true) : DefaultsIn (fun _ ↦ provider) trace := by
  intro handle request deadline n messages hmem
  have hanswers := List.all_eq_true.mp h _ hmem
  simp only [answersDefault] at hanswers
  split at hanswers
  · rename_i projected hproject
    rw [hproject, eq_of_sameTexts hanswers]
  · exact absurd hanswers (by simp)

end Sample

/-- The request of the sample says the system prompt and the two inputs. -/
theorem default_prompts_sample :
    ∃ newer model request context n r older, (Sample.setup.run 0 Sample.prompting).2.trace =
        newer ++ ⟨.startModel model request context, n, r⟩ :: older ∧
      ∃ body, projectItems (Sample.setup.request.history ++ appendedItems older) = .ok body ∧
        request.messages = .system "Be brief.".toList :: body := by
  -- The run, its inputs and its first start, by evaluation.
  have hdefaults : (Sample.setup.run 0 Sample.prompting).2.trace.all Sample.answersDefault =
      true := by
    decide +kernel
  have htaken : handedOver (Sample.setup.run 0 Sample.prompting).2.trace =
      [.text ⟨"go".toList, by decide⟩] := by decide +kernel
  have hstarts : (traceOf (Sample.setup.run 0 Sample.prompting).2.log).any
      (fun e ↦ (startedCall e).isSome) = true := by
    decide +kernel
  have hinputs : ∀ input ∈ Sample.setup.request.input ::
      handedOver (Sample.setup.run 0 Sample.prompting).2.trace, LegalInput input := by
    rw [htaken]
    intro input hinput
    rcases List.mem_cons.mp hinput with rfl | hinput
    · exact .of_plain (by decide +kernel) (by decide +kernel) (by decide +kernel)
    · rw [List.mem_singleton.mp hinput]
      exact .of_plain (by decide +kernel) (by decide +kernel) (by decide +kernel)
  have hsystem : Sample.provider.LegalSystem := by
    intro message hmessage
    obtain rfl := List.mem_singleton.mp hmessage
    decide +kernel
  obtain ⟨newer, ⟨o, n, r⟩, older, hlog, hstart⟩ := split_of_any hstarts
  cases o with
  | startModel model request context =>
    have hsplit : (Sample.setup.run 0 Sample.prompting).2.trace =
        traceOf newer ++ ⟨.startModel model request context, n, r⟩ :: traceOf older := by
      rw [World.trace, hlog, traceOf_append]
      rfl
    obtain ⟨-, body, hbody, hrequest, -⟩ :=
      (default_prompts Sample.setup 0 Sample.prompting (fun _ ↦ Sample.provider)
        (Sample.defaultsIn_of_all hdefaults) (fun _ ↦ hsystem) (.inl rfl) hinputs).1
        _ _ _ _ _ _ _ hsplit
    exact ⟨_, _, _, _, _, _, _, hsplit, body, hbody, congrArg ModelRequest.messages hrequest⟩
  | _ => exact absurd hstart (by simp [startedCall])

end MinicoreRuntime
