import MinicoreRuntime.AgentLoop.Completion
import MinicoreRuntime.AgentLoop.Rounds
import MinicoreRuntime.Interactive.Interpret

/-!
# The story of a run

The host watches a loop through its events, and afterwards reads its history and its report. All
three tell one story. This module says which stories a loop may tell, as a machine whose states are
the scenes of a story and whose letters are events, items and the report. A tool call is a scene of
its own: it begins with an event, its progress and its questions belong to it, and the event of its
end announces the result that the history has next.

## Main definitions

* `Happening`, `Scene`: what a story is made of.
* `Scene.Permits`, `Scene.next`: the rules of stories.
* `IsStory`: a story keeps the rules.
* `storyOf`: the story of a log.

## Main results

* `tell_runToolBatch`: the scenes of the tool calls of a response.
* `events_tell`: every run of the task tells a story.
-/

namespace MinicoreRuntime

open Interactive

/-! ## Stories -/

/-- What a loop shows its host, or records for it. -/
inductive Happening where
  /-- An event handed to the sink. -/
  | event (event : LoopEvent)
  /-- An item appended to the history. -/
  | item (item : HistoryItem)
  | report (report : LoopReport)

/-- The tool call whose turn it is. -/
structure CallTurn where
  /-- The index of the request. -/
  index : Nat
  call : ToolCall
  /-- The calls after this one. -/
  rest : List ToolCall

/-- Where a story is. -/
inductive Scene where
  | dark
  /-- The prompt of the loop is not recorded yet. -/
  | opened
  /-- The next request has the index `index`. -/
  | between (index : Nat)
  /-- A request was started, and its response is not recorded yet. -/
  | answering (index : Nat)
  /-- A response without tool calls is recorded. -/
  | answered
  | turn (t : CallTurn)
  | running (t : CallTurn)
  /-- The state shows the question. -/
  | asking (t : CallTurn) (pending : PendingInteraction)
  | waiting (t : CallTurn) (pending : PendingInteraction)
  /-- The call is over, and its result is not recorded yet. -/
  | judged (t : CallTurn) (outcome : ToolResultOutcome) (bytes : Nat)
  | reported (report : LoopReport)
  | finished

namespace CallTurn

/-- The scene after the result of a call. -/
def passed (t : CallTurn) : Scene :=
  match t.rest with
  | [] => .between (saturatingAdd 32 t.index 1)
  | call :: rest => .turn ⟨t.index, call, rest⟩

/-- The result is one of the call. -/
structure Owns (t : CallTurn) (id : LoopId) (result : ToolResultHistory) : Prop where
  loopId : result.loopId = id
  requestIndex : result.requestIndex = t.index
  callId : result.callId = t.call.toolCallId
  toolName : result.toolName = t.call.name

/-- The result of a call that was given up, without an event. -/
structure Settles (t : CallTurn) (id : LoopId) (result : ToolResultHistory) : Prop
    extends t.Owns id result where
  outcome : result.outcome = .cancelled ∨ result.outcome = .failed

end CallTurn

namespace Scene

/-- A report was delivered. -/
def Over : Scene → Prop
  | .reported _ | .finished => True
  | _ => False

/-- The loop may end here: no tool call is left without a result. -/
def Rests : Scene → Prop
  | .between _ | .answering _ | .answered => True
  | _ => False

/-- The states that the host is shown in a scene. -/
def Shows (scene : Scene) (state : LoopState) : Prop :=
  match state.status with
  | .starting => ∃ index, scene = .between index
  | .runningModel => ∃ index, scene = .answering index
  | .runningTools => (∃ t, scene = .turn t ∨ scene = .running t) ∧ state.pendingInteraction = none
  | .waitingForInput => ∃ t pending, scene = .running t ∧ state.pendingInteraction = some pending ∧
      pending.toolCallId = t.call.toolCallId ∧ pending.toolName = t.call.name
  | .finishing | .finished => scene.Rests

/-- The rules of the stories of the loop `id`. -/
def Permits (id : LoopId) (scene : Scene) : Happening → Prop
  | .event (.started loopId) => scene = .dark ∧ loopId = id
  | .event (.stateChanged state) => scene.Shows state
  | .event (.requestStarted loopId requestIndex _ _ _) =>
    scene = .between requestIndex ∧ loopId = id
  | .event (.outputDelta loopId requestIndex _ _) => scene = .answering requestIndex ∧ loopId = id
  | .event (.toolStarted loopId requestIndex callId toolName) =>
    ∃ t, scene = .turn t ∧ loopId = id ∧ requestIndex = t.index ∧ callId = t.call.toolCallId ∧
      toolName = t.call.name
  | .event (.toolProgress loopId requestIndex callId _) =>
    ∃ t, scene = .running t ∧ loopId = id ∧ requestIndex = t.index ∧ callId = t.call.toolCallId
  | .event (.toolFinished loopId requestIndex callId _ _) =>
    ∃ t, scene = .running t ∧ loopId = id ∧ requestIndex = t.index ∧ callId = t.call.toolCallId
  | .event (.interactionRequested loopId interaction) =>
    ∃ t, scene = .asking t interaction ∧ loopId = id
  | .event (.interactionResolved loopId interactionId) =>
    ∃ t pending, scene = .waiting t pending ∧ loopId = id ∧ interactionId = pending.interactionId
  | .event (.finished loopId outcome) =>
    ∃ report, scene = .reported report ∧ loopId = id ∧ outcome = report.outcome.summary
  | .item (.user item) =>
    item.loopId = id ∧
      (scene = .opened ∧ item.kind = .prompt ∨
        (∃ index, scene = .between index) ∧ item.kind = .steering)
  | .item (.assistant item) => scene = .answering item.requestIndex ∧ item.loopId = id
  | .item (.toolResult result) =>
    match scene with
    | .turn t | .running t | .asking t _ | .waiting t _ => t.Settles id result
    | .judged t outcome bytes =>
      t.Owns id result ∧ result.outcome = outcome ∧ result.output.content.byteLen = bytes
    | _ => False
  | .item (.summary _) => False
  | .report _ => ¬scene.Over

/-- The scene after a happening. -/
def next : Scene → Happening → Scene
  | _, .report report => .reported report
  | .dark, .event (.started _) => .opened
  | .opened, .item (.user _) => .between 0
  | .between _, .event (.requestStarted _ requestIndex _ _ _) => .answering requestIndex
  | .answering index, .item (.assistant item) =>
    match toolCalls item.content with
    | [] => .answered
    | call :: rest => .turn ⟨index, call, rest⟩
  | .turn t, .event (.toolStarted _ _ _ _) => .running t
  | .running t, .event (.stateChanged state) =>
    match state.pendingInteraction with
    | some pending => .asking t pending
    | none => .running t
  | .asking t pending, .event (.interactionRequested _ _) => .waiting t pending
  | .waiting t _, .event (.interactionResolved _ _) => .running t
  | .running t, .event (.toolFinished _ _ _ outcome bytes) => .judged t outcome bytes
  | .turn t, .item (.toolResult _) | .running t, .item (.toolResult _)
  | .asking t _, .item (.toolResult _) | .waiting t _, .item (.toolResult _)
  | .judged t _ _, .item (.toolResult _) => t.passed
  | .reported _, .event (.finished _ _) => .finished
  | scene, _ => scene

/-- The scene that a story leads to, newest happening first. -/
def after : List Happening → Scene
  | [] => .dark
  | happening :: past => (after past).next happening

end Scene

/-- A story keeps the rules. The newest happening comes first. -/
def IsStory (id : LoopId) : List Happening → Prop
  | [] => True
  | happening :: past => IsStory id past ∧ (Scene.after past).Permits id happening

/-- What an operation adds to the story. -/
def Op.happening? : Op → Option Happening
  | .tryEmit event => some (.event event)
  | .append item => some (.item item)
  | .sendReport report => some (.report report)
  | _ => none

/-- The story of a log. -/
def storyOf (log : List Record) : List Happening :=
  (traceOf log).filterMap fun e ↦ e.op.happening?

/-! ## The monitor -/

/-- What the trace of a task tells. -/
structure Telling where
  scene : Scene
  /-- The call whose progress channel is open. -/
  channel : Option ToolCallId

namespace Telling

/-- The rules of stories; that there is one report is the seal's to say. -/
def Permits (id : LoopId) (s : Telling) (o : Op) : Prop :=
  match o.happening? with
  | none | some (.report _) => True
  | some happening => s.scene.Permits id happening

/-- What the machine answers. -/
def Expects (s : Telling) : (o : Op) → o.Answer → Prop
  | .recvToolProgress, found => ∀ callId progress, found = some (callId, progress) →
      s.channel = some callId
  | _, _ => True

/-- The progress channel after an operation. -/
def channelAfter (channel : Option ToolCallId) : Op → Option ToolCallId
  | .openToolProgress callId => some callId
  | .closeToolProgress => none
  | _ => channel

/-- The story after an operation. -/
def next (s : Telling) (o : Op) : Telling where
  scene := match o.happening? with
    | none => s.scene
    | some happening => s.scene.next happening
  channel := channelAfter s.channel o

end Telling

/-- The monitor of the stories of the loop `id`. -/
def tellMonitor (id : LoopId) : Monitor interface Nat where
  State := Telling
  init := ⟨.dark, none⟩
  allowed := Telling.Permits id
  expects s o _ r := s.Expects o r
  next s o _ _ := s.next o

/-- Operations that tell nothing. -/
def Op.untold : Op → Bool
  | .tryEmit _ | .append _ | .sendReport _ | .openToolProgress _ | .closeToolProgress => false
  | _ => true

theorem tell_silent {id : LoopId} {o : Op} (h : o.untold = true) : (tellMonitor id).Silent o := by
  refine fun s ↦ ⟨?_, fun _ _ ↦ ?_⟩
  · show Telling.Permits id s o
    cases o <;> trivial
  · show s.next o = s
    cases o <;> first | rfl | exact absurd h (by simp [Op.untold])

/-! ### The machine -/

/-- Other threads do not change whose progress channel is open. -/
theorem World.hostStep_toolChannel (w : World) (step : HostStep) :
    (w.hostStep step).toolProgress.map ToolChannel.callId =
      w.toolProgress.map ToolChannel.callId := by
  -- The two steps on the channel keep its call; the others do not touch it.
  cases step with
  | toolProgress progress =>
    rw [hostStep]
    split
    · rfl
    · cases hchannel : w.toolProgress with
      | none => exact congrArg _ hchannel
      | some channel =>
        dsimp only
        split <;> rfl
  | countProgress =>
    rw [hostStep]
    cases hchannel : w.toolProgress with
    | none => exact congrArg _ hchannel
    | some channel =>
      dsimp only
      split
      · exact congrArg _ hchannel
      · rfl
  | cancel source =>
    rw [hostStep, LoopControl.markCancel]
    by_cases h : w.control.state = .none <;> simp [h, record]
  | update config =>
    rw [hostStep]
    split
    · rfl
    · split <;> rfl
  | answer id answer =>
    rw [hostStep]
    split
    · rfl
    · split <;> rfl
  | resume i =>
    rw [hostStep]
    split
    · rfl
    · rfl
    · split <;> rfl
  | recvEvent => rfl
  | dropEvents => rfl

theorem World.effect_toolChannel (w : World) (o : Op) :
    (w.effect o).toolProgress.map ToolChannel.callId =
      Telling.channelAfter (w.toolProgress.map ToolChannel.callId) o := by
  cases o with
  | recvToolProgress =>
    show (w.toolProgress.map _).map _ = w.toolProgress.map _
    rw [Option.map_map]
    rfl
  | takeToolDropped =>
    show (w.toolProgress.map _).map _ = w.toolProgress.map _
    rw [Option.map_map]
    rfl
  | offerProgress progress =>
    unfold effect
    dsimp only
    split <;> rfl
  | _ => rfl

/-- The open progress channel is the one the trace describes. -/
def World.TellsChannel (id : LoopId) (w : World) : Prop :=
  w.toolProgress.map ToolChannel.callId = Telling.channel ((tellMonitor id).run w.trace)

theorem tells_kept (id : LoopId) :
    World.Kept (fun trace ↦ (tellMonitor id).allowed ((tellMonitor id).run trace))
      (World.TellsChannel id) where
  host w step h := by
    show (w.hostStep step).toolProgress.map ToolChannel.callId = Telling.channel _
    rw [World.hostStep_toolChannel, World.hostStep_trace]
    exact h
  pass w schedule clock _ h := h
  answered w turn o r h _ _ := by
    show (w.effect o).toolProgress.map ToolChannel.callId = Telling.channel _
    rw [World.effect_toolChannel, World.recordEntry_trace, World.effect_trace, h]
    rfl

theorem tells_honours (id : LoopId) : machine.Honours (tellMonitor id) (World.TellsChannel id) :=
  (tells_kept id).honours fun w turn o r h _ hanswer ↦ by
    show Telling.Expects _ o r
    cases o with
    | recvToolProgress =>
      rintro callId progress rfl
      obtain ⟨channel, hchannel, hprogress⟩ := Option.bind_eq_some_iff.mp (Option.some.inj hanswer)
      obtain ⟨report, -, hpair⟩ := Option.map_eq_some_iff.mp hprogress
      have hopen : Telling.channel ((tellMonitor id).run w.trace) = some channel.callId := by
        rw [← h, hchannel]
        rfl
      rw [hopen]
      exact congrArg some (Prod.mk.inj hpair).1
    | _ => trivial

/-! ## The walk -/

section

variable {id : LoopId} {s : Telling} {α β : Type}

/-- An event that the scene permits, followed by the rest of a program. -/
theorem tell_emit {scene : Scene} {e : LoopEvent} {f : Unit → Action α}
    {R : α → Telling → Prop} (hs : s.scene = scene) (hpermits : scene.Permits id (.event e))
    (hf : ∀ s', s'.scene = scene.next (.event e) → s'.channel = s.channel →
      (tellMonitor id).wp (f ()) (.ofReturned R) s') :
    (tellMonitor id).wp ((perform (.tryEmit e)).bind f) (.ofReturned R) s := by
  subst hs
  exact (tellMonitor id).wp_call_bind_of hpermits fun _ _ _ ↦ hf _ rfl rfl

/-- An item that the scene permits, followed by the rest of a program. -/
theorem tell_append {scene : Scene} {item : HistoryItem} {f : Unit → Action α}
    {R : α → Telling → Prop} (hs : s.scene = scene) (hpermits : scene.Permits id (.item item))
    (hf : ∀ s', s'.scene = scene.next (.item item) →
      (tellMonitor id).wp (f ()) (.ofReturned R) s') :
    (tellMonitor id).wp ((perform (.append item)).bind f) (.ofReturned R) s := by
  subst hs
  exact (tellMonitor id).wp_call_bind_of hpermits fun _ _ _ ↦ hf _ rfl

/-- Publishing a state that the scene shows, followed by the rest of a program. -/
theorem tell_publish {scene : Scene} {state : LoopState} {f : Unit → Action α}
    {R : α → Telling → Prop} (hs : s.scene = scene) (hshows : scene.Shows state)
    (hf : ∀ s', s'.scene = scene.next (.event (.stateChanged state)) →
      (tellMonitor id).wp (f ()) (.ofReturned R) s') :
    (tellMonitor id).wp ((publish state).bind f) (.ofReturned R) s :=
  (tellMonitor id).wp_silent_call (o := .publishState state) (tell_silent rfl) fun _ ↦
    tell_emit (e := .stateChanged state) hs hshows fun s' hs' _ ↦ hf s' hs'

/-! ### Calls -/

/-- A program that leaves `J` as it is. -/
abbrev Spares (id : LoopId) (J : Telling → Prop) {α : Type} (p : Action α) : Prop :=
  (tellMonitor id).Keeps J (fun _ ↦ True) p

theorem spares_compositional (id : LoopId) (J : Telling → Prop) :
    Prog.Compositional fun p ↦ Spares id J p :=
  Monitor.keeps_compositional _ fun _ _ ↦ trivial

theorem spares_untold {J : Telling → Prop} {o : Op} (h : o.untold = true) :
    Spares id J (perform o) :=
  fun s hs ↦ (tellMonitor id).wp_call_of ((tell_silent h).stable J s hs).1
    ((tell_silent h).stable J s hs).2

/-- A port call leaves alone what its awaiter does. -/
theorem spares_runPortCall {J : Telling → Prop} {port : Port} {awaiter : Action Unit}
    (hawait : Spares id J awaiter) (turnDeadline timeout : Nat) (make : Nat → PortCall port) :
    Spares id J (runPortCall awaiter turnDeadline timeout make) := by
  have h := spares_compositional id J
  -- Every operation of a port call is untold, and only its awaiter tells anything.
  have hop : ∀ {β : Type} {o : Op} {f : o.Answer → Action β}, o.untold = true →
      (∀ r, Spares id J (f r)) → Spares id J ((perform o).bind f) :=
    fun ho hf ↦ h.bind (spares_untold ho) hf
  refine hop (o := .isCancelled) rfl fun cancelled ↦ ?_
  split
  · exact h.pure _
  refine hop (o := .effectiveDeadline _ _) rfl fun deadline ↦ ?_
  cases deadline with
  | none => exact h.pure _
  | some deadline =>
  refine hop (o := .now) rfl fun now ↦ ?_
  split
  · exact h.pure _
  refine hop (o := .makeFuture _) rfl fun made ↦ ?_
  split
  · refine h.bind (h.iterate _ fun _ ↦ ?_) fun outcome ↦ hop (o := .dropFuture) rfl fun _ ↦ h.pure _
    refine hop (o := .pollPort _ _) rfl fun polled ↦ ?_
    cases polled with
    | pending => exact h.bind hawait fun _ ↦ h.pure _
    | _ => exact h.pure _
  · exact h.pure _

theorem spares_turnDeadline {J : Telling → Prop} (deadline : Option Nat) :
    Spares id J (turnDeadline deadline) := by
  have h := spares_compositional id J
  cases deadline with
  | some deadline => exact h.pure _
  | none =>
    refine h.bind (spares_untold (o := .now) rfl) fun now ↦ ?_
    split
    · exact h.pure _
    · exact h.panic

/-- What spares `J`, followed by the rest of a program. -/
theorem Spares.bind {J : Telling → Prop} {p : Action α} (hp : Spares id J p) (hs : J s)
    {f : α → Action β} {R : β → Telling → Prop}
    (hf : ∀ a s', J s' → (tellMonitor id).wp (f a) (.ofReturned R) s') :
    (tellMonitor id).wp (p.bind f) (.ofReturned R) s :=
  (tellMonitor id).wp_bind_of (hp s hs) hf

end

/-! ### Tool calls -/

section

variable {ctx : LoopCtx} {t : CallTurn} {s : Telling} {α : Type}

/-- The tool of a call runs, with its progress channel open. -/
def Channelled (t : CallTurn) (s : Telling) : Prop :=
  s.scene = .running t ∧ s.channel = some t.call.toolCallId

/-- Progress is shown of the call that runs. -/
theorem spares_forwardToolProgress :
    Spares ctx.id (Channelled t) (forwardToolProgress ctx t.index) := by
  intro s hs
  refine (tellMonitor ctx.id).wp_call_bind_of trivial fun n found hfound ↦ ?_
  replace hfound : ∀ callId progress, found = some (callId, progress) → s.channel = some callId :=
    hfound
  cases found with
  | none => exact hs
  | some report =>
    obtain ⟨callId, progress⟩ := report
    -- The report comes from the open channel.
    have hcall : callId = t.call.toolCallId :=
      Option.some.inj ((hfound callId progress rfl).symm.trans hs.2)
    refine (tellMonitor ctx.id).wp_silent_call (s := s) (tell_silent rfl) fun dropped ↦ ?_
    refine (tellMonitor ctx.id).wp_silent_call (tell_silent rfl) fun _ ↦ ?_
    refine tell_emit hs.1 ⟨t, rfl, rfl, rfl, hcall⟩ fun s' hscene hchannel ↦ ?_
    exact ⟨hscene, hchannel.trans hs.2⟩

theorem tell_runToolPort (implementation : ToolHandle) (deadline : Nat)
    (hs : s.scene = .running t) :
    (tellMonitor ctx.id).wp (runToolPort ctx t.index t.call.invocation implementation deadline)
      (.ofReturned fun _ s' ↦ s'.scene = .running t) s := by
  have hspares : Spares ctx.id (Channelled t) (forwardToolProgress ctx t.index) :=
    spares_forwardToolProgress
  have h := spares_compositional ctx.id (Channelled t)
  refine (tellMonitor ctx.id).wp_call_bind_of trivial fun _ _ _ ↦ ?_
  have hopened : Channelled t (s.next (.openToolProgress t.call.toolCallId)) := ⟨hs, rfl⟩
  refine (spares_runPortCall (h.bind hspares fun _ ↦ h.pure _) _ _ _).bind hopened ?_
  intro outcome s₁ hs₁
  refine (tellMonitor ctx.id).wp_silent_call (tell_silent rfl) fun dropped ↦ ?_
  refine (tellMonitor ctx.id).wp_silent_call (tell_silent rfl) fun _ ↦ ?_
  refine (h.iterate () fun _ ↦ hspares).bind hs₁ fun _ s₂ hs₂ ↦ ?_
  exact (tellMonitor ctx.id).wp_call_bind_of trivial fun _ _ _ ↦ hs₂.1

/-- The scenes of a call that has no result yet. -/
def CallTurn.Open (t : CallTurn) (scene : Scene) : Prop :=
  scene = .turn t ∨ scene = .running t ∨
    ∃ pending, scene = .asking t pending ∨ scene = .waiting t pending

/-- The scene after a question: an answer leads back to the call. -/
def AfterQuestion (t : CallTurn) (answer : Except FailPath InteractionAnswer) (s : Telling) :
    Prop :=
  match answer with
  | .ok _ => s.scene = .running t
  | .error _ => t.Open s.scene

/-- The scene after a call. -/
def AfterTelling (id : LoopId) (t : CallTurn) (step : ToolStep) (s : Telling) : Prop :=
  match step with
  | .result result => s.scene = .running t ∧ t.Owns id result
  | .stop _ => t.Open s.scene

/-- A question to the host. -/
theorem tell_askHost (kind : InteractionKind) (hs : s.scene = .running t) :
    (tellMonitor ctx.id).wp (askHost ctx t.call.invocation kind)
      (.ofReturned (AfterQuestion t)) s := by
  have hopen : t.Open s.scene := .inr (.inl hs)
  refine (tellMonitor ctx.id).wp_silent_call (tell_silent rfl) fun found ↦ ?_
  cases found with
  | none => exact hopen
  | some interactionId =>
  refine (tellMonitor ctx.id).wp_silent_call (tell_silent rfl) fun channel ↦ ?_
  refine (tellMonitor ctx.id).wp_silent_call (tell_silent rfl) fun set ↦ ?_
  cases set with
  | false => exact hopen
  | true =>
  refine (tellMonitor ctx.id).wp_silent_call (tell_silent rfl) fun waiting ↦ ?_
  -- The question is published, then requested: from here on the scene is asking.
  refine tell_publish hs ⟨t, _, rfl, rfl, rfl, rfl⟩ fun s₁ hs₁ ↦ ?_
  refine tell_emit hs₁ ⟨t, rfl, rfl⟩ fun s₂ hs₂ _ ↦ ?_
  refine Spares.bind (J := fun s' ↦ s' = s₂) ?_ rfl ?_
  · have h := spares_compositional ctx.id fun s' ↦ s' = s₂
    refine h.iterate () fun _ ↦ h.bind (spares_untold (o := .pollInteraction _ _) rfl)
      fun polled ↦ ?_
    rcases polled with - | - | (- | answer) | - | - <;> exact h.pure _
  · -- Without an answer the scene stays open; with one it is resolved and runs again.
    rintro answer _ rfl
    cases answer with
    | error path =>
      exact (tellMonitor ctx.id).wp_silent_call (tell_silent rfl) fun _ ↦ .inr (.inr ⟨_, .inr hs₂⟩)
    | ok answer =>
      refine (tellMonitor ctx.id).wp_silent_call (tell_silent rfl) fun _ ↦ ?_
      refine tell_emit hs₂ ⟨t, _, rfl, rfl, rfl⟩ fun s₃ hs₃ _ ↦ ?_
      refine (tellMonitor ctx.id).wp_silent_call (tell_silent rfl) fun running ↦ ?_
      exact tell_publish hs₃ ⟨⟨t, .inr rfl⟩, rfl⟩ fun s₄ hs₄ ↦ hs₄

/-! #### Results -/

/-- The results that the runner makes are results of their call. -/
theorem CallTurn.owns_of (id : LoopId) (t : CallTurn) (outcome : ToolResultOutcome)
    (output : ToolOutput) :
    t.Owns id ⟨id, t.index, t.call.toolCallId, t.call.name, outcome, output⟩ :=
  ⟨rfl, rfl, rfl, rfl⟩

theorem CallTurn.owns_completedResult (id : LoopId) (t : CallTurn) (output : ToolOutput)
    (maxOutputBytes : Nat) :
    t.Owns id (completedResult id t.index t.call.invocation output maxOutputBytes) := by
  unfold completedResult
  split
  · exact t.owns_of id _ _
  · exact t.owns_of id _ _

theorem CallTurn.owns_providedInputResult (id : LoopId) (t : CallTurn) (content : Text)
    (maxOutputBytes : Nat) :
    t.Owns id (providedInputResult id t.index t.call.invocation content maxOutputBytes) := by
  unfold providedInputResult
  split
  · split
    · exact t.owns_of id _ _
    · exact t.owns_of id _ _
  · exact t.owns_of id _ _

theorem tell_deniedResult (reason : Option BoundedText) (hs : s.scene = .running t) :
    (tellMonitor ctx.id).wp (deniedResult ctx t.index t.call.invocation reason)
      (.ofReturned (AfterTelling ctx.id t)) s := by
  unfold deniedResult
  split
  · exact ⟨hs, t.owns_of ctx.id _ _⟩
  · trivial

/-! #### Calls of a batch -/

/-- A call that may run. -/
theorem tell_executeTool (enabled : EnabledTool) (hs : s.scene = .running t) :
    (tellMonitor ctx.id).wp (executeTool ctx t.index t.call.invocation enabled)
      (.ofReturned (AfterTelling ctx.id t)) s := by
  refine (spares_turnDeadline _).bind (J := fun s' ↦ s'.scene = .running t) hs
    fun deadline s₁ hs₁ ↦ ?_
  refine (tellMonitor ctx.id).wp_bind_of (tell_runToolPort _ deadline hs₁) fun outcome s₂ hs₂ ↦ ?_
  cases outcome with
  | completed output => exact ⟨hs₂, t.owns_completedResult ctx.id output _⟩
  | failed => exact ⟨hs₂, t.owns_of ctx.id _ _⟩
  | stop path => exact .inr (.inl hs₂)
  | requestInput request =>
    refine (tellMonitor ctx.id).wp_bind_of (tell_askHost (.toolInput request) hs₂) ?_
    intro answer s₃ hs₃
    rcases answer with path | (decision | answer)
    · exact hs₃
    · exact .inr (.inl hs₃)
    · dsimp only
      split
      · exact ⟨hs₃, t.owns_providedInputResult ctx.id _ _⟩
      · trivial

/-- One call: the policy, perhaps an approval, and the tool. -/
theorem tell_runToolCall (enabled : EnabledTool) (policy : Option PolicyHandle)
    (hs : s.scene = .running t) :
    (tellMonitor ctx.id).wp (runToolCall ctx t.index t.call.invocation enabled policy)
      (.ofReturned (AfterTelling ctx.id t)) s := by
  have h := spares_compositional ctx.id fun s' ↦ s'.scene = .running t
  refine (spares_turnDeadline _).bind (J := fun s' ↦ s'.scene = .running t) hs
    fun deadline s₁ hs₁ ↦ ?_
  -- Asking the policy tells nothing.
  have hpolicy : Spares ctx.id (fun s' ↦ s'.scene = .running t)
      (decidePolicy ctx policy t.call.invocation enabled.spec deadline) := by
    cases policy with
    | none => exact h.pure _
    | some policy => exact h.bind (spares_runPortCall (h.pure ()) _ _ _) fun outcome ↦ h.pure _
  refine hpolicy.bind hs₁ fun step s₂ hs₂ ↦ ?_
  have hopen : t.Open s₂.scene := .inr (.inl hs₂)
  cases step with
  | allow => exact tell_executeTool enabled hs₂
  | denied reason => exact tell_deniedResult reason hs₂
  | cancelled => exact hopen
  | turnDeadline => exact hopen
  | invalid => exact hopen
  | requireApproval request =>
    refine (tellMonitor ctx.id).wp_bind_of (tell_askHost (.approval request) hs₂) ?_
    intro answer s₃ hs₃
    rcases answer with path | ((- | -) | answer)
    · exact hs₃
    · exact tell_executeTool enabled hs₃
    · exact tell_deniedResult none hs₃
    · exact .inr (.inl hs₃)

theorem tell_batchStep (snapshot : ExecutionConfig) (hs : s.scene = .turn t) :
    (tellMonitor ctx.id).wp (batchStep ctx t.index snapshot t.call)
      (.ofReturned (AfterTelling ctx.id t)) s := by
  refine (tellMonitor ctx.id).wp_silent_call (tell_silent rfl) fun cancelled ↦ ?_
  split
  · exact .inl hs
  · split
    · trivial
    · rename_i enabled _
      refine tell_emit hs ⟨t, rfl, rfl, rfl, rfl, rfl⟩ fun s₁ hs₁ _ ↦ ?_
      exact tell_runToolCall enabled snapshot.policy hs₁

/-- A call that was given up gets its result without an event. -/
theorem tell_settle {result : ToolResultHistory} {f : Unit → Action α} {R : α → Telling → Prop}
    (hs : t.Open s.scene) (hsettles : t.Settles ctx.id result)
    (hf : ∀ s', s'.scene = t.passed → (tellMonitor ctx.id).wp (f ()) (.ofReturned R) s') :
    (tellMonitor ctx.id).wp ((perform (.append (.toolResult result))).bind f) (.ofReturned R)
      s := by
  rcases hs with hs | hs | ⟨pending, hs | hs⟩
  · exact tell_append hs hsettles hf
  · exact tell_append hs hsettles hf
  · exact tell_append hs hsettles hf
  · exact tell_append hs hsettles hf

/-- Settling the calls that are left. -/
theorem tell_settleCalls {outcome : ToolResultOutcome}
    (houtcome : outcome = .cancelled ∨ outcome = .failed) (message : ToolOutput)
    (hs : t.Open s.scene) :
    (tellMonitor ctx.id).wp (settleCalls ctx t.index outcome message (t.call :: t.rest))
      (.ofReturned fun _ s' ↦ s'.scene = .between (saturatingAdd 32 t.index 1)) s := by
  obtain ⟨index, call, rest⟩ := t
  induction rest generalizing s call with
  | nil => exact tell_settle hs ⟨CallTurn.owns_of _ _ _ _, houtcome⟩ fun s₁ hs₁ ↦ hs₁
  | cons next rest ih =>
    refine tell_settle hs ⟨CallTurn.owns_of _ _ _ _, houtcome⟩ fun s₁ hs₁ ↦ ?_
    exact ih next (.inl hs₁)

/-- The calls of a response: whether or not a call ends the loop, every call has its result. -/
theorem tell_runToolBatch (snapshot : ExecutionConfig) (hs : s.scene = .turn t) :
    (tellMonitor ctx.id).wp (runToolBatch ctx t.index snapshot (t.call :: t.rest))
      (.ofReturned fun _ s' ↦ s'.scene = .between (saturatingAdd 32 t.index 1)) s := by
  obtain ⟨index, call, rest⟩ := t
  -- By the calls that are left: the last result ends the turn, any other begins the next call.
  induction rest generalizing s call with
  | nil =>
    refine (tellMonitor ctx.id).wp_bind_of (tell_batchStep snapshot hs) fun step s₁ hs₁ ↦ ?_
    cases step with
    | stop path =>
      exact (tellMonitor ctx.id).wp_bind_of (tell_settleCalls (.inl rfl) _ hs₁) fun _ _ hs₂ ↦ hs₂
    | result result =>
      refine tell_emit hs₁.1 ⟨_, rfl, rfl, rfl, rfl⟩ fun s₂ hs₂ _ ↦ ?_
      exact tell_append hs₂ ⟨hs₁.2, rfl, rfl⟩ fun s₃ hs₃ ↦ hs₃
  | cons next rest ih =>
    refine (tellMonitor ctx.id).wp_bind_of (tell_batchStep snapshot hs) fun step s₁ hs₁ ↦ ?_
    cases step with
    | stop path =>
      exact (tellMonitor ctx.id).wp_bind_of (tell_settleCalls (.inl rfl) _ hs₁) fun _ _ hs₂ ↦ hs₂
    | result result =>
      refine tell_emit hs₁.1 ⟨_, rfl, rfl, rfl, rfl⟩ fun s₂ hs₂ _ ↦ ?_
      exact tell_append hs₂ ⟨hs₁.2, rfl, rfl⟩ fun s₃ hs₃ ↦ ih next hs₃

end

/-! ### Requests -/

section

variable {ctx : LoopCtx} {s : Telling} {index : Nat}

/-- The next request has the index `index`. -/
abbrev AtBetween (index : Nat) (s : Telling) : Prop := s.scene = .between index

theorem spares_appendInputs (inputs : List UserInput) :
    Spares ctx.id (AtBetween index) (appendInputs ctx inputs) := by
  induction inputs with
  | nil => exact fun s hs ↦ hs
  | cons input inputs ih =>
    exact fun s hs ↦ tell_append hs ⟨rfl, .inr ⟨⟨index, rfl⟩, rfl⟩⟩ fun s₁ hs₁ ↦ ih s₁ hs₁

theorem spares_takeBoundary (pinned : Bool) (config : ExecutionConfig) (candidate : Option Nat) :
    Spares ctx.id (AtBetween index) (takeBoundary ctx pinned config candidate) := by
  have h := spares_compositional ctx.id (AtBetween index)
  refine h.bind (spares_untold (o := .takeConfig) rfl) fun pending ↦ ?_
  have hinputs : ∀ boundary : List UserInput → Boundary, Spares ctx.id (AtBetween index)
      ((perform .takeInputs).bind fun inputs ↦
        (appendInputs ctx inputs).bind fun _ ↦ Prog.pure (boundary inputs)) :=
    fun boundary ↦ h.bind (spares_untold (o := .takeInputs) rfl) fun inputs ↦
      h.bind (spares_appendInputs inputs) fun _ ↦ h.pure _
  cases pending with
  | none => exact hinputs _
  | some pending =>
    have hrest := hinputs fun _ ↦ ⟨true, pending.config, some pending.revision⟩
    cases pinned with
    | true => exact hrest
    | false => exact h.bind (spares_untold (o := .dropConfig config) rfl) fun _ ↦ hrest

/-- The deltas of a request are shown while it is answered. -/
theorem spares_drainProgress :
    Spares ctx.id (fun s ↦ s.scene = .answering index) (drainProgress ctx index) := by
  have h := spares_compositional ctx.id fun s ↦ s.scene = .answering index
  refine h.iterate () fun _ ↦ h.bind (spares_untold (o := .recvModelProgress) rfl) fun received ↦ ?_
  cases received with
  | none => exact h.pure _
  | some value =>
    -- A delta may be told while the model answers.
    have hforward : Spares ctx.id (fun s ↦ s.scene = .answering index)
        (forwardProgress ctx index value) := by
      refine h.bind (spares_untold (o := .takeModelDropped) rfl) fun dropped ↦ ?_
      refine h.bind (spares_untold (o := .recordDropped dropped) rfl) fun _ s hs ↦ ?_
      have hnext : ∀ event : LoopEvent,
          s.scene.next (.event event) = (Scene.answering index).next (.event event) :=
        fun event ↦ congrArg (fun scene ↦ scene.next (.event event)) hs
      cases value with
      | textDelta delta =>
        exact (tellMonitor ctx.id).wp_call_of ⟨hs, rfl⟩ fun _ _ _ ↦
          hnext (.outputDelta ctx.id index .text delta)
      | reasoningDelta delta =>
        exact (tellMonitor ctx.id).wp_call_of ⟨hs, rfl⟩ fun _ _ _ ↦
          hnext (.outputDelta ctx.id index .reasoning delta)
    exact h.bind hforward fun _ ↦ h.pure _

variable [SerdeJson]

/-- A request of the driver tells nothing but deltas. -/
theorem spares_runModel (snapshot : ExecutionConfig) (request : ModelRequest) (deadline : Nat) :
    Spares ctx.id (fun s ↦ s.scene = .answering index)
      (runModel ctx index snapshot request deadline) := by
  have h := spares_compositional ctx.id fun s ↦ s.scene = .answering index
  have hdriven : Driven (drainProgress ctx index) fun p ↦
      Spares ctx.id (fun s ↦ s.scene = .answering index) p := by
    refine ⟨h, fun o ho ↦ spares_untold ?_, spares_drainProgress⟩
    cases o <;> first | rfl | exact absurd ho (by simp [Op.drives])
  refine h.bind (spares_untold (o := .openModelProgress) rfl) fun _ ↦ ?_
  refine h.bind (hdriven.runDetailed _ request _) fun result ↦ ?_
  refine h.bind (spares_untold (o := .takeModelDropped) rfl) fun dropped ↦ ?_
  refine h.bind (spares_untold (o := .recordDropped dropped) rfl) fun _ ↦ ?_
  exact h.bind spares_drainProgress fun _ ↦ h.pure _

/-! ### Rounds -/

/-- The scene after a round, or after a part of one that ends it. -/
def AfterScenes (x : Locals ⊕ Ending) (s : Telling) : Prop :=
  x.elim (fun locals ↦ s.scene = .between locals.requestIndex) fun _ ↦ s.scene.Rests

omit [SerdeJson] in
/-- Between two requests the loop may end. -/
theorem Scene.Rests.of_between {scene : Scene} (h : scene = .between index) : scene.Rests := by
  rw [h]
  trivial

omit [SerdeJson] in
theorem Scene.Rests.of_answering {scene : Scene} (h : scene = .answering index) : scene.Rests := by
  rw [h]
  trivial

omit [SerdeJson] in
/-- The tool calls of a response. -/
theorem tell_runCalls (snapshot : ExecutionConfig) (locals : Locals) {calls : List ToolCall}
    {call : ToolCall} {rest : List ToolCall} (hcalls : calls = call :: rest)
    (hs : s.scene = .turn ⟨locals.requestIndex, call, rest⟩) :
    (tellMonitor ctx.id).wp (runCalls ctx snapshot locals calls) (.ofReturned AfterScenes) s := by
  subst hcalls
  unfold runCalls
  split
  · refine (tellMonitor ctx.id).wp_bind_of (tell_settleCalls (.inr rfl) _ (.inl hs)) ?_
    exact fun _ s₁ hs₁ ↦ .of_between hs₁
  · refine tell_publish hs ⟨⟨_, .inl rfl⟩, rfl⟩ fun s₁ hs₁ ↦ ?_
    refine (tellMonitor ctx.id).wp_bind_of (tell_runToolBatch snapshot hs₁) fun path s₂ hs₂ ↦ ?_
    cases path with
    | some path => exact Scene.Rests.of_between hs₂
    | none => exact hs₂

omit [SerdeJson] in
/-- What follows a response. -/
theorem tell_handleResponse (snapshot : ExecutionConfig) (locals : Locals)
    (response : ModelResponse) (hs : s.scene = .answering locals.requestIndex) :
    (tellMonitor ctx.id).wp (handleResponse ctx snapshot locals response)
      (.ofReturned AfterScenes) s := by
  unfold handleResponse
  split
  · exact Scene.Rests.of_answering hs
  dsimp only
  split
  · rename_i hempty
    split
    · exact Scene.Rests.of_answering hs
    · refine tell_append hs ⟨rfl, rfl⟩ fun s₁ hs₁ ↦ ?_
      have hrests : s₁.scene.Rests := by
        rw [hs₁]
        simp [Scene.next, assistantHistory, List.isEmpty_iff.mp hempty, Scene.Rests]
      split
      · exact (tellMonitor ctx.id).wp_silent_call (tell_silent rfl) fun _ ↦ hrests
      · exact hrests
  · -- The first call of the response is on.
    rename_i hne
    obtain ⟨call, rest, hcalls⟩ := List.exists_cons_of_ne_nil (mt List.isEmpty_iff.mpr hne)
    refine tell_append hs ⟨rfl, rfl⟩ fun s₁ hs₁ ↦ tell_runCalls snapshot _ hcalls ?_
    rw [hs₁]
    simp [Scene.next, assistantHistory, hcalls]

omit [SerdeJson] in
theorem tell_mapModelFailure {R : FailPath → Telling → Prop} (failure : ModelDriverFailure)
    (hs : ∀ path, R path s) :
    (tellMonitor ctx.id).wp (mapModelFailure failure) (.ofReturned R) s := by
  refine (tellMonitor ctx.id).wp_silent_call (tell_silent rfl) fun cancelled ↦ ?_
  split
  · exact hs _
  · split
    · exact hs _
    · split <;> exact hs _

/-- A request that is issued. -/
theorem tell_issueRequest (snapshot : ExecutionConfig) (locals : Locals) (request : ModelRequest)
    (hs : s.scene = .between locals.requestIndex) :
    (tellMonitor ctx.id).wp (issueRequest ctx snapshot locals request)
      (.ofReturned AfterScenes) s := by
  refine (tellMonitor ctx.id).wp_silent_call (tell_silent rfl) fun _ ↦ ?_
  refine tell_emit hs ⟨rfl, rfl⟩ fun s₁ hs₁ _ ↦ ?_
  refine tell_publish hs₁ ⟨_, rfl⟩ fun s₂ hs₂ ↦ ?_
  refine (spares_turnDeadline _).bind (J := fun s' ↦ s'.scene = .answering locals.requestIndex) hs₂
    fun deadline s₃ hs₃ ↦ ?_
  refine (spares_runModel snapshot request deadline).bind hs₃ fun result s₄ hs₄ ↦ ?_
  cases result with
  | error failure =>
    refine (tellMonitor ctx.id).wp_bind_of (tell_mapModelFailure (R := fun _ s' ↦ s'.scene.Rests)
      failure fun _ ↦ .of_answering hs₄) ?_
    exact fun path s₅ hs₅ ↦ hs₅
  | ok response => exact tell_handleResponse snapshot _ response hs₄

/-- The preparation of a request. -/
theorem tell_prepareRequest (locals : Locals) (hs : s.scene = .between locals.requestIndex) :
    (tellMonitor ctx.id).wp (prepareRequest ctx locals) (.ofReturned AfterScenes) s := by
  have h := spares_compositional ctx.id (AtBetween locals.requestIndex)
  refine tell_publish hs ⟨_, rfl⟩ fun s₁ hs₁ ↦ ?_
  refine (tellMonitor ctx.id).wp_silent_call (tell_silent rfl) fun view ↦ ?_
  refine (spares_turnDeadline _).bind (J := AtBetween locals.requestIndex) hs₁
    fun deadline s₂ hs₂ ↦ ?_
  have hprompt : Spares ctx.id (AtBetween locals.requestIndex)
      (preparePrompt ctx locals.requestIndex locals.config view deadline) :=
    h.bind (spares_runPortCall (h.pure ()) _ _ _) fun outcome ↦ h.pure _
  refine hprompt.bind hs₂ fun prep s₃ hs₃ ↦ ?_
  cases prep with
  | stop path => exact Scene.Rests.of_between hs₃
  | ready messages =>
    refine (spares_takeBoundary true _ _).bind hs₃ fun boundary s₄ hs₄ ↦ ?_
    dsimp only
    split
    · exact (tellMonitor ctx.id).wp_silent_call (tell_silent rfl) fun _ ↦ hs₄
    · split
      · exact Scene.Rests.of_between hs₄
      · exact tell_issueRequest _ _ _ hs₄

/-- A round of the loop of requests. -/
theorem tell_requestRound (locals : Locals) (hs : s.scene = .between locals.requestIndex) :
    (tellMonitor ctx.id).wp (requestRound ctx locals) (.ofReturned AfterScenes) s := by
  refine (tellMonitor ctx.id).wp_silent_call (tell_silent rfl) fun cancelled ↦ ?_
  split
  · exact Scene.Rests.of_between hs
  have h := spares_compositional ctx.id (AtBetween locals.requestIndex)
  have hpast :
      Spares ctx.id (AtBetween locals.requestIndex) (pastDeadline ctx.options.deadline) := by
    unfold pastDeadline
    split
    · exact h.pure _
    · exact h.bind (spares_untold (o := .now) rfl) fun now ↦ h.pure _
  refine hpast.bind hs fun past s₁ hs₁ ↦ ?_
  split
  · exact Scene.Rests.of_between hs₁
  · refine (spares_takeBoundary false _ _).bind hs₁ fun boundary s₂ hs₂ ↦ ?_
    exact tell_prepareRequest _ hs₂

/-! ### The report -/

omit [SerdeJson] in
theorem untold_finishOnce : finishOnce.Uses fun o : Op ↦ o.untold = true := by
  refine uses_call_bind rfl fun finish ↦ ?_
  cases finish with
  | cancelledPrior source => exact uses_call_bind rfl fun _ ↦ uses_call_bind rfl fun _ ↦ trivial
  | clean => exact uses_call_bind rfl fun _ ↦ trivial
  | alreadyFinished => exact uses_call_bind rfl fun _ ↦ trivial

omit [SerdeJson] in
theorem untold_dropConfig (config : Option ExecutionConfig) :
    (dropConfig config).Uses fun o : Op ↦ o.untold = true := by
  cases config with
  | none => trivial
  | some config => exact ⟨⟨rfl, fun _ ↦ trivial⟩, fun _ ↦ trivial⟩

omit [SerdeJson] in
theorem untold_publishedReport : publishedReport.Uses fun o : Op ↦ o.untold = true := by
  refine uses_call_bind rfl fun report ↦ ?_
  cases report <;> trivial

omit [SerdeJson] in
/-- The last two states are shown where the loop may end. -/
theorem tell_publish_rests (state : LoopState) (hstatus : state.status = .finishing ∨
    state.status = .finished) {α : Type} {f : Unit → Action α} {R : α → Telling → Prop}
    (hs : s.scene.Rests) (hf : ∀ s', s'.scene.Rests →
      (tellMonitor ctx.id).wp (f ()) (.ofReturned R) s') :
    (tellMonitor ctx.id).wp ((publish state).bind f) (.ofReturned R) s := by
  refine tell_publish rfl ?_ fun s' hs' ↦ hf s' ?_
  · unfold Scene.Shows
    rcases hstatus with h | h
    · rw [h]
      exact hs
    · rw [h]
      exact hs
  · rw [hs']
    generalize s.scene = scene at hs ⊢
    cases scene <;> first | exact hs | exact hs.elim

omit [SerdeJson] in
theorem tell_publishFinalStates (requestIndex revision : Nat) (hs : s.scene.Rests) :
    (tellMonitor ctx.id).wp (publishFinalStates ctx requestIndex revision)
      (.ofReturned fun _ s' ↦ s'.scene.Rests) s := by
  refine (tellMonitor ctx.id).wp_silent_call (tell_silent rfl) fun state ↦ ?_
  refine tell_publish_rests ⟨ctx.id, .finishing, requestIndex, revision, state.model, none⟩
    (.inl rfl) hs fun s₁ hs₁ ↦ ?_
  refine (tellMonitor ctx.id).wp_silent_call (tell_silent rfl) fun state ↦ ?_
  have hlast : (tellMonitor ctx.id).wp
      ((publish ⟨ctx.id, .finished, requestIndex, revision, state.model, none⟩).bind Prog.pure)
      (.ofReturned fun _ s' ↦ s'.scene.Rests) s₁ :=
    tell_publish_rests _ (.inr rfl) hs₁ fun s₂ hs₂ ↦ hs₂
  rwa [Prog.bind_pure] at hlast

omit [SerdeJson] in
/-- The report, and the event that announces it. -/
theorem tell_deliverReport (ending : Ending) (revision : Nat) (outcome : LoopOutcome)
    (discarded : Option ExecutionConfig) (hs : s.scene.Rests) :
    (tellMonitor ctx.id).wp (deliverReport ctx ending revision outcome discarded)
      (.ofReturned fun _ _ ↦ True) s := by
  refine (tellMonitor ctx.id).wp_silent_call (tell_silent rfl) fun appended ↦ ?_
  refine (tellMonitor ctx.id).wp_bind_of (tell_publishFinalStates _ revision hs) fun _ s₁ _ ↦ ?_
  refine (tellMonitor ctx.id).wp_call_bind_of trivial fun _ _ _ ↦ ?_
  refine tell_emit rfl ⟨_, rfl, rfl, rfl⟩ fun s₂ _ _ ↦ ?_
  refine (tellMonitor ctx.id).wp_silent_call (tell_silent rfl) fun _ ↦ ?_
  exact (tellMonitor ctx.id).wp_silent_bind (fun _ ↦ tell_silent) (untold_dropConfig discarded)
    fun _ ↦ trivial

omit [SerdeJson] in
theorem tell_finishLoop (ending : Ending) (hs : s.scene.Rests) :
    (tellMonitor ctx.id).wp (finishLoop ctx ending) (.ofReturned fun _ _ ↦ True) s := by
  refine (tellMonitor ctx.id).wp_silent_call (tell_silent rfl) fun revision ↦ ?_
  have houtcome : (outcomeFor ending.path).Uses fun o : Op ↦ o.untold = true := by
    cases ending.path with
    | cancelled => exact uses_call_bind rfl fun _ ↦ trivial
    | _ => trivial
  refine (tellMonitor ctx.id).wp_silent_bind (fun _ ↦ tell_silent) houtcome fun intended ↦ ?_
  refine (tellMonitor ctx.id).wp_silent_bind (fun _ ↦ tell_silent) untold_finishOnce fun x ↦ ?_
  obtain ⟨finish, discarded⟩ := x
  cases finish with
  | clean => exact tell_deliverReport ending revision intended discarded hs
  | cancelledPrior source => exact tell_deliverReport ending revision _ discarded hs
  | alreadyFinished =>
    exact (tellMonitor ctx.id).wp_mono_returned
      ((tellMonitor ctx.id).wp_of_silent (fun _ ↦ tell_silent) untold_publishedReport _)
      fun _ _ _ ↦ trivial

/-- The runner up to its report. -/
theorem tell_runLoopInner (request : LoopRequest) (hs : s.scene = .dark) :
    (tellMonitor ctx.id).wp (runLoopInner ctx request) (.ofReturned fun _ _ ↦ True) s := by
  refine tell_emit hs ⟨rfl, rfl⟩ fun s₁ hs₁ _ ↦ ?_
  refine tell_append hs₁ ⟨rfl, .inl ⟨rfl, rfl⟩⟩ fun s₂ hs₂ ↦ ?_
  refine (tellMonitor ctx.id).wp_bind_of (Q := fun _ s' ↦ s'.scene.Rests) ?_ fun ending s₃ hs₃ ↦ ?_
  · refine (tellMonitor ctx.id).wp_iterate
      (fun locals s' ↦ s'.scene = .between locals.requestIndex) hs₂ fun locals s' hs' ↦ ?_
    exact tell_requestRound locals hs'
  · refine (tellMonitor ctx.id).wp_bind_of (tell_finishLoop ending hs₃) fun report s₄ _ ↦ ?_
    refine (tellMonitor ctx.id).wp_silent_bind (fun _ ↦ tell_silent)
      (untold_dropConfig ending.discardedConfig) fun _ ↦ ?_
    exact (tellMonitor ctx.id).wp_silent_call (tell_silent rfl) fun _ ↦ trivial

omit [SerdeJson] in
/-- The report of a runner that unwound, in any scene. -/
theorem tell_panicReport :
    (tellMonitor ctx.id).wp (panicReport ctx.id) (.ofReturned fun _ _ ↦ True) s := by
  refine (tellMonitor ctx.id).wp_silent_bind (fun _ ↦ tell_silent) untold_finishOnce fun x ↦ ?_
  obtain ⟨finish, discarded⟩ := x
  have hdeliver : ∀ report : LoopReport, (tellMonitor ctx.id).wp
      ((perform (.publishState (.new ctx.id .finished 0 ConfigRevision.initial))).bind fun _ ↦
        (perform (.sendReport report)).bind fun _ ↦ (perform .cancelToken).bind fun _ ↦
          (dropConfig discarded).bind fun _ ↦ Prog.pure report)
      (.ofReturned fun _ _ ↦ True) s := by
    intro report
    refine (tellMonitor ctx.id).wp_silent_call (tell_silent rfl) fun _ ↦ ?_
    refine (tellMonitor ctx.id).wp_call_bind_of trivial fun _ _ _ ↦ ?_
    refine (tellMonitor ctx.id).wp_silent_call (tell_silent rfl) fun _ ↦ ?_
    exact (tellMonitor ctx.id).wp_silent_bind (fun _ ↦ tell_silent) (untold_dropConfig discarded)
      fun _ ↦ trivial
  cases finish with
  | clean => exact hdeliver _
  | cancelledPrior source => exact hdeliver _
  | alreadyFinished =>
    exact (tellMonitor ctx.id).wp_mono_returned
      ((tellMonitor ctx.id).wp_of_silent (fun _ ↦ tell_silent) untold_publishedReport _)
      fun _ _ _ ↦ trivial

theorem tell_runLoop (request : LoopRequest) (hs : s.scene = .dark) :
    (tellMonitor ctx.id).wp (runLoop ctx request) (.ofReturned fun _ _ ↦ True) s := by
  show (tellMonitor ctx.id).wp (runLoopInner ctx request)
    ⟨fun _ _ ↦ True, fun s' ↦ (tellMonitor ctx.id).wp (panicReport ctx.id)
      (.ofReturned fun _ _ ↦ True) s'⟩ s
  exact (tellMonitor ctx.id).wp_mono (tell_runLoopInner request hs) (fun _ _ _ ↦ trivial)
    fun _ _ ↦ tell_panicReport

end

/-! ## Runs -/

/-- Only a report ends a story. -/
theorem Scene.over_of_next {scene : Scene} (happening : Happening)
    (hover : (scene.next happening).Over) (hreport : ∀ report, happening ≠ .report report) :
    scene.Over := by
  have hpassed : ∀ t : CallTurn, ¬t.passed.Over := by
    rintro ⟨index, call, - | ⟨next, rest⟩⟩ h
    · exact h
    · exact h
  unfold Scene.next at hover
  split at hover
  all_goals first
    | exact absurd rfl (hreport _)
    | exact hover
    | exact hover.elim
    | exact absurd hover (hpassed _)
    | (split at hover <;> exact hover.elim)

theorem Telling.over_of_next {s : Telling} {o : Op} (hover : (s.next o).scene.Over)
    (hreport : ∀ report, o ≠ .sendReport report) : s.scene.Over := by
  cases o with
  | sendReport report => exact absurd rfl (hreport report)
  | tryEmit event => exact Scene.over_of_next (.event event) hover (by simp)
  | append item => exact Scene.over_of_next (.item item) hover (by simp)
  | _ => exact hover

/-- The story of a trace, newest happening first. -/
theorem after_story (id : LoopId) (trace : List (Entry interface Nat)) :
    Scene.after (trace.filterMap fun e ↦ e.op.happening?) =
      Telling.scene ((tellMonitor id).run trace) := by
  induction trace with
  | nil => rfl
  | cons e past ih =>
    rw [List.filterMap_cons]
    show _ = (Telling.next ((tellMonitor id).run past) e.op).scene
    unfold Telling.next
    cases e.op.happening? with
    | none => exact ih
    | some happening => exact congrArg (fun scene ↦ scene.next happening) ih

/-- Under the seal, a story is over only where a report was delivered. -/
theorem sealed_of_over {id : LoopId} {trace : List (Entry interface Nat)}
    (hseal : sealMonitor.Accepts trace)
    (hover : (Telling.scene ((tellMonitor id).run trace)).Over) :
    (Sealing.report? (sealMonitor.run trace)).toList ≠ [] := by
  induction trace with
  | nil => exact hover.elim
  | cons e past ih =>
    obtain ⟨hpast, hpermits, hexpects⟩ := hseal
    obtain ⟨o, n, r⟩ := e
    intro hnil
    obtain ⟨hold, hnew⟩ := List.append_eq_nil_iff.mp
      ((Sealing.report?_next (n := n) hpermits hexpects).symm.trans hnil)
    by_cases hreport : ∃ report, o = .sendReport report
    · obtain ⟨report, rfl⟩ := hreport
      exact absurd hnew (by simp [Record.report?])
    · exact ih hpast (Telling.over_of_next hover fun report h ↦ hreport ⟨report, h⟩) hold

/-- Under the seal, an accepted trace tells a story. -/
theorem tells_of_accepts {id : LoopId} {trace : List (Entry interface Nat)}
    (htell : (tellMonitor id).Accepts trace) (hseal : sealMonitor.Accepts trace) :
    IsStory id (trace.filterMap fun e ↦ e.op.happening?) := by
  induction trace with
  | nil => trivial
  | cons e past ih =>
    have hpast := ih htell.1 hseal.1
    have hpermits : Telling.Permits id ((tellMonitor id).run past) e.op := htell.2.1
    have hsealed : Sealing.Permits (sealMonitor.run past) e.op := hseal.2.1
    rw [List.filterMap_cons]
    obtain ⟨o, n, r⟩ := e
    cases o with
    | sendReport report =>
      refine ⟨hpast, fun hover ↦ ?_⟩
      rw [after_story id] at hover
      refine sealed_of_over hseal.1 hover ?_
      -- A report is delivered under a seal that has none.
      have hnone : sealMonitor.run past = Sealing.sealed none := hsealed
      rw [hnone]
      rfl
    | tryEmit event => exact ⟨hpast, by rw [after_story id]; exact hpermits⟩
    | append item => exact ⟨hpast, by rw [after_story id]; exact hpermits⟩
    | _ => exact hpast

/-- Events, history and report tell one story: in every run of the task, whatever the host and the
models do and however far the run has come, what was emitted, appended and reported keeps the rules
of stories. The loop is opened once; requests have consecutive indices; deltas belong to the request
that is answered, progress and questions to the tool call that runs; the end of a call announces the
result that is appended next, and a result without such an event settles a call that was given up;
the report comes once, and only the event that announces it comes after it. -/
theorem events_tell [SerdeJson] (setup : Setup) (clock : Nat) (schedule : List Turn) :
    IsStory setup.ctx.id (storyOf (setup.task clock schedule).2.log) := by
  have htell := (tellMonitor setup.ctx.id).exec_sound machine (tells_honours setup.ctx.id)
    (runLoop setup.ctx setup.request)
    (w := .start setup.ctx.id setup.ctx.options setup.request.history clock schedule)
    rfl trivial (tell_runLoop setup.request rfl)
  have hseal := sealMonitor.exec_sound machine sealing_honours (runLoop setup.ctx setup.request)
    (w := .start setup.ctx.id setup.ctx.options setup.request.history clock schedule)
    ⟨by simp [World.start, LoopControl.new], rfl⟩ trivial (seal_runLoop setup.ctx setup.request rfl)
  exact tells_of_accepts htell.2.1 hseal.2.1

end MinicoreRuntime
