import MinicoreRuntime.AgentLoop.Rounds

/-!
# Forwarding progress

The progress of a model or a tool waits in a channel until the runner forwards it to the event sink.
A forwarding step takes a value and the count of the values lost before it, records the count, and
emits the value as an event. This module says which steps a runner takes in which order: what it
holds between two of them is emitted or recorded by the next ones, it emits nothing of its own while
a channel is open, and it closes a channel only after it was emptied for good.

## Main definitions

* `Produced`, `LoopEvent.source`: what is produced for the host.
* `Stage`, `Relay`: the channels in use, and what a forwarding step holds.
* `relay`: the steps that are allowed.

## Main results

* `relay_runModel`, `relay_runToolPort`: a channel is opened, forwarded, emptied and closed.
* `relay_rounds`: nothing is in use between the parts of a runner.
-/

namespace MinicoreRuntime

open Interactive

/-! ## What is produced -/

/-- What is produced for the host. -/
inductive Produced where
  /-- An event of the runner. -/
  | event (event : LoopEvent)
  /-- A delta of a model. -/
  | delta (progress : ModelDriverProgress)
  /-- A report of a tool. -/
  | report (callId : ToolCallId) (progress : ToolProgress)

/-- What an event stands for. An event that forwards progress stands for that progress. -/
def LoopEvent.source : LoopEvent → Produced
  | .outputDelta _ _ .text delta => .delta (.textDelta delta)
  | .outputDelta _ _ .reasoning delta => .delta (.reasoningDelta delta)
  | .toolProgress _ _ callId progress => .report callId progress
  | event => .event event

/-! ## The relay -/

/-- Which progress channel is in use. -/
inductive Stage where
  | idle
  /-- A model call is under way. -/
  | model
  /-- The channel of a model call that has ended is being emptied. -/
  | modelEnds
  /-- A tool call is under way. -/
  | tool
  /-- The channel of a tool call that has ended is being emptied. -/
  | toolEnds
  /-- The channel of a tool call is empty and about to be closed. -/
  | toolDone
deriving DecidableEq

namespace Stage

/-- The stage once the last count is taken. -/
def ends : Stage → Stage
  | .model => .modelEnds
  | .tool => .toolEnds
  | stage => stage

/-- The stage after a channel was found empty. -/
def drained : Stage → Stage
  | .modelEnds => .idle
  | .toolEnds => .toolDone
  | stage => stage

end Stage

/-- What the runner is doing with its progress channels. -/
structure Relay where
  stage : Stage
  /-- A port call is under way. -/
  calling : Bool
  /-- The value that was received and is not emitted yet. -/
  value : Option Produced
  /-- The count that was taken and is not recorded yet. -/
  taken : Nat

namespace Relay

/-- No channel is in use. -/
def idle : Relay := ⟨.idle, false, none, 0⟩

/-- The relay between two forwarding steps. -/
def between (stage : Stage) (calling : Bool) : Relay := ⟨stage, calling, none, 0⟩

/-- The steps that are allowed. -/
def Allows (s : Relay) : Op → Prop
  | .openModelProgress | .openToolProgress _ => s.stage = .idle
  | .offerProgress _ => s.stage = .model
  | .recvModelProgress => (s.stage = .model ∨ s.stage = .modelEnds) ∧ s.value = none
  | .recvToolProgress => (s.stage = .tool ∨ s.stage = .toolEnds) ∧ s.value = none
  | .takeModelDropped => (s.stage = .model ∨ s.stage = .modelEnds) ∧ s.taken = 0
  -- The last count is taken only after the call.
  | .takeToolDropped =>
    (s.stage = .tool ∧ (s.value = none → s.calling = false) ∨ s.stage = .toolEnds) ∧ s.taken = 0
  | .recordDropped count => count = s.taken
  -- Without a value in hand the runner emits an event of its own.
  | .tryEmit event =>
    match s.value with
    | some value => event.source = value
    | none => s.stage = .idle
  | .closeToolProgress => s.stage = .toolDone
  | .makeFuture _ => s.stage = .idle ∨ s.stage = .tool
  | _ => True

/-- The count of lost values was taken. -/
def take (s : Relay) (count : Nat) : Relay :=
  { s with taken := count, stage := if s.value.isNone then s.stage.ends else s.stage }

/-- A channel was looked at. -/
def receive (s : Relay) : Option Produced → Relay
  | some value => { s with value := some value }
  | none => { s with stage := s.stage.drained }

/-- The relay after an operation. -/
def after (s : Relay) : (o : Op) → o.Answer → Relay
  | .openModelProgress, _ => { s with stage := .model }
  | .openToolProgress _, _ => { s with stage := .tool }
  | .recvModelProgress, found => s.receive (found.map .delta)
  | .recvToolProgress, found =>
    s.receive (found.map fun (callId, progress) ↦ .report callId progress)
  | .takeModelDropped, count | .takeToolDropped, count => s.take count
  | .recordDropped _, _ => { s with taken := 0 }
  | .tryEmit _, _ => { s with value := none }
  | .closeToolProgress, _ => { s with stage := .idle }
  | .makeFuture _, made => { s with calling := made }
  | .dropFuture, _ => { s with calling := false }
  | _, _ => s

end Relay

/-- The monitor of the progress channels. -/
def relay : Monitor interface Nat where
  State := Relay
  init := .idle
  allowed := Relay.Allows
  expects _ _ _ _ := True
  next s o _ r := s.after o r

/-- Whether an operation is about the progress channels, the event sink or a port call. -/
def Op.relays : Op → Bool
  | .tryEmit _ | .makeFuture _ => true
  | o => o.inner

/-- Other operations are always allowed and change nothing. -/
theorem Op.relays_spec {o : Op} (h : o.relays = false) (s : Relay) :
    s.Allows o ∧ ∀ r, s.after o r = s := by
  cases o with
  | tryEmit | makeFuture | recordDropped | dropFuture | openToolProgress | recvToolProgress
  | takeToolDropped | closeToolProgress | openModelProgress | offerProgress | recvModelProgress
  | takeModelDropped => exact absurd h nofun
  | _ => exact ⟨trivial, fun _ ↦ rfl⟩

section

variable {s : Relay} {α β : Type}

theorem relay_silent {o : Op} (ho : o.relays = false) : relay.Silent o :=
  fun s ↦ ⟨(Op.relays_spec ho s).1, fun _ r ↦ (Op.relays_spec ho s).2 r⟩

/-- A program that comes back to the state it began in. -/
abbrev Relay.Returns (s : Relay) (p : Action α) : Prop :=
  relay.Keeps (fun s' ↦ s' = s) (fun _ ↦ True) p

/-- A program that comes back, followed by the rest of a program. -/
theorem relay_returns_bind {p : Action α} (hp : s.Returns p) {f : α → Action β}
    {R : β → Relay → Prop} (hf : ∀ a, relay.wp (f a) (.ofReturned R) s) :
    relay.wp (p.bind f) (.ofReturned R) s := by
  refine relay.wp_bind_of (Q := fun _ s' ↦ s' = s) (hp s rfl) ?_
  rintro a _ rfl
  exact hf a

/-- What is proved from the state itself. -/
theorem Relay.returns_of {p : Action α} (h : relay.wp p (.ofReturned fun _ s' ↦ s' = s) s) :
    s.Returns p := by
  rintro _ rfl
  exact h

theorem Relay.returns_call {o : Op} (ho : o.relays = false) : s.Returns (perform o) :=
  relay.keeps_of_silent (fun _ _ ↦ trivial) (fun _ ↦ relay_silent) (Prog.uses_call ho)

theorem Relay.compositional (s : Relay) : Prog.Compositional fun p ↦ s.Returns p :=
  relay.keeps_compositional fun _ _ ↦ trivial

/-! ## Forwarding -/

/-- One delta is forwarded, or the channel is found empty. -/
theorem relay_forwardNext (ctx : LoopCtx) (requestIndex : Nat) {stage : Stage}
    (hstage : stage = .model ∨ stage = .modelEnds) (calling : Bool) :
    relay.wp (forwardNext ctx requestIndex) (.ofReturned fun x s' ↦
      s' = x.elim (fun _ ↦ .between stage calling) fun _ ↦ .between stage.drained calling)
      (.between stage calling) := by
  refine relay.wp_call_bind_of ⟨hstage, rfl⟩ fun n found _ ↦ ?_
  rcases found with - | (delta | delta)
  · rfl
  all_goals
    refine relay.wp_call_bind_of (o := .takeModelDropped) ⟨hstage, rfl⟩ fun n count _ ↦ ?_
    refine relay.wp_call_bind_of (o := .recordDropped count) rfl fun n _ _ ↦ ?_
    exact ⟨rfl, trivial, fun _ _ _ ↦ rfl⟩

/-- The channel of a model call is emptied. -/
theorem relay_drainProgress (ctx : LoopCtx) (requestIndex : Nat) {stage : Stage}
    (hstage : stage = .model ∨ stage = .modelEnds) (calling : Bool) :
    relay.wp (drainProgress ctx requestIndex)
      (.ofReturned fun _ s' ↦ s' = .between stage.drained calling) (.between stage calling) := by
  refine relay.wp_iterate (fun _ s' ↦ s' = .between stage calling) rfl ?_
  rintro _ _ rfl
  refine relay.wp_mono_returned (relay_forwardNext ctx requestIndex hstage calling) ?_
  rintro (- | -) _ rfl <;> rfl

/-- One report is forwarded, or the channel is found empty. -/
theorem relay_forwardToolProgress (ctx : LoopCtx) (requestIndex : Nat) {stage : Stage}
    (hstage : stage = .tool ∨ stage = .toolEnds) (calling : Bool) :
    relay.wp (forwardToolProgress ctx requestIndex) (.ofReturned fun x s' ↦
      s' = x.elim (fun _ ↦ .between stage calling) fun _ ↦ .between stage.drained calling)
      (.between stage calling) := by
  refine relay.wp_call_bind_of ⟨hstage, rfl⟩ fun n found _ ↦ ?_
  cases found with
  | none => rfl
  | some report =>
    obtain ⟨callId, progress⟩ := report
    -- With a value in hand the count is not the last one.
    have hallowed : Relay.Allows ⟨stage, calling, some (.report callId progress), 0⟩
        .takeToolDropped := ⟨hstage.imp_left fun h ↦ ⟨h, nofun⟩, rfl⟩
    refine relay.wp_call_bind_of hallowed fun n count _ ↦ ?_
    refine relay.wp_call_bind_of rfl fun n _ _ ↦ ?_
    exact relay.wp_call_bind_of rfl fun n _ _ ↦ rfl

/-! ## Calls -/

/-- A port call comes back to where it began, if what runs while it waits does. -/
theorem relay_runPortCall {port : Port} {stage : Stage} (hstage : stage = .idle ∨ stage = .tool)
    {awaiter : Action Unit} (hawait : (Relay.between stage true).Returns awaiter)
    (turnDeadline timeout : Nat) (make : Nat → PortCall port) :
    (Relay.between stage false).Returns (runPortCall awaiter turnDeadline timeout make) := by
  refine Relay.returns_of (relay.wp_silent_call (relay_silent rfl) fun cancelled ↦ ?_)
  split
  · rfl
  refine relay.wp_silent_call (relay_silent rfl) fun deadline ↦ ?_
  cases deadline with
  | none => rfl
  | some deadline =>
    refine relay.wp_silent_call (relay_silent rfl) fun now ↦ ?_
    split
    · rfl
    -- The channel is open from the making of the future to its dropping.
    refine relay.wp_call_bind_of hstage fun n made _ ↦ ?_
    cases made with
    | false => rfl
    | true =>
      rw [if_pos rfl]
      show relay.wp _ _ (Relay.between stage true)
      refine relay_returns_bind ((Relay.compositional _).iterate _ fun _ ↦ ?_) fun outcome ↦ ?_
      · refine (Relay.compositional _).bind (Relay.returns_call rfl) fun polled ↦ ?_
        cases polled with
        | pending =>
          exact (Relay.compositional _).bind hawait fun _ ↦ (Relay.compositional _).pure _
        | _ => exact (Relay.compositional _).pure _
      · exact relay.wp_call_bind_of trivial fun n _ _ ↦ rfl

/-- A model call. -/
theorem relay_runModel [SerdeJson] (ctx : LoopCtx) (requestIndex : Nat) (snapshot : ExecutionConfig)
    (request : ModelRequest) (turnDeadline : Nat) :
    Relay.idle.Returns (runModel ctx requestIndex snapshot request turnDeadline) := by
  refine Relay.returns_of (relay.wp_call_bind_of rfl fun n _ _ ↦ ?_)
  -- While the driver runs, it only offers deltas and lets the runner drain them.
  have hdriven : Driven (drainProgress ctx requestIndex) fun p ↦
      (Relay.between .model false).Returns p := by
    refine ⟨Relay.compositional _, fun o ho ↦ ?_, ?_⟩
    · cases o with
      | offerProgress progress => exact Relay.returns_of (relay.wp_call_of rfl fun _ _ _ ↦ rfl)
      | _ => first | exact Relay.returns_call rfl | exact absurd ho nofun
    · exact Relay.returns_of (relay_drainProgress ctx requestIndex (.inl rfl) false)
  show relay.wp _ _ (Relay.between .model false)
  refine relay_returns_bind (hdriven.runDetailed _ request _) fun result ↦ ?_
  refine relay.wp_call_bind_of ⟨.inl rfl, rfl⟩ fun n count _ ↦ ?_
  refine relay.wp_call_bind_of rfl fun n _ _ ↦ ?_
  refine relay.wp_bind_of (relay_drainProgress ctx requestIndex (.inr rfl) false) ?_
  rintro _ _ rfl
  rfl

/-- The execution of a tool. -/
theorem relay_runToolPort (ctx : LoopCtx) (requestIndex : Nat) (invocation : ToolInvocation)
    (implementation : ToolHandle) (turnDeadline : Nat) :
    Relay.idle.Returns (runToolPort ctx requestIndex invocation implementation turnDeadline) := by
  refine Relay.returns_of (relay.wp_call_bind_of rfl fun n _ _ ↦ ?_)
  have hawait : (Relay.between .tool true).Returns (awaitTool ctx requestIndex) := by
    refine Relay.returns_of (relay.wp_bind_of
      (relay_forwardToolProgress ctx requestIndex (.inl rfl) true) ?_)
    rintro (- | -) _ rfl <;> rfl
  show relay.wp _ _ (Relay.between .tool false)
  refine relay_returns_bind (relay_runPortCall (.inr rfl) hawait _ _ _) fun result ↦ ?_
  refine relay.wp_call_bind_of ⟨.inl ⟨rfl, fun _ ↦ rfl⟩, rfl⟩ fun n count _ ↦ ?_
  refine relay.wp_call_bind_of rfl fun n _ _ ↦ ?_
  -- The channel is emptied for good.
  refine relay.wp_bind_of (Q := fun _ s' ↦ s' = .between .toolDone false) ?_ ?_
  · refine relay.wp_iterate (fun _ s' ↦ s' = .between .toolEnds false) rfl ?_
    rintro _ _ rfl
    refine relay.wp_mono_returned
      (relay_forwardToolProgress ctx requestIndex (.inr rfl) false) ?_
    rintro (- | -) _ rfl <;> rfl
  · rintro _ _ rfl
    exact relay.wp_call_bind_of rfl fun n _ _ ↦ rfl

/-! ## The runner -/

/-- Operations between the calls of a runner leave the channels closed. -/
theorem relay_batches {o : Op} (ho : o.batches = true ∨ o.outer = true) :
    Relay.idle.Returns (perform o) := by
  cases o with
  | tryEmit event => exact Relay.returns_of (relay.wp_call_of rfl fun _ _ _ ↦ rfl)
  | makeFuture | recordDropped | dropFuture | openToolProgress | recvToolProgress | takeToolDropped
  | closeToolProgress | openModelProgress | offerProgress | recvModelProgress
  | takeModelDropped => rcases ho with h | h <;> exact absurd h nofun
  | _ => exact Relay.returns_call rfl

/-- The tool calls of a response. -/
theorem relay_runToolBatch (ctx : LoopCtx) :
    Batches ctx fun p ↦ Relay.idle.Returns p where
  toCompositional := Relay.compositional _
  op _ ho := relay_batches (.inl ho)
  policy policy invocation spec deadline := by
    cases policy with
    | none => exact (Relay.compositional _).pure _
    | some policy =>
      refine (Relay.compositional _).bind ?_ fun _ ↦ (Relay.compositional _).pure _
      exact relay_runPortCall (.inl rfl) ((Relay.compositional _).pure _) _ _ _
  tool := relay_runToolPort ctx

/-- Nothing is in use between the parts of a runner. -/
theorem relay_rounds [SerdeJson] (ctx : LoopCtx) : Rounds ctx fun p ↦ Relay.idle.Returns p where
  toCompositional := Relay.compositional _
  op _ ho := relay_batches (.inr ho)
  drop config := by
    cases config with
    | none => exact (Relay.compositional _).pure _
    | some config =>
      -- A destructor that unwinds is caught in the same state.
      exact Relay.returns_of ⟨trivial, rfl, fun _ _ _ ↦ rfl⟩
  prompt requestIndex snapshot view deadline := by
    refine (Relay.compositional _).bind ?_ fun _ ↦ (Relay.compositional _).pure _
    exact relay_runPortCall (.inl rfl) ((Relay.compositional _).pure _) _ _ _
  model := relay_runModel ctx
  batch := (relay_runToolBatch ctx).runToolBatch
  settle := (relay_runToolBatch ctx).settleCalls

end

end MinicoreRuntime
