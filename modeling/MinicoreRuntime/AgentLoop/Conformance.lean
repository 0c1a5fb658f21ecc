import MinicoreRuntime.AgentLoop.Conformance.Runner

/-!
# Runs

A run of a runner in a world. The session that the trace of a run describes is the one the world
is in, and every operation of the run kept the rules. Properties of all runs follow from the rules,
from the answers they lead to, and from what is kept by everything that may happen.

## Main definitions

* `World.session`: the session the trace of a world describes.
* `Tracks`: it is the session the world is in.
* `Setup.run`: a run.
* `Delivers`: the report of a run.

## Main results

* `tracks_kept`, `tracks_expected`: the machine does what the rules rely on.
* `conforms`: what every run establishes.
* `conforms_with`: the same with a further kept predicate.
-/

namespace MinicoreRuntime

open Interactive

/-- The session that the trace of a world describes. -/
def World.session (setup : Setup) (w : World) : Session := (sessionMonitor setup).run w.trace

/-- What the rules allow after a trace. -/
def Setup.Allows (setup : Setup) (trace : List (Entry interface Nat)) (o : Op) : Prop :=
  ((sessionMonitor setup).run trace).Permits setup o

/-! ## What an operation changes -/

namespace Session

/-- A port's answer changes where the runner is, and whether it is up to date. -/
theorem afterReady_eq (s : Session) {port : Port} (call : PortCall port) (result : port.Result) :
    ∃ phase fresh, s.afterReady call result = { s with phase := phase, fresh := fresh } := by
  cases call with
  | prepare provider request => cases result <;> exact ⟨_, _, rfl⟩
  | decide policy invocation spec deadline => cases result <;> exact ⟨_, _, rfl⟩
  | execute tool invocation deadline => exact ⟨_, _, rfl⟩

/-- Making a future changes where the runner is. -/
theorem afterMake_eq (s : Session) {port : Port} (call : PortCall port) :
    ∃ phase, s.afterMake call = { s with phase := phase } := by
  cases call with
  | prepare provider request => exact ⟨_, rfl⟩
  | decide policy invocation spec deadline => exact ⟨_, rfl⟩
  | execute tool invocation deadline => exact ⟨_, rfl⟩

/-- A poll for an answer changes where the runner is. -/
theorem afterPoll_eq (s : Session) (channel : Nat) (polled : Polled (Option InteractionAnswer)) :
    ∃ phase, s.afterPoll channel polled = { s with phase := phase } := by
  unfold afterPoll
  split <;> exact ⟨_, rfl⟩

/-- The working history after an operation. -/
def workingAfter (working : WorkingHistory) : Op → WorkingHistory
  | .append item => working.append item
  | _ => working

/-- The state last published, after an operation. -/
def stateAfter (state : LoopState) : Op → LoopState
  | .publishState state => state
  | _ => state

/-- The report delivered last, after an operation. -/
def reportAfter (report : Option LoopReport) : Op → Option LoopReport
  | .sendReport report => some report
  | _ => report

/-- How many channels there are after an operation. -/
def channelsAfter (channels : Nat) : Op → Nat
  | .oneshot => channels + 1
  | _ => channels

/-- The interactions set, after an operation. -/
def slotsAfter (slots : List InteractionSlot) : (o : Op) → o.Answer → List InteractionSlot
  | .setInteraction slot, true => slot :: slots
  | _, _ => slots

/-- How many responses there are after an operation. -/
def responsesAfter (responses : Nat) : Op → Nat
  | .append (.assistant _) => responses + 1
  | _ => responses

/-- How many requests were issued, after an operation. -/
def issuesAfter (issues : Nat) : Op → Nat
  | .commitRevision _ => issues + 1
  | _ => issues

/-- The inputs handed over, after an operation. -/
def takenAfter (taken : List UserInput) : (o : Op) → o.Answer → List UserInput
  | .takeInputs, inputs => taken ++ inputs
  | _, _ => taken

/-- The inputs that still have to be appended, after an operation. -/
def queueAfter (queue : List UserInput) : (o : Op) → o.Answer → List UserInput
  | .takeInputs, inputs => queue ++ inputs
  | .append (.user ⟨_, .steering, _⟩), _ => queue.tail
  | _, _ => queue

/-- The configuration taken last, after an operation. -/
def configAfter (config : ExecutionConfig) : (o : Op) → o.Answer → ExecutionConfig
  | .takeConfig, some pending => pending.config
  | _, _ => config

/-- What an operation with its answer does to the parts of a session that do not depend on where
the runner is. -/
structure Changes (s : Session) (o : Op) (r : o.Answer) (s' : Session) : Prop where
  working : s'.working = workingAfter s.working o
  state : s'.state = stateAfter s.state o
  report : s'.report = reportAfter s.report o
  channels : s'.channels = channelsAfter s.channels o
  slots : s'.slots = slotsAfter s.slots o r
  responses : s'.responses = responsesAfter s.responses o
  issues : s'.issues = issuesAfter s.issues o
  taken : s'.taken = takenAfter s.taken o r
  queue : s'.queue = queueAfter s.queue o r
  config : s'.config = configAfter s.config o r

theorem next_changes (s : Session) (o : Op) (n : Nat) (r : o.Answer) :
    Changes s o r (s.next o n r) := by
  -- Each operation changes its own fields and leaves the phase to its helper.
  cases o with
  | append item =>
    cases item with
    | user item =>
      obtain ⟨loopId, kind, input⟩ := item
      cases kind <;> constructor <;> rfl
    | _ => constructor <;> rfl
  | takeConfig => cases r <;> constructor <;> rfl
  | setInteraction slot => cases r <;> constructor <;> rfl
  | makeFuture call =>
    obtain ⟨phase, h⟩ := s.afterMake_eq call
    simp only [Session.next, h]
    constructor <;> rfl
  | pollPort call deadline =>
    cases r with
    | ready result =>
      obtain ⟨phase, fresh, h⟩ := s.afterReady_eq call result
      simp only [Session.next, h]
      constructor <;> rfl
    | _ => constructor <;> rfl
  | pollInteraction channel deadline =>
    obtain ⟨phase, h⟩ := s.afterPoll_eq channel r
    simp only [Session.next, h]
    constructor <;> rfl
  | _ => constructor <;> rfl

end Session

/-! ## The session of a world -/

/-- The world is in the session its trace describes. -/
structure Tracks (setup : Setup) (w : World) : Prop where
  working : w.working = (w.session setup).working
  state : w.control.stateTx = (w.session setup).state
  report : w.control.completion = (w.session setup).report
  channels : w.channels.length = (w.session setup).channels
  slots : ∀ slot ∈ (w.session setup).slots, slot.reply < (w.session setup).channels

theorem session_recordEntry (setup : Setup) (w : World) (o : Op) (r : o.Answer) :
    ((w.effect o).recordEntry ⟨o, w.clock, r⟩).session setup =
      (w.session setup).next o w.clock r := by
  rw [World.session, World.recordEntry_trace, World.effect_trace]
  rfl

/-- The mirrored parts of the world, after an operation. -/
theorem effect_mirror (w : World) (o : Op) :
    (w.effect o).working = Session.workingAfter w.working o ∧
      (w.effect o).control.stateTx = Session.stateAfter w.control.stateTx o ∧
      (w.effect o).control.completion = Session.reportAfter w.control.completion o ∧
      (w.effect o).channels.length = Session.channelsAfter w.channels.length o := by
  -- The session keeps a copy of these four parts of the world.
  cases o with
  | sealState =>
    obtain ⟨hstate, hcompletion⟩ := w.control.sealState_frame
    exact ⟨rfl, hstate, hcompletion, rfl⟩
  | sealCancelled source =>
    obtain ⟨hstate, hcompletion⟩ := w.control.sealCancelled_frame source
    exact ⟨rfl, hstate, hcompletion, rfl⟩
  | setInteraction slot =>
    obtain ⟨hstate, hcompletion⟩ := w.control.setInteraction_frame slot
    exact ⟨rfl, hstate, hcompletion, rfl⟩
  | offerProgress progress =>
    unfold World.effect
    dsimp only
    split <;> exact ⟨rfl, rfl, rfl, rfl⟩
  | oneshot => exact ⟨rfl, rfl, rfl, List.length_append⟩
  | _ => exact ⟨rfl, rfl, rfl, rfl⟩

theorem Tracks.start (setup : Setup) (clock : Nat) (schedule : List Turn) :
    Tracks setup
      (.start setup.ctx.id setup.ctx.options setup.request.history clock schedule) :=
  ⟨rfl, rfl, rfl, rfl, nofun⟩

/-- The world stays in the session its trace describes. -/
theorem tracks_kept (setup : Setup) : World.Kept setup.Allows (Tracks setup) where
  host w s h := by
    obtain ⟨hworking, hstate, hreport, hchannels⟩ := w.hostStep_frame s
    have hsession : (w.hostStep s).session setup = w.session setup := by
      rw [World.session, World.hostStep_trace, World.session]
    constructor <;> rw [hsession]
    · exact hworking.trans h.working
    · exact hstate.trans h.state
    · exact hreport.trans h.report
    · exact hchannels.trans h.channels
    · exact h.slots
  pass w schedule clock _ h := ⟨h.working, h.state, h.report, h.channels, h.slots⟩
  answered w turn o r h hallowed hanswer := by
    obtain ⟨hworking, hstate, hreport, hchannels⟩ := effect_mirror w o
    have hnext := (w.session setup).next_changes o w.clock r
    constructor <;> rw [session_recordEntry]
    · exact hworking.trans (by rw [h.working, hnext.working])
    · exact hstate.trans (by rw [h.state, hnext.state])
    · exact hreport.trans (by rw [h.report, hnext.report])
    · exact hchannels.trans (by rw [h.channels, hnext.channels])
    · rw [hnext.slots, hnext.channels]
      -- A slot names a channel that exists: channels only grow, and a new slot was permitted.
      cases o with
      | oneshot => exact fun slot hslot ↦ Nat.lt_succ_of_lt (h.slots slot hslot)
      | setInteraction new =>
        cases r with
        | false => exact h.slots
        | true =>
          intro slot hslot
          rcases List.mem_cons.mp hslot with rfl | hslot
          · exact hallowed.2.1
          · exact h.slots slot hslot
      | _ => exact h.slots

/-- The machine answers what the rules rely on. -/
theorem tracks_expected {setup : Setup} {w : World} {turn : Turn} {o : Op} {r : o.Answer}
    (h : Tracks setup w) (hanswer : w.answer turn o = some r) :
    (w.session setup).Expects o w.clock r := by
  -- The answers that read one of the mirrored parts.
  cases o with
  | view =>
    obtain rfl := Option.some.inj hanswer
    exact congrArg WorkingHistory.view h.working
  | intoAppended =>
    obtain rfl := Option.some.inj hanswer
    exact congrArg WorkingHistory.appended h.working
  | currentState => exact (Option.some.inj hanswer).symm.trans h.state
  | publishedReport => exact (Option.some.inj hanswer).symm.trans h.report
  | oneshot =>
    obtain rfl := Option.some.inj hanswer
    refine ⟨h.channels, fun slot hslot ↦ ?_⟩
    rw [h.channels]
    exact (h.slots slot hslot).ne
  | _ => trivial

/-! ## Runs -/

/-- A run of the runner of a loop, in a world that starts at the given instant and follows the given
schedule. -/
def Setup.run [SerdeJson] (setup : Setup) (clock : Nat) (schedule : List Turn) :
    Outcome LoopReport × World :=
  machine.exec (runLoopInner setup.ctx setup.request)
    (.start setup.ctx.id setup.ctx.options setup.request.history clock schedule)

/-- What every run establishes: it kept the rules, the session its trace describes is the one the
world is in, and what is kept besides. A report that is returned was delivered. -/
theorem conforms_with [SerdeJson] {setup : Setup} {K : World → Prop}
    (hK : World.Kept setup.Allows fun w ↦ Tracks setup w ∧ K w) (clock : Nat)
    (schedule : List Turn)
    (hstart : K (.start setup.ctx.id setup.ctx.options setup.request.history clock schedule)) :
    let run := setup.run clock schedule
    Tracks setup run.2 ∧ K run.2 ∧ (sessionMonitor setup).Accepts run.2.trace ∧
      ∀ report, run.1 = .returned report → run.2.control.completion = some report := by
  intro run
  have hhonours : machine.Honours (sessionMonitor setup) fun w ↦ Tracks setup w ∧ K w :=
    hK.honours fun w turn o r h _ hanswer ↦ tracks_expected h.1 hanswer
  have hrun := (sessionMonitor setup).exec_sound machine hhonours
    (runLoopInner setup.ctx setup.request) ⟨Tracks.start setup clock schedule, hstart⟩
    trivial (ensures_runLoopInner setup)
  refine ⟨hrun.1.1, hrun.1.2, hrun.2.1, fun report hreport ↦ ?_⟩
  exact hrun.1.1.report.trans (Monitor.Establishes.of_returned _ _ hrun hreport)

/-- A run hands back a report: the runner returned it, or delivered it and did not return yet. -/
def Delivers (run : Outcome LoopReport × World) (report : LoopReport) : Prop :=
  run.1 = .returned report ∨ run.2.control.completion = some report

/-- What every run establishes. -/
theorem conforms [SerdeJson] (setup : Setup) (clock : Nat) (schedule : List Turn) :
    let run := setup.run clock schedule
    Tracks setup run.2 ∧ (sessionMonitor setup).Accepts run.2.trace ∧
      ∀ report, Delivers run report → (run.2.session setup).report = some report := by
  intro run
  have hK : World.Kept setup.Allows fun w ↦ Tracks setup w ∧ True := by
    have h := tracks_kept setup
    exact ⟨fun w s hw ↦ ⟨h.host w s hw.1, trivial⟩,
      fun w schedule clock hle hw ↦ ⟨h.pass w schedule clock hle hw.1, trivial⟩,
      fun w turn o r hw ho hr ↦ ⟨h.answered w turn o r hw.1 ho hr, trivial⟩⟩
  obtain ⟨htracks, -, haccepts, hreport⟩ := conforms_with hK clock schedule trivial
  refine ⟨htracks, haccepts, fun report hdelivers ↦ ?_⟩
  rw [← htracks.report]
  rcases hdelivers with hreturned | hcompletion
  · exact hreport report hreturned
  · exact hcompletion

/-! ## A loop to evaluate -/

namespace Sample

/-- The empty object. -/
def braces : Text := "{}".toList

/-- A parser that knows the empty object. -/
instance : SerdeJson := ⟨fun text ↦ if text = braces then some (.object []) else none⟩

/-- The model. -/
def model : ModelDescriptor := ⟨⟨"m".toList, by decide, by decide⟩, 1000, [.auto], true⟩

/-- The name of the tool. -/
def toolName : ToolName := ⟨"t".toList, by decide, by decide⟩

/-- The tool. -/
def tool : ToolSpec := ⟨toolName, ⟨"tool".toList, by decide⟩, .object [], by decide⟩

/-- A configuration with one tool and a policy. -/
def config : ExecutionConfig :=
  ⟨⟨1⟩, model, .auto, ⟨[tool], [(toolName, ⟨⟨2⟩, tool⟩)]⟩, some ⟨3⟩, ⟨4⟩, by decide⟩

/-- Options without a deadline. -/
def options : LoopOptions :=
  ⟨none, 0, 16, fromSecs 30, fromSecs 600, fromSecs 30, fromSecs 1800, 2, fromSecs 1, .default⟩

/-- The loop. -/
def setup : Setup :=
  ⟨⟨.ofByte 1 (Eq.refl true), options⟩, ⟨[], .text ⟨"hi".toList, by decide⟩, config⟩⟩

/-- The identifier of the tool call. -/
def callId : ToolCallId := ⟨"c".toList, by decide, by decide⟩

/-- A turn in which the model streams an event. -/
def streams (event : ModelEvent) : Turn := { reply := .stream (some (.ok event)) }

/-- An input is handed over, the model calls the tool, the policy allows it, the tool completes, and
then the loop is cancelled. -/
def turns : List (Nat × Turn) :=
  [(4, { reply := .inputs [.text ⟨"go".toList, by decide⟩] }),
    (14, { reply := .port .prompt (.ok [.user "hi".toList]) }),
    (30, { reply := .start (.ok ()) }),
    (31, streams (.toolCallStart callId toolName)),
    (32, streams (.toolCallArgumentsDelta callId ⟨braces, by decide⟩)),
    (33, streams (.toolCallEnd callId)),
    (34, streams (.finish .toolCalls)),
    (35, { reply := .stream none }),
    (50, { reply := .port .policy (.ok .allow) }),
    (58, { reply := .port .tool (.ok (.completed (.ofStatic "done" (by decide)))) }),
    (66, { host := [.cancel .user, .resume 0] })]

/-- What the host answers, turn by turn. -/
def schedule : List Turn := (List.range 100).map fun i ↦ (turns.lookup i).getD {}

/-- The run of the sample returns a report with four items. -/
theorem returns : ∃ report, (setup.run 0 schedule).1 = .returned report ∧
    report.appended.length = 4 := by
  have h : (setup.run 0 schedule).1.value?.map (fun report ↦ report.appended.length) = some 4 := by
    decide +kernel
  obtain ⟨report, hvalue, hlength⟩ := Option.map_eq_some_iff.mp h
  exact ⟨report, Outcome.value?_eq_some.mp hvalue, hlength⟩

end Sample

end MinicoreRuntime
