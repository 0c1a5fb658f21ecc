import MinicoreRuntime.AgentLoop.Conformance
import MinicoreRuntime.AgentLoop.Traversal
import MinicoreRuntime.Interactive.Watch
import MinicoreRuntime.Runtime.Log

/-!
# One report

The runner of a loop and the task around it both deliver a report, under a seal that is broken
once. The seal is a small state machine over the trace of the task. What it allows the task to do
to the completion channel, and what the channel does for those who wait, make up the protocol of
completion: one report, and everybody who is handed a report is handed that one.

## Main definitions

* `Sealing`, `sealMonitor`: the seal.
* `deliveries`: the reports delivered in a log.
* `Setup.task`: a run of the task of a loop.
* `Interleaves`: what the task does to the channel, between the steps of waiters.

## Main results

* `seal_runLoop`: the task delivers what it returns.
* `one_report`: the protocol of completion.
-/

namespace MinicoreRuntime

open Interactive

/-! ## The seal -/

/-- How far a loop is sealed. -/
inductive Sealing where
  | unsealed
  /-- The seal found a cancellation, and did not replace its marker yet. -/
  | marked (source : CancelSource)
  | sealed (report : Option LoopReport)

/-- The report delivered under a seal. -/
def Sealing.report? : Sealing → Option LoopReport
  | .sealed report => report
  | _ => none

namespace Sealing

/-- A report is delivered once, after the seal, and nothing is published after it. -/
def Permits (s : Sealing) : Op → Prop
  | .publishState _ => s.report? = none
  | .sealCancelled source => s = .marked source
  | .sendReport _ => s = .sealed none
  | _ => True

/-- What the machine answers. -/
def Expects (s : Sealing) : (o : Op) → o.Answer → Prop
  | .sealState, finish =>
    match s with
    | .unsealed => finish ≠ .alreadyFinished
    | .marked source => finish = .cancelledPrior source
    | .sealed _ => finish = .alreadyFinished
  | .publishedReport, report => report = s.report?
  | _, _ => True

/-- The seal after an operation. -/
def next (s : Sealing) : (o : Op) → o.Answer → Sealing
  | .sealState, .clean => .sealed none
  | .sealState, .cancelledPrior source => .marked source
  | .sealCancelled _, _ => .sealed none
  | .sendReport report, _ => .sealed (some report)
  | _, _ => s

end Sealing

/-- The seal over the trace of a task. -/
def sealMonitor : Monitor interface Nat where
  State := Sealing
  init := .unsealed
  allowed := Sealing.Permits
  expects s o _ r := s.Expects o r
  next s o _ r := s.next o r

/-- The operations that the seal is about. -/
def Op.seals : Op → Bool
  | .publishState _ | .sealState | .sealCancelled _ | .sendReport _ | .publishedReport => true
  | _ => false

theorem Sealing.next_eq {o : Op} (h : o.seals = false) (s : Sealing) (r : o.Answer) :
    s.next o r = s := by
  cases o <;> first | rfl | exact absurd h (by simp [Op.seals])

/-- The seal is not about other operations. -/
theorem seal_silent {o : Op} (h : o.seals = false) : sealMonitor.Silent o := by
  refine fun s ↦ ⟨?_, fun _ r ↦ Sealing.next_eq h s r⟩
  show Sealing.Permits s o
  cases o <;> trivial

/-- States are published as long as no report was delivered. -/
theorem sealMonitor_publish {J : Sealing → Prop} (hJ : ∀ s, J s → s.report? = none)
    (state : LoopState) : sealMonitor.Stable J (.publishState state) :=
  fun s hs ↦ ⟨hJ s hs, fun _ _ _ ↦ hs⟩

/-- A sealed loop is finished and its report in the channel; an unsealed one is not finished. -/
def Sealing.Describes : Sealing → LoopControl → Prop
  | .unsealed, control => control.state ≠ .finished ∧ control.completion = none
  | .marked source, control => control.state = .cancelled source ∧ control.completion = none
  | .sealed report, control => control.state = .finished ∧ control.completion = report

/-- The seal that the trace of a world describes. -/
def World.sealing (w : World) : Sealing := sealMonitor.run w.trace

/-- The atomic state and the report after an operation that the seal is not about. -/
theorem World.effect_state (w : World) {o : Op} (h : o.seals = false) :
    (w.effect o).control.state = w.control.state ∧
      (w.effect o).control.completion = w.control.completion := by
  cases o with
  | setInteraction slot =>
    refine ⟨?_, (w.control.setInteraction_frame slot).2⟩
    show (w.control.setInteraction slot).2.state = _
    rw [LoopControl.setInteraction]
    split <;> rfl
  | offerProgress progress =>
    unfold World.effect
    dsimp only
    split <;> exact ⟨rfl, rfl⟩
  | _ => first | exact ⟨rfl, rfl⟩ | exact absurd h (by simp [Op.seals])

theorem Sealing.Describes.congr {s : Sealing} {control control' : LoopControl}
    (h : s.Describes control) (hstate : control'.state = control.state)
    (hcompletion : control'.completion = control.completion) : s.Describes control' := by
  cases s <;> simpa only [Sealing.Describes, hstate, hcompletion] using h

/-- Sealing does to the control plane what it does to the seal. -/
theorem Sealing.Describes.seal {s : Sealing} {control : LoopControl} (h : s.Describes control) :
    s.Expects .sealState control.sealState.1 ∧
      (s.next .sealState control.sealState.1).Describes control.sealState.2 := by
  rw [LoopControl.sealState]
  -- What the first exchange finds is what the phase says of the state.
  cases s with
  | unsealed =>
    obtain ⟨hstate, hcompletion⟩ := h
    split
    · exact ⟨by simp [Expects], rfl, hcompletion⟩
    · rename_i source hsource
      exact ⟨by simp [Expects], hsource, hcompletion⟩
    · rename_i hfinished
      exact absurd hfinished hstate
  | marked source =>
    obtain ⟨hstate, hcompletion⟩ := h
    rw [hstate]
    exact ⟨rfl, hstate, hcompletion⟩
  | sealed report =>
    obtain ⟨hstate, hcompletion⟩ := h
    rw [hstate]
    exact ⟨rfl, hstate, hcompletion⟩

/-- What an operation of a task answers, and what it does to the seal. -/
theorem Sealing.Describes.answered {s : Sealing} {w : World} (h : s.Describes w.control)
    {turn : Turn} {o : Op} {r : o.Answer} (hpermits : s.Permits o)
    (hanswer : w.answer turn o = some r) :
    s.Expects o r ∧ (s.next o r).Describes (w.effect o).control := by
  -- Operations that neither seal nor deliver leave both fields alone.
  by_cases hseals : o.seals = false
  · obtain ⟨hstate, hcompletion⟩ := w.effect_state hseals
    refine ⟨?_, ?_⟩
    · cases o <;> trivial
    · rw [next_eq hseals]
      exact h.congr hstate hcompletion
  · cases o with
    | sealState =>
      obtain rfl := Option.some.inj hanswer
      exact h.seal
    | sealCancelled source =>
      obtain rfl : s = .marked source := hpermits
      obtain ⟨hstate, hcompletion⟩ := h
      refine ⟨trivial, ?_⟩
      show (Sealing.sealed none).Describes (w.control.sealCancelled source)
      rw [LoopControl.sealCancelled, if_pos hstate]
      exact ⟨rfl, hcompletion⟩
    | sendReport report =>
      obtain rfl : s = .sealed none := hpermits
      exact ⟨trivial, h.1, rfl⟩
    | publishState state => exact ⟨trivial, h.congr rfl rfl⟩
    -- What is found is what the phase says was delivered.
    | publishedReport =>
      obtain rfl := Option.some.inj hanswer
      refine ⟨?_, h⟩
      cases s with
      | unsealed => exact h.2
      | marked source => exact h.2
      | sealed report => exact h.2
    | _ => exact absurd rfl hseals

/-- Other threads keep what the seal says. -/
theorem Sealing.Describes.host {s : Sealing} {w : World} (h : s.Describes w.control)
    (step : HostStep) : s.Describes (w.hostStep step).control := by
  have hcompletion := (w.hostStep_frame step).2.2.1
  rcases (w.hostEffect step).state with hstate | ⟨hnone, source, hstate⟩
  · exact h.congr hstate hcompletion
  · -- A cancellation wins only against a loop that is neither cancelled nor sealed.
    cases s with
    | unsealed => exact ⟨by rw [hstate]; simp, hcompletion.trans h.2⟩
    | marked source' => exact absurd (hnone.symm.trans h.1) (by simp)
    | sealed report => exact absurd (hnone.symm.trans h.1) (by simp)

/-- The report under a seal is the one in the channel. -/
theorem Sealing.Describes.report?_eq {s : Sealing} {control : LoopControl}
    (h : s.Describes control) : control.completion = s.report? := by
  cases s with
  | unsealed => exact h.2
  | marked source => exact h.2
  | sealed report => exact h.2

/-- The control plane is sealed as far as the trace says. -/
theorem sealing_kept : World.Kept (fun trace ↦ sealMonitor.allowed (sealMonitor.run trace))
    (fun w ↦ w.sealing.Describes w.control) where
  host w s h := by
    have hsealing : (w.hostStep s).sealing = w.sealing := by
      rw [World.sealing, World.hostStep_trace, World.sealing]
    rw [hsealing]
    exact h.host s
  pass w schedule clock _ h := h
  answered w turn o r h hallowed hanswer := by
    have hnext : ((w.effect o).recordEntry ⟨o, w.clock, r⟩).sealing = w.sealing.next o r := by
      rw [World.sealing, World.recordEntry_trace, World.effect_trace]
      rfl
    rw [hnext]
    exact (h.answered hallowed hanswer).2

/-- The machine answers what the seal relies on. -/
theorem sealing_honours : machine.Honours sealMonitor (fun w ↦ w.sealing.Describes w.control) :=
  sealing_kept.honours fun _ _ _ _ h hallowed hanswer ↦ (h.answered hallowed hanswer).1

/-! ## The task -/

section

variable {s : Sealing} {α : Type}

/-- Publishing a state before the report, followed by the rest of a program. -/
theorem seal_publish_bind (hs : s.report? = none) {state : LoopState} {f : Unit → Action α}
    {R : α → Sealing → Prop} (hf : sealMonitor.wp (f ()) (.ofReturned R) s) :
    sealMonitor.wp ((publish state).bind f) (.ofReturned R) s :=
  sealMonitor.wp_stable_bind (J := fun s' ↦ s' = s)
    (sealMonitor_publish (by rintro _ rfl; exact hs) state) rfl (by
      rintro - _ rfl
      exact sealMonitor.wp_silent_call (seal_silent (o := .tryEmit (.stateChanged state)) rfl)
        fun _ ↦ hf)

theorem Op.seals_of_plain {o : Op} (h : o.plain = true) : o.seals = false := by
  cases o <;> first | rfl | exact absurd h (by simp [Op.plain])

/-- The rounds of a loop do nothing that the seal is about but publish states. -/
theorem Op.seals_of_rounds {o : Op} (h : o.serves = true ∨ o.routine = true) :
    o.seals = false ∨ ∃ state, o = .publishState state := by
  cases o with
  | publishState state => exact .inr ⟨state, rfl⟩
  | _ =>
    first
    | exact .inl rfl
    | exact absurd h (by simp [Op.serves, Op.plain, Op.calls, Op.asks, Op.routine])

/-- The rounds of the loop leave the seal alone. -/
theorem seal_requestRounds [SerdeJson] (ctx : LoopCtx) (locals : Locals) (hs : s.report? = none) :
    sealMonitor.wp (Prog.iterate (requestRound ctx) locals)
      (.ofReturned fun _ s' ↦ s' = s) s := by
  have hrounds : ∀ o : Op, o.serves = true ∨ o.routine = true →
      sealMonitor.Stable (fun s' ↦ s' = s) o := by
    intro o ho
    rcases Op.seals_of_rounds ho with ho | ⟨state, rfl⟩
    · exact (seal_silent ho).stable _
    · refine sealMonitor_publish ?_ state
      rintro _ rfl
      exact hs
  have h : Traversal sealMonitor ctx (fun s' ↦ s' = s) fun _ s' ↦ s' = s :=
    .ofServing fun o ho ↦ hrounds o (.inl ho)
  refine h.requestRounds (fun o ho _ ↦ hrounds o (.inr ho)) (fun _ hs ↦ hs) ?_ locals rfl
  exact fun s' hs' ↦ ⟨trivial, fun n r _ ↦ hs'⟩

/-- The seal is broken, or it was before. -/
theorem seal_finishOnce :
    sealMonitor.wp finishOnce (.ofReturned fun x s' ↦
      (x.1 = .alreadyFinished ∧ s' = s ∧ ∃ report, s = .sealed report) ∨
        x.1 ≠ .alreadyFinished ∧ s' = .sealed none) s := by
  refine sealMonitor.wp_call_bind_of trivial fun n finish hfinish ↦ ?_
  replace hfinish : s.Expects .sealState finish := hfinish
  -- The critical section is closed in every case.
  have hclose : ∀ s', sealMonitor.wp ((perform .closeAccepting).bind fun discarded ↦
      Prog.pure (finish, discarded)) (.ofReturned fun x s'' ↦ x.1 = finish ∧ s'' = s') s' :=
    fun s' ↦ sealMonitor.wp_silent_call (seal_silent rfl) fun discarded ↦ ⟨rfl, rfl⟩
  cases finish with
  | clean =>
    refine sealMonitor.wp_mono_returned (hclose _) ?_
    rintro ⟨finish, discarded⟩ s' ⟨rfl, rfl⟩
    exact .inr ⟨by simp, rfl⟩
  | cancelledPrior source =>
    refine sealMonitor.wp_call_bind_of rfl fun n _ _ ↦ ?_
    refine sealMonitor.wp_mono_returned (hclose _) ?_
    rintro ⟨finish, discarded⟩ s' ⟨rfl, rfl⟩
    exact .inr ⟨by simp, rfl⟩
  -- Only a sealed loop answers so.
  | alreadyFinished =>
    refine sealMonitor.wp_mono_returned (hclose _) ?_
    rintro ⟨finish, discarded⟩ s' ⟨rfl, rfl⟩
    refine .inl ⟨rfl, rfl, ?_⟩
    cases s' with
    | unsealed => exact absurd rfl hfinish
    | marked source => exact absurd hfinish (by simp [Sealing.Expects])
    | sealed report => exact ⟨report, rfl⟩

/-- The report that was delivered under the seal. -/
theorem seal_publishedReport {report : Option LoopReport} :
    sealMonitor.wp publishedReport (.ofReturned fun report' s' ↦ s' = .sealed (some report'))
      (.sealed report) := by
  refine sealMonitor.wp_call_bind_of trivial fun n answer hanswer ↦ ?_
  obtain rfl : answer = report := hanswer
  cases answer with
  | none => trivial
  | some report => exact rfl

/-- Building a report and delivering it. -/
theorem seal_deliverReport (ctx : LoopCtx) (ending : Ending) (revision : Nat)
    (outcome : LoopOutcome) (discarded : Option ExecutionConfig) :
    sealMonitor.wp (deliverReport ctx ending revision outcome discarded)
      (.ofReturned fun report s' ↦ s' = .sealed (some report)) (.sealed none) := by
  refine sealMonitor.wp_silent_call (seal_silent rfl) fun appended ↦ ?_
  -- The last two states are published under the seal, before the report.
  refine sealMonitor.wp_bind_of (Q := fun _ s' ↦ s' = .sealed none) ?_ ?_
  · refine sealMonitor.wp_silent_call (seal_silent rfl) fun state ↦ ?_
    refine seal_publish_bind (s := .sealed none) rfl ?_
    refine sealMonitor.wp_silent_call (seal_silent rfl) fun state ↦ ?_
    refine sealMonitor.wp_call_bind_of rfl fun _ _ _ ↦ ?_
    exact sealMonitor.wp_call_of trivial fun _ _ _ ↦ rfl
  · rintro - _ rfl
    refine sealMonitor.wp_call_bind_of rfl fun n _ _ ↦ ?_
    refine sealMonitor.wp_silent_call (seal_silent rfl) fun _ ↦ ?_
    refine sealMonitor.wp_silent_call (seal_silent rfl) fun _ ↦ ?_
    exact sealMonitor.wp_silent_bind (fun _ ↦ seal_silent)
      (uses_dropConfig (fun _ ↦ Op.seals_of_plain) discarded) fun _ ↦ rfl

/-- The seal and the report of a loop that ended. -/
theorem seal_finishLoop (ctx : LoopCtx) (ending : Ending) :
    sealMonitor.wp (finishLoop ctx ending)
      (.ofReturned fun report s' ↦ s' = .sealed (some report)) s := by
  refine sealMonitor.wp_silent_call (seal_silent rfl) fun revision ↦ ?_
  refine sealMonitor.wp_silent_bind (fun _ ↦ seal_silent)
    (uses_outcomeFor (fun _ ↦ Op.seals_of_plain) ending.path) fun intended ↦ ?_
  refine sealMonitor.wp_bind_of seal_finishOnce ?_
  rintro ⟨finish, discarded⟩ s' hfinish
  rcases hfinish with ⟨rfl, rfl, report, rfl⟩ | ⟨hne, rfl⟩
  · exact seal_publishedReport
  · cases finish with
    | clean => exact seal_deliverReport ctx ending revision _ discarded
    | cancelledPrior source => exact seal_deliverReport ctx ending revision _ discarded
    | alreadyFinished => exact absurd rfl hne

/-- The runner delivers what it returns. -/
theorem seal_runLoopInner [SerdeJson] (ctx : LoopCtx) (request : LoopRequest)
    (hs : s.report? = none) :
    sealMonitor.wp (runLoopInner ctx request)
      (.ofReturned fun report s' ↦ s' = .sealed (some report)) s := by
  refine sealMonitor.wp_silent_call (seal_silent rfl) fun _ ↦ ?_
  refine sealMonitor.wp_silent_call (seal_silent rfl) fun _ ↦ ?_
  refine sealMonitor.wp_bind_of (seal_requestRounds ctx _ hs) ?_
  rintro ending _ rfl
  refine sealMonitor.wp_bind_of (seal_finishLoop ctx ending) ?_
  rintro report _ rfl
  refine sealMonitor.wp_silent_bind (fun _ ↦ seal_silent)
    (uses_dropConfig (fun _ ↦ Op.seals_of_plain) _) fun _ ↦ ?_
  exact sealMonitor.wp_silent_call (seal_silent rfl) fun _ ↦ rfl

/-- The report of a runner that unwound, or the one it delivered before. -/
theorem seal_panicReport (id : LoopId) :
    sealMonitor.wp (panicReport id)
      (.ofReturned fun report s' ↦ s' = .sealed (some report)) s := by
  refine sealMonitor.wp_bind_of seal_finishOnce ?_
  rintro ⟨finish, discarded⟩ s' hfinish
  have hdeliver : ∀ report : LoopReport, sealMonitor.wp
      ((perform (.publishState (.new id .finished 0 ConfigRevision.initial))).bind fun _ ↦
        (perform (.sendReport report)).bind fun _ ↦ (perform .cancelToken).bind fun _ ↦
          (dropConfig discarded).bind fun _ ↦ Prog.pure report)
      (.ofReturned fun report s' ↦ s' = .sealed (some report)) (.sealed none) := by
    intro report
    refine sealMonitor.wp_call_bind_of rfl fun n _ _ ↦ ?_
    refine sealMonitor.wp_call_bind_of rfl fun n _ _ ↦ ?_
    refine sealMonitor.wp_silent_call (seal_silent rfl) fun _ ↦ ?_
    exact sealMonitor.wp_silent_bind (fun _ ↦ seal_silent)
      (uses_dropConfig (fun _ ↦ Op.seals_of_plain) discarded) fun _ ↦ rfl
  -- The report was delivered before the runner unwound, or it is delivered here.
  rcases hfinish with ⟨rfl, rfl, report, rfl⟩ | ⟨hne, rfl⟩
  · exact seal_publishedReport
  · cases finish with
    | clean => exact hdeliver _
    | cancelledPrior source => exact hdeliver _
    | alreadyFinished => exact absurd rfl hne

/-- The task delivers what it returns, whether or not the runner unwinds. -/
theorem seal_runLoop [SerdeJson] (ctx : LoopCtx) (request : LoopRequest) (hs : s.report? = none) :
    sealMonitor.wp (runLoop ctx request)
      (.ofReturned fun report s' ↦ s' = .sealed (some report)) s := by
  show sealMonitor.wp (runLoopInner ctx request)
    ⟨fun report s' ↦ s' = .sealed (some report), fun s' ↦ sealMonitor.wp (panicReport ctx.id)
      (.ofReturned fun report s' ↦ s' = .sealed (some report)) s'⟩ s
  -- The runner may unwind wherever it is; what is reported then is right from any state.
  exact sealMonitor.wp_mono (seal_runLoopInner ctx request hs) (fun _ _ hs ↦ hs) fun s' _ ↦
    seal_panicReport ctx.id

end

/-! ## Deliveries -/

/-- The report a record delivers. -/
def Record.report? : Record → Option LoopReport
  | .runner entry =>
    match entry.op with
    | .sendReport report => some report
    | _ => none
  | .host _ => none

/-- The reports delivered in a log, oldest first. -/
def deliveries (log : List Record) : List LoopReport := (log.filterMap Record.report?).reverse

@[simp]
theorem deliveries_cons (e : Record) (older : List Record) :
    deliveries (e :: older) = deliveries older ++ e.report?.toList := by
  unfold deliveries
  cases h : e.report? <;> simp [h]

/-- An operation puts a report under the seal where it delivers one. -/
theorem Sealing.report?_next {s : Sealing} {o : Op} {n : Nat} {r : o.Answer}
    (hpermits : s.Permits o) (hexpects : s.Expects o r) :
    (s.next o r).report?.toList =
      s.report?.toList ++ (Record.runner ⟨o, n, r⟩).report?.toList := by
  -- Only a delivery changes the report, and it was permitted without one.
  cases o with
  | sealState =>
    cases s with
    | unsealed => cases r <;> rfl
    | marked source =>
      obtain rfl : r = .cancelledPrior source := hexpects
      rfl
    | sealed report =>
      obtain rfl : r = .alreadyFinished := hexpects
      exact (List.append_nil _).symm
  | sealCancelled source =>
    obtain rfl : s = .marked source := hpermits
    rfl
  | sendReport report =>
    obtain rfl : s = .sealed none := hpermits
    rfl
  | _ => exact (List.append_nil _).symm

/-- An accepted trace delivered the report under the seal, and no other. -/
theorem deliveries_eq {log : List Record} (h : sealMonitor.Accepts (traceOf log)) :
    deliveries log = (Sealing.report? (sealMonitor.run (traceOf log))).toList := by
  induction log with
  | nil => rfl
  | cons e older ih =>
    cases e with
    | host event => exact (deliveries_cons _ _).trans ((List.append_nil _).trans (ih h))
    | runner entry =>
      obtain ⟨o, n, r⟩ := entry
      rw [deliveries_cons, ih h.1]
      exact (Sealing.report?_next h.2.1 h.2.2).symm

/-- The report in the channel of a world is the one that was delivered. -/
theorem completion_eq_some {w : World} (hsealing : w.sealing.Describes w.control)
    (haccepts : sealMonitor.Accepts w.trace) {report : LoopReport} :
    w.control.completion = some report ↔ deliveries w.log = [report] := by
  have hdeliveries : deliveries w.log = w.sealing.report?.toList := deliveries_eq haccepts
  rw [hsealing.report?_eq, hdeliveries]
  cases w.sealing.report? <;> simp

/-- What a program that keeps to the seal establishes, from the start of a loop. -/
theorem Setup.exec_sealed (setup : Setup) (clock : Nat) (schedule : List Turn) {α : Type}
    {p : Action α} {Q : Monitor.Post Sealing α} (hp : sealMonitor.wp p Q .unsealed) :
    sealMonitor.Establishes machine (fun w ↦ w.sealing.Describes w.control) Q
      (machine.exec p
        (.start setup.ctx.id setup.ctx.options setup.request.history clock schedule)) :=
  sealMonitor.exec_sound machine sealing_honours p
    ⟨by simp [World.start, LoopControl.new], rfl⟩ trivial hp

/-- A run of the task of a loop. -/
def Setup.task [SerdeJson] (setup : Setup) (clock : Nat) (schedule : List Turn) :
    Outcome LoopReport × World :=
  machine.exec (runLoop setup.ctx setup.request)
    (.start setup.ctx.id setup.ctx.options setup.request.history clock schedule)

/-- What the task does to the completion channel: the runner drops its clone of the sender before
the task around it delivers what is left, and drops the other. -/
def channelUse (inner outer : List LoopReport) : List (WatchAction LoopReport) :=
  inner.map .send ++ .dropSender :: (outer.map .send ++ [.dropSender])

theorem channelUse_eq (inner outer : List LoopReport) : channelUse inner outer =
    (inner.map .send ++ .dropSender :: outer.map .send) ++ [.dropSender] := by
  simp [channelUse]

theorem sent_channelUse (inner outer : List LoopReport) :
    (channelUse inner outer).filterMap WatchAction.sent? = inner ++ outer := by
  simp [channelUse, WatchAction.sent?, List.filterMap_map, List.filterMap_cons, Function.comp_def]

/-- Whether an action is the task's. -/
def ofTask : WatchAction LoopReport → Bool
  | .send _ | .dropSender => true
  | .subscribe | .poll _ => false

/-- The actions, newest first, are steps of waiters and the first steps of a task that delivers
these reports. -/
def Interleaves (reports : List LoopReport) (actions : List (WatchAction LoopReport)) : Prop :=
  ∃ inner outer, reports = inner ++ outer ∧
    (actions.reverse.filter ofTask) <+: channelUse inner outer

namespace Interleaves

open WatchSystem

variable {reports : List LoopReport} {actions newer older : List (WatchAction LoopReport)}

/-- The past of an interleaving is one. -/
theorem past (h : Interleaves reports (newer ++ older)) : Interleaves reports older := by
  obtain ⟨inner, outer, hreports, hprefix⟩ := h
  refine ⟨inner, outer, hreports, List.IsPrefix.trans ?_ hprefix⟩
  rw [List.reverse_append, List.filter_append]
  exact List.prefix_append _ _

/-- Waiters send nothing. -/
theorem sent_eq (actions : List (WatchAction LoopReport)) :
    (sent actions).reverse =
      (actions.reverse.filter ofTask).filterMap WatchAction.sent? := by
  rw [sent, ← List.filterMap_reverse, List.filterMap_filter]
  refine List.filterMap_congr fun a _ ↦ ?_
  cases a <;> rfl

/-- Waiters drop no sender. -/
theorem drops_eq (actions : List (WatchAction LoopReport)) :
    drops actions = (actions.reverse.filter ofTask).countP WatchAction.drops := by
  rw [drops, List.countP_filter, List.countP_reverse]
  refine List.countP_congr fun a _ ↦ ?_
  cases a <;> simp [WatchAction.drops, ofTask]

/-- What was sent so far is the beginning of the reports. -/
theorem sent_prefix (h : Interleaves reports actions) : (sent actions).reverse <+: reports := by
  obtain ⟨inner, outer, rfl, hprefix⟩ := h
  rw [sent_eq, ← sent_channelUse]
  exact hprefix.filterMap _

/-- Before its last action the task dropped at most one sender. -/
theorem drops_le {inner outer : List LoopReport} {actions : List (WatchAction LoopReport)}
    (h : actions <+: inner.map .send ++ .dropSender :: outer.map .send) :
    actions.countP WatchAction.drops ≤ 1 := by
  refine (h.sublist.countP_le).trans ?_
  simp [List.countP_append, List.countP_cons, List.countP_map, Function.comp_def,
    WatchAction.drops]

/-- When both senders are gone, all reports were sent. -/
theorem sent_all (h : Interleaves reports actions) (hdrops : 2 ≤ drops actions) :
    (sent actions).reverse = reports := by
  obtain ⟨inner, outer, rfl, hprefix⟩ := h
  rw [drops_eq] at hdrops
  rw [sent_eq]
  rw [channelUse_eq, List.prefix_concat_iff] at hprefix
  rcases hprefix with hall | hprefix
  · rw [hall, ← channelUse_eq, sent_channelUse]
  · exact absurd (drops_le hprefix) (by omega)

/-- The task sends only while it holds a sender. -/
theorem owned (h : Interleaves reports actions) : Owned 2 actions := by
  induction actions with
  | nil => trivial
  | cons a past ih =>
    have hpast : Interleaves reports past := (show Interleaves reports ([a] ++ past) from h).past
    refine ⟨ih hpast, fun hsent ↦ ?_⟩
    obtain ⟨inner, outer, rfl, hprefix⟩ := h
    have htask : ofTask a = true := by
      cases a <;> first | rfl | exact absurd hsent (by simp [WatchAction.sent?])
    rw [List.reverse_cons, List.filter_append, List.filter_cons, if_pos htask, List.filter_nil,
      channelUse_eq, List.prefix_concat_iff] at hprefix
    rw [drops_eq]
    rcases hprefix with hall | hprefix
    · -- The last action of the task drops a sender.
      obtain rfl : a = .dropSender := by simpa using (List.append_inj' hall rfl).2
      exact absurd hsent (by simp [WatchAction.sent?])
    · have := drops_le ((List.prefix_append _ [a]).trans hprefix)
      omega

end Interleaves

/-! ## The protocol -/

/-- What a run of the task establishes: it delivers at most one report, and what it returns. -/
theorem task_delivers [SerdeJson] (setup : Setup) (clock : Nat) (schedule : List Turn) :
    let run := setup.task clock schedule
    (deliveries run.2.log).length ≤ 1 ∧
      ∀ report, run.1 = .returned report → deliveries run.2.log = [report] := by
  intro run
  have hrun := setup.exec_sealed clock schedule (seal_runLoop setup.ctx setup.request rfl)
  have hdeliveries := deliveries_eq hrun.2.1
  refine ⟨?_, fun report hreport ↦ ?_⟩
  · show (deliveries (machine.exec _ _).2.log).length ≤ 1
    rw [hdeliveries]
    exact Option.length_toList_le
  · have hsealed : sealMonitor.run (traceOf run.2.log) = .sealed (some report) :=
      Monitor.Establishes.of_returned _ _ hrun hreport
    show deliveries (machine.exec _ _).2.log = [report]
    rw [hdeliveries]
    exact congrArg (fun s ↦ (Sealing.report? s).toList) hsealed

/-- What the task hands back was delivered. -/
theorem deliveries_of_task [SerdeJson] {setup : Setup} {clock : Nat} {schedule : List Turn}
    {report : LoopReport} (h : Delivers (setup.task clock schedule) report) :
    deliveries (setup.task clock schedule).2.log = [report] := by
  have hrun := setup.exec_sealed clock schedule (seal_runLoop setup.ctx setup.request rfl)
  rcases h with hreturned | hcompletion
  · exact (task_delivers setup clock schedule).2 report hreturned
  · exact (completion_eq_some hrun.1 hrun.2.1).mp hcompletion

/-- What the runner delivers it hands back. -/
theorem delivers_of_deliveries [SerdeJson] {setup : Setup} {clock : Nat} {schedule : List Turn}
    {report : LoopReport} (h : report ∈ deliveries (setup.run clock schedule).2.log) :
    Delivers (setup.run clock schedule) report := by
  have hrun := setup.exec_sealed clock schedule (seal_runLoopInner setup.ctx setup.request rfl)
  refine .inr ((completion_eq_some hrun.1 hrun.2.1).mpr ?_)
  have hdeliveries := deliveries_eq hrun.2.1
  change deliveries (setup.run clock schedule).2.log = Option.toList _ at hdeliveries
  rw [hdeliveries] at h
  show deliveries (setup.run clock schedule).2.log = [report]
  rw [hdeliveries, Option.mem_toList.mp h]
  rfl

/-- One report: a run of the task delivers at most one report, which is the one it returns. Whatever
waiters come in and however their steps interleave with it, those that end with a report end with
that one; those that find the channel closed do so where none was delivered; and once it was
delivered two steps of its own end a waiter. -/
theorem one_report [SerdeJson] (setup : Setup) (clock : Nat) (schedule : List Turn) :
    let run := setup.task clock schedule
    let reports := deliveries run.2.log
    reports.length ≤ 1 ∧
    (∀ report, run.1 = .returned report → reports = [report]) ∧
    ∀ actions, Interleaves reports actions →
      (∀ report, .finished (some report) ∈ (WatchSystem.run 2 actions).waiters →
        reports = [report]) ∧
      (.finished none ∈ (WatchSystem.run 2 actions).waiters → reports = []) ∧
      ∀ newer, Interleaves reports (newer ++ actions) → WatchSystem.sent actions ≠ [] →
        ∀ i < (WatchSystem.run 2 actions).waiters.length, 2 ≤ WatchSystem.polls i newer →
          ∃ report, reports = [report] ∧
            (WatchSystem.run 2 (newer ++ actions)).waiters[i]? =
              some (.finished (some report)) := by
  intro run reports
  obtain ⟨hone, hreturned⟩ := task_delivers setup clock schedule
  -- A list of at most one report is the list of each report in it.
  have honly : ∀ report ∈ reports, reports = [report] := by
    intro report hreport
    obtain ⟨first, hfirst⟩ := List.length_eq_one_iff.mp
      (Nat.le_antisymm hone (List.length_pos_of_mem hreport))
    rw [show reports = [first] from hfirst] at hreport ⊢
    rw [List.mem_singleton.mp hreport]
  have hsent : ∀ {actions : List (WatchAction LoopReport)}, Interleaves reports actions →
      ∀ report ∈ WatchSystem.sent actions, report ∈ reports :=
    fun h report hreport ↦ h.sent_prefix.subset (List.mem_reverse.mpr hreport)
  refine ⟨hone, hreturned, fun actions h ↦ ⟨fun report hfinished ↦ ?_, fun hfinished ↦ ?_, ?_⟩⟩
  · exact honly report (hsent h report (WatchSystem.finished_some h.owned hfinished))
  · -- A waiter is told that there is none only after every sender is gone.
    obtain ⟨hdrops, hnone⟩ := WatchSystem.finished_none h.owned hfinished
    rw [← h.sent_all hdrops, hnone]
    rfl
  · -- A waiter that is polled twice after the value was sent has it.
    intro newer hnewer hvalue i hi hpolls
    obtain ⟨report, hreport, hwaiter⟩ :=
      WatchSystem.finished_of_sent hnewer.owned hvalue hi hpolls
    exact ⟨report, honly report (hsent hnewer report hreport), hwaiter⟩

/-- In the sample a waiter that was there before the report is handed it. -/
theorem one_report_sample : ∃ report,
    deliveries (Sample.setup.task 0 Sample.schedule).2.log = [report] ∧
      (WatchSystem.run 2 ([.poll 0, .dropSender, .poll 0, .dropSender] ++
        [.send report, .poll 0, .subscribe])).waiters[0]? = some (.finished (some report)) := by
  obtain ⟨report, hreport⟩ : ∃ report,
      (Sample.setup.task 0 Sample.schedule).1.value? = some report :=
    Option.isSome_iff_exists.mp (by decide +kernel)
  obtain ⟨-, hreturned, hwait⟩ := one_report Sample.setup 0 Sample.schedule
  have hreports := hreturned report (Outcome.value?_eq_some.mp hreport)
  have h : Interleaves (deliveries (Sample.setup.task 0 Sample.schedule).2.log)
      ([.poll 0, .dropSender, .poll 0, .dropSender] ++ [.send report, .poll 0, .subscribe]) := by
    rw [hreports]
    exact ⟨[report], [], rfl, List.prefix_rfl⟩
  obtain ⟨report', hreports', hwaiter⟩ :=
    (hwait [.send report, .poll 0, .subscribe] h.past).2.2 _ h (by simp [WatchSystem.sent,
      WatchAction.sent?]) 0 Nat.zero_lt_one (by decide)
  obtain rfl : report = report' := by simpa using hreports.symm.trans hreports'
  exact ⟨report, hreports, hwaiter⟩

end MinicoreRuntime
