import MinicoreRuntime.AgentLoop.Asking

/-!
# The protocol of interactions

Every question of a run is asked by the rules, whatever the host answers and whenever: the
interaction is set, waited for and removed before anything else happens, and what the runner goes on
with is the answer that was accepted.

## Main definitions

* `Op.unasking`, `Op.ending`: the operations outside of questions.

## Main results

* `ask_askHost`: one question.
* `run_inquired`: every run asks by the rules.
* `interactions_answered`: the protocol of interactions.
-/

namespace MinicoreRuntime

open Interactive

/-- Operations that begin the end of a loop. -/
def Op.ending : Op → Bool
  | .beginFinal | .sealState | .closeAccepting | .cancelToken => true
  | _ => false

/-- Operations that are not about questions, and publish none. -/
def Op.unasking : Op → Bool
  | .newInteractionId | .oneshot | .setInteraction _ | .pollInteraction _ _ | .takeInteraction
  | .sendReport _ => false
  | .publishState state => state.pendingInteraction.isNone
  | _ => true

theorem Op.unasking_of_plain {o : Op} (h : o.plain = true) :
    o.unasking = true ∧ o.ending = false := by
  cases o <;> first | exact ⟨rfl, rfl⟩ | exact absurd h (by simp [Op.plain])

theorem Op.unasking_of_calls {o : Op} (h : o.calls = true) :
    o.unasking = true ∧ o.ending = false := by
  cases o <;> first | exact ⟨rfl, rfl⟩ | exact absurd h (by simp [Op.calls])

theorem Op.unasking_of_routine {o : Op} (h : o.routine = true) (hunasked : o.unasked = true) :
    o.unasking = true ∧ o.ending = false := by
  cases o with
  | publishState state => exact ⟨hunasked, rfl⟩
  | _ => first | exact ⟨rfl, rfl⟩ | exact absurd h (by simp [Op.routine])

section

variable {ctx : LoopCtx} {s : Asking} {α β : Type}

/-- What is not about questions may happen where none is under way. -/
theorem ask_stable {J : Asking → Prop} (hJ : ∀ s, J s → s.held = none) {o : Op}
    (h : o.unasking = true) (hending : o.ending = true → ∀ s, J s → J { s with running := false }) :
    (askMonitor ctx).Stable J o := by
  intro s hs
  cases o with
  | publishState state =>
    refine ⟨fun pending hpending ↦ ?_, fun _ _ _ ↦ hs⟩
    rw [Option.isNone_iff_eq_none.mp h] at hpending
    exact absurd hpending (by simp)
  | currentState | tryEmit => exact ⟨trivial, fun _ _ _ ↦ hs⟩
  | beginFinal | sealState | closeAccepting | cancelToken =>
    exact ⟨hJ s hs, fun _ _ _ ↦ hending rfl s hs⟩
  | newInteractionId | oneshot | setInteraction | pollInteraction | takeInteraction | sendReport =>
    exact absurd h (by simp [Op.unasking])
  | _ => exact ⟨hJ s hs, fun _ _ _ ↦ hs⟩

/-- No question is under way and the loop has not begun to end. -/
def Asking.Quiet (s : Asking) : Prop := s.running = true ∧ s.held = none

theorem ask_quiet {o : Op} (h : o.unasking = true ∧ o.ending = false) :
    (askMonitor ctx).Stable Asking.Quiet o :=
  ask_stable (fun _ hs ↦ hs.2) h.1 fun hending ↦ absurd (h.2.symm.trans hending) (by simp)

theorem ask_idle {P : Prop} {o : Op} (h : o.unasking = true) :
    (askMonitor ctx).Stable (fun s : Asking ↦ P ∧ s.held = none) o :=
  ask_stable (fun _ hs ↦ hs.2) h fun _ _ hs ↦ hs

/-! ## One question -/

/-- The state after the wait for an answer. -/
structure Asking.Waited (kind : InteractionKind) (s : Asking)
    (answer : Except FailPath InteractionAnswer) : Prop where
  running : s.running = true
  path : answer ≠ .error .interaction
  valid : ∀ a, answer = .ok a → a.validate kind = true

/-- Waiting for an answer. -/
theorem ask_wait (slot : InteractionSlot) (hrunning : s.running = true)
    (hheld : s.held = some slot) (hended : s.ended = false) :
    (askMonitor ctx).wp
      (Prog.iterate (fun _ : Unit ↦ pollAnswer slot.reply ctx.options.deadline) ())
      (.ofReturned fun answer s' ↦ Asking.Waited slot.expected s' answer ∧
        s'.held = some slot ∧ s'.ended = true) s := by
  refine (askMonitor ctx).wp_iterate
    (fun _ (s' : Asking) ↦ s'.running = true ∧ s'.held = some slot ∧ s'.ended = false)
    ⟨hrunning, hheld, hended⟩ ?_
  rintro - s' ⟨hrunning', hheld', hended'⟩
  refine (askMonitor ctx).wp_call_bind_of ⟨hended', rfl, slot, hheld', rfl⟩
    fun n polled hpolled ↦ ?_
  cases polled with
  | cancelled => exact ⟨⟨hrunning', by simp, by simp⟩, hheld', rfl⟩
  | expired => exact ⟨⟨hrunning', by simp, by simp⟩, hheld', rfl⟩
  | ready found =>
    -- What is found is an answer, and it is valid.
    obtain ⟨held, answer, hslot, rfl, hvalid⟩ := hpolled found rfl
    obtain rfl : held = slot := Option.some.inj (hslot.symm.trans hheld')
    refine ⟨⟨hrunning', by simp, fun a ha ↦ ?_⟩, hheld', rfl⟩
    obtain rfl := Except.ok.inj ha
    exact hvalid
  | panicked => exact ⟨hrunning', hheld', rfl⟩
  | pending => exact ⟨hrunning', hheld', rfl⟩

/-- Publishing a state, with no question but the one under way. -/
theorem ask_publish_bind (state : LoopState)
    (hstate : ∀ pending, state.pendingInteraction = some pending →
      ∃ slot, s.held = some slot ∧ pending.interactionId = slot.id ∧ pending.kind = slot.expected)
    {f : Unit → Action α} {R : α → Asking → Prop}
    (hf : (askMonitor ctx).wp (f ()) (.ofReturned R) s) :
    (askMonitor ctx).wp ((publish state).bind f) (.ofReturned R) s := by
  have hallowed : (askMonitor ctx).allowed s (.publishState state) := hstate
  have hemit : (askMonitor ctx).wp ((perform (.tryEmit (.stateChanged state))).bind f)
      (.ofReturned R) s := (askMonitor ctx).wp_call_bind_of trivial fun _ _ _ ↦ hf
  exact (askMonitor ctx).wp_call_bind_of hallowed fun _ _ _ ↦ hemit

/-- One question: whatever ends it, it is removed, and an answer is one to the question. -/
theorem ask_askHost (invocation : ToolInvocation) (kind : InteractionKind) (hs : s.Quiet) :
    (askMonitor ctx).wp (askHost ctx invocation kind)
      (.ofReturned fun answer s' ↦ Asking.Waited kind s' answer ∧ s'.held = none) s := by
  obtain ⟨hrunning, hheld⟩ := hs
  refine (askMonitor ctx).wp_call_bind_of ⟨hrunning, hheld⟩ fun n drawn _ ↦ ?_
  cases drawn with
  | none => exact ⟨⟨hrunning, by simp, by simp⟩, hheld⟩
  | some id =>
    refine (askMonitor ctx).wp_call_bind_of ⟨hrunning, hheld⟩ fun n channel _ ↦ ?_
    refine (askMonitor ctx).wp_call_bind_of ⟨hrunning, hheld, rfl, rfl⟩ fun n set hset ↦ ?_
    obtain rfl : set = true := hset
    let slot : InteractionSlot := ⟨id, kind, channel⟩
    refine (askMonitor ctx).wp_call_bind_of trivial fun n waiting _ ↦ ?_
    refine ask_publish_bind _ ?_ ?_
    · -- The question that is published is the one that was set.
      intro pending hpending
      obtain rfl := Option.some.inj hpending
      exact ⟨slot, rfl, rfl, rfl⟩
    refine (askMonitor ctx).wp_call_bind_of trivial fun n _ _ ↦ ?_
    refine (askMonitor ctx).wp_bind_of (ask_wait slot hrunning rfl rfl) ?_
    rintro (path | answer) s₁ ⟨⟨hrunning₁, hpath, hvalid⟩, hheld₁, hended₁⟩
    · refine (askMonitor ctx).wp_call_bind_of ⟨hended₁, by simp [hheld₁]⟩ fun n _ _ ↦ ?_
      exact ⟨⟨hrunning₁, hpath, hvalid⟩, rfl⟩
    · refine (askMonitor ctx).wp_call_bind_of ⟨hended₁, by simp [hheld₁]⟩ fun n _ _ ↦ ?_
      refine (askMonitor ctx).wp_call_bind_of trivial fun n _ _ ↦ ?_
      refine (askMonitor ctx).wp_call_bind_of trivial fun n running _ ↦ ?_
      refine ask_publish_bind _ ?_ ⟨⟨hrunning₁, hpath, hvalid⟩, rfl⟩
      exact fun pending hpending ↦ absurd hpending (by simp)

/-! ## The task -/

/-- The rounds of a loop ask by the rules, and end on no path of a question without an answer. -/
theorem ask_requestRounds [SerdeJson] (locals : Locals) (hs : s.Quiet) :
    (askMonitor ctx).wp (Prog.iterate (requestRound ctx) locals)
      (.ofReturned fun ending s' ↦ ending.path ≠ .interaction ∧ s'.held = none) s := by
  have h : Traversal (askMonitor ctx) ctx Asking.Quiet
      fun path s' ↦ path ≠ .interaction ∧ s'.held = none := by
    refine Traversal.ofStable ?_ (fun _ o ho ↦ ask_idle (Op.unasking_of_plain ho).1)
      (fun _ ↦ ask_quiet ⟨rfl, rfl⟩) (fun _ _ ↦ ask_idle rfl)
      (fun _ _ hpath _ hs ↦ ⟨hpath, hs.2⟩) fun invocation kind s hs ↦ ?_
    · rintro o (ho | ho)
      · exact ask_quiet (Op.unasking_of_plain ho)
      · exact ask_quiet (Op.unasking_of_calls ho)
    · -- Only the wait for the host may end on the way of an interaction.
      refine (askMonitor ctx).wp_mono_returned (ask_askHost invocation kind hs) ?_
      rintro (path | answer) s' ⟨hwaited, hheld⟩
      · exact ⟨fun hpath ↦ hwaited.path (congrArg _ hpath), hheld⟩
      · exact ⟨hwaited.running, hheld⟩
  refine h.requestRounds (fun o ho hunasked ↦ ask_quiet (Op.unasking_of_routine ho hunasked))
    (fun _ hs ↦ ⟨by simp, hs.2⟩) ?_ locals hs
  exact fun s' hs' ↦ ⟨hs'.2, fun _ _ _ ↦ ⟨by simp, hs'.2⟩⟩

/-- What is not about questions may happen after the loop began to end. -/
theorem ask_held {o : Op} (h : o.unasking = true) :
    (askMonitor ctx).Stable (fun s : Asking ↦ s.held = none) o :=
  ask_stable (fun _ hs ↦ hs) h fun _ _ hs ↦ hs

/-- A program that is not about questions. -/
theorem ask_of_uses {p : Action α} (hp : p.Uses fun o : Op ↦ o.unasking = true)
    (hs : s.held = none) :
    (askMonitor ctx).wp p (.ofReturned fun _ (s' : Asking) ↦ s'.held = none) s :=
  (askMonitor ctx).wp_mono ((askMonitor ctx).wp_of_uses (fun s _ ho ↦ ask_held ho s) hp hs)
    (fun _ _ h ↦ h) fun _ _ ↦ trivial

/-- A program that is not about questions, followed by the rest of a program. -/
theorem ask_uses_bind {p : Action α} (hp : p.Uses fun o : Op ↦ o.unasking = true)
    {f : α → Action β} {R : β → Asking → Prop} (hs : s.held = none)
    (hf : ∀ a (s' : Asking), s'.held = none → (askMonitor ctx).wp (f a) (.ofReturned R) s') :
    (askMonitor ctx).wp (p.bind f) (.ofReturned R) s :=
  (askMonitor ctx).wp_bind_of (ask_of_uses hp hs) hf

theorem Op.unasking_plain {o : Op} (h : o.plain = true) : o.unasking = true :=
  (Op.unasking_of_plain h).1

/-- The report of a loop that did not end on a question without an answer. -/
theorem ask_deliverReport (ending : Ending) (revision : Nat) {outcome : LoopOutcome}
    (houtcome : outcome.summary ≠ .failed .interaction) (discarded : Option ExecutionConfig)
    (hs : s.held = none) :
    (askMonitor ctx).wp (deliverReport ctx ending revision outcome discarded)
      (.ofReturned fun _ (s' : Asking) ↦ s'.held = none) s := by
  refine (askMonitor ctx).wp_stable_bind (ask_held rfl) hs fun appended s₁ hs₁ ↦ ?_
  refine ask_uses_bind ?_ hs₁ fun _ s₂ hs₂ ↦ ?_
  · refine uses_call_bind rfl fun state ↦ ⟨rfl, fun _ ↦ ⟨rfl, fun _ ↦ ?_⟩⟩
    exact uses_call_bind rfl fun state ↦ ⟨rfl, fun _ ↦ ⟨rfl, fun _ ↦ trivial⟩⟩
  · refine (askMonitor ctx).wp_call_bind_of ⟨hs₂, houtcome⟩ fun n _ _ ↦ ?_
    refine ask_of_uses (s := s₂) ?_ hs₂
    refine uses_call_bind rfl fun _ ↦ uses_call_bind rfl fun _ ↦ ?_
    exact Prog.uses_bind (uses_dropConfig (fun _ ↦ Op.unasking_plain) discarded) fun _ ↦ trivial

theorem uses_finishOnce_unasking : finishOnce.Uses fun o : Op ↦ o.unasking = true := by
  refine uses_call_bind rfl fun finish ↦ ?_
  cases finish <;> exact ⟨rfl, fun _ ↦ by first | trivial | exact ⟨rfl, fun _ ↦ trivial⟩⟩

/-- The report that was published is none of this path. -/
theorem ask_publishedReport (hs : s.held = none) :
    (askMonitor ctx).wp publishedReport (.ofReturned fun _ (s' : Asking) ↦ s'.held = none) s := by
  refine (askMonitor ctx).wp_call_bind_of hs fun n report _ ↦ ?_
  cases report with
  | none => trivial
  | some report => exact hs

/-- The outcome of a path that is not a question without an answer. -/
theorem ask_outcomeFor {path : FailPath} (hpath : path ≠ .interaction) (hs : s.held = none) :
    (askMonitor ctx).wp (outcomeFor path) (.ofReturned fun outcome (s' : Asking) ↦
      outcome.summary ≠ .failed .interaction ∧ s'.held = none) s := by
  cases path with
  | cancelled =>
    exact (askMonitor ctx).wp_call_bind_of hs fun n reason _ ↦ ⟨by simp [LoopOutcome.summary], hs⟩
  | interaction => exact absurd rfl hpath
  | _ => exact ⟨by simp [LoopOutcome.summary, failure, modelFailure], hs⟩

/-- The seal and the report. -/
theorem ask_finishLoop {ending : Ending} (hpath : ending.path ≠ .interaction)
    (hs : s.held = none) :
    (askMonitor ctx).wp (finishLoop ctx ending)
      (.ofReturned fun _ (s' : Asking) ↦ s'.held = none) s := by
  refine (askMonitor ctx).wp_stable_bind (ask_held rfl) hs fun revision s₁ hs₁ ↦ ?_
  refine (askMonitor ctx).wp_bind_of (ask_outcomeFor hpath hs₁) ?_
  rintro intended s₂ ⟨hintended, hs₂⟩
  refine ask_uses_bind uses_finishOnce_unasking hs₂ ?_
  rintro ⟨finish, discarded⟩ s₃ hs₃
  cases finish with
  | clean => exact ask_deliverReport ending revision hintended discarded hs₃
  | cancelledPrior source =>
    exact ask_deliverReport ending revision (by simp [LoopOutcome.summary]) discarded hs₃
  | alreadyFinished => exact ask_publishedReport hs₃

/-- The runner of a loop asks by the rules. -/
theorem ask_runLoopInner [SerdeJson] (request : LoopRequest) (hs : s.Quiet) :
    (askMonitor ctx).wp (runLoopInner ctx request) (.ofReturned fun _ _ ↦ True) s := by
  refine (askMonitor ctx).wp_stable_bind (ask_quiet ⟨rfl, rfl⟩) hs fun _ s₁ hs₁ ↦ ?_
  refine (askMonitor ctx).wp_stable_bind (ask_quiet ⟨rfl, rfl⟩) hs₁ fun _ s₂ hs₂ ↦ ?_
  refine (askMonitor ctx).wp_bind_of (ask_requestRounds _ hs₂) ?_
  rintro ending s₃ ⟨hpath, hs₃⟩
  refine (askMonitor ctx).wp_bind_of (ask_finishLoop hpath hs₃) fun report s₄ hs₄ ↦ ?_
  refine ask_uses_bind (uses_dropConfig (fun _ ↦ Op.unasking_plain) _) hs₄ fun _ s₅ hs₅ ↦ ?_
  exact (askMonitor ctx).wp_call_bind_of hs₅ fun _ _ _ ↦ trivial

end

/-! ## The protocol -/

/-- What every run establishes about its questions, whatever other threads do after it. -/
theorem run_inquired [SerdeJson] (setup : Setup) (clock : Nat) (schedule : List Turn)
    (steps : List HostStep) :
    Inquired setup.ctx clock ((setup.run clock schedule).2.hostSteps steps) := by
  have hrun := (askMonitor setup.ctx).exec_sound machine (inquired_honours setup.ctx clock)
    (runLoopInner setup.ctx setup.request)
    (w := .start setup.ctx.id setup.ctx.options setup.request.history clock schedule)
    (.start setup.ctx setup.request.history clock schedule) trivial
    (ask_runLoopInner setup.request ⟨rfl, rfl⟩)
  exact (inquired_kept setup.ctx clock).hostSteps hrun.1 steps

namespace Asks

variable {ctx : LoopCtx} {start : Nat} {log newer older : List Record}
  {entry : Entry interface Nat}

/-- Outside of the wait for an answer nothing is pending. -/
theorem idle (h : Asks ctx start (newer ++ .runner entry :: older))
    (hop : entry.op.whileAsking = false) : pendingSlot older = none := by
  have hasks := h.past
  refine (asking_matches hasks.of_cons).idle ?_
  obtain ⟨hpermits, -⟩ := hasks.permitted
  obtain ⟨o, n, r⟩ := entry
  cases o with
  | newInteractionId | oneshot => exact hpermits.2
  | setInteraction slot => exact hpermits.2.1
  | sendReport report => exact hpermits.1
  | publishState | currentState | tryEmit | pollInteraction | takeInteraction =>
    exact absurd hop (by simp [Op.whileAsking])
  | _ => exact hpermits

/-- The runner goes on with the answer that was accepted for the question it set last. -/
theorem consumed {channel n : Nat} {deadline : Option Nat} {found : Option InteractionAnswer}
    (h : Asks ctx start
      (newer ++ .runner ⟨.pollInteraction channel deadline, n, .ready found⟩ :: older)) :
    ∃ slot answer, openedSlot older = some slot ∧ slot.reply = channel ∧ found = some answer ∧
      AcceptedFor older slot answer ∧ answer.validate slot.expected = true := by
  have hasks := h.past
  obtain ⟨⟨-, -, slot, hslot, rfl⟩, -⟩ := hasks.permitted
  have hmatches := asking_matches hasks.of_cons
  obtain ⟨answer, rfl, haccepted⟩ := hmatches.found hslot (hasks.questions.2 found rfl)
  exact ⟨slot, answer, (hmatches.held slot hslot).2.2.1, rfl, rfl, haccepted,
    haccepted.validate hasks.of_cons.questions⟩

/-- Different interactions are answered under different identifiers. -/
theorem answered_nodup (h : Asks ctx start log) (hdistinct : (drawnIds log).Nodup) :
    (answeredIds log).Nodup := by
  have hopened : List.Sublist (openedIds log) (drawnIds log) :=
    (List.sublist_append_right _ _).trans (opened_sublist h)
  have hanswered : List.Sublist (answeredIds log) (openedIds log) :=
    (List.sublist_append_right _ _).trans (accepted_sublist h.questions)
  exact hdistinct.sublist (hanswered.trans hopened)

/-- No report says that a question was without an answer. -/
theorem delivered (h : Asks ctx start log) {report : LoopReport}
    (hreport : report ∈ deliveries log) : report.outcome.summary ≠ .failed .interaction := by
  obtain ⟨e, he, hdelivers⟩ := List.mem_filterMap.mp (List.mem_reverse.mp hreport)
  obtain ⟨newer, older, rfl⟩ := List.append_of_mem he
  cases e with
  | host event => exact absurd hdelivers (by simp [Record.report?])
  | runner entry =>
    obtain ⟨o, n, r⟩ := entry
    cases o with
    | sendReport delivered =>
      obtain rfl := Option.some.inj hdelivers
      exact h.past.permitted.1.2
    | _ => exact absurd hdelivers (by simp [Record.report?])

end Asks

/-- One question from any world in which the runner may ask it. -/
theorem askHost_answered {ctx : LoopCtx} {start : Nat} {w w' : World} (h : Inquired ctx start w)
    (hquiet : (askingAfter ctx w.log).Quiet) {invocation : ToolInvocation} {kind : InteractionKind}
    {answer : Except FailPath InteractionAnswer}
    (hexec : machine.exec (askHost ctx invocation kind) w = (.returned answer, w')) :
    w'.control.inner.interaction = none ∧ answer ≠ .error .interaction ∧
      ∀ a, answer = .ok a → a.validate kind = true := by
  have hrun := (askMonitor ctx).exec_sound machine (inquired_honours ctx start)
    (askHost ctx invocation kind) h h.accepts (ask_askHost invocation kind hquiet)
  rw [hexec] at hrun
  obtain ⟨hinquired, -, hwaited, hheld⟩ := hrun
  refine ⟨?_, hwaited.path, hwaited.valid⟩
  rw [hinquired.slotted.pending]
  exact (asking_matches hinquired.asks).idle hheld

/-- The protocol of interactions. Where the identifiers that are drawn are distinct, at most one
answer is accepted for each. An answer is accepted exactly where the loop runs and it is a valid one
under the identifier of the pending interaction; a refused one leaves that alone; and one that fits
a question that was published is accepted unless a cancellation won before, the deadline came, or
the question was answered. The runner sets an interaction only where none is pending, has it removed
when the wait for an answer is over, and goes on with the answer that was accepted for it, which is
one to what it asked. -/
theorem interactions_answered [SerdeJson] (setup : Setup) (clock : Nat) (schedule : List Turn)
    (steps : List HostStep)
    (hdistinct : (drawnIds ((setup.run clock schedule).2.hostSteps steps).log).Nodup) :
    let w := (setup.run clock schedule).2.hostSteps steps
    (answeredIds w.log).Nodup ∧
    w.control.inner.interaction = pendingSlot w.log ∧
    (∀ newer id answer result older,
      w.log = newer ++ .host (.answerReturned id answer result) :: older →
      (result = .ok () ↔ Acceptable older id answer) ∧
      (result ≠ .ok () →
        pendingSlot (.host (.answerReturned id answer result) :: older) = pendingSlot older)) ∧
    (∀ state n pending answer, .runner ⟨.publishState state, n, ()⟩ ∈ w.log →
      state.pendingInteraction = some pending → answer.validate pending.kind = true →
      ¬ Released setup.ctx clock w.log pending.interactionId →
      (w.hostStep (.answer pending.interactionId answer)).log =
        .host (.answerReturned pending.interactionId answer (.ok ())) :: w.log) ∧
    (∀ newer state n pending answer result older,
      w.log = newer ++ .host (.answerReturned pending.interactionId answer result) :: older →
      .runner ⟨.publishState state, n, ()⟩ ∈ older → state.pendingInteraction = some pending →
      answer.validate pending.kind = true →
      ¬ Released setup.ctx clock older pending.interactionId → result = .ok ()) ∧
    (∀ newer slot n set older,
      w.log = newer ++ .runner ⟨.setInteraction slot, n, set⟩ :: older →
      set = true ∧ pendingSlot older = none) ∧
    (∀ newer channel deadline n found older,
      w.log = newer ++ .runner ⟨.pollInteraction channel deadline, n, .ready found⟩ :: older →
      ∃ slot answer, openedSlot older = some slot ∧ slot.reply = channel ∧ found = some answer ∧
        AcceptedFor older slot answer ∧ answer.validate slot.expected = true) ∧
    (∀ newer entry older, w.log = newer ++ .runner entry :: older →
      entry.op.whileAsking = false → pendingSlot older = none) ∧
    (∀ past n drawn older, w.log = past ++ .runner ⟨.newInteractionId, n, drawn⟩ :: older →
      (askingAfter setup.ctx older).Quiet) ∧
    (∀ before after invocation kind answer, Inquired setup.ctx clock before →
      (askingAfter setup.ctx before.log).Quiet →
      machine.exec (askHost setup.ctx invocation kind) before = (.returned answer, after) →
      after.control.inner.interaction = none ∧ answer ≠ .error .interaction ∧
        ∀ a, answer = .ok a → a.validate kind = true) ∧
    ∀ report ∈ deliveries w.log, report.outcome.summary ≠ .failed .interaction := by
  intro w
  have hinquired := run_inquired setup clock schedule steps
  have hasks : Asks setup.ctx clock w.log := hinquired.asks
  have hslotted : Slotted setup.ctx.options.limits w := hinquired.slotted
  -- Each part looks at the log at one record, whose past has the same properties.
  have hpast : ∀ {newer older : List Record}, w.log = newer ++ older →
      Asks setup.ctx clock older := by
    intro newer older hsplit
    rw [hsplit] at hasks
    exact hasks.past
  refine ⟨hasks.answered_nodup hdistinct, hslotted.pending, ?_, ?_, ?_, ?_, ?_, ?_, ?_, ?_,
    fun report hreport ↦ hasks.delivered hreport⟩
  · intro newer id answer result older hsplit
    refine ⟨(hpast hsplit).questions.2, fun hrefused ↦ pendingSlot_host ?_ older⟩
    cases result with
    | ok => exact absurd rfl hrefused
    | error e => rfl
  · intro state n pending answer hstate hpending hvalid hreleased
    exact hslotted.answer_accepted
      (acceptable_of_published hasks hstate hpending hreleased hvalid)
  · intro newer state n pending answer result older hsplit hstate hpending hvalid hreleased
    have holder := hpast hsplit
    exact holder.questions.2.mpr
      (acceptable_of_published holder.of_cons hstate hpending hreleased hvalid)
  · intro newer slot n set older hsplit
    have holder := hpast hsplit
    obtain ⟨⟨-, hheld, -⟩, hset⟩ := holder.permitted
    exact ⟨hset, (asking_matches holder.of_cons).idle hheld⟩
  · intro newer channel deadline n found older hsplit
    exact (hsplit ▸ hasks).consumed
  · intro newer entry older hsplit hop
    exact (hsplit ▸ hasks).idle hop
  · intro past n drawn older hsplit
    exact (hpast hsplit).permitted.1
  · intro before after invocation kind answer hbefore hquiet hexec
    exact askHost_answered hbefore hquiet hexec

namespace Sample

/-- The identifier of a question. -/
def question : InteractionId := .ofByte 2 (Eq.refl true)

/-- The policy asks for an approval, which comes after an answer under another identifier. -/
def asking : List Turn := (List.range 72).map fun i ↦
  if i = 50 then
    { reply := .port .policy (.ok (.requireApproval ⟨⟨"ok?".toList, by decide⟩, .low⟩)) }
  else if i = 52 then { reply := .interactionId question }
  else if i = 60 then { host := [.answer (.ofByte 3 (Eq.refl true)) (.approval .allowOnce),
    .answer question (.approval .allowOnce)] }
  else (turns.lookup i).getD {}

/-- Whether an operation found an answer. -/
def finds (e : Entry interface Nat) : Bool :=
  match e with
  | ⟨.pollInteraction _ _, _, .ready _⟩ => true
  | _ => false

end Sample

/-- In the sample one of two answers is accepted, and it is what the runner goes on with. -/
theorem interactions_answered_sample :
    drawnIds (Sample.setup.run 0 Sample.asking).2.log = [Sample.question] ∧
    answeredIds (Sample.setup.run 0 Sample.asking).2.log = [Sample.question] ∧
    (answeredIds (Sample.setup.run 0 Sample.asking).2.log).Nodup ∧
    ∃ newer older slot answer, (Sample.setup.run 0 Sample.asking).2.log = newer ++ older ∧
      AcceptedFor older slot answer ∧ answer.validate slot.expected = true := by
  have hnow : ∀ w : World, w.hostSteps [] = w := fun _ ↦ rfl
  have hdrawn : drawnIds (Sample.setup.run 0 Sample.asking).2.log = [Sample.question] := by
    decide +kernel
  have hprotocol := interactions_answered Sample.setup 0 Sample.asking []
    (by rw [hnow, hdrawn]; exact List.nodup_singleton _)
  rw [hnow] at hprotocol
  obtain ⟨hnodup, -, -, -, -, -, hconsumed, -⟩ := hprotocol
  refine ⟨hdrawn, by decide +kernel, hnodup, ?_⟩
  -- The answer that the run consumes is found by evaluation, its origin by the theorem.
  have hfinds : (traceOf (Sample.setup.run 0 Sample.asking).2.log).any Sample.finds = true := by
    decide +kernel
  obtain ⟨newer, e, older, hlog, hfound⟩ := split_of_any hfinds
  unfold Sample.finds at hfound
  split at hfound
  · obtain ⟨slot, answer, -, -, -, haccepted, hvalid⟩ := hconsumed _ _ _ _ _ _ hlog
    exact ⟨_, older, slot, answer, hlog.trans (List.append_cons _ _ _), haccepted, hvalid⟩
  · exact absurd hfound (by simp)

end MinicoreRuntime
