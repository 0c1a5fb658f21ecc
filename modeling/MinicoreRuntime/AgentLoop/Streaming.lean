import MinicoreRuntime.AgentLoop.Completion
import MinicoreRuntime.Model.Chunking

/-!
# Streaming

While a model answers, its text and its reasoning are shown to the host delta by delta; when it has
answered, they enter the history. What was shown is what is recorded: no delta is shown of an
attempt that is retried, none is lost on its way from the driver to the event sink, and none is
shown that does not belong to the response.

## Main definitions

* `Display`, `displayMonitor`: what was shown of the current request, and what is on its way.
* `shownSince`: the deltas emitted since the last request was started.

## Main results

* `display_runModel`: a response that the driver returns was shown as it is.
* `shown_is_recorded`: every response in the history was shown as it is.
-/

namespace MinicoreRuntime

open Interactive MinicoreRuntime.Stream

/-! ## What is shown -/

/-- The progress that an event shows. -/
def LoopEvent.progress? : LoopEvent → Option ModelDriverProgress
  | .outputDelta _ _ .text delta => some (.textDelta delta)
  | .outputDelta _ _ .reasoning delta => some (.reasoningDelta delta)
  | _ => none

/-- Whether an event starts a request. -/
def LoopEvent.startsRequest : LoopEvent → Bool
  | .requestStarted _ _ _ _ _ => true
  | _ => false

/-- The text of the parts of a channel that a response shown by this progress has. -/
def shownParts (shown : List ModelDriverProgress) (ch : Channel) : List (Option Text) :=
  if (ch.deltas shown).flatMap BoundedText.asStr = [] then []
  else [some ((ch.deltas shown).flatMap BoundedText.asStr)]

/-- What the host was shown of the current request, and what is on its way. -/
structure Display where
  /-- The progress emitted since the request was started. -/
  shown : List ModelDriverProgress
  /-- The progress channel of the model call. -/
  queue : List ModelDriverProgress

namespace Display

/-- A response enters the history as it was shown. -/
def Permits (s : Display) : Op → Prop
  | .append (.assistant item) => ∀ ch : Channel, item.content.filterMap ch.content? =
      shownParts s.shown ch
  | _ => True

/-- What the machine answers. -/
def Expects (s : Display) : (o : Op) → o.Answer → Prop
  | .recvModelProgress, received => received = s.queue.head?
  | _, _ => True

/-- The display after an event. -/
def afterEvent (s : Display) (event : LoopEvent) : Display :=
  if event.startsRequest then { s with shown := [] }
  else { s with shown := s.shown ++ event.progress?.toList }

/-- The display after an operation. -/
def next (s : Display) : Op → Display
  | .tryEmit event => s.afterEvent event
  | .openModelProgress => { s with queue := [] }
  | .offerProgress progress =>
    if s.queue.length < progressCapacity then { s with queue := s.queue ++ [progress] } else s
  | .recvModelProgress => { s with queue := s.queue.tail }
  | _ => s

end Display

/-- The monitor of what is shown. -/
def displayMonitor : Monitor interface Nat where
  State := Display
  init := ⟨[], []⟩
  allowed := Display.Permits
  expects s o _ r := s.Expects o r
  next s o _ _ := s.next o

/-- The operations that what is shown depends on. -/
def Op.displays : Op → Bool
  | .tryEmit event => event.startsRequest || event.progress?.isSome
  | .openModelProgress | .offerProgress _ | .recvModelProgress | .append (.assistant _) => true
  | _ => false

theorem Display.next_eq {o : Op} (h : o.displays = false) (s : Display) : s.next o = s := by
  cases o with
  | tryEmit event =>
    obtain ⟨hstarts, hprogress⟩ := Bool.or_eq_false_iff.mp h
    show s.afterEvent event = s
    have hnone := Option.isNone_iff_eq_none.mp (Option.isSome_eq_false_iff.mp hprogress)
    rw [Display.afterEvent, hstarts, hnone]
    simp
  | _ => first | rfl | exact absurd h (by simp [Op.displays])

/-- The operations that need the display as it is. -/
def Op.records : Op → Bool
  | .append (.assistant _) => true
  | _ => false

theorem Op.records_of_displays {o : Op} (h : o.displays = false) : o.records = false := by
  cases o with
  | append item => cases item <;> first | rfl | exact h
  | _ => rfl

/-- The other operations are allowed in any state. -/
theorem display_free {o : Op} (h : o.records = false) : displayMonitor.Free o := by
  intro s
  show Display.Permits s o
  cases o with
  | append item =>
    cases item with
    | assistant item => exact absurd h (by simp [Op.records])
    | _ => trivial
  | _ => trivial

/-- Operations that what is shown does not depend on leave the display alone. -/
theorem display_silent {o : Op} (h : o.displays = false) : displayMonitor.Silent o :=
  fun s ↦ ⟨display_free (Op.records_of_displays h) s, fun _ _ ↦ Display.next_eq h s⟩

/-! ## The machine -/

/-- The progress channel is the one the trace describes. -/
def World.Displays (w : World) : Prop :=
  w.modelProgress.queue = Display.queue (displayMonitor.run w.trace)

theorem World.effect_modelQueue (w : World) (s : Display) (o : Op)
    (h : w.modelProgress.queue = s.queue) :
    (w.effect o).modelProgress.queue = (s.next o).queue := by
  cases o with
  | tryEmit event =>
    show w.modelProgress.queue = (s.afterEvent event).queue
    rw [Display.afterEvent]
    split <;> exact h
  | openModelProgress => rfl
  | recvModelProgress => exact congrArg List.tail h
  | offerProgress progress =>
    unfold effect Display.next
    dsimp only
    rw [h]
    split <;> rfl
  | _ => exact h

/-- Other threads leave the progress channel of a model call alone. -/
theorem World.hostStep_modelProgress (w : World) (step : HostStep) :
    (w.hostStep step).modelProgress = w.modelProgress := by
  have heffect := w.hostEffect step
  generalize w.hostStep step = w' at heffect ⊢
  cases heffect <;> rfl

theorem displays_kept :
    World.Kept (fun trace ↦ displayMonitor.allowed (displayMonitor.run trace)) World.Displays where
  host w step h := by
    show (w.hostStep step).modelProgress.queue =
        Display.queue (displayMonitor.run (w.hostStep step).trace)
    rw [World.hostStep_modelProgress, World.hostStep_trace]
    exact h
  pass w schedule clock _ h := h
  answered w turn o r h _ _ := by
    show (w.effect o).modelProgress.queue = Display.queue (displayMonitor.run _)
    rw [World.recordEntry_trace, World.effect_trace]
    exact w.effect_modelQueue _ o h

theorem displays_honours : machine.Honours displayMonitor World.Displays :=
  displays_kept.honours fun w turn o r h _ hanswer ↦ by
    show Display.Expects _ o r
    cases o with
    | recvModelProgress =>
      obtain rfl := Option.some.inj hanswer
      exact congrArg List.head? h
    | _ => trivial

/-! ## Model calls -/

section

variable {s : Display} {α β : Type}

/-- Everything offered so far was shown. -/
def Drained (shown : List ModelDriverProgress) (s : Display) : Prop :=
  s.queue = [] ∧ s.shown = shown

/-- A delta in hand is shown. -/
theorem display_forwardProgress (ctx : LoopCtx) (requestIndex : Nat) (value : ModelDriverProgress) :
    displayMonitor.wp (forwardProgress ctx requestIndex value)
      (.ofReturned fun _ s' ↦ s' = { s with shown := s.shown ++ [value] }) s := by
  refine displayMonitor.wp_silent_call (display_silent rfl) fun dropped ↦ ?_
  refine displayMonitor.wp_silent_call (display_silent rfl) fun _ ↦ ?_
  cases value with
  | textDelta delta => exact displayMonitor.wp_call_of trivial fun _ _ _ ↦ rfl
  | reasoningDelta delta => exact displayMonitor.wp_call_of trivial fun _ _ _ ↦ rfl

/-- Forwarding shows what is on its way, in order. -/
theorem display_drainProgress (ctx : LoopCtx) (requestIndex : Nat) (s : Display) :
    displayMonitor.wp (drainProgress ctx requestIndex)
      (.ofReturned fun _ ↦ Drained (s.shown ++ s.queue)) s := by
  refine displayMonitor.wp_iterate (fun _ s' ↦ s'.shown ++ s'.queue = s.shown ++ s.queue) rfl ?_
  intro _ s₁ hs₁
  refine displayMonitor.wp_call_bind_of trivial fun n received hreceived ↦ ?_
  replace hreceived : received = s₁.queue.head? := hreceived
  obtain ⟨shown, queue⟩ := s₁
  cases queue with
  | nil =>
    subst hreceived
    exact ⟨rfl, (List.append_nil shown).symm.trans hs₁⟩
  | cons value rest =>
    subst hreceived
    refine displayMonitor.wp_bind_of (display_forwardProgress ctx requestIndex value) ?_
    rintro - _ rfl
    show (shown ++ [value]) ++ rest = _
    rw [List.append_assoc]
    exact hs₁

/-! ### The driver -/

/-- What runs while the driver waits shows what is on its way. -/
def ShowsAll (awaiter : Action Unit) : Prop :=
  ∀ s, displayMonitor.wp awaiter (.ofReturned fun _ ↦ Drained (s.shown ++ s.queue)) s

/-- Nothing was shown of the current request. -/
abbrev Blank : Display → Prop := Drained []

/-- The response was shown as it is, and nothing else is on its way. -/
def ShownAs (response : ModelResponse) (s : Display) : Prop :=
  s.queue = [] ∧ ∀ ch : Channel, response.parts.filterMap ch.content? = shownParts s.shown ch

/-- A failed attempt that saw no event has shown nothing; a response was shown as it is. -/
def AfterShowing : Except AttemptFailure ModelResponse → Display → Prop
  | .ok response, s => ShownAs response s
  | .error failure, s => failure.observedEvent = false → Blank s

/-- What was shown is what the assembler took in. -/
def Assembling [SerdeJson] (tools : List ToolSpec) (limits : LoopLimits) (a : Assembler)
    (s : Display) : Prop :=
  ∃ events, Reflects tools limits events a ∧ Admitted tools limits events ∧ s.queue = [] ∧
    (a.observedEvent = false → s.shown = []) ∧
    ∀ ch : Channel, normalizeModelText (ch.raw events) =
      (ch.deltas s.shown).flatMap BoundedText.asStr

/-! ### Waiting -/

variable {awaiter : Action Unit}

/-- A wait in which nothing is on its way shows nothing. -/
theorem ShowsAll.blank (hawait : ShowsAll awaiter) (hs : Blank s) :
    displayMonitor.wp awaiter (.ofReturned fun _ ↦ Blank) s := by
  obtain ⟨hqueue, hshown⟩ := hs
  refine displayMonitor.wp_mono_returned (hawait s) fun _ s' hs' ↦ ?_
  rwa [hqueue, hshown] at hs'

/-- The start of the stream shows nothing. -/
theorem display_pollStartCall (hawait : ShowsAll awaiter) (deadline : EffectiveDeadline)
    (hs : Blank s) :
    displayMonitor.wp (ModelDriver.pollStartCall awaiter deadline)
      (.ofReturned fun _ ↦ Blank) s := by
  refine displayMonitor.wp_silent_call (display_silent rfl) fun polled ↦ ?_
  rcases polled with - | - | (error | ready) | - | -
  · exact hs
  · exact hs
  · exact hs
  · exact hs
  · exact hs
  · exact displayMonitor.wp_bind_of (hawait.blank hs) fun _ _ hs' ↦ hs'

/-- An attempt is retried only if it saw no event. -/
theorem display_evaluateRetry (policy : RetryPolicySnapshot) (attempt : Nat)
    (failure : AttemptFailure) (deadline : Nat) :
    displayMonitor.wp (policy.evaluateRetry attempt failure deadline)
      (.ofReturned fun delay s' ↦ s' = s ∧ (delay.isSome = true → failure.observedEvent = false))
      s := by
  unfold RetryPolicySnapshot.evaluateRetry
  split
  · exact ⟨rfl, nofun⟩
  · rename_i hretried
    have hobserved : failure.observedEvent = false := by
      simp only [Bool.or_eq_true, not_or, Bool.not_eq_true] at hretried
      exact hretried.1.2
    split
    · exact ⟨rfl, fun _ ↦ hobserved⟩
    · split
      · exact ⟨rfl, fun _ ↦ hobserved⟩
      · refine displayMonitor.wp_silent_call (o := .now) (display_silent rfl) fun now ↦ ?_
        dsimp only [Prog.pure_eq]
        split
        · exact ⟨rfl, fun _ ↦ hobserved⟩
        · exact ⟨rfl, fun _ ↦ hobserved⟩

/-- Waiting for a retry shows nothing. -/
theorem display_waitForRetry (hawait : ShowsAll awaiter) (deadline : EffectiveDeadline)
    (delay : Nat)
    (error : ModelError) (hs : Blank s) :
    displayMonitor.wp (waitForRetry awaiter deadline delay error)
      (.ofReturned fun _ ↦ Blank) s := by
  refine displayMonitor.wp_silent_call (display_silent rfl) fun now ↦ ?_
  cases checkedAdd now delay with
  | none => trivial
  | some retryAt =>
    refine displayMonitor.wp_iterate (fun _ ↦ Blank) hs fun _ s' hs' ↦ ?_
    refine displayMonitor.wp_silent_call (display_silent rfl) fun polled ↦ ?_
    rcases polled with - | - | ready | - | -
    · exact hs'
    · exact hs'
    · exact hs'
    · exact displayMonitor.wp_bind_of (hawait.blank hs') fun _ _ hs'' ↦ hs''
    · exact displayMonitor.wp_bind_of (hawait.blank hs') fun _ _ hs'' ↦ hs''

theorem display_precheck (deadline : EffectiveDeadline) :
    displayMonitor.wp (precheck deadline) (.ofReturned fun _ s' ↦ s' = s) s := by
  refine displayMonitor.wp_silent_call (display_silent rfl) fun cancelled ↦ ?_
  split
  · rfl
  · refine displayMonitor.wp_silent_call (display_silent rfl) fun now ↦ ?_
    split
    · rfl
    · rfl

/-! ### The stream -/

variable [SerdeJson] {tools : List ToolSpec} {limits : LoopLimits}

theorem assembling_new (hs : Blank s) : Assembling tools limits (.new tools limits) s := by
  obtain ⟨hqueue, hshown⟩ := hs
  refine ⟨[], reflects_new tools limits, ?_, hqueue, fun _ ↦ hshown, fun ch ↦ ?_⟩
  · exact fun past e rest hsplit ↦ absurd hsplit (by simp)
  · rw [hshown]
    cases ch <;> rfl

/-- Nothing is on its way between two events. -/
theorem Assembling.queue {a : Assembler} (hs : Assembling tools limits a s) : s.queue = [] := by
  obtain ⟨-, -, -, hqueue, -, -⟩ := hs
  exact hqueue

/-- What is shown of an event is what the assembler adds to the texts. -/
theorem Assembling.push (hcaps : limits.Caps) {a a' : Assembler} {event : ModelEvent}
    {progress : Option ModelDriverProgress} (hs : Assembling tools limits a s)
    (hpush : Assembler.push { a with observedEvent := true } event = .ok (progress, a')) :
    Assembling tools limits a' ⟨s.shown ++ progress.toList, []⟩ := by
  obtain ⟨events, hreflects, hadmitted, hqueue, -, htext⟩ := hs
  have hobserved := hreflects.observed
  refine ⟨events ++ [event], push_reflects hcaps hobserved hpush, ?_, rfl, fun h ↦ ?_, fun ch ↦ ?_⟩
  · exact admitted_snoc.mpr ⟨hadmitted, admits_of_push hcaps hobserved hpush⟩
  · rw [(Assembler.push_frame hpush).2.2.1] at h
    exact absurd h (by simp)
  · rw [(push_offered hcaps hobserved hpush ch).1, htext ch, Channel.deltas, Channel.deltas,
      Channel.deltas, List.filterMap_append, List.flatMap_append]

/-- The response at the end of the stream was shown as it is. -/
theorem Assembling.finish (hcaps : limits.Caps) {a : Assembler} {response : ModelResponse}
    (hs : Assembling tools limits a s) (hfinish : a.finish = some (.ok response)) :
    ShownAs response s := by
  obtain ⟨events, hreflects, hadmitted, -, -, htext⟩ := id hs
  -- A response comes of a complete stream only.
  have hyields : Yields events response := by
    obtain ⟨hcomplete, hincomplete⟩ := finish_of_reflects hcaps hadmitted hreflects
    by_cases h : Complete events
    · obtain ⟨response', hresponse, hyields⟩ := hcomplete h
      rw [hfinish] at hresponse
      cases hresponse
      exact hyields
    · obtain ⟨err, herr⟩ := hincomplete h
      rw [hfinish] at herr
      cases herr
  refine ⟨hs.queue, fun ch ↦ ?_⟩
  -- A channel without text has no part, and one with text has one part that is its text.
  obtain ⟨hnone, hsome⟩ := filter_owns_response hyields ch
  rw [filterMap_content, shownParts, ← htext ch]
  split
  · rename_i hempty
    rw [hnone hempty]
    rfl
  · rename_i hne
    obtain ⟨part, hparts, hpart⟩ := hsome hne
    rw [hparts, List.filterMap_cons, hpart.content]
    rfl

/-- A round of reading the stream. -/
theorem display_pollEvent (hcaps : limits.Caps) (hawait : ShowsAll awaiter)
    (deadline : EffectiveDeadline) {a : Assembler} (hs : Assembling tools limits a s) :
    displayMonitor.wp (ModelDriver.pollEvent awaiter deadline a)
      (.ofReturned fun x s' ↦ x.elim (fun a' ↦ Assembling tools limits a' s')
        fun result ↦ AfterShowing result s') s := by
  have hqueue : s.queue = [] := hs.queue
  have hfailed : ∀ failure : AttemptFailure, failure.observedEvent = a.observedEvent →
      AfterShowing (.error failure) s := by
    obtain ⟨-, -, -, -, hshown, -⟩ := hs
    intro failure heq hobserved
    rw [heq] at hobserved
    exact ⟨hqueue, hshown hobserved⟩
  refine displayMonitor.wp_silent_call (display_silent rfl) fun polled ↦ ?_
  rcases polled with - | - | (- | (error | event)) | - | -
  · exact hfailed _ rfl
  · exact hfailed _ rfl
  · dsimp only
    split
    · trivial
    · rename_i response hfinish
      exact hs.finish hcaps hfinish
    · exact hfailed _ rfl
  · exact hfailed (.new (normalizeAfterEvent error a.observedEvent) a.observedEvent) rfl
  · dsimp only
    split
    · exact fun hobserved ↦ absurd hobserved (by simp [AttemptFailure.new])
    · rename_i a' hpush
      have hnext := hs.push hcaps hpush
      rw [Option.toList_none, List.append_nil, ← hqueue] at hnext
      exact hnext
    · rename_i progress a' hpush
      -- The delta is the only one on its way when the awaiter runs.
      refine displayMonitor.wp_call_bind_of trivial fun n _ _ ↦ ?_
      have hoffered : s.next (.offerProgress progress) = ⟨s.shown, [progress]⟩ := by
        simp [Display.next, hqueue, progressCapacity]
      show displayMonitor.wp _ _ (s.next (.offerProgress progress))
      rw [hoffered]
      refine displayMonitor.wp_bind_of (hawait _) ?_
      rintro - ⟨shown, queue⟩ ⟨rfl, rfl⟩
      exact hs.push hcaps hpush
  · exact hfailed _ rfl
  · refine displayMonitor.wp_bind_of (hawait s) ?_
    rintro - ⟨shown, queue⟩ ⟨rfl, rfl⟩
    rw [hqueue, List.append_nil, ← hqueue]
    exact hs

/-- An attempt shows its response, or has seen an event, or has shown nothing. -/
theorem display_runAttempt {driver : ModelDriver} (hcaps : driver.limits.Caps)
    (hawait : ShowsAll awaiter) (request : ModelRequest) (context : ModelCallContext)
    (deadline : EffectiveDeadline) (hs : Blank s) :
    displayMonitor.wp (driver.runAttempt awaiter request context deadline)
      (.ofReturned AfterShowing) s := by
  refine displayMonitor.wp_silent_call (display_silent rfl) fun started ↦ ?_
  split
  · have hstart : displayMonitor.wp
        (Prog.iterate (fun _ ↦ ModelDriver.pollStartCall awaiter deadline) ())
        (.ofReturned fun _ ↦ Blank) s :=
      displayMonitor.wp_iterate (fun _ ↦ Blank) hs fun _ s' hs' ↦
        displayMonitor.wp_mono_returned (display_pollStartCall hawait deadline hs')
          fun x _ hx ↦ by cases x <;> exact hx
    refine displayMonitor.wp_bind_of hstart fun stream s₁ hs₁ ↦ ?_
    refine displayMonitor.wp_bind_of (Q := AfterShowing) ?_ fun result s₂ hs₂ ↦ ?_
    · cases stream with
      | error failure => exact fun _ ↦ hs₁
      | ok u =>
        refine displayMonitor.wp_iterate (Assembling request.tools driver.limits)
          (assembling_new hs₁) fun a s' hs' ↦ ?_
        exact display_pollEvent hcaps hawait deadline hs'
    · exact displayMonitor.wp_silent_call (display_silent rfl) fun _ ↦ hs₂
  · exact fun _ ↦ hs

/-! ### Attempts -/

/-- A response that a request returns was shown as it is. -/
def AfterRequest (result : Except ModelDriverFailure ModelResponse) (s : Display) : Prop :=
  ∀ response, result = .ok response → ShownAs response s

/-- A round of the attempts begins and ends with nothing shown, unless it returns a response. -/
theorem display_attemptRound {driver : ModelDriver} (hcaps : driver.limits.Caps)
    (hawait : ShowsAll awaiter) (request : ModelRequest) (context : ModelCallContext)
    (deadline : EffectiveDeadline) (attempt : Nat) (hs : Blank s) :
    displayMonitor.wp (driver.attemptRound awaiter request context deadline attempt)
      (.ofReturned fun x s' ↦ x.elim (fun _ ↦ Blank s') fun result ↦ AfterRequest result s') s := by
  have hfailed : ∀ (failure : ModelDriverFailure) (s' : Display),
      AfterRequest (.error failure) s' := fun _ _ _ h ↦ absurd h (by simp)
  refine displayMonitor.wp_bind_of (display_precheck deadline) ?_
  rintro checked _ rfl
  cases checked with
  | error failure => exact hfailed failure _
  | ok u =>
  refine displayMonitor.wp_bind_of (display_runAttempt hcaps hawait request context deadline hs) ?_
  intro result s₁ hs₁
  cases result with
  | ok response =>
    intro response' heq
    cases heq
    exact hs₁
  | error failure =>
  refine displayMonitor.wp_bind_of (display_evaluateRetry _ attempt failure deadline.instant) ?_
  rintro delay _ ⟨rfl, hobserved⟩
  cases delay with
  | none => exact hfailed _ _
  | some delay =>
  -- Only an attempt that saw no event is retried, and such an attempt has shown nothing.
  have hblank := hs₁ (hobserved rfl)
  refine displayMonitor.wp_bind_of
    (display_waitForRetry hawait deadline delay failure.error hblank) ?_
  intro waited s₂ hs₂
  cases waited with
  | error failure => exact hfailed failure _
  | ok u => exact hs₂

/-- A request of the driver. -/
theorem display_runDetailed (driver : ModelDriver) (hcaps : driver.limits.Caps)
    (hawait : ShowsAll awaiter) (request : ModelRequest) (context : ModelCallContext)
    (hs : Blank s) :
    displayMonitor.wp (driver.runDetailed awaiter request context)
      (.ofReturned AfterRequest) s := by
  have hfailed : ∀ (failure : ModelDriverFailure) (s' : Display),
      AfterRequest (.error failure) s' := fun _ _ _ h ↦ absurd h (by simp)
  refine displayMonitor.wp_silent_call (display_silent rfl) fun found ↦ ?_
  cases found with
  | none => exact hfailed _ _
  | some deadline =>
  refine displayMonitor.wp_bind_of (display_precheck deadline) ?_
  rintro checked _ rfl
  cases checked with
  | error failure => exact hfailed failure _
  | ok u =>
  cases driver.validateRequest request with
  | error error => exact hfailed _ _
  | ok u =>
    refine displayMonitor.wp_iterate (fun _ ↦ Blank) hs fun attempt s' hs' ↦ ?_
    exact display_attemptRound hcaps hawait request context deadline attempt hs'

/-! ## Requests -/

/-- A response that the driver returns was shown as it is. -/
theorem display_runModel {ctx : LoopCtx} (hcaps : ctx.options.limits.Caps) (requestIndex : Nat)
    (snapshot : ExecutionConfig) (request : ModelRequest) (deadline : Nat) (hs : s.shown = []) :
    displayMonitor.wp (runModel ctx requestIndex snapshot request deadline)
      (.ofReturned AfterRequest) s := by
  have hawait : ShowsAll (drainProgress ctx requestIndex) := display_drainProgress ctx requestIndex
  refine displayMonitor.wp_call_bind_of trivial fun n _ _ ↦ ?_
  have hblank : Blank (s.next .openModelProgress) := ⟨rfl, hs⟩
  refine displayMonitor.wp_bind_of
    (display_runDetailed (modelDriver ctx snapshot) hcaps hawait request _ hblank) ?_
  intro result s₁ hs₁
  refine displayMonitor.wp_silent_call (display_silent rfl) fun dropped ↦ ?_
  refine displayMonitor.wp_silent_call (display_silent rfl) fun _ ↦ ?_
  refine displayMonitor.wp_bind_of (hawait s₁) ?_
  rintro - s₂ ⟨hqueue, hshown⟩ response hresponse
  obtain ⟨hempty, hrecorded⟩ := hs₁ response hresponse
  rw [hempty, List.append_nil] at hshown
  refine ⟨hqueue, fun ch ↦ ?_⟩
  rw [hshown]
  exact hrecorded ch

/-! ### Rounds -/

omit [SerdeJson] in
/-- No operation but that of a response records one. -/
theorem Op.records_of {o : Op} (h : o.serves = true ∨ o.finishes = true) : o.records = false := by
  cases o with
  | append item =>
    cases item with
    | assistant item =>
      exact absurd h (by simp [Op.serves, Op.plain, Op.calls, Op.asks, Op.finishes])
    | _ => rfl
  | _ => rfl

/-- Prompts and tool calls are allowed in any state. -/
theorem display_walk (ctx : LoopCtx) :
    Traversal displayMonitor ctx (fun _ ↦ True) fun _ _ ↦ True :=
  .ofServing fun _ ho ↦ (display_free (Op.records_of (.inl ho))).stable

omit [SerdeJson] in
/-- A published state shows nothing. -/
theorem display_publish (state : LoopState) {f : Unit → Action α} {R : α → Display → Prop}
    (hf : displayMonitor.wp (f ()) (.ofReturned R) s) :
    displayMonitor.wp ((publish state).bind f) (.ofReturned R) s :=
  wp_silent_publish (display_silent rfl) (display_silent rfl) hf

theorem display_runCalls (ctx : LoopCtx) (snapshot : ExecutionConfig) (locals : Locals)
    (calls : List ToolCall) :
    displayMonitor.wp (runCalls ctx snapshot locals calls) (.ofReturned fun _ _ ↦ True) s := by
  have hwalk := display_walk ctx
  unfold runCalls
  split
  · exact displayMonitor.wp_bind_of (Traversal.settleCalls hwalk.result _ _ _ calls trivial)
      fun _ _ _ ↦ trivial
  · apply display_publish
    refine displayMonitor.wp_bind_of (hwalk.runToolBatch _ snapshot calls trivial) ?_
    intro path s' _
    cases path <;> trivial

/-- A response that was shown as it is may enter the history. -/
theorem display_handleResponse (ctx : LoopCtx) (snapshot : ExecutionConfig) (locals : Locals)
    {response : ModelResponse} (hs : ShownAs response s) :
    displayMonitor.wp (handleResponse ctx snapshot locals response)
      (.ofReturned fun _ _ ↦ True) s := by
  unfold handleResponse
  split
  · trivial
  dsimp only
  split
  · split
    · trivial
    · refine displayMonitor.wp_call_bind_of hs.2 fun _ _ _ ↦ ?_
      split
      · exact displayMonitor.wp_silent_call (display_silent rfl) fun _ ↦ trivial
      · trivial
  · exact displayMonitor.wp_call_bind_of hs.2 fun _ _ _ ↦ display_runCalls ctx snapshot _ _

/-- Nothing is shown of a request that was just started. -/
theorem display_issueRequest {ctx : LoopCtx} (hcaps : ctx.options.limits.Caps)
    (snapshot : ExecutionConfig) (locals : Locals) (request : ModelRequest) :
    displayMonitor.wp (issueRequest ctx snapshot locals request)
      (.ofReturned fun _ _ ↦ True) s := by
  refine displayMonitor.wp_silent_call (display_silent rfl) fun _ ↦ ?_
  refine displayMonitor.wp_call_bind_of trivial fun _ _ _ ↦ display_publish _ ?_
  refine displayMonitor.wp_bind_of (Q := fun _ s' ↦ s'.shown = []) ?_ fun deadline s₁ hs₁ ↦ ?_
  · cases ctx.options.deadline with
    | some deadline => rfl
    | none =>
      refine displayMonitor.wp_silent_call (display_silent rfl) fun now ↦ ?_
      split
      · rfl
      · trivial
  refine displayMonitor.wp_bind_of (display_runModel hcaps _ snapshot request deadline hs₁) ?_
  intro result s₂ hs₂
  cases result with
  | error failure =>
    have hplain : ∀ o : Op, o.plain = true → o.records = false :=
      fun _ ho ↦ Op.records_of (.inl (Op.serves_of (.inl ho)))
    refine displayMonitor.wp_of_free (fun _ ↦ display_free) ?_ s₂
    exact Prog.uses_bind (uses_mapModelFailure hplain failure) fun _ ↦ trivial
  | ok response => exact display_handleResponse ctx snapshot _ (hs₂ response rfl)

theorem display_takeBoundary (ctx : LoopCtx) (pinned : Bool) (config : ExecutionConfig)
    (candidate : Option Nat) :
    displayMonitor.wp (takeBoundary ctx pinned config candidate) (.ofReturned fun _ _ ↦ True) s :=
  Traversal.takeBoundary (display_walk ctx).plain (display_free rfl).stable
    (display_free rfl).stable (fun _ ↦ (display_free rfl).stable) pinned config candidate trivial

theorem display_prepareRequest {ctx : LoopCtx} (hcaps : ctx.options.limits.Caps)
    (locals : Locals) :
    displayMonitor.wp (prepareRequest ctx locals) (.ofReturned fun _ _ ↦ True) s := by
  have hwalk := display_walk ctx
  apply display_publish
  refine displayMonitor.wp_silent_call (display_silent rfl) fun view ↦ ?_
  refine hwalk.turnDeadline_bind trivial fun deadline s₁ hdeadline _ ↦ ?_
  refine displayMonitor.wp_bind_of (hwalk.preparePrompt _ locals.config view hdeadline trivial) ?_
  intro prep s₂ _
  cases prep with
  | stop path => trivial
  | ready messages =>
    refine displayMonitor.wp_bind_of (display_takeBoundary ctx true _ _) fun boundary s₃ _ ↦ ?_
    dsimp only
    split
    · exact displayMonitor.wp_silent_call (display_silent rfl) fun _ ↦ trivial
    · split
      · trivial
      · exact display_issueRequest hcaps _ _ _

/-- A round of the loop of requests, from any state. -/
theorem display_requestRound {ctx : LoopCtx} (hcaps : ctx.options.limits.Caps) (locals : Locals) :
    displayMonitor.wp (requestRound ctx locals) (.ofReturned fun _ _ ↦ True) s := by
  refine displayMonitor.wp_silent_call (display_silent rfl) fun cancelled ↦ ?_
  split
  · trivial
  · refine displayMonitor.wp_bind_of ((display_walk ctx).past _ trivial) fun past s₁ _ ↦ ?_
    split
    · trivial
    · exact displayMonitor.wp_bind_of (display_takeBoundary ctx false _ _) fun boundary s₂ _ ↦
        display_prepareRequest hcaps _

/-- Whatever the task does, a response enters the history as it was shown. -/
theorem display_runLoop {ctx : LoopCtx} (hcaps : ctx.options.limits.Caps) (request : LoopRequest) :
    displayMonitor.wp (runLoop ctx request) (.ofReturned fun _ _ ↦ True) s := by
  have hplain : ∀ o : Op, o.plain = true → o.records = false :=
    fun _ ho ↦ Op.records_of (.inl (Op.serves_of (.inl ho)))
  have hfinishes : ∀ o : Op, o.finishes = true → o.unasked = true → o.records = false :=
    fun _ ho _ ↦ Op.records_of (.inr ho)
  have hinner : displayMonitor.wp (runLoopInner ctx request) (.ofReturned fun _ _ ↦ True) s := by
    refine displayMonitor.wp_silent_call (display_silent rfl) fun _ ↦ ?_
    refine displayMonitor.wp_silent_call (display_silent rfl) fun _ ↦ ?_
    refine displayMonitor.wp_bind_of (Q := fun _ _ ↦ True) ?_ fun ending s' _ ↦ ?_
    · refine displayMonitor.wp_iterate (fun _ _ ↦ True) trivial fun locals s' _ ↦ ?_
      exact displayMonitor.wp_mono_returned (display_requestRound hcaps locals) fun x _ _ ↦ by
        cases x <;> trivial
    · refine displayMonitor.wp_of_free (fun _ ↦ display_free)
        (Prog.uses_bind (Traversal.uses_finishLoop hplain hfinishes ending) fun report ↦ ?_) _
      exact Prog.uses_bind (uses_dropConfig hplain ending.discardedConfig) fun _ ↦
        uses_plain hplain rfl fun _ ↦ trivial
  show displayMonitor.wp (runLoopInner ctx request)
    ⟨fun _ _ ↦ True, fun s' ↦ displayMonitor.wp (panicReport ctx.id)
      (.ofReturned fun _ _ ↦ True) s'⟩ s
  refine displayMonitor.wp_mono hinner (fun _ _ _ ↦ trivial) fun s' _ ↦ ?_
  -- The runner may unwind wherever it is; its report records no response.
  exact displayMonitor.wp_of_free (fun _ ↦ display_free)
    (Traversal.uses_panicReport hplain hfinishes ctx.id) _

end

/-! ## Runs -/

/-- The progress emitted since the last request was started, oldest first. -/
def shownSince : List Record → List ModelDriverProgress
  | [] => []
  | .host _ :: older => shownSince older
  | .runner entry :: older =>
    match entry.op with
    | .tryEmit event =>
      if event.startsRequest then [] else shownSince older ++ event.progress?.toList
    | _ => shownSince older

/-- The log shows what its trace describes. -/
theorem shownSince_eq (log : List Record) :
    shownSince log = Display.shown (displayMonitor.run (traceOf log)) := by
  induction log with
  | nil => rfl
  | cons e older ih =>
    cases e with
    | host event => exact ih
    | runner entry =>
      obtain ⟨o, n, r⟩ := entry
      show _ = Display.shown (Display.next (displayMonitor.run (traceOf older)) o)
      rw [shownSince]
      obtain ⟨s, hs⟩ : ∃ s : Display, displayMonitor.run (traceOf older) = s := ⟨_, rfl⟩
      rw [hs] at ih ⊢
      -- Only an emitted event changes what is shown.
      cases o with
      | tryEmit event =>
        show (if event.startsRequest then [] else shownSince older ++ event.progress?.toList) =
          (Display.afterEvent s event).shown
        unfold Display.afterEvent
        rw [ih, apply_ite Display.shown]
      | offerProgress progress =>
        unfold Display.next
        dsimp only
        rw [apply_ite Display.shown, ite_self]
        exact ih
      | _ => exact ih

/-- Responses are recorded as they were shown: in every run of the task under options that were
accepted, whatever the model streams and the host does, the text and the reasoning of a response
that enters the history are what was emitted to the event sink since its request was started, delta
by delta. A channel of which nothing was emitted has no part. -/
theorem shown_is_recorded [SerdeJson] (setup : Setup) (validatedAt : Nat)
    (hoptions : setup.ctx.options.validate validatedAt = true) (clock : Nat) (schedule : List Turn)
    (newer older : List Record) (item : AssistantHistory) (n : Nat)
    (hlog : (setup.task clock schedule).2.log =
      newer ++ .runner ⟨.append (.assistant item), n, ()⟩ :: older) (ch : Channel) :
    item.content.filterMap ch.content? = shownParts (shownSince older) ch := by
  have hcaps : setup.ctx.options.limits.Caps :=
    LoopLimits.caps_of_validate (LoopOptions.limits_of_validate hoptions)
  have hsound := displayMonitor.exec_sound machine displays_honours
    (runLoop setup.ctx setup.request)
    (w := .start setup.ctx.id setup.ctx.options setup.request.history clock schedule)
    rfl trivial (display_runLoop hcaps setup.request)
  have haccepts : displayMonitor.Accepts (traceOf (setup.task clock schedule).2.log) := hsound.2.1
  rw [hlog, traceOf_append] at haccepts
  have hpermits := (Monitor.Accepts.of_split displayMonitor haccepts).2.1
  rw [shownSince_eq]
  exact hpermits ch

namespace Sample

/-- The prompt is prepared, and the model streams one delta and stops. -/
def deltaTurns : List (Nat × Turn) :=
  [(13, { reply := .port .prompt (.ok [.user "hi".toList]) }),
    (29, { reply := .start (.ok ()) }),
    (30, streams (.textDelta ⟨"sure".toList, by decide⟩)),
    (37, streams (.finish .stop)),
    (38, { reply := .stream none })]

/-- A schedule of a response in two deltas. -/
def deltaSchedule : List Turn := (List.range 80).map fun i ↦ (deltaTurns.lookup i).getD {}

/-- Whether a record is of a response with the text of the delta. -/
def answersSure : Record → Bool
  | .host _ => false
  | .runner entry =>
    match entry.op with
    | .append (.assistant item) =>
      decide (item.content.filterMap Channel.text.content? = [some "sure".toList])
    | _ => false

theorem answersSure_eq_true {e : Record} (h : answersSure e = true) : ∃ item n,
    e = .runner ⟨.append (.assistant item), n, ()⟩ ∧
      item.content.filterMap Channel.text.content? = [some "sure".toList] := by
  cases e with
  | host event => exact absurd h (by simp [answersSure])
  | runner entry =>
    obtain ⟨o, n, r⟩ := entry
    cases o with
    | append item =>
      cases item with
      | assistant item => exact ⟨item, n, rfl, of_decide_eq_true h⟩
      | _ => exact absurd h (by simp [answersSure])
    | _ => exact absurd h (by simp [answersSure])

end Sample

/-- The delta of the sample is its response. -/
theorem shown_is_recorded_sample : ∃ newer item n older,
    (Sample.setup.task 0 Sample.deltaSchedule).2.log =
      newer ++ .runner ⟨.append (.assistant item), n, ()⟩ :: older ∧
    shownParts (shownSince older) .text = [some "sure".toList] := by
  have hany : (Sample.setup.task 0 Sample.deltaSchedule).2.log.any Sample.answersSure = true := by
    decide +kernel
  obtain ⟨e, he, hanswers⟩ := List.any_eq_true.mp hany
  obtain ⟨newer, older, hlog⟩ := List.append_of_mem he
  obtain ⟨item, n, rfl, htext⟩ := Sample.answersSure_eq_true hanswers
  refine ⟨newer, item, n, older, hlog, ?_⟩
  exact (shown_is_recorded Sample.setup 0 (by decide) 0 Sample.deltaSchedule newer older item n hlog
    .text).symm.trans htext

end MinicoreRuntime
