import MinicoreRuntime.Runtime.Ops

/-!
# Worlds

The world a runner acts on, and everything that may happen in it: the steps other threads take on
the control plane between two operations of the runner, the passing of time, and the answers of the
host's ports. A world carries a schedule of all that is not determined by the code; every schedule
is possible.

The clock moves where the runner looks at it or waits. The runner reaches any other operation at
the instant of its last look at the clock.

## Main definitions

* `HostStep`, `World.hostStep`: the steps of other threads.
* `Reply`, `Turn`: what a schedule decides about one operation.
* `World.answer`, `World.effect`: the operations.
* `World.step`: one operation of a runner.
* `Record`: an entry of the log, which lists the newest record first.
-/

namespace MinicoreRuntime

open Interactive

/-! ## Schedules -/

/-- A step of a thread other than the runner's. A call that takes several steps is started by one
and continued by `resume`. -/
inductive HostStep where
  /-- `LoopControl::mark_cancel`, up to its compare-and-exchange. -/
  | cancel (source : CancelSource)
  /-- `LoopControl::update`, up to its critical section. -/
  | update (config : ExecutionConfig)
  /-- `LoopControl::answer` -/
  | answer (interactionId : InteractionId) (answer : InteractionAnswer)
  /-- The next step of a call under way. -/
  | resume (call : Nat)
  /-- `LoopEventStream::recv` -/
  | recvEvent
  /-- Drop the `LoopEventStream`. -/
  | dropEvents
  /-- `ToolProgressSink::emit`; a report that finds the channel full is not counted yet. -/
  | toolProgress (progress : ToolProgress)
  /-- A report that found the channel full is counted. -/
  | countProgress

/-- What the host answers to an operation of the runner. -/
inductive Reply where
  /-- No answer yet, or nothing to answer. -/
  | idle
  /-- The host's code unwinds. -/
  | unwinds
  /-- The adapter cancelled the token it was given. -/
  | selfCancels
  | inputs (inputs : List UserInput)
  | port (port : Port) (result : port.Result)
  | start (result : Except ModelError Unit)
  | stream (item : Option (Except ModelError ModelEvent))
  | interactionId (id : InteractionId)

/-- What is not determined by the code about one operation of the runner. -/
structure Turn where
  /-- The steps of other threads before the operation. -/
  host : List HostStep := []
  /-- How much time passes, where the operation looks at the clock or waits. -/
  elapsed : Nat := 0
  /-- How late a timer fires. -/
  lag : Nat := 0
  reply : Reply := .idle

/-! ## Worlds -/

/-- What other threads did. -/
inductive HostEvent where
  | casCancel (call : Nat) (source : CancelSource) (won : Bool)
  | cancelReturned (call : Nat) (source : CancelSource) (result : Bool)
  | updateReturned (config : ExecutionConfig) (result : Except UpdateError Nat)
  | answerReturned (interactionId : InteractionId) (answer : InteractionAnswer)
      (result : Except AnswerError Unit)

/-- An entry of the log: an operation of the runner with the instant and its answer, or a step of
another thread. -/
inductive Record where
  | runner (entry : Entry interface Nat)
  | host (event : HostEvent)

/-- The operation of the runner a record stands for. -/
def Record.entry? : Record → Option (Entry interface Nat)
  | .runner entry => some entry
  | .host _ => none

/-- The operations of the runner in a log. -/
def traceOf (log : List Record) : List (Entry interface Nat) := log.filterMap Record.entry?

theorem Record.eq_runner {record : Record} {e : Entry interface Nat} (h : record.entry? = some e) :
    record = .runner e := by
  cases record with
  | runner entry => exact congrArg Record.runner (Option.some.inj h)
  | host event => exact absurd h (by simp [Record.entry?])

theorem traceOf_append (newer older : List Record) :
    traceOf (newer ++ older) = traceOf newer ++ traceOf older :=
  List.filterMap_append

/-- Splitting the trace of a log splits the log. -/
theorem split_traceOf {log : List Record} {newer older : List (Entry interface Nat)}
    {e : Entry interface Nat} (h : traceOf log = newer ++ e :: older) :
    ∃ recent past, log = recent ++ .runner e :: past ∧ traceOf recent = newer ∧
      traceOf past = older := by
  obtain ⟨recent, rest, rfl, hrecent, hrest⟩ := List.filterMap_eq_append_iff.mp h
  obtain ⟨between, record, past, rfl, hbetween, hrecord, hpast⟩ :=
    List.filterMap_eq_cons_iff.mp hrest
  obtain rfl := Record.eq_runner hrecord
  refine ⟨recent ++ between, past, by simp, ?_, hpast⟩
  have hnone : traceOf between = [] := List.filterMap_eq_nil_iff.mpr hbetween
  rw [traceOf_append, hnone, List.append_nil]
  exact hrecent

/-- An operation in a log was allowed and expected by its past. -/
theorem accepts_at {M : Monitor interface Nat} {newer older : List Record}
    {e : Entry interface Nat} (h : M.Accepts (traceOf (newer ++ .runner e :: older))) :
    M.Accepts (traceOf older) ∧ M.allowed (M.run (traceOf older)) e.op ∧
      M.expects (M.run (traceOf older)) e.op e.note e.answer := by
  rw [traceOf_append] at h
  exact Monitor.Accepts.of_append M h

/-- What a test finds in a trace splits the log. -/
theorem split_of_any {log : List Record} {test : Entry interface Nat → Bool}
    (h : (traceOf log).any test = true) :
    ∃ newer e older, log = newer ++ .runner e :: older ∧ test e = true := by
  obtain ⟨e, he, htest⟩ := List.any_eq_true.mp h
  obtain ⟨newer, older, hsplit⟩ := List.append_of_mem he
  obtain ⟨recent, past, hlog, -, -⟩ := split_traceOf hsplit
  exact ⟨recent, e, past, hlog, htest⟩

/-- A call of another thread that is under way. -/
inductive HostCall where
  /-- A cancellation that won and has not cancelled the token yet. -/
  | cancelling (call : Nat) (source : CancelSource)
  /-- An update that was checked and has not entered its critical section yet. -/
  | updating (config : ExecutionConfig)

/-- The progress channel of a tool. -/
structure ToolChannel where
  callId : ToolCallId
  queue : List ToolProgress
  /-- The reports that found the channel full and are not counted yet. -/
  uncounted : Nat
  dropped : Nat

/-- The progress channel of a model call. -/
structure ModelChannel where
  queue : List ModelDriverProgress
  dropped : Nat

/-- The capacity of both progress channels. -/
def progressCapacity : Nat := 64

/-- A world. -/
structure World where
  control : LoopControl
  /-- The runner is inside the critical section that seals the loop. -/
  locked : Bool
  working : WorkingHistory
  events : LoopEvents
  clock : Nat
  calls : List HostCall
  /-- How many cancellations were asked for. -/
  cancels : Nat
  /-- The channels for answers; an entry is the answer sent. -/
  channels : List (Option InteractionAnswer)
  toolProgress : Option ToolChannel
  modelProgress : ModelChannel
  schedule : List Turn
  log : List Record

namespace World

/-- The world a loop starts in. -/
def start (id : LoopId) (options : LoopOptions) (base : List HistoryItem) (clock : Nat)
    (schedule : List Turn) : World where
  control := .new id options.limits
  locked := false
  working := .new base
  events := .channel options.eventCapacity
  clock := clock
  calls := []
  cancels := 0
  channels := []
  toolProgress := none
  modelProgress := ⟨[], 0⟩
  schedule := schedule
  log := []

/-- Log a step of another thread. -/
def record (w : World) (event : HostEvent) : World := { w with log := .host event :: w.log }

/-- Log an operation of the runner. -/
def recordEntry (w : World) (entry : Entry interface Nat) : World :=
  { w with log := .runner entry :: w.log }

/-- A step of another thread. Critical sections wait while the runner holds the mutex. -/
def hostStep (w : World) : HostStep → World
  | .cancel source =>
    let call := w.cancels
    -- The exchange and the cancelling of the token are steps of their own.
    let (won, control) := w.control.markCancel source
    let w := { w with control := control, cancels := call + 1 }.record (.casCancel call source won)
    if won then { w with calls := w.calls ++ [.cancelling call source] }
    else w.record (.cancelReturned call source false)
  | .update config =>
    -- The limits are checked outside the critical section, which looks at the state again.
    if !w.control.isActive then w.record (.updateReturned config (.error .notActive))
    else match config.validateAgainstLimits w.control.limits with
      | .error _ => w.record (.updateReturned config (.error .invalidConfig))
      | .ok () => { w with calls := w.calls ++ [.updating config] }
  | .answer id answer =>
    if w.locked then w
    else match w.control.answer id answer with
      | (.ok channel, control) =>
        { w with control := control, channels := w.channels.set channel (some answer) }.record
          (.answerReturned id answer (.ok ()))
      | (.error e, _) => w.record (.answerReturned id answer (.error e))
  | .resume i =>
    match w.calls[i]? with
    | none => w
    | some (.cancelling call source) =>
      { w with control := w.control.cancelToken, calls := w.calls.eraseIdx i }.record
        (.cancelReturned call source true)
    | some (.updating config) =>
      if w.locked then w
      else
        let (result, control) := w.control.update config
        { w with control := control, calls := w.calls.eraseIdx i }.record
          (.updateReturned config result)
  | .recvEvent => { w with events := { w.events with queue := w.events.queue.tail } }
  | .dropEvents => { w with events := { w.events with receiverDropped := true, queue := [] } }
  | .toolProgress progress =>
    if !progress.validate then w
    else match w.toolProgress with
      | none => w
      | some channel =>
        if channel.queue.length < progressCapacity then
          { w with toolProgress := some { channel with queue := channel.queue ++ [progress] } }
        -- The counter is raised after the report was refused, by a step of its own.
        else { w with toolProgress := some { channel with uncounted := channel.uncounted + 1 } }
  | .countProgress =>
    match w.toolProgress with
    | none => w
    | some channel =>
      if channel.uncounted = 0 then w
      else
        { w with
          toolProgress := some { channel with
            uncounted := channel.uncounted - 1
            dropped := channel.dropped + 1 } }

/-- The steps of other threads in order. -/
def hostSteps (w : World) (steps : List HostStep) : World :=
  steps.foldl hostStep w

end World

/-! ## The operations -/

/-- Whether an operation looks at the clock or waits. -/
def Op.waits : Op → Bool
  | .now | .effectiveDeadline _ _ | .pollPort _ _ | .pollStart _ | .pollStream _
  | .pollRetry _ _ | .pollInteraction _ _ => true
  | _ => false

namespace World

/-- One poll of the token, a timer and something else, in this order. -/
def select {α : Type} (w : World) (turn : Turn) (deadline : Option Nat) (other : Polled α) :
    Polled α :=
  -- The select is biased: what comes first wins where several are ready.
  if w.control.cancel then .cancelled
  else if deadline.any fun deadline ↦ decide (deadline + turn.lag ≤ w.clock) then .expired
  else other

/-- What polling the future of a port finds. -/
def portReply (turn : Turn) (port : Port) : Polled port.Result :=
  match turn.reply with
  | .port port' result => if h : port' = port then .ready (h ▸ result) else .pending
  | .unwinds => .panicked
  | _ => .pending

/-- What polling the future of a start finds. -/
def startReply (turn : Turn) : Polled (Except ModelError Unit) :=
  match turn.reply with
  | .start result => .ready result
  | .unwinds => .panicked
  | .selfCancels => .cancelled
  | _ => .pending

/-- What polling a stream finds. -/
def streamReply (turn : Turn) : Polled (Option (Except ModelError ModelEvent)) :=
  match turn.reply with
  | .stream item => .ready item
  | .unwinds => .panicked
  | .selfCancels => .cancelled
  | _ => .pending

/-- What polling a channel for an answer finds. Its sender lives in the pending interaction. -/
def channelReply (w : World) (channel : Nat) : Polled (Option InteractionAnswer) :=
  match w.channels[channel]? with
  | some (some answer) => .ready (some answer)
  | _ =>
    if w.control.inner.interaction.any fun slot ↦ slot.reply == channel then .pending
    else .ready none

/-- Whether the host's code unwinds. -/
def unwinds (turn : Turn) : Bool :=
  match turn.reply with
  | .unwinds => true
  | _ => false

/-- The answer to an operation, or `none` where the host's code unwinds. -/
def answer (turn : Turn) (w : World) : (o : Op) → Option o.Answer
  -- What the control plane answers.
  | .isCancelled => some w.control.cancel
  | .now => some w.clock
  | .effectiveDeadline turnDeadline portTimeout =>
    some (effectiveDeadlineFrom w.clock turnDeadline portTimeout)
  | .takeConfig => some w.control.takeConfig.1
  | .beginFinal | .closeAccepting => some w.control.closeAccepting.1
  | .appliedRevision => some w.control.appliedRevision
  | .cancelReason => some w.control.cancelReason
  | .sealState => some w.control.sealState.1
  | .currentState => some w.control.stateTx
  | .setInteraction slot => some (w.control.setInteraction slot).1
  | .publishedReport => some w.control.completion
  | .view => some w.working.view
  | .intoAppended => some w.working.appended
  -- Host code that returns, or unwinds in the runner.
  | .takeInputs =>
    match turn.reply with
    | .inputs inputs => some inputs
    | .unwinds => none
    | _ => some []
  | .dropConfig _ | .dropFuture | .dropStream => if unwinds turn then none else some ()
  -- Making the future is isolated: the runner only learns that it unwound.
  | .makeFuture _ => some (!unwinds turn)
  | @Op.pollPort port _ deadline => some (w.select turn (some deadline) (portReply turn port))
  | .recvToolProgress =>
    some (w.toolProgress.bind fun channel ↦
      channel.queue.head?.map fun progress ↦ (channel.callId, progress))
  | .takeToolDropped => some ((w.toolProgress.map ToolChannel.dropped).getD 0)
  | .startModel _ _ _ => some (!unwinds turn)
  | .pollStart deadline => some (w.select turn (some deadline) (startReply turn))
  | .pollStream deadline => some (w.select turn (some deadline) (streamReply turn))
  | .pollRetry deadline retryAt =>
    some (w.select turn (some deadline)
      (if retryAt + turn.lag ≤ w.clock then .ready () else .pending))
  | .recvModelProgress => some w.modelProgress.queue.head?
  | .takeModelDropped => some w.modelProgress.dropped
  | .newInteractionId =>
    match turn.reply with
    | .interactionId id => some (some id)
    | _ => some none
  | .oneshot => some w.channels.length
  | .pollInteraction channel deadline => some (w.select turn deadline (w.channelReply channel))
  | .commitRevision _ | .sealCancelled _ | .cancelToken | .publishState _ | .takeInteraction
  | .sendReport _ | .tryEmit _ | .recordDropped _ | .append _ | .openToolProgress _
  | .closeToolProgress | .openModelProgress | .offerProgress _ => some ()

/-- The effect of an operation. -/
def effect (w : World) : Op → World
  | .takeConfig => { w with control := w.control.takeConfig.2 }
  | .beginFinal => { w with control := w.control.closeAccepting.2 }
  | .commitRevision revision => { w with control := w.control.commitRevision revision }
  -- The mutex is held from the first exchange of the seal until accepting is closed.
  | .sealState => { w with control := w.control.sealState.2, locked := true }
  | .sealCancelled source => { w with control := w.control.sealCancelled source }
  | .closeAccepting => { w with control := w.control.closeAccepting.2, locked := false }
  | .cancelToken => { w with control := w.control.cancelToken }
  | .publishState state => { w with control := w.control.publishState state }
  | .setInteraction slot => { w with control := (w.control.setInteraction slot).2 }
  | .takeInteraction => { w with control := w.control.takeInteraction }
  | .sendReport report => { w with control := w.control.sendReport report }
  | .tryEmit event => { w with events := w.events.tryEmit event }
  | .recordDropped count => { w with events := w.events.recordDropped count }
  | .append item => { w with working := w.working.append item }
  | .openToolProgress callId => { w with toolProgress := some ⟨callId, [], 0, 0⟩ }
  | .recvToolProgress =>
    { w with toolProgress := w.toolProgress.map fun channel ↦
        { channel with queue := channel.queue.tail } }
  | .takeToolDropped =>
    { w with toolProgress := w.toolProgress.map fun channel ↦ { channel with dropped := 0 } }
  | .closeToolProgress => { w with toolProgress := none }
  | .openModelProgress => { w with modelProgress := ⟨[], 0⟩ }
  | .offerProgress progress =>
    if w.modelProgress.queue.length < progressCapacity then
      { w with modelProgress :=
          { w.modelProgress with queue := w.modelProgress.queue ++ [progress] } }
    else { w with modelProgress :=
          { w.modelProgress with dropped := w.modelProgress.dropped + 1 } }
  | .recvModelProgress =>
    { w with modelProgress := { w.modelProgress with queue := w.modelProgress.queue.tail } }
  | .takeModelDropped => { w with modelProgress := { w.modelProgress with dropped := 0 } }
  | .oneshot => { w with channels := w.channels ++ [none] }
  | _ => w

/-- The world after the steps of other threads and the time that come before an operation. -/
def advance (w : World) (turn : Turn) (rest : List Turn) (o : Op) : World :=
  let w := { w with schedule := rest }.hostSteps turn.host
  if o.waits then { w with clock := w.clock + turn.elapsed } else w

/-- Perform an operation; without a schedule the execution stalls. -/
def step (o : Op) (w : World) : Outcome o.Answer × World :=
  match w.schedule with
  | [] => (.stalled, w)
  | turn :: rest =>
    let w := w.advance turn rest o
    match w.answer turn o with
    -- An operation that unwinds takes effect all the same, and is not logged.
    | none => (.panicked, w.effect o)
    | some answer =>
      let w := w.effect o
      (.returned answer, w.recordEntry ⟨o, w.clock, answer⟩)

/-- The operations of the runner in the log. -/
def trace (w : World) : List (Entry interface Nat) := traceOf w.log

end World

end MinicoreRuntime
