import MinicoreRuntime.AgentLoop.Completion
import MinicoreRuntime.AgentLoop.Updates

/-!
# The ledger of a loop

What hosts reconcile a loop with: the requests that were started, the states that were published,
and the batches of tool calls that were entered. The ledger keeps them over the trace of a runner,
with the rules under which a runner adds to it, and with what a report has to say about it.

States and requests are listed newest first.

## Main definitions

* `publishedStates`, `startedRequests`, `batchesEntered`: what a log says.
* `LoopStatus.Follows`: the statuses that may follow a status.
* `Ledger`, `Ledger.Permits`, `ledgerMonitor`: the ledger and its rules.
* `Ledger.Balanced`: what a report says about it.

## Main results

* `ledger_honours`: the machine answers what the rules rely on.
* `ledger_eq`: the ledger of a trace is what its log says.
-/

namespace MinicoreRuntime

open Interactive

/-! ## What a log says -/

/-- A request that was started, as its event says. -/
structure StartedRequest where
  index : Nat
  revision : Nat
deriving DecidableEq

/-- The state a record publishes. -/
def Record.published? : Record → Option LoopState
  | .runner entry =>
    match entry.op with
    | .publishState state => some state
    | _ => none
  | .host _ => none

/-- The request a record announces. -/
def Record.started? : Record → Option StartedRequest
  | .runner entry =>
    match entry.op with
    | .tryEmit (.requestStarted _ index revision _ _) => some ⟨index, revision⟩
    | _ => none
  | .host _ => none

/-- The states an observer may have seen: those published, and the one a loop is made with. -/
def publishedStates (id : LoopId) (log : List Record) : List LoopState :=
  log.filterMap Record.published? ++ [.new id .starting 0 ConfigRevision.initial]

/-- The requests started. -/
def startedRequests (log : List Record) : List StartedRequest := log.filterMap Record.started?

@[simp]
theorem publishedStates_cons (id : LoopId) (e : Record) (older : List Record) :
    publishedStates id (e :: older) = e.published?.toList ++ publishedStates id older := by
  unfold publishedStates
  cases h : e.published? <;> simp [h]

@[simp]
theorem startedRequests_cons (e : Record) (older : List Record) :
    startedRequests (e :: older) = e.started?.toList ++ startedRequests older := by
  unfold startedRequests
  cases h : e.started? <;> simp [h]

/-- The revision of the last of some requests, or the one a loop starts with. -/
def lastRevision (started : List StartedRequest) : Nat :=
  (started.head?.map StartedRequest.revision).getD ConfigRevision.initial

/-- The index of the last of some requests. -/
def lastIndex (started : List StartedRequest) : Nat :=
  (started.head?.map StartedRequest.index).getD 0

/-- A state opens a batch of tool calls if it comes right after the state of a request. -/
def opensBatch (newer older : LoopState) : Bool :=
  newer.status == .runningTools && older.status == .runningModel

/-- How many batches of tool calls some states show. -/
def batchesEntered : List LoopState → Nat
  | newer :: older :: rest =>
    batchesEntered (older :: rest) + if opensBatch newer older then 1 else 0
  | _ => 0

/-- The statuses that may follow a status. -/
def LoopStatus.Follows : LoopStatus → LoopStatus → Prop
  | .starting, next => next = .starting ∨ next = .runningModel ∨ next = .finishing
  | .runningModel, next => next = .runningTools ∨ next = .finishing
  | .runningTools, next => next = .waitingForInput ∨ next = .starting ∨ next = .finishing
  | .waitingForInput, next => next = .runningTools ∨ next = .finishing
  | .finishing, next => next = .finished
  | .finished, _ => False

/-! ## The ledger -/

/-- The ledger of a loop. -/
structure Ledger where
  /-- The state published last. -/
  state : LoopState
  /-- The states published before. -/
  earlier : List LoopState
  started : List StartedRequest
  /-- The revision committed last. -/
  revision : Nat
  /-- The revision of the configuration taken last. -/
  taken : Nat
  /-- How many responses with tool calls were appended. -/
  calling : Nat
  /-- What the seal found. -/
  finish : Option FinishSeal
  report : Option LoopReport

namespace Ledger

/-- The ledger of a loop that has not done anything. -/
def init (id : LoopId) : Ledger where
  state := .new id .starting 0 ConfigRevision.initial
  earlier := []
  started := []
  revision := ConfigRevision.initial
  taken := ConfigRevision.initial
  calling := 0
  finish := none
  report := none

/-- The number of requests, as far as it can be counted, which is the index of the next one. -/
def count (s : Ledger) : Nat := min s.started.length (2 ^ 32 - 1)

/-- The revision of the request started last. -/
def issued (s : Ledger) : Nat := lastRevision s.started

/-- How many batches of tool calls were entered. -/
def batches (s : Ledger) : Nat := batchesEntered (s.state :: s.earlier)

/-- The ledger once a state is published. -/
def withState (s : Ledger) (state : LoopState) : Ledger :=
  { s with state := state, earlier := s.state :: s.earlier }

/-- The ledger after an operation. -/
def next (s : Ledger) : (o : Op) → o.Answer → Ledger
  | .publishState state, _ => s.withState state
  | .commitRevision revision, _ => { s with revision := revision }
  | .tryEmit (.requestStarted _ index revision _ _), _ =>
    { s with started := ⟨index, revision⟩ :: s.started }
  | .append item, _ => { s with calling := s.calling + if item.hasCalls then 1 else 0 }
  | .takeConfig, some pending => { s with taken := pending.revision }
  | .sealState, finish => { s with finish := some finish }
  | .sendReport report, _ => { s with report := some report }
  | _, _ => s

/-- What a report with this outcome says about the seal and the limit of tool rounds. -/
def Explains (ctx : LoopCtx) (s : Ledger) (outcome : LoopOutcome) : Prop :=
  match s.finish with
  | some (.cancelledPrior source) => outcome = .cancelled source.reason
  | some .clean =>
    ctx.options.maxToolRounds ≠ 0 → s.batches < 2 ^ 64 →
      (outcome.summary = .failed .maxToolRounds ↔
        s.batches = ctx.options.maxToolRounds ∧ ctx.options.maxToolRounds < s.calling)
  | _ => False

/-- What a report says about the ledger. -/
structure Balanced (ctx : LoopCtx) (s : Ledger) (report : LoopReport) : Prop where
  status : s.state.status = .finished
  requests : report.requests = s.count
  toolRounds : report.toolRounds = min s.batches (2 ^ 64 - 1)
  revision : report.finalConfigRevision = s.issued
  calling : report.appended.countP HistoryItem.hasCalls = s.calling
  level : s.started.length = s.batches ∨ s.started.length = s.batches + 1
  limit : s.batches < 2 ^ 64 → ctx.options.maxToolRounds ≠ 0 →
    s.batches ≤ ctx.options.maxToolRounds
  outcome : s.Explains ctx report.outcome

/-- The rules for published states. -/
structure PermitsState (s : Ledger) (state : LoopState) : Prop where
  follows : s.state.status.Follows state.status
  pending : state.pendingInteraction.isSome ↔ state.status = .waitingForInput
  revision : state.configRevision = s.issued
  older : s.state.configRevision ≤ state.configRevision
  final : state.status = .finishing ∨ state.status = .finished →
    state.requestIndex = lastIndex s.started

/-- Operations that the ledger is about. -/
def books : Op → Bool
  | .publishState _ | .commitRevision _ | .tryEmit (.requestStarted _ _ _ _ _) | .append _
  | .takeConfig | .sealState | .sendReport _ => true
  | _ => false

/-- The rules for runners: nothing is added once a report was delivered. -/
structure Permits (ctx : LoopCtx) (s : Ledger) (o : Op) : Prop where
  running : books o = true → s.report = none
  published : ∀ state, o = .publishState state → s.PermitsState state
  started : ∀ id index revision model reasoning,
    o = .tryEmit (.requestStarted id index revision model reasoning) →
      index = s.count ∧ s.issued ≤ revision ∧ s.state.status = .starting
  delivered : ∀ report, o = .sendReport report → s.Balanced ctx report

/-- What the machine answers. -/
def Expects (s : Ledger) : (o : Op) → o.Answer → Prop
  | .currentState, state => state = s.state
  | .appliedRevision, revision => revision = s.revision
  | .takeConfig, pending => ∀ p, pending = some p → s.taken ≤ p.revision
  | .intoAppended, appended => appended.countP HistoryItem.hasCalls = s.calling
  | .publishedReport, report => report = s.report
  | _, _ => True

end Ledger

/-- The monitor of ledgers. -/
def ledgerMonitor (ctx : LoopCtx) : Monitor interface Nat where
  State := Ledger
  init := .init ctx.id
  allowed := Ledger.Permits ctx
  expects s o _ r := s.Expects o r
  next s o _ r := s.next o r

/-- The ledger that the trace of a world describes. -/
def World.ledger (ctx : LoopCtx) (w : World) : Ledger := (ledgerMonitor ctx).run w.trace

/-! ## The ledger of a log -/

namespace Ledger

/-- Only publishing a state adds to the states. -/
theorem next_states (s : Ledger) (o : Op) (n : Nat) (r : o.Answer) :
    (s.next o r).state :: (s.next o r).earlier =
      (Record.runner ⟨o, n, r⟩).published?.toList ++ s.state :: s.earlier := by
  cases o with
  | tryEmit event => cases event <;> rfl
  | takeConfig => cases r <;> rfl
  | _ => rfl

/-- Only announcing a request adds to the requests. -/
theorem next_started (s : Ledger) (o : Op) (n : Nat) (r : o.Answer) :
    (s.next o r).started = (Record.runner ⟨o, n, r⟩).started?.toList ++ s.started := by
  cases o with
  | tryEmit event => cases event <;> rfl
  | takeConfig => cases r <;> rfl
  | _ => rfl

end Ledger

/-- The ledger of a trace lists what its log does. -/
theorem ledger_eq (ctx : LoopCtx) (log : List Record) :
    let s : Ledger := (ledgerMonitor ctx).run (traceOf log)
    s.state :: s.earlier = publishedStates ctx.id log ∧ s.started = startedRequests log := by
  induction log with
  | nil => exact ⟨rfl, rfl⟩
  | cons e older ih =>
    cases e with
    | host event => exact ih
    | runner entry =>
      obtain ⟨o, n, r⟩ := entry
      obtain ⟨hstates, hstarted⟩ := ih
      rw [publishedStates_cons, startedRequests_cons]
      refine ⟨(Ledger.next_states _ o n r).trans ?_, (Ledger.next_started _ o n r).trans ?_⟩
      · exact congrArg ((Record.runner ⟨o, n, r⟩).published?.toList ++ ·) hstates
      · exact congrArg ((Record.runner ⟨o, n, r⟩).started?.toList ++ ·) hstarted

/-- What the seal found is an entry of the trace. -/
theorem ledger_finish {ctx : LoopCtx} {log : List Record} {finish : FinishSeal}
    (h : Ledger.finish ((ledgerMonitor ctx).run (traceOf log)) = some finish) :
    ∃ newer n older, log = newer ++ .runner ⟨.sealState, n, finish⟩ :: older := by
  induction log with
  | nil => exact absurd h (by simp [ledgerMonitor, traceOf, Ledger.init])
  | cons e older ih =>
    have hearlier : Ledger.finish ((ledgerMonitor ctx).run (traceOf older)) = some finish →
        ∃ newer n past, e :: older = newer ++ .runner ⟨.sealState, n, finish⟩ :: past := by
      intro h
      obtain ⟨newer, n, past, hsplit⟩ := ih h
      exact ⟨e :: newer, n, past, by rw [hsplit, List.cons_append]⟩
    -- Only the seal itself sets what the books hold of it.
    cases e with
    | host event => exact hearlier h
    | runner entry =>
      obtain ⟨o, n, r⟩ := entry
      cases o with
      | sealState =>
        obtain rfl : r = finish := Option.some.inj h
        exact ⟨[], n, older, rfl⟩
      | tryEmit event => cases event <;> exact hearlier h
      | takeConfig => cases r <;> exact hearlier h
      | _ => exact hearlier h

/-! ## The machine -/

namespace Ledger

/-- The world agrees with the ledger. -/
structure Agrees (s : Ledger) (w : World) : Prop where
  state : w.control.stateTx = s.state
  revision : w.control.inner.currentRevision = s.revision
  report : w.control.completion = s.report
  calling : w.working.appended.countP HistoryItem.hasCalls = s.calling
  /-- Revisions that are still to be taken are not before the one taken last. -/
  pending : ∀ p, w.control.inner.pendingConfig = some p →
    s.taken ≤ p.revision ∧ p.revision ≤ w.control.inner.nextRevision
  next : s.taken ≤ w.control.inner.nextRevision
  bound : w.control.inner.nextRevision ≤ 2 ^ 64 - 1

theorem Agrees.start (ctx : LoopCtx) (base : List HistoryItem) (clock : Nat)
    (schedule : List Turn) :
    (init ctx.id).Agrees (.start ctx.id ctx.options base clock schedule) where
  state := rfl
  revision := rfl
  report := rfl
  calling := rfl
  pending := by simp [World.start, LoopControl.new]
  next := ConfigRevision.le_next (show ConfigRevision.initial ≤ 2 ^ 64 - 1 by decide)
  bound := ConfigRevision.next_le _

namespace Agrees

variable {s : Ledger} {w w' : World}

/-- Other threads keep the ledger. -/
theorem hostEffect (h : s.Agrees w) (heffect : w.HostEffect w') : s.Agrees w' := by
  cases heffect with
  | updateAccepted i config hcall haccepting hstate =>
    have hle := ConfigRevision.le_next h.bound
    refine ⟨h.state, h.revision, h.report, h.calling, ?_, h.next.trans hle,
      ConfigRevision.next_le _⟩
    rintro p hp
    obtain rfl := Option.some.inj hp
    exact ⟨h.next, hle⟩
  | _ => exact ⟨h.state, h.revision, h.report, h.calling, h.pending, h.next, h.bound⟩

/-- What only touches what the ledger is not about. -/
theorem congr (h : s.Agrees w) (hstate : w'.control.stateTx = w.control.stateTx)
    (hreport : w'.control.completion = w.control.completion) (hworking : w'.working = w.working)
    (hinner : w'.control.inner.currentRevision = w.control.inner.currentRevision ∧
      w'.control.inner.pendingConfig = w.control.inner.pendingConfig ∧
      w'.control.inner.nextRevision = w.control.inner.nextRevision) : s.Agrees w' := by
  obtain ⟨hrevision, hpending, hnext⟩ := hinner
  constructor
  · rw [hstate, h.state]
  · rw [hrevision, h.revision]
  · rw [hreport, h.report]
  · rw [hworking, h.calling]
  · rw [hpending, hnext]
    exact h.pending
  · rw [hnext]
    exact h.next
  · rw [hnext]
    exact h.bound

/-- The end of accepting takes what is pending. -/
theorem closeAccepting (h : s.Agrees w)
    (hw : w'.control = w.control.closeAccepting.2) (hworking : w'.working = w.working) :
    s.Agrees w' := by
  refine ⟨?_, ?_, ?_, ?_, ?_, ?_, ?_⟩
  · rw [hw]
    exact h.state
  · rw [hw]
    exact h.revision
  · rw [hw]
    exact h.report
  · rw [hworking]
    exact h.calling
  · rw [hw]
    simp [LoopControl.closeAccepting]
  · rw [hw]
    exact h.next
  · rw [hw]
    exact h.bound

/-- An operation keeps the ledger. -/
theorem answered (h : s.Agrees w) {turn : Turn} {o : Op} {r : o.Answer}
    (hanswer : w.answer turn o = some r) : (s.next o r).Agrees (w.effect o) := by
  cases o with
  | publishState state => exact ⟨rfl, h.revision, h.report, h.calling, h.pending, h.next, h.bound⟩
  | commitRevision revision => exact ⟨h.state, rfl, h.report, h.calling, h.pending, h.next, h.bound⟩
  | sendReport report => exact ⟨h.state, h.revision, rfl, h.calling, h.pending, h.next, h.bound⟩
  | append item =>
    refine ⟨h.state, h.revision, h.report, ?_, h.pending, h.next, h.bound⟩
    show (w.working.append item).appended.countP HistoryItem.hasCalls = _
    rw [WorkingHistory.append_appended, List.countP_append, h.calling, List.countP_singleton]
    rfl
  -- A configuration that is taken leaves nothing pending, and its revision is used up.
  | takeConfig =>
    obtain rfl := Option.some.inj hanswer
    show (s.next .takeConfig w.control.inner.pendingConfig).Agrees _
    cases hpending : w.control.inner.pendingConfig with
    | none =>
      refine ⟨h.state, h.revision, h.report, h.calling, ?_, h.next, h.bound⟩
      simp [World.effect, LoopControl.takeConfig]
    | some p =>
      refine ⟨h.state, h.revision, h.report, h.calling, ?_, (h.pending p hpending).2, h.bound⟩
      simp [World.effect, LoopControl.takeConfig]
  | beginFinal => exact h.closeAccepting rfl rfl
  | closeAccepting => exact h.closeAccepting rfl rfl
  -- Sealing changes the atomic state only.
  | sealState =>
    obtain ⟨hstate, hreport⟩ := w.control.sealState_frame
    obtain ⟨-, hinner, -⟩ := w.control.sealState_spec
    have hagrees : s.Agrees (w.effect .sealState) :=
      h.congr hstate hreport rfl ⟨congrArg _ hinner, congrArg _ hinner, congrArg _ hinner⟩
    exact ⟨hagrees.state, hagrees.revision, hagrees.report, hagrees.calling, hagrees.pending,
      hagrees.next, hagrees.bound⟩
  | sealCancelled source =>
    obtain ⟨hstate, hreport⟩ := w.control.sealCancelled_frame source
    obtain ⟨-, hinner, -⟩ := w.control.sealCancelled_spec source
    exact h.congr hstate hreport rfl ⟨congrArg _ hinner, congrArg _ hinner, congrArg _ hinner⟩
  -- A question is no part of the books.
  | setInteraction slot =>
    obtain ⟨hstate, hreport⟩ := w.control.setInteraction_frame slot
    refine h.congr hstate hreport rfl ?_
    show (w.control.setInteraction slot).2.inner.currentRevision = _ ∧
      (w.control.setInteraction slot).2.inner.pendingConfig = _ ∧
      (w.control.setInteraction slot).2.inner.nextRevision = _
    rw [LoopControl.setInteraction]
    split <;> exact ⟨rfl, rfl, rfl⟩
  | tryEmit event =>
    have hagrees : s.Agrees (w.effect (.tryEmit event)) := h.congr rfl rfl rfl ⟨rfl, rfl, rfl⟩
    cases event with
    | requestStarted id index revision model reasoning =>
      exact ⟨h.state, h.revision, h.report, h.calling, h.pending, h.next, h.bound⟩
    | _ => exact hagrees
  | offerProgress progress =>
    refine h.congr ?_ ?_ ?_ ⟨?_, ?_, ?_⟩ <;>
      (unfold World.effect; dsimp only; split <;> rfl)
  | _ => exact h.congr rfl rfl rfl ⟨rfl, rfl, rfl⟩

end Agrees

end Ledger

/-- The world agrees with the ledger its trace describes. -/
theorem ledger_kept (ctx : LoopCtx) :
    World.Kept (fun _ _ ↦ True) (fun w ↦ (w.ledger ctx).Agrees w) where
  host w s h := by
    have hledger : (w.hostStep s).ledger ctx = w.ledger ctx := by
      rw [World.ledger, World.hostStep_trace, World.ledger]
    rw [hledger]
    exact h.hostEffect (w.hostEffect s)
  pass w schedule clock _ h := h.congr rfl rfl rfl ⟨rfl, rfl, rfl⟩
  answered w turn o r h _ hanswer := by
    have hnext : ((w.effect o).recordEntry ⟨o, w.clock, r⟩).ledger ctx =
        (w.ledger ctx).next o r := by
      rw [World.ledger, World.recordEntry_trace, World.effect_trace]
      rfl
    rw [hnext]
    exact (h.answered hanswer).congr rfl rfl rfl ⟨rfl, rfl, rfl⟩

/-- The machine answers what the rules rely on. -/
theorem ledger_honours (ctx : LoopCtx) :
    machine.Honours (ledgerMonitor ctx) (fun w ↦ (w.ledger ctx).Agrees w) := by
  have hkept : World.Kept (fun trace ↦ (ledgerMonitor ctx).allowed ((ledgerMonitor ctx).run trace))
      (fun w ↦ (w.ledger ctx).Agrees w) :=
    ⟨(ledger_kept ctx).host, (ledger_kept ctx).pass,
      fun w turn o r h _ ↦ (ledger_kept ctx).answered w turn o r h trivial⟩
  refine hkept.honours fun w turn o r h _ hanswer ↦ ?_
  show (w.ledger ctx).Expects o r
  -- The answers that the books predict.
  cases o with
  | currentState => exact (Option.some.inj hanswer).symm.trans h.state
  | appliedRevision => exact (Option.some.inj hanswer).symm.trans h.revision
  | publishedReport => exact (Option.some.inj hanswer).symm.trans h.report
  | intoAppended =>
    obtain rfl := Option.some.inj hanswer
    exact h.calling
  | takeConfig =>
    obtain rfl := Option.some.inj hanswer
    exact fun p hp ↦ (h.pending p hp).1
  | _ => trivial

end MinicoreRuntime
