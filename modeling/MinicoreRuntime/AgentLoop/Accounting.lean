import MinicoreRuntime.AgentLoop.Accounts
import MinicoreRuntime.Runtime.Cancellation

/-!
# Accounting and observation

What hosts may rely on when they reconcile a loop: the counters of its report, and the states that
it publishes, up to the one that an observer finds once it has the report.

## Main definitions

* `Ledger.Ordered`: what every ledger says.
* `concludingMonitor`: a report is delivered in the state that it concludes with.

## Main results

* `requests_accounted`: the counters of every report.
* `states_observed`: the states of every run, and what an observer of the report finds.
-/

namespace MinicoreRuntime

open Interactive

/-! ## Every ledger -/

/-- A state may follow another. -/
def LoopState.Succeeds (newer older : LoopState) : Prop :=
  older.status.Follows newer.status ∧ older.configRevision ≤ newer.configRevision

/-- The last two states carry the request that was issued last. -/
structure LoopState.Closes (state : LoopState) (started : List StartedRequest) : Prop where
  index : state.requestIndex = lastIndex started
  revision : state.configRevision = lastRevision started

namespace Ledger

/-- What every ledger says about its states and requests. -/
structure Ordered (s : Ledger) : Prop where
  states : (s.state :: s.earlier).IsChain LoopState.Succeeds
  numbered : s.started.length < 2 ^ 32 →
    s.started.reverse.map StartedRequest.index = List.range s.started.length
  finishing : s.state.status = .finishing → s.state.Closes s.started
  finished : s.state.status = .finished → s.state.Closes s.started ∧ ∃ finishing rest,
    s.earlier = finishing :: rest ∧ finishing.status = .finishing ∧ finishing.Closes s.started

/-- An operation that only announces nothing and publishes nothing. -/
theorem Ordered.congr {s s' : Ledger} (h : s.Ordered) (hstate : s'.state = s.state)
    (hearlier : s'.earlier = s.earlier) (hstarted : s'.started = s.started) : s'.Ordered := by
  constructor
  · rw [hstate, hearlier]
    exact h.states
  · rw [hstarted]
    exact h.numbered
  · rw [hstate, hstarted]
    exact h.finishing
  · rw [hstate, hearlier, hstarted]
    exact h.finished

/-- Publishing a state that the rules allow. -/
theorem Ordered.withState {s : Ledger} (h : s.Ordered) {state : LoopState}
    (hstate : s.PermitsState state) : (s.withState state).Ordered where
  states := .cons_cons ⟨hstate.follows, hstate.older⟩ h.states
  numbered := h.numbered
  finishing hstatus := ⟨hstate.final (.inl hstatus), hstate.revision⟩
  finished hstatus := by
    refine ⟨⟨hstate.final (.inr hstatus), hstate.revision⟩, s.state, s.earlier, rfl, ?_⟩
    -- Only the state before the last is followed by the last.
    have hbefore : s.state.status = .finishing := by
      have hfollows := hstate.follows
      replace hstatus : state.status = .finished := hstatus
      rw [hstatus] at hfollows
      cases hold : s.state.status <;> simp [LoopStatus.Follows, hold] at hfollows ⊢
    exact ⟨hbefore, h.finishing hbefore⟩

/-- Announcing the next request, while the loop starts one. -/
theorem Ordered.announce {s : Ledger} (h : s.Ordered) {index revision : Nat}
    (hindex : index = s.count) (hstatus : s.state.status = .starting) :
    ({ s with started := ⟨index, revision⟩ :: s.started } : Ledger).Ordered where
  states := h.states
  numbered hfew := by
    have hlength : s.started.length + 1 < 2 ^ 32 := hfew
    have hcount : s.count = s.started.length := by
      unfold count
      omega
    show (⟨index, revision⟩ :: s.started).reverse.map StartedRequest.index =
      List.range (s.started.length + 1)
    rw [List.reverse_cons, List.map_append, h.numbered (by omega), List.range_succ, hindex, hcount]
    rfl
  finishing hfinishing := absurd (hstatus.symm.trans hfinishing) (by simp)
  finished hfinished := absurd (hstatus.symm.trans hfinished) (by simp)

/-- What the rules allow keeps a ledger in order. -/
theorem ordered_of_accepts {ctx : LoopCtx} {trace : List (Entry interface Nat)}
    (h : (ledgerMonitor ctx).Accepts trace) :
    Ordered ((ledgerMonitor ctx).run trace) := by
  refine Monitor.Accepts.invariant (ledgerMonitor ctx) (J := fun s : Ledger ↦ s.Ordered) ?_ ?_ h
  · exact ⟨.singleton _, fun _ ↦ rfl, nofun, nofun⟩
  · intro s o n r hs hpermits _
    show (s.next o r).Ordered
    -- Only a published state and an announced request are about the order.
    cases o with
    | publishState state => exact hs.withState (hpermits.published state rfl)
    | tryEmit event =>
      cases event with
      | requestStarted id index revision model reasoning =>
        obtain ⟨hindex, -, hstatus⟩ := hpermits.started id index revision model reasoning rfl
        exact hs.announce hindex hstatus
      | _ => exact hs
    | takeConfig => cases r <;> exact hs.congr rfl rfl rfl
    | _ => exact hs.congr rfl rfl rfl

end Ledger

/-- Only the newest state of a chain is the last state of a loop. -/
theorem not_finished_of_chain {state : LoopState} {earlier : List LoopState}
    (h : (state :: earlier).IsChain LoopState.Succeeds) :
    ∀ older ∈ earlier, older.status ≠ .finished := by
  induction earlier generalizing state with
  | nil => simp
  | cons older earlier ih =>
    obtain ⟨⟨hfollows, -⟩, hrest⟩ := List.isChain_cons_cons.mp h
    refine List.forall_mem_cons.mpr ⟨fun hfinished ↦ ?_, ih hrest⟩
    rw [hfinished] at hfollows
    exact hfollows

/-- What every run establishes about its ledger. -/
theorem run_balanced [SerdeJson] (setup : Setup) (clock : Nat) (schedule : List Turn) :
    let run := setup.run clock schedule
    (ledgerMonitor setup.ctx).Accepts run.2.trace ∧
      ∀ report, Delivers run report →
        (run.2.ledger setup.ctx).Balanced setup.ctx report := by
  intro run
  have hrun := (ledgerMonitor setup.ctx).exec_sound machine (ledger_honours setup.ctx)
    (runLoopInner setup.ctx setup.request)
    (w := .start setup.ctx.id setup.ctx.options setup.request.history clock schedule)
    (Ledger.Agrees.start setup.ctx setup.request.history clock schedule) trivial
    (Ledger.accounts_runLoopInner setup.ctx setup.request)
  refine ⟨hrun.2.1, fun report hdelivers ↦ Ledger.balanced_of_accepts hrun.2.1 ?_⟩
  rcases hdelivers with hreturned | hcompletion
  · exact Monitor.Establishes.of_returned _ _ hrun hreturned
  · exact hrun.1.report.symm.trans hcompletion

/-! ## The counters of a report -/

/-- The counters of every report. The requests of a run are numbered from zero, and the report
counts them; its last two states and its revision are those of the last request; and it counts the
batches of tool calls, of which every request but perhaps the last has one. A limit on them is kept,
and is reported exactly where a response asks for one more. -/
theorem requests_accounted [SerdeJson] (setup : Setup) (clock : Nat) (schedule : List Turn)
    (report : LoopReport) (h : Delivers (setup.run clock schedule) report)
    (hfew : (startedRequests (setup.run clock schedule).2.log).length < 2 ^ 32) :
    let log := (setup.run clock schedule).2.log
    let started := startedRequests log
    let limit := setup.ctx.options.maxToolRounds
    report.requests = started.length ∧
    started.reverse.map StartedRequest.index = List.range started.length ∧
    (∃ finished finishing earlier,
      publishedStates setup.ctx.id log = finished :: finishing :: earlier ∧
      finished.status = .finished ∧ finished.Closes started ∧
      finishing.status = .finishing ∧ finishing.Closes started) ∧
    report.finalConfigRevision = lastRevision started ∧
    report.toolRounds = batchesEntered (publishedStates setup.ctx.id log) ∧
    (report.requests = report.toolRounds ∨ report.requests = report.toolRounds + 1) ∧
    (limit ≠ 0 → report.toolRounds ≤ limit ∧ report.requests ≤ limit + 1 ∧
      (cancelWins log = [] →
        (report.outcome.summary = .failed .maxToolRounds ↔
          report.toolRounds = limit ∧ limit < report.appended.countP HistoryItem.hasCalls))) := by
  intro log started limit
  replace hfew : started.length < 2 ^ 32 := hfew
  obtain ⟨haccepts, hreport⟩ := run_balanced setup clock schedule
  obtain ⟨hstates, hstarted⟩ := ledger_eq setup.ctx log
  have hbalanced := hreport report h
  have hordered := Ledger.ordered_of_accepts haccepts
  have hfinish := fun finish ↦ @ledger_finish setup.ctx log finish
  have hexchanged := (exchanged_kept.exec (runLoopInner setup.ctx setup.request)
    (Exchanged.start setup.ctx.id setup.ctx.options setup.request.history clock schedule)).ordered
  change Justified MinicoreRuntime.Ordered log at hexchanged
  change Ledger.Balanced setup.ctx ((ledgerMonitor setup.ctx).run (traceOf log)) report at hbalanced
  change Ledger.Ordered ((ledgerMonitor setup.ctx).run (traceOf log)) at hordered
  generalize hs : (ledgerMonitor setup.ctx).run (traceOf log) = s at *
  replace hstates : s.state :: s.earlier = publishedStates setup.ctx.id log := hstates
  replace hstarted : s.started = started := hstarted
  have hcount : s.count = started.length := by
    show min s.started.length _ = _
    rw [hstarted]
    omega
  have hbatches : s.batches = batchesEntered (publishedStates setup.ctx.id log) := by
    rw [← hstates]
    rfl
  have hlevel := hbalanced.level
  have hsmall : s.batches < 2 ^ 64 := by
    rw [hstarted] at hlevel
    omega
  have hrequests : report.requests = started.length := hbalanced.requests.trans hcount
  have hrounds : report.toolRounds = s.batches := by
    have htoolRounds := hbalanced.toolRounds
    omega
  rw [hstarted] at hlevel
  obtain ⟨hcloses, finishing, earlier, hearlier, hfinishing⟩ := hordered.finished hbalanced.status
  rw [hstarted] at hcloses hfinishing
  refine ⟨hrequests, ?_, ⟨s.state, finishing, earlier, ?_, hbalanced.status, hcloses, hfinishing⟩,
    ?_, hrounds.trans hbatches, ?_, fun hlimit ↦ ?_⟩
  · rw [← hstarted]
    exact hordered.numbered (by rwa [hstarted])
  · rw [← hstates, hearlier]
  · rw [hbalanced.revision]
    exact congrArg lastRevision hstarted
  · omega
  · have hle := hbalanced.limit hsmall hlimit
    refine ⟨by omega, by omega, fun hwins ↦ ?_⟩
    -- No cancellation won, so that the seal found the loop running.
    have houtcome := hbalanced.outcome
    unfold Ledger.Explains at houtcome
    split at houtcome
    · rename_i source hfound
      obtain ⟨newer, n, older, hsplit⟩ := hfinish _ hfound
      rw [hsplit] at hexchanged hwins
      have hsealed : FinishSeal.cancelledPrior source = (runStateAfter older).seal :=
        hexchanged.of_split
      have hmem := mem_cancelWins (RunState.seal_eq_cancelledPrior.mp hsealed.symm)
      have hnone : cancelWins older = [] := by
        rw [cancelWins_append, cancelWins_cons] at hwins
        exact (List.append_eq_nil_iff.mp (List.append_eq_nil_iff.mp hwins).2).2
      rw [hnone] at hmem
      exact absurd hmem (by simp)
    · rw [hrounds, hbalanced.calling]
      exact houtcome hlimit hsmall
    · exact houtcome.elim

/-- In the sample one request is reported, with one batch of tool calls. -/
theorem requests_accounted_sample : ∃ report,
    (Sample.setup.run 0 Sample.schedule).1 = .returned report ∧
    report.requests = (startedRequests (Sample.setup.run 0 Sample.schedule).2.log).length ∧
    (startedRequests (Sample.setup.run 0 Sample.schedule).2.log).length = 1 := by
  obtain ⟨report, hreturned, -⟩ := Sample.returns
  have hone : (startedRequests (Sample.setup.run 0 Sample.schedule).2.log).length = 1 := by
    decide +kernel
  obtain ⟨hrequests, -⟩ := requests_accounted Sample.setup 0 Sample.schedule report (.inl hreturned)
    (by rw [hone]; decide)
  exact ⟨report, hreturned, hrequests, hone⟩

/-! ## The states of a loop -/

/-- A state that an observer may find together with a report. -/
structure LoopState.Concludes (state : LoopState) (report : LoopReport) : Prop where
  status : state.status = .finished
  pending : state.pendingInteraction = none
  revision : state.configRevision = report.finalConfigRevision

/-- The monitor of the state published last: a report is delivered in the state it concludes with.
-/
def concludingMonitor (id : LoopId) : Monitor interface Nat where
  State := LoopState
  init := .new id .starting 0 ConfigRevision.initial
  allowed state o := ∀ report, o = .sendReport report → state.Concludes report
  expects _ _ _ _ := True
  next state o _ _ := Session.stateAfter state o

/-- The state published last, by the trace of a world. -/
def World.concluding (id : LoopId) (w : World) : LoopState := (concludingMonitor id).run w.trace

section

variable {id : LoopId} {s : LoopState} {α β : Type}

/-- Whether an operation delivers a report. -/
def Op.delivers : Op → Bool
  | .sendReport _ => true
  | _ => false

theorem concluding_free {o : Op} (h : o.delivers = false) : (concludingMonitor id).Free o := by
  rintro s report rfl
  exact absurd h (by simp [Op.delivers])

/-- A program that delivers nothing. -/
theorem concluding_of_uses {p : Action α} (hp : p.Uses fun o : Op ↦ o.delivers = false) :
    (concludingMonitor id).wp p (.ofReturned fun _ _ ↦ True) s :=
  (concludingMonitor id).wp_of_free (fun _ ↦ concluding_free) hp s

/-- The rounds of a loop deliver nothing. -/
theorem Op.delivers_of {o : Op} (h : o.serves = true ∨ o.routine = true) : o.delivers = false := by
  cases o with
  | sendReport report =>
    exact absurd h (by simp [Op.serves, Op.plain, Op.calls, Op.asks, Op.routine])
  | _ => rfl

theorem Op.delivers_of_plain {o : Op} (h : o.plain = true) : o.delivers = false :=
  delivers_of (.inl (Op.serves_of (.inl h)))

theorem uses_finishOnce_delivers : finishOnce.Uses fun o : Op ↦ o.delivers = false := by
  refine uses_call_bind rfl fun finish ↦ ?_
  cases finish <;> exact ⟨rfl, fun _ ↦ by first | trivial | exact ⟨rfl, fun _ ↦ trivial⟩⟩

/-- Delivering a report in the state that it concludes with, and what follows. -/
theorem concluding_deliver {report : LoopReport} (hs : s.Concludes report)
    {p : Action α} (hp : p.Uses fun o : Op ↦ o.delivers = false) :
    (concludingMonitor id).wp ((perform (.sendReport report)).bind fun _ ↦ p)
      (.ofReturned fun _ _ ↦ True) s := by
  refine (concludingMonitor id).wp_call_bind_of ?_ fun _ _ _ ↦ concluding_of_uses hp
  rintro report' hsame
  obtain rfl := Op.sendReport.inj hsame
  exact hs

/-- The rounds of a loop deliver nothing. -/
theorem concluding_requestRounds [SerdeJson] (ctx : LoopCtx) (locals : Locals) :
    (concludingMonitor id).wp (Prog.iterate (requestRound ctx) locals)
      (.ofReturned fun _ _ ↦ True) s := by
  have hstable : ∀ o : Op, o.serves = true ∨ o.routine = true →
      (concludingMonitor id).Stable (fun _ ↦ True) o :=
    fun o ho ↦ (concluding_free (Op.delivers_of ho)).stable
  have h : Traversal (concludingMonitor id) ctx (fun _ ↦ True) fun _ _ ↦ True :=
    .ofServing fun o ho ↦ hstable o (.inl ho)
  refine h.requestRounds (fun o ho _ ↦ hstable o (.inr ho)) (fun _ hs ↦ hs) ?_ locals trivial
  exact (concluding_free rfl).stable

/-- The report of a loop that ended is delivered in the state it concludes with. -/
theorem concluding_deliverReport (ctx : LoopCtx) (ending : Ending) (revision : Nat)
    (outcome : LoopOutcome) (discarded : Option ExecutionConfig) :
    (concludingMonitor id).wp (deliverReport ctx ending revision outcome discarded)
      (.ofReturned fun _ _ ↦ True) s := by
  refine (concludingMonitor id).wp_free_call (concluding_free rfl) fun appended s₁ ↦ ?_
  have hfinal : (concludingMonitor id).wp
      (publishFinalStates ctx (ending.locals.lastIssuedRequestIndex.getD 0) revision)
      (.ofReturned fun _ s' ↦ s'.status = .finished ∧ s'.pendingInteraction = none ∧
        s'.configRevision = revision) s₁ := by
    refine (concludingMonitor id).wp_free_call (concluding_free rfl) fun state _ ↦ ?_
    let finishing : LoopState := ⟨ctx.id, .finishing,
      ending.locals.lastIssuedRequestIndex.getD 0, revision, state.model, none⟩
    have huses : (publish finishing).Uses fun o : Op ↦ o.delivers = false :=
      ⟨rfl, fun _ ↦ ⟨rfl, fun _ ↦ trivial⟩⟩
    refine (concludingMonitor id).wp_free_bind (fun _ ↦ concluding_free) huses fun _ _ ↦ ?_
    refine (concludingMonitor id).wp_free_call (concluding_free rfl) fun state s₂ ↦ ?_
    -- The state that is left is the last one published.
    refine (concludingMonitor id).wp_call_bind_of (concluding_free rfl _) fun _ _ _ ↦ ?_
    exact (concludingMonitor id).wp_call_of (concluding_free rfl _) fun _ _ _ ↦ ⟨rfl, rfl, rfl⟩
  refine (concludingMonitor id).wp_bind_of hfinal ?_
  rintro - s₂ ⟨hstatus, hpending, hrevision⟩
  refine concluding_deliver ⟨hstatus, hpending, hrevision⟩ ?_
  refine uses_call_bind rfl fun _ ↦ uses_call_bind rfl fun _ ↦ ?_
  exact Prog.uses_bind (uses_dropConfig (fun _ ↦ Op.delivers_of_plain) discarded) fun _ ↦ trivial

/-- The task delivers its report in the state it concludes with. -/
theorem concluding_runLoop [SerdeJson] (ctx : LoopCtx) (request : LoopRequest) :
    (concludingMonitor id).wp (runLoop ctx request) (.ofReturned fun _ _ ↦ True) s := by
  have hpublished : publishedReport.Uses fun o : Op ↦ o.delivers = false := by
    refine uses_call_bind rfl fun report ↦ ?_
    cases report <;> trivial
  have hfinish : ∀ ending s', (concludingMonitor id).wp (finishLoop ctx ending)
      (.ofReturned fun _ _ ↦ True) s' := by
    intro ending s'
    refine (concludingMonitor id).wp_free_call (concluding_free rfl) fun revision s₁ ↦ ?_
    refine (concludingMonitor id).wp_free_bind (fun _ ↦ concluding_free)
      (uses_outcomeFor (fun _ ↦ Op.delivers_of_plain) ending.path) fun intended s₂ ↦ ?_
    refine (concludingMonitor id).wp_free_bind (fun _ ↦ concluding_free) uses_finishOnce_delivers ?_
    rintro ⟨finish, discarded⟩ s₃
    cases finish with
    | clean => exact concluding_deliverReport ctx ending revision _ discarded
    | cancelledPrior source => exact concluding_deliverReport ctx ending revision _ discarded
    | alreadyFinished => exact concluding_of_uses hpublished
  have hinner : (concludingMonitor id).wp (runLoopInner ctx request)
      (.ofReturned fun _ _ ↦ True) s := by
    refine (concludingMonitor id).wp_free_call (concluding_free rfl) fun _ s₁ ↦ ?_
    refine (concludingMonitor id).wp_free_call (concluding_free rfl) fun _ s₂ ↦ ?_
    refine (concludingMonitor id).wp_bind_of (concluding_requestRounds ctx _) fun ending s₃ _ ↦ ?_
    refine (concludingMonitor id).wp_bind_of (hfinish ending s₃) fun report s₄ _ ↦ ?_
    refine (concludingMonitor id).wp_free_bind (fun _ ↦ concluding_free)
      (uses_dropConfig (fun _ ↦ Op.delivers_of_plain) _) fun _ _ ↦ ?_
    exact concluding_of_uses ⟨rfl, fun _ ↦ trivial⟩
  -- A runner that unwound is reported by the task, in a state of its own.
  have hpanic : ∀ s', (concludingMonitor id).wp (panicReport ctx.id)
      (.ofReturned fun _ _ ↦ True) s' := by
    intro s'
    refine (concludingMonitor id).wp_free_bind (fun _ ↦ concluding_free) uses_finishOnce_delivers ?_
    rintro ⟨finish, discarded⟩ s₁
    have hdropped : ∀ report : LoopReport, ((perform .cancelToken).bind fun _ ↦
        (dropConfig discarded).bind fun _ ↦ Prog.pure report).Uses
          fun o : Op ↦ o.delivers = false := fun report ↦ uses_call_bind rfl fun _ ↦
      Prog.uses_bind (uses_dropConfig (fun _ ↦ Op.delivers_of_plain) discarded) fun _ ↦ trivial
    cases finish with
    | alreadyFinished => exact concluding_of_uses hpublished
    | _ =>
      refine (concludingMonitor id).wp_call_bind_of (concluding_free rfl _) fun _ _ _ ↦ ?_
      exact concluding_deliver ⟨rfl, rfl, rfl⟩ (hdropped _)
  show (concludingMonitor id).wp (runLoopInner ctx request)
    ⟨fun _ _ ↦ True, fun s' ↦ (concludingMonitor id).wp (panicReport ctx.id)
      (.ofReturned fun _ _ ↦ True) s'⟩ s
  exact (concludingMonitor id).wp_mono hinner (fun _ _ _ ↦ trivial) fun s' _ ↦ hpanic s'

end

/-- The state published last is the one observers find. -/
theorem concluding_kept (id : LoopId) :
    World.Kept (fun trace ↦ (concludingMonitor id).allowed ((concludingMonitor id).run trace))
      (fun w ↦ w.control.stateTx = w.concluding id) where
  host w s h := by
    rw [World.concluding, World.hostStep_trace]
    exact (w.hostStep_frame s).2.1.trans h
  pass _ _ _ _ h := h
  answered w turn o r h _ _ := by
    have hnext : ((w.effect o).recordEntry ⟨o, w.clock, r⟩).concluding id =
        Session.stateAfter (w.concluding id) o := by
      rw [World.concluding, World.recordEntry_trace, World.effect_trace]
      rfl
    rw [hnext, ← h]
    exact (effect_mirror w o).2.1

/-- The machine answers what the monitor relies on, which is nothing. -/
theorem concluding_honours (id : LoopId) : machine.Honours (concludingMonitor id)
    (fun w ↦ w.control.stateTx = w.concluding id) :=
  (concluding_kept id).honours fun _ _ _ _ _ _ _ ↦ trivial

/-- A loop with a report is finished. -/
theorem Sealing.Describes.isFinished {s : Sealing} {control : LoopControl} {report : LoopReport}
    (h : s.Describes control) (hreport : s.report? = some report) : control.isFinished = true := by
  cases s with
  | unsealed => exact absurd hreport (by simp [Sealing.report?])
  | marked source => exact absurd hreport (by simp [Sealing.report?])
  | sealed report => simp [LoopControl.isFinished, h.1]

/-- Where the seal and the states of a trace are those of a task, the report under the seal is
concluded by the state published last. -/
theorem concludes_of_accepts {id : LoopId} {trace : List (Entry interface Nat)}
    (hseal : sealMonitor.Accepts trace) (hstate : (concludingMonitor id).Accepts trace)
    {report : LoopReport} (h : Sealing.report? (sealMonitor.run trace) = some report) :
    LoopState.Concludes ((concludingMonitor id).run trace) report := by
  induction trace with
  | nil => exact absurd h (by simp [sealMonitor, Sealing.report?])
  | cons entry past ih =>
    obtain ⟨o, n, r⟩ := entry
    have hbefore := ih hseal.1 hstate.1
    have hnext := Sealing.report?_next (s := sealMonitor.run past) (n := n) hseal.2.1 hseal.2.2
    replace h : (Sealing.next (sealMonitor.run past) o r).report? = some report := h
    rw [h] at hnext
    cases o with
    | sendReport delivered =>
      obtain rfl : delivered = report := by
        obtain rfl := Option.some.inj h
        rfl
      exact hstate.2.1 delivered rfl
    | publishState state =>
      -- Nothing is published once there is a report.
      have hnone : Sealing.report? (sealMonitor.run past) = none := hseal.2.1
      rw [hnone] at hnext
      exact absurd hnext (by simp [Record.report?])
    | _ =>
      refine hbefore ?_
      cases hpast : Sealing.report? (sealMonitor.run past) with
      | none =>
        rw [hpast] at hnext
        exact absurd hnext (by simp [Record.report?])
      | some earlier =>
        rw [hpast] at hnext
        simpa [Record.report?] using hnext.symm

/-- A world that keeps both monitors has a report only in the state it concludes with. -/
theorem concludes_of_completion {id : LoopId} {w : World} (hsealing : w.sealing.Describes w.control)
    (hpublished : w.control.stateTx = w.concluding id) (hseal : sealMonitor.Accepts w.trace)
    (hstate : (concludingMonitor id).Accepts w.trace) {report : LoopReport}
    (h : w.control.completion = some report) :
    w.control.stateTx.Concludes report ∧ w.control.isFinished = true := by
  have hreport : w.sealing.report? = some report := hsealing.report?_eq.symm.trans h
  refine ⟨?_, hsealing.isFinished hreport⟩
  rw [hpublished]
  exact concludes_of_accepts hseal hstate hreport

/-- Whoever finds a report of the task finds the state it concludes with, and the loop finished. -/
theorem task_concludes [SerdeJson] (setup : Setup) (clock : Nat) (schedule : List Turn)
    (steps : List HostStep) {report : LoopReport}
    (h : ((setup.task clock schedule).2.hostSteps steps).control.completion = some report) :
    ((setup.task clock schedule).2.hostSteps steps).control.stateTx.Concludes report ∧
      ((setup.task clock schedule).2.hostSteps steps).control.isFinished = true := by
  have hseal := setup.exec_sealed clock schedule (seal_runLoop setup.ctx setup.request rfl)
  have hstate := (concludingMonitor setup.ctx.id).exec_sound machine
    (concluding_honours setup.ctx.id) (runLoop setup.ctx setup.request)
    (w := .start setup.ctx.id setup.ctx.options setup.request.history clock schedule)
    rfl trivial (concluding_runLoop setup.ctx setup.request)
  -- Other threads change neither the trace nor what was published.
  have htrace := (setup.task clock schedule).2.hostSteps_trace steps
  exact concludes_of_completion (sealing_kept.hostSteps hseal.1 steps)
    ((concluding_kept setup.ctx.id).hostSteps hstate.1 steps)
    ((congrArg sealMonitor.Accepts htrace).mpr hseal.2.1)
    ((congrArg (concludingMonitor setup.ctx.id).Accepts htrace).mpr hstate.2.1) h

/-- The states of a loop. A state is published with a question exactly where it waits for input, and
with the revision of the last request; states follow each other as their statuses allow and never go
back to an older revision; and the last one is published once, with nothing after it. Whoever finds
a report finds the state it concludes with, and the loop finished. -/
theorem states_observed [SerdeJson] (setup : Setup) (clock : Nat) (schedule : List Turn) :
    let run := setup.run clock schedule
    let states := publishedStates setup.ctx.id run.2.log
    (∀ newer n state r older,
      run.2.log = newer ++ .runner ⟨.publishState state, n, r⟩ :: older →
      (state.pendingInteraction.isSome ↔ state.status = .waitingForInput) ∧
        state.configRevision = lastRevision (startedRequests older)) ∧
    states.IsChain LoopState.Succeeds ∧
    (∀ report, Delivers run report → ∃ last earlier, states = last :: earlier ∧
      last.status = .finished ∧ ∀ state ∈ earlier, state.status ≠ .finished) ∧
    ∀ steps report,
      ((setup.task clock schedule).2.hostSteps steps).control.completion = some report →
      ((setup.task clock schedule).2.hostSteps steps).control.stateTx.Concludes report ∧
        ((setup.task clock schedule).2.hostSteps steps).control.isFinished = true := by
  intro run states
  obtain ⟨haccepts, hreport⟩ := run_balanced setup clock schedule
  obtain ⟨hstates, -⟩ := ledger_eq setup.ctx run.2.log
  have hchain : states.IsChain LoopState.Succeeds := by
    show (publishedStates setup.ctx.id run.2.log).IsChain LoopState.Succeeds
    rw [← hstates]
    exact (Ledger.ordered_of_accepts haccepts).states
  refine ⟨fun newer n state r older hsplit ↦ ?_, hchain, fun report hdelivers ↦ ?_,
    fun steps report hcompletion ↦ ?_⟩
  · -- What the rules said where the state was published.
    rw [World.trace, hsplit] at haccepts
    have hstate := (accepts_at haccepts).2.1.published state rfl
    obtain ⟨-, hstarted⟩ := ledger_eq setup.ctx older
    exact ⟨hstate.pending, hstate.revision.trans (congrArg lastRevision hstarted)⟩
  · refine ⟨_, _, hstates.symm, (hreport report hdelivers).status, ?_⟩
    refine not_finished_of_chain (?_ : (Ledger.state ((ledgerMonitor setup.ctx).run
      run.2.trace) :: _).IsChain LoopState.Succeeds)
    exact (Ledger.ordered_of_accepts haccepts).states
  · exact task_concludes setup clock schedule steps hcompletion

/-- In the sample five states are published after the first, and whoever finds the report finds the
loop finished. -/
theorem states_observed_sample :
    (publishedStates Sample.setup.ctx.id (Sample.setup.run 0 Sample.schedule).2.log).reverse.map
      LoopState.status =
        [.starting, .starting, .runningModel, .runningTools, .finishing, .finished] ∧
    ∃ report, (Sample.setup.task 0 Sample.schedule).2.control.completion = some report ∧
      (Sample.setup.task 0 Sample.schedule).2.control.stateTx.Concludes report := by
  obtain ⟨-, -, -, hobserved⟩ := states_observed Sample.setup 0 Sample.schedule
  obtain ⟨report, hreport⟩ : ∃ report,
      (Sample.setup.task 0 Sample.schedule).2.control.completion = some report :=
    Option.isSome_iff_exists.mp (by decide +kernel)
  have hnow : ∀ w : World, w.hostSteps [] = w := fun _ ↦ rfl
  have hreader := hobserved []
  rw [hnow] at hreader
  exact ⟨by decide +kernel, report, hreport, (hreader report hreport).1⟩

end MinicoreRuntime
