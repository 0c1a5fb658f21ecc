import MinicoreRuntime.AgentLoop.Ledger

/-!
# Runners keep their ledger

The walk through the programs of a runner that proves the rules of the ledger. Between two rounds
every request has had its batch of tool calls; in a request one batch is missing; and where the loop
of requests ends, at most one is. What the report says follows from where the loop ended.

## Main definitions

* `Ledger.Books`: the local variables of the runner agree with the ledger.
* `Ledger.AtRest`, `Ledger.InFlight`, `Ledger.InTools`, `Ledger.Closing`: where the runner is.

## Main results

* `Ledger.accounts_requestRound`: one round of the loop of requests.
* `Ledger.accounts_runLoopInner`: the runner of a loop.
-/

namespace MinicoreRuntime

open Interactive

namespace Ledger

/-- From the ledger `s` the program keeps the rules, and where it returns `Q` holds. -/
abbrev Accounts {α : Type} (ctx : LoopCtx) (s : Ledger) (p : Action α)
    (Q : α → Ledger → Prop) : Prop :=
  (ledgerMonitor ctx).wp p (.ofReturned Q) s

variable {ctx : LoopCtx} {s : Ledger} {locals : Locals} {α β : Type}

/-! ## Rules -/

/-- The rules are about operations that the ledger is about. -/
theorem permits_of_books {o : Op} (h : books o = false) : s.Permits ctx o where
  running htrue := absurd htrue (by simp [h])
  published state ho := by
    subst ho
    exact absurd h (by simp [books])
  started id index revision model reasoning ho := by
    subst ho
    exact absurd h (by simp [books])
  delivered report ho := by
    subst ho
    exact absurd h (by simp [books])

theorem next_eq {o : Op} (h : books o = false) (s : Ledger) (r : o.Answer) : s.next o r = s := by
  cases o with
  | tryEmit event => cases event <;> first | rfl | exact absurd h (by simp [books])
  | _ => first | rfl | exact absurd h (by simp [books])

/-- Operations that the ledger is not about leave it alone. -/
theorem silent {o : Op} (h : books o = false) : (ledgerMonitor ctx).Silent o :=
  fun s ↦ ⟨permits_of_books h, fun _ r ↦ next_eq h s r⟩

/-- The ledger is not about port calls and the driver. -/
theorem books_of {o : Op} (h : o.plain = true ∨ o.calls = true) : books o = false := by
  cases o with
  | tryEmit event =>
    cases event <;> first | rfl | exact absurd h (by simp [Op.plain, Op.calls, LoopEvent.quiet])
  | _ => first | rfl | exact absurd h (by simp [Op.plain, Op.calls])

theorem books_of_plain {o : Op} (h : o.plain = true) : books o = false := books_of (.inl h)

/-- Publishing a state, followed by the rest of a program. -/
theorem accounts_publish (hreport : s.report = none) (state : LoopState)
    (hstate : s.PermitsState state) {f : Unit → Action α} {Q : α → Ledger → Prop}
    (hf : Accounts ctx (s.withState state) (f ()) Q) :
    Accounts ctx s ((publish state).bind f) Q := by
  show Accounts ctx s ((perform (.publishState state)).bind fun _ ↦
    (perform (.tryEmit (.stateChanged state))).bind f) Q
  refine (ledgerMonitor ctx).wp_call_bind_of ⟨fun _ ↦ hreport, ?_, ?_, ?_⟩ fun n r _ ↦ ?_
  · rintro state' hsame
    obtain rfl := Op.publishState.inj hsame
    exact hstate
  · rintro _ _ _ _ _ ⟨⟩
  · rintro _ ⟨⟩
  · show Accounts ctx (s.withState state) _ Q
    exact (ledgerMonitor ctx).wp_silent_call (silent rfl) fun _ ↦ hf

/-- Appending an item that is no response with tool calls leaves the ledger alone. -/
theorem stable_append (hreport : s.report = none) {item : HistoryItem}
    (hitem : item.hasCalls = false) :
    (ledgerMonitor ctx).Stable (fun s' ↦ s' = s) (.append item) := by
  rintro s' rfl
  refine ⟨⟨fun _ ↦ hreport, ?_, ?_, ?_⟩, fun n r _ ↦ ?_⟩
  · rintro _ ⟨⟩
  · rintro _ _ _ _ _ ⟨⟩
  · rintro _ ⟨⟩
  show { s' with calling := s'.calling + if item.hasCalls then 1 else 0 } = s'
  rw [hitem]
  rfl

/-- Publishing a state opens a batch if it comes right after the state of a request. -/
theorem batches_withState (s : Ledger) (state : LoopState) :
    (s.withState state).batches = s.batches + if opensBatch state s.state then 1 else 0 := rfl

/-! ## Where the runner is -/

/-- The local variables of the runner agree with the ledger. -/
structure Books (ctx : LoopCtx) (locals : Locals) (s : Ledger) : Prop where
  finish : s.finish = none
  report : s.report = none
  revision : s.revision = locals.issuedRevision
  issued : s.issued = locals.issuedRevision
  state : s.state.configRevision ≤ locals.issuedRevision
  candidate : locals.candidateRevision.getD locals.issuedRevision = s.taken
  taken : locals.issuedRevision ≤ s.taken
  requests : locals.requests = s.count
  last : locals.lastIssuedRequestIndex = s.started.head?.map StartedRequest.index
  toolRounds : locals.toolRounds = min s.batches (2 ^ 64 - 1)
  limit : s.batches < 2 ^ 64 → ctx.options.maxToolRounds ≠ 0 →
    s.batches ≤ ctx.options.maxToolRounds

/-- Between two rounds every request has had its batch. -/
structure AtRest (ctx : LoopCtx) (locals : Locals) (s : Ledger) : Prop
    extends Books ctx locals s where
  started : s.started.length = s.batches
  calling : s.calling = s.batches
  index : locals.requestIndex = s.count
  status : s.state.status = .starting ∨ s.state.status = .runningTools

/-- A request was started, and its response is not appended yet. -/
structure InFlight (ctx : LoopCtx) (locals : Locals) (s : Ledger) : Prop
    extends Books ctx locals s where
  started : s.started.length = s.batches + 1
  calling : s.calling = s.batches
  index : saturatingAdd 32 locals.requestIndex 1 = s.count
  status : s.state.status = .runningModel

/-- The tool calls of a response are run. -/
structure InTools (ctx : LoopCtx) (locals : Locals) (s : Ledger) : Prop
    extends Books ctx locals s where
  started : s.started.length = s.batches
  calling : s.calling = s.batches
  index : saturatingAdd 32 locals.requestIndex 1 = s.count
  status : s.state.status = .runningTools
  current : s.state.configRevision = locals.issuedRevision

/-- The loop of requests has ended on a path. Only the limit of tool rounds leaves a response whose
tool calls were not run. -/
structure Closing (ctx : LoopCtx) (locals : Locals) (path : FailPath) (s : Ledger) : Prop
    extends Books ctx locals s where
  follows : s.state.status.Follows .finishing
  level : s.started.length = s.batches ∨ s.started.length = s.batches + 1
  counted : path ≠ .maxToolRounds ∧ s.calling = s.batches ∨
    path = .maxToolRounds ∧ s.calling = s.batches + 1 ∧ ctx.options.maxToolRounds ≠ 0 ∧
      (s.batches < 2 ^ 64 → s.batches = ctx.options.maxToolRounds)

/-- The ledger after a round. -/
def AfterRound (ctx : LoopCtx) (x : Locals ⊕ Ending) (s : Ledger) : Prop :=
  x.elim (fun locals ↦ AtRest ctx locals s) fun ending ↦ Closing ctx ending.locals ending.path s

/-- Only some of the local variables are about the ledger. -/
theorem Books.withLocals (h : Books ctx locals s) {locals' : Locals}
    (hissued : locals'.issuedRevision = locals.issuedRevision)
    (hcandidate : locals'.candidateRevision = locals.candidateRevision)
    (hrequests : locals'.requests = locals.requests)
    (hlast : locals'.lastIssuedRequestIndex = locals.lastIssuedRequestIndex)
    (hrounds : locals'.toolRounds = locals.toolRounds) : Books ctx locals' s where
  finish := h.finish
  report := h.report
  revision := hissued ▸ h.revision
  issued := hissued ▸ h.issued
  state := hissued ▸ h.state
  candidate := by rw [hissued, hcandidate, h.candidate]
  taken := hissued ▸ h.taken
  requests := hrequests.trans h.requests
  last := hlast.trans h.last
  toolRounds := hrounds.trans h.toolRounds
  limit := h.limit

/-- Publishing a state that opens no batch. -/
theorem Books.withState (h : Books ctx locals s) {state : LoopState}
    (hrevision : state.configRevision ≤ locals.issuedRevision)
    (hopens : opensBatch state s.state = false) : Books ctx locals (s.withState state) := by
  have hbatches : (s.withState state).batches = s.batches := by
    rw [batches_withState, hopens]
    rfl
  refine ⟨h.finish, h.report, h.revision, h.issued, hrevision, h.candidate, h.taken, h.requests,
    h.last, ?_, ?_⟩
  · rw [hbatches, h.toolRounds]
  · rw [hbatches]
    exact h.limit

/-- The loop may end between two rounds. -/
theorem AtRest.closing (h : AtRest ctx locals s) {path : FailPath} (hpath : path ≠ .maxToolRounds) :
    Closing ctx locals path s where
  toBooks := h.toBooks
  follows := by rcases h.status with hstatus | hstatus <;> simp [hstatus, LoopStatus.Follows]
  level := .inl h.started
  counted := .inl ⟨hpath, h.calling⟩

/-- The loop may end in a request. -/
theorem InFlight.closing (h : InFlight ctx locals s) {path : FailPath}
    (hpath : path ≠ .maxToolRounds) : Closing ctx locals path s where
  toBooks := h.toBooks
  follows := by simp [h.status, LoopStatus.Follows]
  level := .inr h.started
  counted := .inl ⟨hpath, h.calling⟩

/-- The loop may end among tool calls. -/
theorem InTools.closing (h : InTools ctx locals s) {path : FailPath}
    (hpath : path ≠ .maxToolRounds) : Closing ctx locals path s where
  toBooks := h.toBooks
  follows := by simp [h.status, LoopStatus.Follows]
  level := .inl h.started
  counted := .inl ⟨hpath, h.calling⟩

/-! ## Questions to the host -/

/-- The wait for an answer is not about the ledger. -/
theorem uses_pollAnswer (channel : Nat) (deadline : Option Nat) :
    (Prog.iterate (fun _ ↦ pollAnswer channel deadline) ()).Uses fun o ↦ books o = false := by
  refine Prog.uses_iterate fun _ ↦ uses_call_bind rfl fun polled ↦ ?_
  rcases polled with - | - | (- | answer) | - | - <;> trivial

/-- The wait for an answer does not end on the limit of tool rounds. -/
theorem returns_pollAnswer (channel : Nat) (deadline : Option Nat) :
    (Prog.iterate (fun _ ↦ pollAnswer channel deadline) ()).Returns fun answer ↦
      answer ≠ .error .maxToolRounds := by
  refine Prog.returns_iterate (fun _ ↦ True) trivial fun _ _ ↦ ?_
  refine Prog.returns_call_bind fun polled ↦ ?_
  rcases polled with - | - | (- | answer) | - | -
  all_goals simp [Prog.Returns]

/-- A question to the host, among tool calls. -/
theorem accounts_askHost (h : InTools ctx locals s) (invocation : ToolInvocation)
    (kind : InteractionKind) :
    Accounts ctx s (askHost ctx invocation kind) fun answer ↦
      Leaves (InTools ctx locals) (Closing ctx locals) (answerPath? answer) := by
  refine (ledgerMonitor ctx).wp_silent_call (silent rfl) fun id ↦ ?_
  cases id with
  | none => exact h.closing (by simp)
  | some id =>
    refine (ledgerMonitor ctx).wp_silent_call (silent rfl) fun channel ↦ ?_
    refine (ledgerMonitor ctx).wp_silent_call (silent rfl) fun set ↦ ?_
    cases set with
    | false => exact h.closing (by simp)
    | true =>
      refine (ledgerMonitor ctx).wp_silent_call_of (silent rfl) fun _ waiting hwaiting ↦ ?_
      obtain rfl : waiting = s.state := hwaiting
      -- The state of the tool calls is published again, with the question.
      let asked : LoopState := { s.state with
        status := .waitingForInput
        pendingInteraction := some ⟨id, invocation.toolCallId, invocation.toolName, kind⟩ }
      have hrevision : s.state.configRevision = s.issued := h.current.trans h.issued.symm
      refine accounts_publish h.report asked
        ⟨by simp [h.status, asked, LoopStatus.Follows], by simp [asked], hrevision, Nat.le_refl _,
          by simp [asked]⟩ ?_
      have hbooks : Books ctx locals (s.withState asked) :=
        h.toBooks.withState h.current.le (by simp [opensBatch, asked])
      have hclosing : ∀ path, path ≠ .maxToolRounds → Closing ctx locals path (s.withState asked) :=
        fun path hpath ↦ ⟨hbooks, by simp [withState, asked, LoopStatus.Follows], .inl h.started,
          .inl ⟨hpath, h.calling⟩⟩
      refine (ledgerMonitor ctx).wp_silent_call (silent rfl) fun _ ↦ ?_
      refine (ledgerMonitor ctx).wp_silent_bind_returns (fun _ ↦ silent)
        (uses_pollAnswer _ _) (returns_pollAnswer _ _) fun answer hanswer ↦ ?_
      cases answer with
      | error path =>
        refine (ledgerMonitor ctx).wp_silent_call (silent rfl) fun _ ↦ ?_
        exact hclosing path fun hpath ↦ hanswer (by rw [hpath])
      | ok answer =>
        refine (ledgerMonitor ctx).wp_silent_call (silent rfl) fun _ ↦ ?_
        refine (ledgerMonitor ctx).wp_silent_call (silent rfl) fun _ ↦ ?_
        refine (ledgerMonitor ctx).wp_silent_call_of (silent rfl) fun _ running hrunning ↦ ?_
        obtain rfl : running = asked := hrunning
        -- The tool calls go on under the revision they had.
        let resumed : LoopState :=
          { asked with status := .runningTools, pendingInteraction := none }
        refine accounts_publish hbooks.report resumed
          ⟨.inl rfl, by simp [resumed], hrevision,
            Nat.le_refl _, by simp [resumed]⟩ ?_
        have hopens : opensBatch resumed asked = false := rfl
        exact ⟨hbooks.withState h.current.le hopens, h.started, h.calling, h.index, rfl, h.current⟩

/-! ## Boundaries and calls -/

/-- Taking a configuration and the inputs. Revisions that are taken never decrease. -/
theorem accounts_takeBoundary (h : AtRest ctx locals s) (pinned : Bool) :
    Accounts ctx s (takeBoundary ctx pinned locals.config locals.candidateRevision)
      fun boundary s' ↦ s'.state = s.state ∧ AtRest ctx { locals with
        config := boundary.config, candidateRevision := boundary.candidateRevision } s' := by
  -- What is taken in after the configuration leaves the ledger alone.
  have hrest : ∀ (s' : Ledger), s'.report = none → ∀ (boundary : List UserInput → Boundary)
      (P : Boundary → Prop), (∀ inputs, P (boundary inputs)) →
      Accounts ctx s' ((perform .takeInputs).bind fun inputs ↦
        (appendInputs ctx inputs).bind fun _ ↦ Prog.pure (boundary inputs))
        fun b s'' ↦ s'' = s' ∧ P b := by
    intro s' hreport boundary P hP
    refine (ledgerMonitor ctx).wp_silent_call (silent rfl) fun inputs ↦ ?_
    refine (ledgerMonitor ctx).wp_bind_of (Traversal.appendInputs
      (fun _ ↦ stable_append hreport rfl) inputs rfl) ?_
    rintro - _ rfl
    exact ⟨rfl, hP inputs⟩
  refine (ledgerMonitor ctx).wp_call_bind_of ⟨fun _ ↦ h.report, ?_, ?_, ?_⟩
    fun n pending hpending ↦ ?_
  · rintro _ ⟨⟩
  · rintro _ _ _ _ _ ⟨⟩
  · rintro _ ⟨⟩
  cases pending with
  | none =>
    refine (ledgerMonitor ctx).wp_mono_returned (hrest s h.report _ (fun boundary ↦
      boundary.config = locals.config ∧
        boundary.candidateRevision = locals.candidateRevision) fun _ ↦ ⟨rfl, rfl⟩) ?_
    rintro boundary _ ⟨rfl, hconfig, hcandidate⟩
    refine ⟨rfl, h.toBooks.withLocals rfl hcandidate rfl rfl rfl, h.started, h.calling, h.index, ?_⟩
    exact h.status
  | some pending =>
    have hle : s.taken ≤ pending.revision := hpending pending rfl
    let taken : Ledger := { s with taken := pending.revision }
    have htaken : ∀ config, AtRest ctx { locals with
        config := config, candidateRevision := some pending.revision } taken := fun config ↦
      ⟨⟨h.finish, h.report, h.revision, h.issued, h.state, rfl, h.taken.trans hle, h.requests,
        h.last, h.toolRounds, h.limit⟩, h.started, h.calling, h.index, h.status⟩
    have hboundary : Accounts ctx taken ((perform .takeInputs).bind fun inputs ↦
        (appendInputs ctx inputs).bind fun _ ↦
          Prog.pure (⟨true, pending.config, some pending.revision⟩ : Boundary)) fun boundary s' ↦
        s'.state = s.state ∧ AtRest ctx { locals with
          config := boundary.config, candidateRevision := boundary.candidateRevision } s' := by
      refine (ledgerMonitor ctx).wp_mono_returned (hrest taken h.report
        (fun _ ↦ ⟨true, pending.config, some pending.revision⟩)
        (fun boundary ↦ boundary.candidateRevision = some pending.revision) fun _ ↦ rfl) ?_
      rintro ⟨-, config, -⟩ _ ⟨rfl, rfl⟩
      exact ⟨rfl, htaken config⟩
    cases pinned with
    | true => exact hboundary
    | false => exact (ledgerMonitor ctx).wp_silent_call (silent rfl) fun _ ↦ hboundary

/-- A port call is not about the ledger. -/
theorem uses_portCall {port : Port} {awaiter : Action Unit}
    (hawait : awaiter.Uses fun o ↦ books o = false) (turnDeadline timeout : Nat)
    (make : Nat → PortCall port) :
    (runPortCall awaiter turnDeadline timeout make).Uses fun o ↦ books o = false :=
  Traversal.uses_runPortCall (fun _ ↦ books_of_plain) (fun _ ho ↦ books_of (.inr ho)) hawait _ _ _

/-- A prompt does not end the loop on the limit of tool rounds. -/
theorem promptPrep_ne (outcome : PortCallOutcome .prompt) :
    promptPrep outcome ≠ .stop .maxToolRounds := by
  unfold promptPrep
  split
  · split <;> simp
  all_goals simp

/-- A failed request does not end the loop on the limit of tool rounds. -/
theorem returns_mapModelFailure (failure : ModelDriverFailure) :
    (mapModelFailure failure).Returns fun path ↦ path ≠ .maxToolRounds := by
  refine Prog.returns_call_bind fun cancelled ↦ ?_
  split
  · simp [Prog.Returns]
  · split
    · simp [Prog.Returns]
    · split <;> simp [Prog.Returns]

/-- Tool calls keep the ledger, and do not end the loop on the limit of tool rounds. -/
theorem inTools_traversal [SerdeJson] (locals : Locals) :
    Traversal (ledgerMonitor ctx) ctx (InTools ctx locals) fun path s ↦
      Closing ctx locals path s := by
  -- A result is no part of the books.
  have happend : ∀ item, ∀ s : Ledger, s.report = none →
      (ledgerMonitor ctx).allowed s (.append (.toolResult item)) ∧
        ∀ n r, (ledgerMonitor ctx).next s (.append (.toolResult item)) n r = s := by
    intro item s hreport
    have hstable : (ledgerMonitor ctx).Stable (fun s' ↦ s' = s) (.append (.toolResult item)) :=
      stable_append hreport rfl
    obtain ⟨hallowed, hnext⟩ := hstable s rfl
    exact ⟨hallowed, fun n r ↦ hnext n r trivial⟩
  refine Traversal.ofStable (fun o ho ↦ (silent (books_of ho)).stable _)
    (fun _ o ho ↦ (silent (books_of_plain ho)).stable _) ?_ ?_ ?_ ?_
  · intro item s hs
    obtain ⟨hallowed, hnext⟩ := happend item s hs.report
    exact ⟨hallowed, fun n r _ ↦ (congrArg (InTools ctx locals) (hnext n r)).mpr hs⟩
  · intro path item s hs
    obtain ⟨hallowed, hnext⟩ := happend item s hs.report
    exact ⟨hallowed, fun n r _ ↦ (congrArg (Closing ctx locals path) (hnext n r)).mpr hs⟩
  · exact fun path s _ hpath hs ↦ hs.closing hpath
  · exact fun invocation kind s hs ↦ accounts_askHost hs invocation kind

/-! ## Rounds -/

/-- A response with tool calls was appended, and its batch is not entered yet. -/
structure Answered (ctx : LoopCtx) (locals : Locals) (s : Ledger) : Prop
    extends Books ctx locals s where
  started : s.started.length = s.batches + 1
  calling : s.calling = s.batches + 1
  index : saturatingAdd 32 locals.requestIndex 1 = s.count
  status : s.state.status = .runningModel

/-- The tool calls of a response. -/
theorem accounts_runCalls [SerdeJson] (h : Answered ctx locals s) (snapshot : ExecutionConfig)
    (calls : List ToolCall) :
    Accounts ctx s (runCalls ctx snapshot locals calls) (AfterRound ctx) := by
  unfold runCalls
  have hrounds := h.toolRounds
  split
  · -- The limit is reached: the calls are settled, and no batch is entered.
    rename_i hlimit
    refine (ledgerMonitor ctx).wp_bind_of (Traversal.settleCalls
      (fun _ ↦ stable_append h.report rfl) locals.requestIndex _ _ calls rfl) ?_
    rintro - _ rfl
    refine ⟨h.toBooks, by simp [h.status, LoopStatus.Follows], .inr h.started,
      .inr ⟨rfl, h.calling, hlimit.1, fun hfew ↦ ?_⟩⟩
    have hle := h.limit hfew hlimit.1
    have hreached := hlimit.2
    omega
  · rename_i hlimit
    let entered : Locals := { locals with toolRounds := saturatingAdd 64 locals.toolRounds 1 }
    let running : LoopState := ⟨ctx.id, .runningTools, locals.requestIndex, locals.issuedRevision,
      some snapshot.descriptor.modelRef, none⟩
    refine accounts_publish h.report running ⟨by simp [h.status, running, LoopStatus.Follows],
      by simp [running], h.issued.symm, h.state, by simp [running]⟩ ?_
    -- The state that is published enters the batch.
    have hbatches : (s.withState running).batches = s.batches + 1 := by
      rw [batches_withState, if_pos (by simp [opensBatch, running, h.status])]
    have htools : InTools ctx entered (s.withState running) := by
      refine ⟨⟨h.finish, h.report, h.revision, h.issued, Nat.le_refl _, h.candidate, h.taken,
        h.requests, h.last, ?_, fun hfew hmax ↦ ?_⟩, ?_, ?_, h.index, rfl, rfl⟩
      · rw [hbatches]
        show min (locals.toolRounds + 1) (2 ^ 64 - 1) = _
        omega
      · rw [hbatches] at hfew ⊢
        have hbelow : ¬ locals.toolRounds ≥ ctx.options.maxToolRounds := fun h ↦ hlimit ⟨hmax, h⟩
        omega
      · rw [hbatches]
        exact h.started
      · rw [hbatches]
        exact h.calling
    refine (ledgerMonitor ctx).wp_bind_of
      ((inTools_traversal entered).runToolBatch locals.requestIndex snapshot calls htools) ?_
    rintro (- | path) s' hs'
    · exact ⟨hs'.toBooks.withLocals rfl rfl rfl rfl rfl, hs'.started, hs'.calling, hs'.index,
        .inr hs'.status⟩
    · exact hs'

/-- What follows a response. -/
theorem accounts_handleResponse [SerdeJson] (h : InFlight ctx locals s)
    (snapshot : ExecutionConfig) (response : ModelResponse) :
    Accounts ctx s (handleResponse ctx snapshot locals response) (AfterRound ctx) := by
  unfold handleResponse
  split
  · exact h.closing (by simp)
  rename_i usage husage
  let used : Locals := { locals with usage := usage }
  have hused : InFlight ctx used s :=
    ⟨h.toBooks.withLocals rfl rfl rfl rfl rfl, h.started, h.calling, h.index, h.status⟩
  let item : HistoryItem := .assistant (assistantHistory ctx locals.requestIndex snapshot response)
  dsimp only
  split
  · -- Without tool calls the response is the last one.
    rename_i hcalls
    have hitem : item.hasCalls = false := by
      show (!(toolCalls response.parts).isEmpty) = false
      rw [hcalls]
      rfl
    have hfinish := needsReason_noToolFinish response.finishReason
    cases hpath : noToolFinish response.finishReason with
    | error path =>
      refine hused.closing ?_
      rintro rfl
      exact absurd (hfinish _ (.inl hpath)) (by simp [FailPath.needsReason])
    | ok path =>
      have hne : path ≠ .maxToolRounds := by
        rintro rfl
        exact absurd (hfinish _ (.inr hpath)) (by simp [FailPath.needsReason])
      refine (ledgerMonitor ctx).wp_stable_bind (stable_append h.report hitem) rfl ?_
      rintro - _ rfl
      split
      · exact (ledgerMonitor ctx).wp_silent_call (silent rfl) fun _ ↦ hused.closing hne
      · exact hused.closing hne
  · rename_i hcalls
    have hitem : item.hasCalls = true := by
      show (!(toolCalls response.parts).isEmpty) = true
      rw [Bool.not_eq_true']
      simpa using hcalls
    refine (ledgerMonitor ctx).wp_call_bind_of ⟨fun _ ↦ h.report, ?_, ?_, ?_⟩ fun n r _ ↦ ?_
    · rintro _ ⟨⟩
    · rintro _ _ _ _ _ ⟨⟩
    · rintro _ ⟨⟩
    -- The response has calls, so that there is one more than batches were entered.
    let answered : Ledger := { s with calling := s.calling + if item.hasCalls then 1 else 0 }
    have hanswered : Answered ctx used answered := by
      refine ⟨⟨h.finish, h.report, h.revision, h.issued, h.state, h.candidate, h.taken, h.requests,
        h.last, h.toolRounds, h.limit⟩, h.started, ?_, h.index, h.status⟩
      show s.calling + (if item.hasCalls then 1 else 0) = s.batches + 1
      rw [hitem, h.calling]
      rfl
    exact accounts_runCalls hanswered snapshot (toolCalls response.parts)

/-- A request that is issued, and its response. -/
theorem accounts_issueRequest [SerdeJson] (h : AtRest ctx locals s)
    (hstatus : s.state.status = .starting) (snapshot : ExecutionConfig) (request : ModelRequest) :
    Accounts ctx s (issueRequest ctx snapshot locals request) (AfterRound ctx) := by
  unfold issueRequest
  have hrevision : locals.candidateRevision.getD locals.issuedRevision = s.taken := h.candidate
  -- The revision is committed, the request announced, and its state published.
  refine (ledgerMonitor ctx).wp_call_bind_of ⟨fun _ ↦ h.report, ?_, ?_, ?_⟩ fun n _ _ ↦ ?_
  · rintro _ ⟨⟩
  · rintro _ _ _ _ _ ⟨⟩
  · rintro _ ⟨⟩
  have hle : s.issued ≤ s.taken := h.issued.le.trans h.taken
  refine (ledgerMonitor ctx).wp_call_bind_of ⟨fun _ ↦ h.report, ?_, ?_, ?_⟩ fun n _ _ ↦ ?_
  · rintro _ ⟨⟩
  · rintro id index revision model reasoning hsame
    obtain ⟨-, rfl, rfl, -, -⟩ := LoopEvent.requestStarted.inj (Op.tryEmit.inj hsame)
    exact ⟨h.index, hrevision ▸ hle, hstatus⟩
  · rintro _ ⟨⟩
  rw [hrevision]
  let started : Ledger :=
    { s with revision := s.taken, started := ⟨locals.requestIndex, s.taken⟩ :: s.started }
  let running : LoopState := ⟨ctx.id, .runningModel, locals.requestIndex, s.taken,
    some snapshot.descriptor.modelRef, none⟩
  let issued : Locals := { locals with
    candidateRevision := none
    issuedRevision := s.taken
    requests := saturatingAdd 32 locals.requests 1
    lastIssuedRequestIndex := some locals.requestIndex }
  show Accounts ctx started _ _
  have hstate : started.PermitsState running :=
    ⟨by simp [started, hstatus, running, LoopStatus.Follows], by simp [running], rfl,
      h.state.trans h.taken, by simp [running]⟩
  refine accounts_publish (show started.report = none from h.report) running hstate ?_
  have hcount : saturatingAdd 32 s.count 1 = min (s.started.length + 1) (2 ^ 32 - 1) := by
    unfold saturatingAdd count
    omega
  have hin : InFlight ctx issued (started.withState running) := by
    refine ⟨⟨h.finish, h.report, rfl, rfl, Nat.le_refl _, rfl, Nat.le_refl _, ?_, rfl,
      h.toolRounds, h.limit⟩, ?_, h.calling, ?_, rfl⟩
    · show saturatingAdd 32 locals.requests 1 = _
      rw [h.requests]
      exact hcount
    · show s.started.length + 1 = s.batches + 1
      rw [h.started]
    · show saturatingAdd 32 locals.requestIndex 1 = _
      rw [h.index]
      exact hcount
  refine (ledgerMonitor ctx).wp_silent_bind (fun _ ↦ silent)
    (uses_turnDeadline (fun _ ↦ books_of_plain) _) fun deadline ↦ ?_
  have hdrain : (drainProgress ctx locals.requestIndex).Uses fun o ↦ books o = false :=
    uses_drainProgress (fun _ ↦ books_of_plain) ctx locals.requestIndex
  refine (ledgerMonitor ctx).wp_silent_bind (fun _ ↦ silent) ?_ fun result ↦ ?_
  · refine uses_call_bind rfl fun _ ↦ Prog.uses_bind ?_ fun result ↦ ?_
    · exact uses_runDetailed (fun _ ↦ books_of_plain) hdrain fun _ ↦ rfl
    · refine uses_call_bind rfl fun _ ↦ uses_call_bind rfl fun _ ↦ ?_
      exact Prog.uses_bind hdrain fun _ ↦ trivial
  cases result with
  | error failure =>
    refine (ledgerMonitor ctx).wp_silent_bind_returns (fun _ ↦ silent)
      (uses_mapModelFailure (fun _ ↦ books_of_plain) failure)
      (returns_mapModelFailure failure) fun path hpath ↦ ?_
    exact hin.closing hpath
  | ok response => exact accounts_handleResponse hin snapshot response

/-- The preparation of a request. -/
theorem accounts_prepareRequest [SerdeJson] (h : AtRest ctx locals s) :
    Accounts ctx s (prepareRequest ctx locals) (AfterRound ctx) := by
  unfold prepareRequest
  let starting : LoopState := .new ctx.id .starting locals.requestIndex locals.issuedRevision
  have hfollows : s.state.status.Follows .starting := by
    rcases h.status with hstatus | hstatus <;> simp [hstatus, LoopStatus.Follows]
  refine accounts_publish h.report starting ⟨hfollows, by simp [starting, LoopState.new],
    h.issued.symm, h.state, by simp [starting, LoopState.new]⟩ ?_
  -- The state is published; the books are as they were.
  have hrest : AtRest ctx locals (s.withState starting) :=
    ⟨h.toBooks.withState (Nat.le_refl _) rfl, h.started, h.calling, h.index, .inl rfl⟩
  refine (ledgerMonitor ctx).wp_silent_call (silent rfl) fun view ↦ ?_
  refine (ledgerMonitor ctx).wp_silent_bind (fun _ ↦ silent)
    (uses_turnDeadline (fun _ ↦ books_of_plain) _) fun deadline ↦ ?_
  refine (ledgerMonitor ctx).wp_silent_bind_returns (fun _ ↦ silent)
    (P := fun prep ↦ prep ≠ .stop .maxToolRounds) ?_ ?_ fun prep hprep ↦ ?_
  · exact Prog.uses_bind (uses_portCall (Prog.uses_pure _ _) _ _ _) fun _ ↦ trivial
  · exact Prog.returns_bind (Prog.returns_true _) fun outcome _ ↦ promptPrep_ne outcome
  -- No prompt ends the loop for its tool rounds, so that nothing is owed at the end.
  cases prep with
  | stop path =>
    exact hrest.closing fun hpath ↦ hprep (congrArg PromptPrep.stop hpath)
  | ready messages =>
    refine (ledgerMonitor ctx).wp_bind_of (accounts_takeBoundary hrest true) ?_
    rintro boundary s' ⟨hstate, hs'⟩
    dsimp only
    -- A stale prompt, a request that cannot be built, and a request.
    split
    · exact (ledgerMonitor ctx).wp_silent_call (silent rfl) fun _ ↦ hs'
    · split
      · exact hs'.closing (by simp)
      · refine accounts_issueRequest hs' ?_ _ _
        rw [hstate]
        rfl

/-- One round of the loop of requests. -/
theorem accounts_requestRound [SerdeJson] (h : AtRest ctx locals s) :
    Accounts ctx s (requestRound ctx locals) (AfterRound ctx) := by
  unfold requestRound
  refine (ledgerMonitor ctx).wp_silent_call (silent rfl) fun cancelled ↦ ?_
  split
  · exact h.closing (by simp)
  refine (ledgerMonitor ctx).wp_silent_bind (fun _ ↦ silent) ?_ fun past ↦ ?_
  · unfold pastDeadline
    split
    · trivial
    · exact uses_call_bind rfl fun _ ↦ trivial
  split
  · exact h.closing (by simp)
  refine (ledgerMonitor ctx).wp_bind_of (accounts_takeBoundary h false) ?_
  exact fun boundary s' hs' ↦ accounts_prepareRequest hs'.2

/-! ## The report -/

/-- Only the limit of tool rounds is reported as such. -/
theorem returns_outcomeFor (path : FailPath) :
    (outcomeFor path).Returns fun outcome ↦
      outcome.summary = .failed .maxToolRounds ↔ path = .maxToolRounds := by
  cases path with
  | cancelled =>
    exact Prog.returns_call_bind fun reason ↦ by simp [Prog.Returns, LoopOutcome.summary]
  | _ => simp [outcomeFor, Prog.Returns, failure, modelFailure, LoopOutcome.summary]

/-- The ledger under the seal. -/
structure Sealed (ctx : LoopCtx) (ending : Ending) (finish : FinishSeal) (outcome : LoopOutcome)
    (s : Ledger) : Prop where
  before : Closing ctx ending.locals ending.path { s with finish := none }
  found : s.finish = some finish
  outcome : match finish with
    | .clean => outcome.summary = .failed .maxToolRounds ↔ ending.path = .maxToolRounds
    | .cancelledPrior source => outcome = .cancelled source.reason
    | .alreadyFinished => False

/-- The outcome agrees with what was counted. -/
theorem Sealed.explains {ending : Ending} {finish : FinishSeal} {outcome : LoopOutcome}
    (h : Sealed ctx ending finish outcome s) : s.Explains ctx outcome := by
  unfold Explains
  rw [h.found]
  have houtcome := h.outcome
  cases finish with
  | alreadyFinished => exact houtcome
  | cancelledPrior source => exact houtcome
  | clean =>
    intro hmax hfew
    refine houtcome.trans ?_
    rcases h.before.counted with ⟨hpath, hcalling⟩ | ⟨hpath, hcalling, -, hbatches⟩
    · -- Every response with tool calls had its batch.
      replace hcalling : s.calling = s.batches := hcalling
      constructor
      · exact fun h ↦ absurd h hpath
      · rintro ⟨hsame, hmore⟩
        omega
    · replace hcalling : s.calling = s.batches + 1 := hcalling
      replace hbatches : s.batches = ctx.options.maxToolRounds := hbatches hfew
      exact ⟨fun _ ↦ ⟨hbatches, by omega⟩, fun _ ↦ hpath⟩

/-- The report and the last two states. -/
theorem accounts_deliverReport {ending : Ending} {finish : FinishSeal} {outcome : LoopOutcome}
    (h : Sealed ctx ending finish outcome s) (discarded : Option ExecutionConfig) :
    Accounts ctx s (deliverReport ctx ending s.revision outcome discarded) fun report s' ↦
      s'.report = some report := by
  unfold deliverReport
  have hclosing := h.before
  have hreport : s.report = none := hclosing.report
  have hrevision : s.revision = s.issued := hclosing.revision.trans hclosing.issued.symm
  refine (ledgerMonitor ctx).wp_silent_call_of (silent rfl) fun _ appended happended ↦ ?_
  let finishing (model : Option ModelRef) : LoopState :=
    ⟨ctx.id, .finishing, ending.locals.lastIssuedRequestIndex.getD 0, s.revision, model, none⟩
  let finished (model : Option ModelRef) : LoopState :=
    ⟨ctx.id, .finished, ending.locals.lastIssuedRequestIndex.getD 0, s.revision, model, none⟩
  let closed : Ledger :=
    (s.withState (finishing s.state.model)).withState (finished s.state.model)
  have hlast : ending.locals.lastIssuedRequestIndex.getD 0 = lastIndex s.started :=
    congrArg (Option.getD · 0) hclosing.last
  -- The two last states keep the books, which are closed with them.
  have hfinal : Accounts ctx s (publishFinalStates ctx
      (ending.locals.lastIssuedRequestIndex.getD 0) s.revision) fun _ s' ↦ s' = closed := by
    refine (ledgerMonitor ctx).wp_silent_call_of (silent rfl) fun _ state hstate ↦ ?_
    obtain rfl : state = s.state := hstate
    refine accounts_publish hreport (finishing s.state.model) ⟨hclosing.follows,
      by simp [finishing], hrevision, ?_, fun _ ↦ hlast⟩ ?_
    · exact hclosing.state.trans hclosing.issued.ge |>.trans hrevision.ge
    refine (ledgerMonitor ctx).wp_silent_call_of (silent rfl) fun _ state hstate ↦ ?_
    obtain rfl : state = finishing s.state.model := hstate
    have hstate : (s.withState (finishing s.state.model)).PermitsState (finished s.state.model) :=
      ⟨rfl, by simp [finished], hrevision, Nat.le_refl _, fun _ ↦ hlast⟩
    refine (ledgerMonitor ctx).wp_call_bind_of ⟨fun _ ↦ hreport, ?_, ?_, ?_⟩ fun n _ _ ↦ ?_
    · rintro state' hsame
      obtain rfl := Op.publishState.inj hsame
      exact hstate
    · rintro _ _ _ _ _ ⟨⟩
    · rintro _ ⟨⟩
    · exact (ledgerMonitor ctx).wp_call_of (permits_of_books rfl) fun _ _ _ ↦ rfl
  refine (ledgerMonitor ctx).wp_bind_of hfinal ?_
  rintro - _ rfl
  refine (ledgerMonitor ctx).wp_call_bind_of ⟨fun _ ↦ hreport, ?_, ?_, ?_⟩ fun n _ _ ↦ ?_
  · rintro _ ⟨⟩
  · rintro _ _ _ _ _ ⟨⟩
  · rintro report hsame
    obtain rfl := Op.sendReport.inj hsame
    exact ⟨rfl, hclosing.requests, hclosing.toolRounds, hrevision, happended, hclosing.level,
      hclosing.limit, h.explains⟩
  refine (ledgerMonitor ctx).wp_silent_call (silent rfl) fun _ ↦ ?_
  refine (ledgerMonitor ctx).wp_silent_call (silent rfl) fun _ ↦ ?_
  exact (ledgerMonitor ctx).wp_silent_bind (fun _ ↦ silent)
    (uses_dropConfig (fun _ ↦ books_of_plain) discarded) fun _ ↦ rfl

/-- The seal is noted, and its critical section is not about the rest of the ledger. -/
theorem accounts_finishOnce (hreport : s.report = none) :
    Accounts ctx s finishOnce fun x s' ↦ s' = { s with finish := some x.1 } := by
  unfold finishOnce
  refine (ledgerMonitor ctx).wp_call_bind_of ⟨fun _ ↦ hreport, ?_, ?_, ?_⟩ fun n finish _ ↦ ?_
  · rintro _ ⟨⟩
  · rintro _ _ _ _ _ ⟨⟩
  · rintro _ ⟨⟩
  have hclose : Accounts ctx { s with finish := some finish }
      ((perform .closeAccepting).bind fun discarded ↦ Prog.pure (finish, discarded))
      fun x s' ↦ s' = { s with finish := some x.1 } :=
    (ledgerMonitor ctx).wp_silent_call (silent rfl) fun discarded ↦ rfl
  cases finish with
  | cancelledPrior source => exact (ledgerMonitor ctx).wp_silent_call (silent rfl) fun _ ↦ hclose
  | clean => exact hclose
  | alreadyFinished => exact hclose

/-- The seal and the report. -/
theorem accounts_finishLoop {ending : Ending} (h : Closing ctx ending.locals ending.path s) :
    Accounts ctx s (finishLoop ctx ending) fun report s' ↦ s'.report = some report := by
  unfold finishLoop
  refine (ledgerMonitor ctx).wp_silent_call_of (silent rfl) fun _ revision hrevision ↦ ?_
  obtain rfl : revision = s.revision := hrevision
  refine (ledgerMonitor ctx).wp_silent_bind_returns (fun _ ↦ silent)
    (uses_outcomeFor (fun _ ↦ books_of_plain) ending.path)
    (returns_outcomeFor ending.path) fun intended hintended ↦ ?_
  refine (ledgerMonitor ctx).wp_bind_of (accounts_finishOnce h.report) ?_
  rintro ⟨finish, discarded⟩ _ rfl
  have hbefore : Closing ctx ending.locals ending.path
      { ({ s with finish := some finish } : Ledger) with finish := none } := by
    have hsame : { ({ s with finish := some finish } : Ledger) with finish := none } = s := by
      rw [← h.finish]
    rw [hsame]
    exact h
  cases finish with
  | clean =>
    exact accounts_deliverReport (s := { s with finish := some .clean })
      ⟨hbefore, rfl, hintended⟩ discarded
  | cancelledPrior source =>
    exact accounts_deliverReport (s := { s with finish := some (.cancelledPrior source) })
      ⟨hbefore, rfl, rfl⟩ discarded
  | alreadyFinished =>
    -- Nobody else seals the loop, so that there would be no report to hand back.
    refine (ledgerMonitor ctx).wp_silent_call_of (silent rfl) fun _ report hreport ↦ ?_
    obtain rfl : report = s.report := hreport
    rw [h.report]
    trivial

/-- The runner of a loop. -/
theorem accounts_runLoopInner [SerdeJson] (ctx : LoopCtx) (request : LoopRequest) :
    Accounts ctx (.init ctx.id) (runLoopInner ctx request) fun report s ↦
      s.report = some report := by
  unfold runLoopInner
  have hstart : AtRest ctx (.start request.config) (.init ctx.id) :=
    ⟨⟨rfl, rfl, rfl, rfl, Nat.le_refl _, rfl, Nat.le_refl _, rfl, rfl, rfl,
      fun _ _ ↦ Nat.zero_le _⟩,
      rfl, rfl, rfl, .inl rfl⟩
  refine (ledgerMonitor ctx).wp_silent_call (silent rfl) fun _ ↦ ?_
  refine (ledgerMonitor ctx).wp_stable_bind (stable_append rfl rfl) rfl ?_
  rintro - _ rfl
  refine (ledgerMonitor ctx).wp_bind_of
    (Q := fun ending s ↦ Closing ctx ending.locals ending.path s) ?_ fun ending s hs ↦ ?_
  · -- Each round begins and ends at rest, or closes.
    refine (ledgerMonitor ctx).wp_iterate (fun locals s ↦ AtRest ctx locals s) hstart ?_
    exact fun locals s h ↦ (ledgerMonitor ctx).wp_mono_returned (accounts_requestRound h)
      fun _ _ hx ↦ hx
  · refine (ledgerMonitor ctx).wp_bind_of (accounts_finishLoop hs) fun report s' hreport ↦ ?_
    refine (ledgerMonitor ctx).wp_silent_bind (fun _ ↦ silent)
      (uses_dropConfig (fun _ ↦ books_of_plain) _) fun _ ↦ ?_
    exact (ledgerMonitor ctx).wp_silent_call (silent rfl) fun _ ↦ hreport

/-- A report that was delivered balances the ledger. -/
theorem balanced_of_accepts {ctx : LoopCtx} {trace : List (Entry interface Nat)}
    (h : (ledgerMonitor ctx).Accepts trace) {report : LoopReport}
    (hreport : Ledger.report ((ledgerMonitor ctx).run trace) = some report) :
    Balanced ctx ((ledgerMonitor ctx).run trace) report := by
  refine Monitor.Accepts.invariant (ledgerMonitor ctx)
    (J := fun s : Ledger ↦ ∀ report, s.report = some report → s.Balanced ctx report)
    (fun report h ↦ absurd h (by simp [ledgerMonitor, init])) ?_ h report hreport
  intro s o n r hs hpermits _ report hreport
  cases hbooks : books o with
  | false =>
    have hsame : s.next o r = s := next_eq hbooks s r
    replace hreport : (s.next o r).report = some report := hreport
    show (s.next o r).Balanced ctx report
    rw [hsame] at hreport ⊢
    exact hs report hreport
  | true =>
    -- Of the operations that the ledger is about, only the delivery leaves a report.
    have hnone := hpermits.running hbooks
    cases o with
    | sendReport delivered =>
      obtain rfl := Option.some.inj hreport
      obtain ⟨h₁, h₂, h₃, h₄, h₅, h₆, h₇, h₈⟩ := hpermits.delivered _ rfl
      exact ⟨h₁, h₂, h₃, h₄, h₅, h₆, h₇, h₈⟩
    | tryEmit event =>
      cases event with
      | requestStarted id index revision model reasoning =>
        exact absurd (hnone.symm.trans hreport) (by simp)
      | _ => exact absurd hbooks (by simp [books])
    | takeConfig =>
      cases r <;> exact absurd (hnone.symm.trans hreport) (by simp)
    | publishState state => exact absurd (hnone.symm.trans hreport) (by simp)
    | commitRevision revision => exact absurd (hnone.symm.trans hreport) (by simp)
    | append item => exact absurd (hnone.symm.trans hreport) (by simp)
    | sealState => exact absurd (hnone.symm.trans hreport) (by simp)
    | _ => exact absurd hbooks (by simp [books])

end Ledger

end MinicoreRuntime
