import MinicoreRuntime.AgentLoop.Transcript
import MinicoreRuntime.AgentLoop.Traversal
import MinicoreRuntime.Usage

/-!
# What a report says about its loop

A report comes with an outcome, a usage and the items that were appended. A host that keeps only one
of them should not be misled about the others: the outcome agrees with how the items end, the usage
is the total of the usages of the responses among them, and every request has its response there,
but for one that a failure or a cancellation may have left without.

## Main definitions

* `responses`, `concludedBy`: what the items of a report say.
* `ModelFinishReason.verdict`: the outcome that a last response stands for.
* `Tally`, `Tally.Explains`: what was appended, and why the loop of requests may end.
* `LoopReport.Faithful`: a report that agrees with its items.

## Main results

* `tally_requestRound`: a round ends the loop for a reason that its items bear out.
* `report_faithful`: every report agrees with its items.
-/

namespace MinicoreRuntime

open Interactive

/-! ## What items say -/

/-- The responses among some items. -/
def responses (items : List HistoryItem) : List AssistantHistory :=
  items.filterMap fun item ↦ match item with
    | .assistant item => some item
    | _ => none

/-- The usages of the responses among some items. -/
def usages (items : List HistoryItem) : List Usage := (responses items).map AssistantHistory.usage

/-- The finish reason of the last of some items, if it is a response without tool calls. -/
def concludedBy (items : List HistoryItem) : Option ModelFinishReason :=
  match items.getLast? with
  | some (.assistant item) =>
    if (toolCalls item.content).isEmpty then some item.finishReason else none
  | _ => none

/-- The outcome that a last response without tool calls stands for. -/
def ModelFinishReason.verdict : ModelFinishReason → Option LoopOutcomeSummary
  | .stop => some .completed
  | .length => some (.failed .outputLimit)
  | .refused => some (.failed .refused)
  | .contentFiltered => some (.failed .contentFiltered)
  | .unknown | .toolCalls => none

/-- A report that agrees with its items, of a loop that issued this many requests. -/
structure LoopReport.Faithful (report : LoopReport) (issued : Nat) : Prop where
  /-- A last response without tool calls decides the outcome, unless a cancellation came before the
  report. -/
  concluded : ∀ reason, concludedBy report.appended = some reason →
    reason.verdict = some report.outcome.summary ∨
      ∃ source : CancelSource, report.outcome.summary = .cancelled source.reason
  /-- The outcomes that a last response stands for come from one. -/
  conclusive : ∀ reason : ModelFinishReason, reason.verdict = some report.outcome.summary →
    concludedBy report.appended = some reason
  /-- At most the last request has no response. -/
  answered : issued = (responses report.appended).length ∨
    issued = (responses report.appended).length + 1 ∧
      ((∃ reason, report.outcome.summary = .cancelled reason) ∨
        report.outcome.summary ∈ [LoopOutcomeSummary.failed .model,
          .failed .invalidModelResponse, .failed .internal])
  /-- A failure of the model leaves the last request without a response. -/
  unanswered : report.outcome.summary = .failed .model ∨
      report.outcome.summary = .failed .invalidModelResponse →
    issued = (responses report.appended).length + 1
  /-- The usage is the total of the responses, to which one that was rejected may be added. -/
  usage : IsTotal report.usage (usages report.appended) ∨
    issued = (responses report.appended).length + 1 ∧
      (report.outcome.summary = .failed .invalidModelResponse ∨
        ∃ source : CancelSource, report.outcome.summary = .cancelled source.reason) ∧
      ∃ rejected, IsTotal report.usage (usages report.appended ++ [rejected])

section Items

variable {items : List HistoryItem} {item : HistoryItem}

theorem responses_append (items items' : List HistoryItem) :
    responses (items ++ items') = responses items ++ responses items' :=
  List.filterMap_append

theorem usages_append (items items' : List HistoryItem) :
    usages (items ++ items') = usages items ++ usages items' := by
  rw [usages, responses_append, List.map_append]
  rfl

/-- Inputs and results are no responses. -/
theorem responses_snoc (h : ∀ response, item ≠ .assistant response) :
    responses (items ++ [item]) = responses items := by
  rw [responses_append]
  cases item with
  | assistant response => exact absurd rfl (h response)
  | _ => exact List.append_nil _

/-- An item other than a response without tool calls concludes nothing. -/
theorem concludedBy_snoc
    (h : ∀ response, item = .assistant response → (toolCalls response.content).isEmpty = false) :
    concludedBy (items ++ [item]) = none := by
  rw [concludedBy, List.getLast?_concat]
  cases item with
  | assistant response => exact if_neg (by simp [h response rfl])
  | _ => rfl

theorem concludedBy_response {response : AssistantHistory}
    (h : (toolCalls response.content).isEmpty = true) :
    concludedBy (items ++ [.assistant response]) = some response.finishReason := by
  rw [concludedBy, List.getLast?_concat]
  exact if_pos h

end Items

/-- What is added to a total is added to its values. -/
theorem UsageAccumulator.add_isTotal {acc acc' : UsageAccumulator} {value : Usage}
    {values : List Usage} (h : IsTotal acc.finish values) (hadd : acc.add value = some acc') :
    IsTotal acc'.finish (values ++ [value]) := by
  obtain ⟨total, hsum, rfl⟩ := Option.map_eq_some_iff.mp hadd
  exact h.append (sumUsage_isTotal.mp hsum).2

/-- Nothing was reported before the first response. -/
theorem UsageAccumulator.default_isTotal : IsTotal UsageAccumulator.default.finish [] := by
  intro field
  simp [UsageAccumulator.default, finish]

/-! ## Why the loop of requests ends -/

/-- The paths on which a loop may end although every request has its response. -/
def FailPath.settled : FailPath → Bool
  | .cancelled | .deadline | .prompt | .policy | .interaction | .maxToolRounds | .internal => true
  | _ => false

/-- The paths on which the tool calls of a response may end the loop. -/
def FailPath.stops : FailPath → Bool
  | .cancelled | .deadline | .policy | .interaction | .internal => true
  | _ => false

theorem FailPath.settled_of_stops {path : FailPath} (h : path.stops = true) :
    path.settled = true := by
  cases path <;> first | rfl | exact absurd h (by simp [stops])

/-- What a batch of tool calls may stop on. -/
def BatchStop (path : Option FailPath) : Prop := path.elim True fun path ↦ path.stops = true

/-- The paths on which a request may stay without a response. -/
def FailPath.unanswered : FailPath → Bool
  | .cancelled | .deadline | .model _ | .invalidModelResponse _ | .internal => true
  | _ => false

/-- The outcomes that a path may be reported with. -/
def FailPath.tells : FailPath → LoopOutcomeSummary → Bool
  | .completed, .completed | .cancelled, .cancelled _ | .deadline, .cancelled .deadline
  | .prompt, .failed .prompt | .model _, .failed .model
  | .invalidModelResponse _, .failed .invalidModelResponse | .outputLimit, .failed .outputLimit
  | .refused, .failed .refused | .contentFiltered, .failed .contentFiltered
  | .policy, .failed .policy | .interaction, .failed .interaction
  | .maxToolRounds, .failed .maxToolRounds | .internal, .failed .internal => true
  | _, _ => false

/-! ## Parts of a runner -/

section

variable {S : Op → Prop}

theorem uses_pastDeadline (hnow : S .now) (deadline : Option Nat) :
    (pastDeadline deadline).Uses S := by
  unfold pastDeadline
  split
  · trivial
  · exact uses_call_bind hnow fun _ ↦ trivial

/-- The operations of the critical section that seals the loop. -/
theorem uses_seal (hseal : S .sealState) (hcancelled : ∀ source, S (.sealCancelled source))
    (hclose : S .closeAccepting) : finishOnce.Uses S := by
  refine uses_call_bind hseal fun finish ↦ ?_
  have hrest : ((perform .closeAccepting).bind fun discarded ↦
      Prog.pure (finish, discarded)).Uses S := uses_call_bind hclose fun _ ↦ trivial
  cases finish with
  | cancelledPrior source => exact uses_call_bind (hcancelled source) fun _ ↦ hrest
  | clean => exact hrest
  | alreadyFinished => exact hrest

/-- The operations of the last two states. -/
theorem uses_finalStates (ctx : LoopCtx) (hstate : S .currentState)
    (hpublish : ∀ state, S (.publishState state))
    (hemit : ∀ state, S (.tryEmit (.stateChanged state))) (requestIndex revision : Nat) :
    (publishFinalStates ctx requestIndex revision).Uses S := by
  have hstates : ∀ state : LoopState, (publish state).Uses S :=
    fun state ↦ uses_call_bind (hpublish state) fun _ ↦ ⟨hemit state, fun _ ↦ trivial⟩
  refine uses_call_bind hstate fun state ↦ Prog.uses_bind (hstates _) fun _ ↦ ?_
  exact uses_call_bind hstate fun state ↦ hstates _

end

/-! ## What tool calls stop on -/

section

variable {ctx : LoopCtx}

/-- A question to the host may end the loop. -/
theorem batchStop_askHost (invocation : ToolInvocation) (kind : InteractionKind) :
    (askHost ctx invocation kind).Returns fun answer ↦ BatchStop (answerPath? answer) := by
  refine Prog.returns_call_bind fun id ↦ ?_
  cases id with
  | none => rfl
  | some id =>
    refine Prog.returns_call_bind fun channel ↦ Prog.returns_call_bind fun set ↦ ?_
    cases set with
    | false => rfl
    | true =>
      refine Prog.returns_call_bind fun waiting ↦ ?_
      refine Prog.returns_bind (Prog.returns_true (publish _)) fun _ _ ↦ ?_
      refine Prog.returns_call_bind fun _ ↦ ?_
      refine Prog.returns_bind (R := fun answer ↦ BatchStop (answerPath? answer)) ?_ ?_
      · refine Prog.returns_iterate (fun _ ↦ True) trivial fun _ _ ↦
          Prog.returns_call_bind fun polled ↦ ?_
        rcases polled with - | - | (- | answer) | - | -
        all_goals simp [Prog.Returns, BatchStop, answerPath?, FailPath.stops]
      · rintro (path | answer) hanswer
        · exact Prog.returns_call_bind fun _ ↦ hanswer
        · refine Prog.returns_call_bind fun _ ↦ Prog.returns_call_bind fun _ ↦
            Prog.returns_call_bind fun running ↦ ?_
          exact Prog.returns_bind (Prog.returns_true (publish _)) fun _ _ ↦ trivial

theorem batchStop_deniedResult (requestIndex : Nat) (invocation : ToolInvocation)
    (reason : Option BoundedText) :
    (deniedResult ctx requestIndex invocation reason).Returns fun step ↦ BatchStop step.path? := by
  unfold deniedResult
  split <;> trivial

theorem batchStop_toolPort (outcome : PortCallOutcome .tool) :
    BatchStop (toolPort outcome).path? := by
  unfold toolPort
  split <;> first | trivial | rfl | (split <;> trivial)

/-- A call that may run. -/
theorem batchStop_executeTool (requestIndex : Nat) (invocation : ToolInvocation)
    (enabled : EnabledTool) :
    (executeTool ctx requestIndex invocation enabled).Returns fun step ↦ BatchStop step.path? := by
  refine Prog.returns_bind (Prog.returns_true _) fun deadline _ ↦ ?_
  refine Prog.returns_bind (R := fun tool ↦ BatchStop tool.path?) ?_ ?_
  · refine Prog.returns_call_bind fun _ ↦ ?_
    refine Prog.returns_bind (Prog.returns_true _) fun outcome _ ↦ ?_
    refine Prog.returns_call_bind fun _ ↦ Prog.returns_call_bind fun _ ↦ ?_
    refine Prog.returns_bind (Prog.returns_true _) fun _ _ ↦ ?_
    exact Prog.returns_call_bind fun _ ↦ batchStop_toolPort outcome
  · rintro (output | request | - | path) htool
    · trivial
    · refine Prog.returns_bind (batchStop_askHost invocation _) ?_
      rintro (path | decision | answer) hanswer
      · exact hanswer
      · rfl
      · dsimp only
        split <;> trivial
    · trivial
    · exact htool

/-- The calls of a response may end the loop, but not as a model would. -/
theorem batchStop_runToolBatch (requestIndex : Nat) (snapshot : ExecutionConfig)
    (calls : List ToolCall) :
    (runToolBatch ctx requestIndex snapshot calls).Returns BatchStop := by
  have hcall : ∀ invocation enabled policy,
      (runToolCall ctx requestIndex invocation enabled policy).Returns
        fun step ↦ BatchStop step.path? := by
    intro invocation enabled policy
    refine Prog.returns_bind (Prog.returns_true _) fun deadline _ ↦ ?_
    refine Prog.returns_bind (Prog.returns_true _) fun step _ ↦ ?_
    cases step with
    | allow => exact batchStop_executeTool requestIndex invocation enabled
    | denied reason => exact batchStop_deniedResult requestIndex invocation reason
    | requireApproval request =>
      refine Prog.returns_bind (batchStop_askHost invocation _) ?_
      rintro (path | (- | -) | answer) hanswer
      · exact hanswer
      · exact batchStop_executeTool requestIndex invocation enabled
      · exact batchStop_deniedResult requestIndex invocation none
      · rfl
    | cancelled => rfl
    | turnDeadline => rfl
    | invalid => rfl
  -- By the calls: the path of the batch is the path of the call that stopped it.
  induction calls with
  | nil => trivial
  | cons call calls ih =>
    refine Prog.returns_bind (R := fun step ↦ BatchStop step.path?) ?_ ?_
    · refine Prog.returns_call_bind fun cancelled ↦ ?_
      split
      · rfl
      · split
        · trivial
        · exact Prog.returns_call_bind fun _ ↦ hcall _ _ _
    · rintro (result | path) hstep
      · exact Prog.returns_call_bind fun _ ↦ Prog.returns_call_bind fun _ ↦ ih
      · exact Prog.returns_bind (Prog.returns_true _) fun _ _ ↦ hstep

end

/-! ## Tallies -/

/-- How many requests were issued, what was appended, and the report. -/
structure Tally where
  issued : Nat
  items : List HistoryItem
  report : Option LoopReport

namespace Tally

/-- The tally after an operation. -/
def next (s : Tally) : Op → Tally
  | .commitRevision _ => { s with issued := s.issued + 1 }
  | .append item => { s with items := s.items ++ [item] }
  | .sendReport report => { s with report := some report }
  | _ => s

/-- So many requests have no response yet, the others add up to the usage, and nothing concludes the
loop. -/
structure Open (s : Tally) (missing : Nat) (usage : UsageAccumulator) : Prop where
  report : s.report = none
  issued : s.issued = (responses s.items).length + missing
  concluded : concludedBy s.items = none
  usage : IsTotal usage.finish (usages s.items)

/-- The reasons to end the loop of requests on a path, with this usage. -/
inductive Explains (s : Tally) (usage : Usage) : FailPath → Prop
  /-- The last response has no tool calls. -/
  | concluded {reason : ModelFinishReason} {path : FailPath} :
    concludedBy s.items = some reason → noToolFinish reason = .ok path →
    s.issued = (responses s.items).length → IsTotal usage (usages s.items) → Explains s usage path
  /-- The loop stopped between requests or among tool calls. -/
  | stopped {path : FailPath} : path.settled = true →
    concludedBy s.items = none → s.issued = (responses s.items).length →
    IsTotal usage (usages s.items) → Explains s usage path
  /-- The last request has no response. -/
  | unanswered {path : FailPath} : path.unanswered = true →
    concludedBy s.items = none → s.issued = (responses s.items).length + 1 →
    IsTotal usage (usages s.items) → Explains s usage path
  /-- The last response was rejected when its usage was counted already. -/
  | rejected {value : Usage} : concludedBy s.items = none →
    s.issued = (responses s.items).length + 1 →
    IsTotal usage (usages s.items ++ [value]) →
    Explains s usage (.invalidModelResponse unsupportedFinish)

/-- An outcome of a path, or of a cancellation before the seal. -/
def Reports (path : FailPath) (outcome : LoopOutcomeSummary) : Prop :=
  path.tells outcome = true ∨ ∃ source : CancelSource, outcome = .cancelled source.reason

/-- What a report has to say. -/
def Bears (s : Tally) (report : LoopReport) : Prop :=
  ∃ path, s.Explains report.usage path ∧ Reports path report.outcome.summary

/-- The rules: nothing is issued or appended once there is a report, which a reason bears out. -/
def Permits (s : Tally) : Op → Prop
  | .commitRevision _ | .append _ => s.report = none
  | .sendReport report => s.report = none ∧ s.Bears report
  | _ => True

end Tally

/-- The monitor of tallies. -/
def tallyMonitor : Monitor interface Nat where
  State := Tally
  init := ⟨0, [], none⟩
  allowed := Tally.Permits
  expects _ _ _ _ := True
  next s o _ _ := s.next o

namespace Tally

variable {ctx : LoopCtx} {s : Tally} {missing : Nat} {usage : UsageAccumulator} {path : FailPath}
  {α β : Type}

/-- From the tally `s` the program keeps the rules, and where it returns `Q` holds. -/
abbrev Keeps (s : Tally) (p : Action α) (Q : α → Tally → Prop) : Prop :=
  tallyMonitor.wp p (.ofReturned Q) s

/-- Operations that a tally is about. -/
def counts : Op → Bool
  | .commitRevision _ | .append _ | .sendReport _ => true
  | _ => false

/-- The tally is not about other operations. -/
theorem tally_silent {o : Op} (h : counts o = false) : tallyMonitor.Silent o := by
  refine fun s ↦ ⟨?_, fun _ _ ↦ ?_⟩
  · show s.Permits o
    cases o with
    | commitRevision _ | append _ | sendReport _ => exact absurd h (by simp [counts])
    | _ => trivial
  · show s.next o = s
    cases o <;> first | rfl | exact absurd h (by simp [counts])

theorem counts_of_plain {o : Op} (h : o.plain = true) : counts o = false := by
  cases o <;> first | rfl | exact absurd h (by simp [Op.plain])

/-- Inputs and results leave the loop as open as it was. -/
theorem stable_item {item : HistoryItem} (h : ∀ response, item ≠ .assistant response) :
    tallyMonitor.Stable (fun s ↦ s.Open missing usage) (.append item) := by
  intro s hs
  refine ⟨hs.report, fun _ _ _ ↦ ⟨hs.report, ?_, ?_, ?_⟩⟩
  · exact hs.issued.trans (congrArg (List.length · + missing) (responses_snoc h).symm)
  · exact concludedBy_snoc fun response heq ↦ absurd heq (h response)
  · show IsTotal usage.finish ((responses (s.items ++ [item])).map _)
    rw [responses_snoc h]
    exact hs.usage

theorem Open.stopped (h : s.Open 0 usage) (hpath : path.settled = true) :
    s.Explains usage.finish path := .stopped hpath h.concluded h.issued h.usage

theorem Open.unanswered (h : s.Open 1 usage) (hpath : path.unanswered = true) :
    s.Explains usage.finish path := .unanswered hpath h.concluded h.issued h.usage

/-! ## Prompts and tool calls -/

/-- What a prompt may stop on. -/
def stopPath : Option FailPath → Prop
  | none => True
  | some path => path.settled = true

/-- Tool calls leave the loop open. -/
theorem open_traversal [SerdeJson] (usage : UsageAccumulator) :
    Traversal tallyMonitor ctx (fun s ↦ s.Open 0 usage) fun _ s ↦ s.Open 0 usage := by
  refine .ofServing fun o ho ↦ ?_
  cases o with
  | append item =>
    cases item with
    | toolResult item => exact stable_item (by simp)
    | _ => exact absurd ho (by simp [Op.serves, Op.plain, Op.calls, Op.asks])
  | commitRevision _ | sendReport _ =>
    exact absurd ho (by simp [Op.serves, Op.plain, Op.calls, Op.asks])
  | _ => exact (tally_silent rfl).stable _

/-! ## Rounds -/

/-- The tally after a round. -/
def AfterRound (x : Locals ⊕ Ending) (s : Tally) : Prop :=
  x.elim (fun locals ↦ s.Open 0 locals.usage) fun ending ↦
    s.report = none ∧ s.Explains ending.locals.usage.finish ending.path

variable {locals : Locals}

theorem tally_runCalls [SerdeJson] (h : s.Open 0 locals.usage) (snapshot : ExecutionConfig)
    (calls : List ToolCall) : s.Keeps (runCalls ctx snapshot locals calls) AfterRound := by
  unfold runCalls
  split
  · refine tallyMonitor.wp_bind_of
      (Traversal.settleCalls (K := fun s : Tally ↦ s.Open 0 locals.usage)
      (fun _ ↦ stable_item (by simp)) locals.requestIndex _ _ calls h) ?_
    exact fun _ s' hs' ↦ ⟨hs'.report, hs'.stopped rfl⟩
  · refine wp_silent_publish (tally_silent rfl) (tally_silent rfl) ?_
    have htools : Traversal tallyMonitor ctx _ _ := open_traversal locals.usage
    have hbatch := tallyMonitor.wp_and_returns
      (htools.runToolBatch locals.requestIndex snapshot calls h)
      (batchStop_runToolBatch locals.requestIndex snapshot calls)
    refine tallyMonitor.wp_bind_of (tallyMonitor.wp_mono hbatch (fun _ _ hs' ↦ hs')
      fun _ _ ↦ trivial) ?_
    rintro (- | path) s' ⟨hopen, hpath⟩
    · exact hopen
    · exact ⟨Open.report hopen, Open.stopped hopen (FailPath.settled_of_stops hpath)⟩

/-- What follows a response. Its usage is counted before it is looked at. -/
theorem tally_handleResponse [SerdeJson] (h : s.Open 1 locals.usage) (snapshot : ExecutionConfig)
    (response : ModelResponse) :
    s.Keeps (handleResponse ctx snapshot locals response) AfterRound := by
  unfold handleResponse
  cases hadd : locals.usage.add (response.usage.getD .default) with
  | none => exact ⟨h.report, h.unanswered rfl⟩
  | some usage =>
    have htotal := UsageAccumulator.add_isTotal h.usage hadd
    let item := assistantHistory ctx locals.requestIndex snapshot response
    have happend : ∀ {β : Type} {f : Unit → Action β} {Q : β → Tally → Prop},
        ({ s with items := s.items ++ [.assistant item] } : Tally).Keeps (f ()) Q →
        s.Keeps ((perform (.append (.assistant item))).bind f) Q :=
      fun hf ↦ tallyMonitor.wp_call_bind_of h.report fun _ _ _ ↦ hf
    -- With the item there is a response for each request issued, and the totals agree.
    have hissued : s.issued = (responses (s.items ++ [.assistant item])).length := by
      rw [responses_append, List.length_append]
      exact h.issued
    have hitems : IsTotal usage.finish (usages (s.items ++ [.assistant item])) := by
      rw [usages_append]
      exact htotal
    dsimp only
    split
    · rename_i hcalls
      cases hpath : noToolFinish response.finishReason with
      | error path =>
        -- A finish reason that is not supported is the only error.
        obtain rfl : path = .invalidModelResponse unsupportedFinish := by
          unfold noToolFinish at hpath
          split at hpath <;> simp_all
        exact ⟨h.report, .rejected h.concluded h.issued htotal⟩
      | ok path =>
        refine happend ?_
        have hends : Explains { s with items := s.items ++ [.assistant item] } usage.finish path :=
          .concluded (concludedBy_response hcalls) hpath hissued hitems
        split
        · exact tallyMonitor.wp_silent_call (tally_silent rfl) fun _ ↦ ⟨h.report, hends⟩
        · exact ⟨h.report, hends⟩
    · rename_i hcalls
      have hopen : ({ s with items := s.items ++ [.assistant item] } : Tally).Open 0 usage := by
        refine ⟨h.report, hissued, concludedBy_snoc ?_, hitems⟩
        rintro _ ⟨⟩
        exact Bool.eq_false_iff.mpr hcalls
      refine happend (tally_runCalls ?_ snapshot _)
      exact hopen

/-- A failed request may end the loop without a response. -/
theorem returns_mapModelFailure_unanswered (failure : ModelDriverFailure) :
    (mapModelFailure failure).Returns fun path ↦ path.unanswered = true := by
  refine Prog.returns_call_bind fun cancelled ↦ ?_
  split
  · rfl
  · split
    · rfl
    · split <;> rfl

/-- A request that is issued has no response yet. -/
theorem tally_issueRequest [SerdeJson] (h : s.Open 0 locals.usage) (snapshot : ExecutionConfig)
    (request : ModelRequest) :
    s.Keeps (issueRequest ctx snapshot locals request) AfterRound := by
  unfold issueRequest
  refine tallyMonitor.wp_call_bind_of h.report fun _ _ _ ↦ ?_
  -- One request is open from here on.
  have hopen : ({ s with issued := s.issued + 1 } : Tally).Open 1 locals.usage :=
    ⟨h.report, congrArg (· + 1) h.issued, h.concluded, h.usage⟩
  refine tallyMonitor.wp_silent_call (tally_silent rfl) fun _ ↦ ?_
  refine wp_silent_publish (tally_silent rfl) (tally_silent rfl) ?_
  refine tallyMonitor.wp_silent_bind (fun _ ↦ tally_silent)
    (uses_turnDeadline (fun _ ↦ counts_of_plain) _) fun deadline ↦ ?_
  have hdrain : (drainProgress ctx locals.requestIndex).Uses fun o : Op ↦ counts o = false :=
    uses_drainProgress (fun _ ↦ counts_of_plain) ctx locals.requestIndex
  refine tallyMonitor.wp_silent_bind (fun _ ↦ tally_silent) ?_ fun result ↦ ?_
  · refine uses_call_bind rfl fun _ ↦ Prog.uses_bind ?_ fun result ↦ ?_
    · exact uses_runDetailed (fun _ ↦ counts_of_plain) hdrain fun _ ↦ rfl
    · refine uses_call_bind rfl fun _ ↦ uses_call_bind rfl fun _ ↦ ?_
      exact Prog.uses_bind hdrain fun _ ↦ trivial
  -- A failure leaves it unanswered; a response closes it.
  cases result with
  | error failure =>
    refine tallyMonitor.wp_silent_bind_returns (fun _ ↦ tally_silent)
      (uses_mapModelFailure (fun _ ↦ counts_of_plain) failure)
      (returns_mapModelFailure_unanswered failure) fun path hpath ↦ ?_
    exact ⟨hopen.report, hopen.unanswered hpath⟩
  | ok response =>
    refine tally_handleResponse ?_ snapshot response
    exact hopen

/-- Taking a configuration and the inputs leaves the loop open. -/
theorem tally_takeBoundary_bind (h : s.Open 0 usage) (pinned : Bool) (config : ExecutionConfig)
    (candidate : Option Nat) {f : Boundary → Action α} {Q : α → Tally → Prop}
    (hf : ∀ boundary (s' : Tally), s'.Open 0 usage → s'.Keeps (f boundary) Q) :
    s.Keeps ((takeBoundary ctx pinned config candidate).bind f) Q := by
  have hboundary : s.Keeps (takeBoundary ctx pinned config candidate) fun _ s' ↦ s'.Open 0 usage :=
    Traversal.takeBoundary (fun _ ho ↦ (tally_silent (counts_of_plain ho)).stable _)
      ((tally_silent rfl).stable _) ((tally_silent rfl).stable _)
      (fun _ ↦ stable_item (by simp)) pinned config candidate h
  exact tallyMonitor.wp_bind_of hboundary hf

theorem tally_prepareRequest [SerdeJson] (h : s.Open 0 locals.usage) :
    s.Keeps (prepareRequest ctx locals) AfterRound := by
  unfold prepareRequest
  refine wp_silent_publish (tally_silent rfl) (tally_silent rfl) ?_
  refine tallyMonitor.wp_silent_call (tally_silent rfl) fun view ↦ ?_
  refine tallyMonitor.wp_silent_bind (fun _ ↦ tally_silent)
    (uses_turnDeadline (fun _ ↦ counts_of_plain) _) fun deadline ↦ ?_
  refine tallyMonitor.wp_silent_bind_returns (fun _ ↦ tally_silent)
    -- A prompt stops the loop on a path that needs no response.
    (P := fun prep ↦ stopPath prep.path?) ?_ ?_ fun prep hprep ↦ ?_
  · refine Prog.uses_bind ?_ fun _ ↦ trivial
    refine Traversal.uses_runPortCall (fun _ ↦ counts_of_plain) (fun o ho ↦ ?_)
      (Prog.uses_pure _ _) _ _ _
    cases o <;> first | rfl | exact absurd ho (by simp [Op.calls])
  · refine Prog.returns_bind (Prog.returns_true _) fun outcome _ ↦ ?_
    show stopPath (promptPrep outcome).path?
    unfold promptPrep
    split <;> first | rfl | (split <;> first | rfl | trivial)
  cases prep with
  | stop path => exact ⟨h.report, h.stopped hprep⟩
  | ready messages =>
    refine tally_takeBoundary_bind h true _ _ fun boundary s' hs' ↦ ?_
    dsimp only
    split
    · exact tallyMonitor.wp_silent_call (tally_silent rfl) fun _ ↦ hs'
    · split
      · exact ⟨hs'.report, hs'.stopped rfl⟩
      · refine tally_issueRequest ?_ _ _
        exact hs'

/-- One round of the loop of requests. -/
theorem tally_requestRound [SerdeJson] (h : s.Open 0 locals.usage) :
    s.Keeps (requestRound ctx locals) AfterRound := by
  unfold requestRound
  refine tallyMonitor.wp_silent_call (tally_silent rfl) fun cancelled ↦ ?_
  split
  · exact ⟨h.report, h.stopped rfl⟩
  have hdeadline := uses_pastDeadline (S := fun o ↦ counts o = false) rfl ctx.options.deadline
  refine tallyMonitor.wp_silent_bind (fun _ ↦ tally_silent) hdeadline fun past ↦ ?_
  split
  · exact ⟨h.report, h.stopped rfl⟩
  · refine tally_takeBoundary_bind h false _ _ fun boundary s' hs' ↦ tally_prepareRequest ?_
    exact hs'

/-! ## The report -/

theorem returns_outcomeFor_tells (path : FailPath) :
    (outcomeFor path).Returns fun outcome ↦ path.tells outcome.summary = true := by
  cases path with
  | cancelled => exact Prog.returns_call_bind fun _ ↦ rfl
  | _ => rfl

/-- The report is made of the reason, and of what the seal found. -/
theorem tally_deliverReport {ending : Ending} (hreport : s.report = none)
    (hends : s.Explains ending.locals.usage.finish ending.path) (revision : Nat)
    {outcome : LoopOutcome} (houtcome : Reports ending.path outcome.summary)
    (discarded : Option ExecutionConfig) :
    s.Keeps (deliverReport ctx ending revision outcome discarded) fun _ _ ↦ True := by
  refine tallyMonitor.wp_silent_call (tally_silent rfl) fun appended ↦ ?_
  have hfinal := uses_finalStates (S := fun o ↦ counts o = false) ctx rfl (fun _ ↦ rfl)
    (fun _ ↦ rfl) (ending.locals.lastIssuedRequestIndex.getD 0) revision
  refine tallyMonitor.wp_silent_bind (fun _ ↦ tally_silent) hfinal fun _ ↦ ?_
  refine tallyMonitor.wp_call_bind_of ⟨hreport, _, hends, houtcome⟩ fun _ _ _ ↦ ?_
  refine tallyMonitor.wp_silent_call (tally_silent rfl) fun _ ↦ ?_
  refine tallyMonitor.wp_silent_call (tally_silent rfl) fun _ ↦ ?_
  exact tallyMonitor.wp_silent_bind (fun _ ↦ tally_silent)
    (uses_dropConfig (fun _ ↦ counts_of_plain) discarded) fun _ ↦ trivial

theorem tally_finishLoop {ending : Ending} (hreport : s.report = none)
    (hends : s.Explains ending.locals.usage.finish ending.path) :
    s.Keeps (finishLoop ctx ending) fun _ _ ↦ True := by
  unfold finishLoop
  refine tallyMonitor.wp_silent_call (tally_silent rfl) fun revision ↦ ?_
  refine tallyMonitor.wp_silent_bind_returns (fun _ ↦ tally_silent)
    (uses_outcomeFor (fun _ ↦ counts_of_plain) ending.path)
    (returns_outcomeFor_tells ending.path) fun intended hintended ↦ ?_
  have hseal := uses_seal (S := fun o ↦ counts o = false) rfl (fun _ ↦ rfl) rfl
  refine tallyMonitor.wp_silent_bind (fun _ ↦ tally_silent) hseal ?_
  rintro ⟨finish, discarded⟩
  cases finish with
  | clean => exact tally_deliverReport hreport hends revision (.inl hintended) discarded
  | cancelledPrior source =>
    exact tally_deliverReport hreport hends revision (.inr ⟨source, rfl⟩) discarded
  | alreadyFinished =>
    refine tallyMonitor.wp_silent_call (tally_silent rfl) fun report ↦ ?_
    cases report <;> trivial

/-- The runner of a loop. -/
theorem tally_runLoopInner [SerdeJson] (ctx : LoopCtx) (request : LoopRequest) :
    Keeps ⟨0, [], none⟩ (runLoopInner ctx request) fun _ _ ↦ True := by
  unfold runLoopInner
  have hstart : Open ⟨0, [], none⟩ 0 (Locals.start request.config).usage :=
    ⟨rfl, rfl, rfl, UsageAccumulator.default_isTotal⟩
  refine tallyMonitor.wp_silent_call (tally_silent rfl) fun _ ↦ ?_
  refine tallyMonitor.wp_stable_bind (stable_item (by simp)) hstart fun _ s hs ↦ ?_
  refine tallyMonitor.wp_bind_of (Q := fun ending (s : Tally) ↦
    s.report = none ∧ s.Explains ending.locals.usage.finish ending.path) ?_ fun ending s hs ↦ ?_
  · refine tallyMonitor.wp_iterate (fun locals (s : Tally) ↦ s.Open 0 locals.usage) hs ?_
    exact fun locals s h ↦ tallyMonitor.wp_mono_returned (tally_requestRound h) fun _ _ hx ↦ hx
  · refine tallyMonitor.wp_bind_of (tally_finishLoop hs.1 hs.2) fun report s' _ ↦ ?_
    refine tallyMonitor.wp_silent_bind (fun _ ↦ tally_silent)
      (uses_dropConfig (fun _ ↦ counts_of_plain) _) fun _ ↦ ?_
    exact tallyMonitor.wp_silent_call (tally_silent rfl) fun _ ↦ trivial

/-! ## Runs -/

/-- The tally of a trace. -/
theorem tally_run (trace : List (Entry interface Nat)) :
    Tally.issued (tallyMonitor.run trace) = issuedRequests trace ∧
      Tally.items (tallyMonitor.run trace) = appendedItems trace := by
  induction trace with
  | nil => exact ⟨rfl, rfl⟩
  | cons e past ih =>
    obtain ⟨o, n, r⟩ := e
    obtain ⟨hissued, hitems⟩ := ih
    cases o with
    | commitRevision revision => exact ⟨congrArg (· + 1) hissued, hitems⟩
    | append item => exact ⟨hissued, congrArg (· ++ [item]) hitems⟩
    | _ => exact ⟨hissued, hitems⟩

/-- Nothing is counted once there is a report. -/
theorem frozen {newer older : List (Entry interface Nat)}
    (h : tallyMonitor.Accepts (newer ++ older))
    (hreport : Tally.report (tallyMonitor.run older) ≠ none) :
    tallyMonitor.run (newer ++ older) = tallyMonitor.run older := by
  induction newer with
  | nil => rfl
  | cons e newer ih =>
    obtain ⟨hpast, hpermits, -⟩ := h
    have hsame := ih hpast
    replace hpermits : Tally.Permits (tallyMonitor.run (newer ++ older)) e.op := hpermits
    rw [hsame] at hpermits
    have hcounts : counts e.op = false := by
      obtain ⟨o, n, r⟩ := e
      cases o with
      | commitRevision _ | append _ => exact absurd hpermits hreport
      | sendReport _ => exact absurd hpermits.1 hreport
      | _ => rfl
    show Tally.next (tallyMonitor.run (newer ++ older)) e.op = _
    rw [hsame]
    exact (tally_silent hcounts _).2 e.note e.answer

variable {reason : ModelFinishReason} {outcome : LoopOutcomeSummary}

/-- A response without tool calls is reported by its verdict. -/
theorem verdict_of_noToolFinish (h : noToolFinish reason = .ok path)
    (htells : path.tells outcome = true) : reason.verdict = some outcome := by
  cases reason <;> cases h
  all_goals
    unfold FailPath.tells at htells
    split at htells <;> simp_all [ModelFinishReason.verdict]

/-- There is one finish reason for a verdict. -/
theorem verdict_injective {reason' : ModelFinishReason} (h : reason.verdict = some outcome)
    (h' : reason'.verdict = some outcome) : reason = reason' := by
  cases reason <;> cases h <;> cases reason' <;> first | rfl | cases h'

/-- A cancellation is no verdict. -/
theorem verdict_ne_cancelled (reason : ModelFinishReason) (why : CancelReason) :
    reason.verdict ≠ some (.cancelled why) := by
  cases reason <;> simp [ModelFinishReason.verdict]

/-- Nor is what other reasons to end the loop are reported as. -/
theorem Reports.verdict_ne (h : Reports path outcome)
    (hpath : path.settled = true ∨ path.unanswered = true) (reason : ModelFinishReason) :
    reason.verdict ≠ some outcome := by
  rcases h with htells | ⟨source, rfl⟩
  · unfold FailPath.tells at htells
    split at htells <;>
      cases reason <;> simp_all [ModelFinishReason.verdict, FailPath.settled, FailPath.unanswered]
  · exact verdict_ne_cancelled reason source.reason

/-- The model is not blamed where every request has its response. -/
theorem Reports.ne_model (h : Reports path outcome) (hpath : path.settled = true) :
    outcome ≠ .failed .model ∧ outcome ≠ .failed .invalidModelResponse := by
  rcases h with htells | ⟨source, rfl⟩
  · unfold FailPath.tells at htells
    split at htells <;> simp_all [FailPath.settled]
  · simp

/-- A request stays without a response for few reasons. -/
theorem Reports.mem_unanswered (h : Reports path outcome) (hpath : path.unanswered = true) :
    (∃ reason, outcome = .cancelled reason) ∨ outcome ∈ [LoopOutcomeSummary.failed .model,
      .failed .invalidModelResponse, .failed .internal] := by
  rcases h with htells | ⟨source, rfl⟩
  · unfold FailPath.tells at htells
    split at htells <;> simp_all [FailPath.unanswered]
  · exact .inl ⟨source.reason, rfl⟩

/-- How a report reads that a reason bears out. -/
theorem Bears.faithful {report : LoopReport} (h : s.Bears report)
    (happended : report.appended = s.items) : report.Faithful s.issued := by
  obtain ⟨path, hexplains, hreports⟩ := h
  cases hexplains with
  | @concluded reason _ hconcluded hfinish hissued husage =>
    rw [← happended] at hconcluded hissued husage
    have hverdict := hreports.imp_left (verdict_of_noToolFinish hfinish)
    refine ⟨fun reason' h ↦ ?_, fun reason' h ↦ ?_, .inl hissued, fun hmodel ↦ ?_, .inl husage⟩
    · obtain rfl := Option.some.inj (hconcluded.symm.trans h)
      exact hverdict
    · rcases hverdict with hown | ⟨source, hsource⟩
      · rw [hconcluded, verdict_injective hown h]
      · exact absurd (hsource ▸ h) (verdict_ne_cancelled reason' source.reason)
    · -- No response stands for a failure of the model.
      rcases hverdict with hown | ⟨source, hsource⟩
      · cases reason <;> rcases hmodel with hmodel | hmodel <;>
          simp_all [ModelFinishReason.verdict]
      · simp_all
  | stopped hpath hconcluded hissued husage =>
    rw [← happended] at hconcluded hissued husage
    obtain ⟨hmodel, hinvalid⟩ := hreports.ne_model hpath
    refine ⟨fun reason h ↦ ?_, fun reason h ↦ ?_, .inl hissued, fun h ↦ ?_, .inl husage⟩
    · exact absurd (hconcluded.symm.trans h) (by simp)
    · exact absurd h (hreports.verdict_ne (.inl hpath) reason)
    · exact (h.elim hmodel hinvalid).elim
  | unanswered hpath hconcluded hissued husage =>
    rw [← happended] at hconcluded hissued husage
    have hanswered := hreports.mem_unanswered hpath
    refine ⟨fun reason h ↦ ?_, fun reason h ↦ ?_, .inr ⟨hissued, hanswered⟩, fun _ ↦ hissued,
      .inl husage⟩
    · exact absurd (hconcluded.symm.trans h) (by simp)
    · exact absurd h (hreports.verdict_ne (.inr hpath) reason)
  | @rejected value hconcluded hissued husage =>
    rw [← happended] at hconcluded hissued husage
    have hanswered := hreports.mem_unanswered rfl
    have hinvalid := hreports.imp_left (b := report.outcome.summary = .failed .invalidModelResponse)
      fun htells ↦ by
        unfold FailPath.tells at htells
        split at htells <;> simp_all
    refine ⟨fun reason h ↦ ?_, fun reason h ↦ ?_, .inr ⟨hissued, hanswered⟩, fun _ ↦ hissued,
      .inr ⟨hissued, hinvalid, value, husage⟩⟩
    · exact absurd (hconcluded.symm.trans h) (by simp)
    · exact absurd h (hreports.verdict_ne (.inr rfl) reason)

end Tally

/-- Every report agrees with the items it comes with. -/
theorem report_faithful [SerdeJson] (setup : Setup) (clock : Nat) (schedule : List Turn)
    {report : LoopReport} (h : Delivers (setup.run clock schedule) report) :
    report.Faithful (issuedRequests (setup.run clock schedule).2.trace) := by
  obtain ⟨-, hsession, hdelivered⟩ := conforms setup clock schedule
  have haccepts : tallyMonitor.Accepts (setup.run clock schedule).2.trace :=
    (tallyMonitor.exec_sound machine (World.honours_of_expects fun _ _ _ _ ↦ trivial)
      (runLoopInner setup.ctx setup.request)
      (w := .start setup.ctx.id setup.ctx.options setup.request.history clock schedule)
      trivial trivial (Tally.tally_runLoopInner setup.ctx setup.request)).2.1
  obtain ⟨newer, n, r, older, hsplit⟩ := delivered_at (hdelivered report h)
  rw [hsplit] at hsession haccepts ⊢
  obtain ⟨-, ⟨-, happended⟩, -⟩ := hsession.of_split
  obtain ⟨-, ⟨-, hbears⟩, -⟩ := haccepts.of_split
  obtain ⟨hissued, hitems⟩ := Tally.tally_run older
  -- What is issued after the report does not count, and there is none.
  have hfrozen := Tally.frozen haccepts (by simp [tallyMonitor, Tally.next])
  have hall : issuedRequests (newer ++ ⟨.sendReport report, n, r⟩ :: older) =
      Tally.issued (tallyMonitor.run older) := by
    rw [← (Tally.tally_run _).1, hfrozen]
    rfl
  rw [hall]
  refine Tally.Bears.faithful hbears ?_
  rw [happended, hitems]
  exact (session_run setup older).2.2.1

/-- The theorem at a run of one request. -/
theorem report_faithful_sample :
    ∃ report, (Sample.setup.run 0 Sample.schedule).1 = .returned report ∧
      report.appended.length = 4 ∧ report.Faithful 1 := by
  obtain ⟨report, hreturned, hlength⟩ := Sample.returns
  have hissued : issuedRequests (Sample.setup.run 0 Sample.schedule).2.trace = 1 := by
    decide +kernel
  exact ⟨report, hreturned, hlength,
    hissued ▸ report_faithful Sample.setup 0 Sample.schedule (.inl hreturned)⟩

end MinicoreRuntime
