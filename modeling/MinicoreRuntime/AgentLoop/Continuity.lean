import MinicoreRuntime.AgentLoop.Transcript

/-!
# Session continuity

What one loop appends can be sent to a model by the next one: the default projection of a history
and what a loop appended to it is a list of messages that a request accepts.

## Main definitions

* `LegalInput`: an input that can be sent to a model.
* `Carries`: a message carries an item unchanged.
* `Closed`: items whose projection leaves no tool call without its result.
* `AcceptedHistory`: histories that the next request accepts.

## Main results

* `closed_transcript`: transcripts are closed.
* `report_continues`: the history of a loop followed by its report is accepted.
-/

namespace MinicoreRuntime

open Interactive

/-! ## Messages -/

/-- Text that is not empty, fits one message, and has no control characters but line feed and
tab. -/
def LegalInput (input : UserInput) : Prop :=
  input.asText ≠ [] ∧ byteLen input.asText ≤ 262144 ∧
    ∀ c ∈ input.asText, isControl c = true → c = '\n' ∨ c = '\t'

theorem LegalInput.validText {input : UserInput} (h : LegalInput input) :
    validText input.asText maxModelMessageTextBytes false = true := by
  refine validText_iff.mpr ⟨.inr h.1, h.2.1, fun c hc ↦ ?_⟩
  by_cases hcontrol : isControl c = true
  · rcases h.2.2 c hc hcontrol with rfl | rfl <;> rfl
  · simp [legalChar, hcontrol]

/-- A short text with no control character is legal. -/
theorem LegalInput.of_plain {input : UserInput} (hne : input.asText ≠ [])
    (hlen : byteLen input.asText ≤ 262144)
    (hplain : input.asText.all (fun c ↦ !isControl c) = true) : LegalInput input := by
  refine ⟨hne, hlen, fun c hc hcontrol ↦ ?_⟩
  have hc' := List.all_eq_true.mp hplain c hc
  simp [hcontrol] at hc'

/-- A message carries an item unchanged. -/
def Carries : HistoryItem → ModelMessage → Prop
  | .user item, message => message = .user item.input.asText
  | .assistant item, message =>
    message = match item.providerReplay with
      | some replay => .assistantWithReplay item.content replay
      | none => .assistant item.content
  | .toolResult item, message => message = .tool item.callId item.output item.outcome
  | .summary item, message => summaryMessage item = .ok message

/-- The projection of the items succeeds, and from any state in which no tool call is pending the
check of the messages leads to such a state again. -/
def Closed (items : List HistoryItem) : Prop :=
  ∃ messages, projectItems items = .ok messages ∧ List.Forall₂ Carries items messages ∧
    ∀ completed, ∃ completed', exchangeFrom ⟨[], completed⟩ messages = .ok ⟨[], completed'⟩

theorem Closed.nil : Closed [] := ⟨[], rfl, .nil, fun completed ↦ ⟨completed, rfl⟩⟩

theorem Closed.append {first second : List HistoryItem} (hfirst : Closed first)
    (hsecond : Closed second) : Closed (first ++ second) := by
  obtain ⟨left, hleft, hcarriesLeft, hexchangeLeft⟩ := hfirst
  obtain ⟨right, hright, hcarriesRight, hexchangeRight⟩ := hsecond
  refine ⟨left ++ right, projectItems_append.mpr ⟨left, right, hleft, hright, rfl⟩,
    List.rel_append hcarriesLeft hcarriesRight, fun completed ↦ ?_⟩
  obtain ⟨middle, hmiddle⟩ := hexchangeLeft completed
  obtain ⟨last, hlast⟩ := hexchangeRight middle
  exact ⟨last, by rw [exchange_append, hmiddle]; exact hlast⟩

/-- An input on its own is closed. -/
theorem closed_user {item : UserHistory} (h : LegalInput item.input) : Closed [.user item] := by
  refine ⟨[.user item.input.asText], rfl, .cons rfl .nil, fun completed ↦ ⟨[], ?_⟩⟩
  simp [exchangeFrom, exchangeStep, ModelMessage.validate, h.validText]

theorem closed_steering (id : LoopId) {inputs : List UserInput}
    (h : ∀ input ∈ inputs, LegalInput input) : Closed (steeringItems id inputs) := by
  induction inputs with
  | nil => exact Closed.nil
  | cons input inputs ih =>
    have hinput : LegalInput input := h input (by simp)
    have hrest := ih fun input hmem ↦ h input (by simp [hmem])
    have hfirst : Closed [.user ⟨id, .steering, input⟩] := closed_user hinput
    exact hfirst.append hrest

/-- The message of an assistant item, and what its check leaves pending. -/
theorem AcceptedParts.exchange {item : AssistantHistory}
    (h : AcceptedParts item.content item.providerReplay) :
    ∃ message, projectItem (.assistant item) = .ok message ∧ Carries (.assistant item) message ∧
      ∀ completed, exchangeStep ⟨[], completed⟩ message =
        .ok ⟨(toolCalls item.content).map ToolCall.toolCallId, []⟩ := by
  have hnormal := normalizeParts_of_valid h.ordered.texts
  have hordered := validateToolCallOrder_eq_ok.mpr h.ordered
  cases hreplay : item.providerReplay with
  | some replay =>
    refine ⟨.assistantWithReplay item.content replay, ?_, by simp [Carries, hreplay], ?_⟩
    · simp only [projectItem, assistantMessage, ModelMessage.assistantWithProviderReplay, hnormal,
        hreplay, ModelMessage.validate, hordered]
    · intro completed
      simp [exchangeStep, ModelMessage.validate, hordered]
  | none =>
    have hne : item.content ≠ [] := by
      rcases h.nonempty with hne | hsome
      · exact hne
      · exact absurd hsome (by simp [hreplay])
    have hempty : item.content.isEmpty = false := by simpa using hne
    refine ⟨.assistant item.content, ?_, by simp [Carries, hreplay], ?_⟩
    · simp only [projectItem, assistantMessage, ModelMessage.assistantWithProviderReplay, hnormal,
        hreplay, ModelMessage.validate, hordered, hempty, Bool.false_eq_true, if_false]
    · intro completed
      simp [exchangeStep, ModelMessage.validate, hordered, hempty]

/-- The tool message of a result. -/
def toolMessage (result : ToolResultHistory) : ModelMessage :=
  .tool result.callId result.output result.outcome

/-- The messages of results answer the calls in order. -/
theorem toolMessage_ids {requestIndex : Nat} {calls : List ToolCall}
    {results : List ToolResultHistory} (h : List.Forall₂ (ResultOf requestIndex) calls results) :
    (results.map toolMessage).map (fun
      | .tool id _ _ => some id
      | _ => none) = (calls.map ToolCall.toolCallId).map some := by
  induction h with
  | nil => rfl
  | cons hresult _ ih => simpa [toolMessage, hresult.callId] using ih

/-- A round is closed. -/
theorem closed_round (id : LoopId) {round : Round}
    (hsteering : ∀ input ∈ round.steering, LegalInput input)
    (hparts : AcceptedParts round.assistant.content round.assistant.providerReplay) :
    Closed (round.items id) := by
  refine (closed_steering id hsteering).append ?_
  obtain ⟨message, hmessage, hcarries, hstep⟩ := hparts.exchange
  let tools := round.results.map toolMessage
  -- Each result is projected to its message.
  have hproject : projectItems (round.results.map HistoryItem.toolResult) = .ok tools := by
    rw [projectItems_forall₂, List.forall₂_map_left_iff, List.forall₂_map_right_iff]
    exact List.forall₂_same.mpr fun result _ ↦ rfl
  refine ⟨message :: tools, projectItems_cons_eq_ok.mpr ⟨_, _, hmessage, hproject, rfl⟩,
    .cons hcarries ?_, fun completed ↦ ?_⟩
  · rw [List.forall₂_map_left_iff, List.forall₂_map_right_iff]
    exact List.forall₂_same.mpr fun result _ ↦ rfl
  · obtain ⟨completed', hcompleted⟩ := exchange_tools
      ((toolCalls round.assistant.content).map ToolCall.toolCallId) [] tools
      hparts.ordered.ids (by simp) (toolMessage_ids round.settled)
    exact ⟨completed', by rw [exchangeFrom, hstep]; exact hcompleted⟩

/-! ## Transcripts -/

/-- An item is made from the given inputs and from responses that a message accepts. -/
def Sound (inputs : List UserInput) : HistoryItem → Prop
  | .user item => item.input ∈ inputs
  | .assistant item => AcceptedParts item.content item.providerReplay
  | .toolResult _ | .summary _ => True

theorem Sound.mono {inputs inputs' : List UserInput} (h : inputs ⊆ inputs') {item : HistoryItem}
    (hitem : Sound inputs item) : Sound inputs' item := by
  cases item with
  | user item => exact h hitem
  | _ => exact hitem

/-- A transcript of legal inputs is closed. -/
theorem closed_transcript {id : LoopId} {input : UserInput} {rounds : List Round}
    {tail inputs : List UserInput} (hlegal : ∀ input ∈ inputs, LegalInput input)
    (hsound : ∀ item ∈ transcript id input rounds tail, Sound inputs item) :
    Closed (transcript id input rounds tail) := by
  have hsteering : ∀ list : List UserInput,
      (∀ item ∈ steeringItems id list, Sound inputs item) → ∀ input ∈ list, LegalInput input := by
    intro list hlist input hinput
    exact hlegal input
      (hlist (.user ⟨id, .steering, input⟩) (List.mem_map.mpr ⟨input, hinput, rfl⟩))
  have hprompt : Closed [.user ⟨id, .prompt, input⟩] :=
    closed_user (hlegal input (hsound (.user ⟨id, .prompt, input⟩) (by simp [transcript])))
  -- By the rounds, each closed in itself.
  have hrounds : Closed (rounds.flatMap (Round.items id)) := by
    have hall : ∀ item ∈ rounds.flatMap (Round.items id), Sound inputs item :=
      fun item hitem ↦ hsound item (by simp [transcript, hitem])
    clear hsound
    induction rounds with
    | nil => exact Closed.nil
    | cons round rounds ih =>
      rw [List.flatMap_cons] at hall ⊢
      refine Closed.append (closed_round id (hsteering _ ?_) ?_) (ih ?_)
      · exact fun item hitem ↦ hall item (by simp [Round.items, hitem])
      · exact hall (.assistant round.assistant) (by simp [Round.items])
      · exact fun item hitem ↦ hall item (List.mem_append_right _ hitem)
  have htail : Closed (steeringItems id tail) :=
    closed_steering id (hsteering tail fun item hitem ↦ hsound item (by simp [transcript, hitem]))
  exact hprompt.append (hrounds.append htail)

section

variable {setup : Setup} {s : Session}

/-- A session without a tool call under way has appended a transcript. -/
theorem Session.Shaped.exists_transcript (h : s.Shaped setup) (hstart : s.phase ≠ .starting)
    (hcalling : ∀ c, s.phase ≠ .calling c) :
    ∃ rounds tail, s.working.appended =
      transcript setup.ctx.id setup.request.input rounds tail := by
  unfold Shaped at h
  -- In every phase but these two the items are those of whole rounds.
  cases hphase : s.phase with
  | starting => exact absurd hphase hstart
  | calling c => exact absurd hphase (hcalling c)
  | boundary =>
    rw [hphase] at h
    obtain ⟨rounds, tail, -, -, hitems⟩ := h
    exact ⟨rounds, tail, hitems⟩
  | prepared provider request messages =>
    rw [hphase] at h
    obtain ⟨rounds, tail, -, -, hitems⟩ := h
    exact ⟨rounds, tail, hitems⟩
  | issued issue =>
    rw [hphase] at h
    obtain ⟨-, rounds, tail, -, -, hitems⟩ := h
    exact ⟨rounds, tail, hitems⟩
  | concluded =>
    rw [hphase] at h
    obtain ⟨rounds, round, -, -, -, -, hitems⟩ := h
    exact ⟨rounds ++ [round], [], hitems⟩

/-- The items appended and reported come from the inputs handed over and from responses. -/
structure Session.Continues (setup : Setup) (s : Session) : Prop where
  reported : s.Reported setup
  sound : ∀ item ∈ s.working.appended, Sound (setup.request.input :: s.taken) item
  report : ∀ report, s.report = some report →
    (∃ rounds tail, report.appended =
      transcript setup.ctx.id setup.request.input rounds tail) ∧
    ∀ item ∈ report.appended, Sound (setup.request.input :: s.taken) item

/-- An item that the rules permit is sound. -/
theorem sound_append (h : s.Conserved) {item : HistoryItem} (hitem : s.PermitsItem setup item) :
    Sound (setup.request.input :: s.taken) item := by
  cases item with
  | user item =>
    obtain ⟨loopId, kind, input⟩ := item
    cases kind with
    | prompt =>
      obtain ⟨-, -, rfl⟩ := hitem
      exact List.mem_cons_self
    | steering =>
      -- The input is the next one in the queue of those taken.
      obtain ⟨-, -, rest, hqueue⟩ := hitem
      rw [Session.Conserved, hqueue] at h
      show input ∈ _ :: s.taken
      rw [← h]
      simp
  | assistant item =>
    obtain ⟨-, issue, response, -, rfl, hconstructed⟩ := hitem
    exact hconstructed.accepted
  | toolResult result => trivial
  | summary item => trivial

theorem continues_next (h : s.Continues setup) {o : Op} (ho : s.Permits setup o) (n : Nat)
    (r : o.Answer) : (s.next o n r).Continues setup := by
  have hnext := s.next_changes o n r
  -- Inputs are only ever added to those taken.
  have htaken : setup.request.input :: s.taken ⊆ setup.request.input :: (s.next o n r).taken := by
    rw [hnext.taken]
    unfold Session.takenAfter
    split <;> simp
  have hsound : ∀ item ∈ s.working.appended,
      Sound (setup.request.input :: (s.next o n r).taken) item :=
    fun item hitem ↦ (h.sound item hitem).mono htaken
  refine ⟨reported_next h.reported ho n r, ?_, ?_⟩
  · rw [hnext.working]
    cases o with
    | append item =>
      intro item' hitem'
      rcases List.mem_append.mp hitem' with hitem' | hitem'
      · exact hsound item' hitem'
      · rw [List.mem_singleton.mp hitem']
        exact (sound_append h.reported.conserved ho).mono htaken
    | _ => exact hsound
  · intro report heq
    rw [hnext.report] at heq
    cases o with
    -- What is delivered is the working history, all of whose calls are settled.
    | sendReport delivered =>
      obtain rfl := Option.some.inj heq
      obtain ⟨hsettled, happended⟩ := ho
      rw [happended]
      exact ⟨h.reported.shaped.exists_transcript hsettled.2.1 hsettled.2.2, hsound⟩
    | _ =>
      obtain ⟨hshape, hitems⟩ := h.report report heq
      exact ⟨hshape, fun item hitem ↦ (hitems item hitem).mono htaken⟩

end

theorem continues_of_accepts {setup : Setup} {trace : List (Entry interface Nat)}
    (h : (sessionMonitor setup).Accepts trace) :
    Session.Continues setup ((sessionMonitor setup).run trace) := by
  refine Monitor.Accepts.invariant (J := Session.Continues setup) _ ?_ ?_ h
  · refine ⟨reported_of_accepts (Monitor.accepts_nil _), ?_, ?_⟩
    · simp [sessionMonitor, Session.init, WorkingHistory.new]
    · simp [sessionMonitor, Session.init]
  · exact fun s o n r hs ho _ ↦ continues_next hs ho n r

/-! ## Runs -/

/-- The history is empty, or the default projection of it passes the check of tool exchanges. -/
def AcceptedHistory (history : List HistoryItem) : Prop :=
  history = [] ∨ ∃ messages, DefaultPromptProvider.project ⟨none⟩ ⟨history, []⟩ = .ok messages ∧
    validateToolExchange messages = .ok ()

/-- The default projection of a history extended by some items is one that every request accepts,
with one message for each of them that carries it. -/
def Continued (history items : List HistoryItem) : Prop :=
  ∃ before after, projectItems history = .ok before ∧
    DefaultPromptProvider.project ⟨none⟩ ⟨history, items⟩ = .ok (before ++ after) ∧
    List.Forall₂ Carries items after ∧
    ∀ tools limits reasoning, ModelRequest.withValidatedTools (before ++ after) tools limits
      reasoning = .ok ⟨before ++ after, tools, limits, reasoning⟩

/-- Closed items continue an accepted history. -/
theorem AcceptedHistory.continued {history items : List HistoryItem} (h : AcceptedHistory history)
    (hitems : Closed items) (hne : items ≠ []) : Continued history items := by
  obtain ⟨before, hbefore, completed, hexchange⟩ :
      ∃ before, projectItems history = .ok before ∧
        ∃ completed, exchangeFrom ⟨[], []⟩ before = .ok ⟨[], completed⟩ := by
    -- The history alone: nothing, or messages with no call pending.
    rcases h with rfl | ⟨messages, hproject, hvalid⟩
    · exact ⟨[], rfl, [], rfl⟩
    · refine ⟨messages, ?_, validateToolExchange_eq_ok.mp hvalid⟩
      unfold DefaultPromptProvider.project at hproject
      cases hitems : projectItems history with
      | error e => simp [HistoryView.items, hitems] at hproject
      | ok projected =>
        simp only [HistoryView.items, List.append_nil, hitems] at hproject
        split at hproject
        · exact absurd hproject (by simp)
        · exact hproject
  obtain ⟨after, hafter, hcarries, hclosed⟩ := hitems
  have hlength : after ≠ [] := by
    rintro rfl
    exact hne (List.forall₂_nil_right_iff.mp hcarries)
  -- What follows is closed, so the check of the whole goes through in turn.
  have hmessages : before ++ after ≠ [] := by simp [hlength]
  obtain ⟨completed', hcompleted⟩ := hclosed completed
  refine ⟨before, after, hbefore, ?_, hcarries, fun tools limits reasoning ↦ ?_⟩
  · have hall : projectItems (history ++ items) = .ok (before ++ after) :=
      projectItems_append.mpr ⟨before, after, hbefore, hafter, rfl⟩
    simp only [DefaultPromptProvider.project, HistoryView.items, hall]
    rw [if_neg]
    · rfl
    · simpa [DefaultPromptProvider.systemMessages] using hmessages
  · refine ModelRequest.withValidatedTools_eq_ok.mpr ⟨hmessages, ?_, rfl⟩
    refine validateToolExchange_eq_ok.mpr ⟨completed', ?_⟩
    rw [exchange_append, hexchange]
    exact hcompleted

/-- Whatever the host does and however the loop ends, its report continues the history it started
with; and so does what was appended whenever a prompt is asked for. -/
theorem report_continues [SerdeJson] (setup : Setup) (clock : Nat) (schedule : List Turn)
    (hbase : AcceptedHistory setup.request.history)
    (hinputs : ∀ input ∈ setup.request.input :: handedOver (setup.run clock schedule).2.trace,
      LegalInput input) :
    (∀ report, Delivers (setup.run clock schedule) report →
      Continued setup.request.history report.appended) ∧
    ∀ newer n made provider request older,
      (setup.run clock schedule).2.trace =
        newer ++ ⟨.makeFuture (.prepare provider request), n, made⟩ :: older →
      request.history = ⟨setup.request.history, appendedItems older⟩ ∧
        Continued setup.request.history (appendedItems older) := by
  obtain ⟨-, haccepts, hdelivered⟩ := conforms setup clock schedule
  have htaken := (session_run setup (setup.run clock schedule).2.trace).2.1
  refine ⟨fun report hreport ↦ ?_, fun newer n made provider request older hsplit ↦ ?_⟩
  · obtain ⟨⟨rounds, tail, hitems⟩, hsound⟩ :=
      (continues_of_accepts haccepts).report report (hdelivered report hreport)
    rw [htaken] at hsound
    rw [hitems] at hsound ⊢
    exact hbase.continued (closed_transcript hinputs hsound) (by simp [transcript])
  · rw [hsplit] at haccepts
    obtain ⟨hpast, ⟨-, hphase, -, hrequest⟩, -⟩ := haccepts.of_split
    obtain ⟨-, hpastTaken, happended, hhistory⟩ := session_run setup older
    -- A prompt is asked for between two requests, where what was appended is a transcript.
    have hcontinues := continues_of_accepts hpast
    obtain ⟨rounds, tail, hitems⟩ := hcontinues.reported.shaped.exists_transcript
      (by rw [hphase]; simp) (by rw [hphase]; simp)
    have hsound := hcontinues.sound
    rw [happended, hpastTaken] at hsound
    rw [happended] at hitems
    have hlegal : ∀ input ∈ setup.request.input :: handedOver older, LegalInput input := by
      intro input hinput
      refine hinputs input ?_
      rw [hsplit, handedOver_append]
      rcases List.mem_cons.mp hinput with rfl | hinput
      · exact List.mem_cons_self
      · refine List.mem_cons_of_mem _ (List.mem_append_left _ ?_)
        exact hinput
    refine ⟨?_, ?_⟩
    · rw [hrequest]
      show (⟨_, _⟩ : HistoryView) = _
      rw [hhistory, happended]
    · rw [hitems] at hsound ⊢
      exact hbase.continued (closed_transcript hlegal hsound) (by simp [transcript])

/-- The theorem at a run with a tool call. -/
theorem report_continues_sample :
    ∃ report, (Sample.setup.run 0 Sample.schedule).1 = .returned report ∧
      Continued Sample.setup.request.history report.appended := by
  obtain ⟨report, hreturned, -⟩ := Sample.returns
  have hinputs : ∀ input ∈ Sample.setup.request.input ::
      handedOver (Sample.setup.run 0 Sample.schedule).2.trace, LegalInput input := by
    have htaken : handedOver (Sample.setup.run 0 Sample.schedule).2.trace =
        [.text ⟨"go".toList, by decide⟩] := by
      decide +kernel
    rw [htaken]
    intro input hinput
    rcases List.mem_cons.mp hinput with rfl | hinput
    · exact .of_plain (by decide +kernel) (by decide +kernel) (by decide +kernel)
    · rw [List.mem_singleton.mp hinput]
      exact .of_plain (by decide +kernel) (by decide +kernel) (by decide +kernel)
  exact ⟨report, hreturned, (report_continues Sample.setup 0 Sample.schedule (.inl rfl) hinputs).1
    report (.inl hreturned)⟩

end MinicoreRuntime
