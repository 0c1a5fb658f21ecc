import MinicoreRuntime.Model.Message

/-!
# Model requests

The request handed to a model, and the check that every tool call of an assistant message is
answered by exactly one tool message before any other message follows.

## Main definitions

* `ModelRequest`, `ModelRequest.withValidatedTools`, `ModelRequest.new`.
* `validateToolExchange`, as the run of `exchangeStep` over the messages.

## Main results

* `exchange_append`: the check of a concatenation is the check of its parts in turn.
* `exchange_tools`: the results of all calls of an assistant message.
* `outOfOrder_of_increasing`: a catalogue in increasing order passes its check.
-/

namespace MinicoreRuntime

/-- The host's implementation of a model. -/
structure ModelHandle where
  id : Nat
deriving DecidableEq, Repr

/-- How much a model is asked to reason. -/
inductive ReasoningPreference where
  | auto
  | disabled
  | low
  | medium
  | high
  | xHigh
  | max
  | ultra
deriving DecidableEq, Repr

/-- What a model declares of itself. -/
structure ModelDescriptor where
  modelRef : ModelRef
  contextWindow : Nat
  supportedReasoning : List ReasoningPreference
  supportsTools : Bool
deriving DecidableEq

/-- The check of a descriptor. -/
def ModelDescriptor.validate (descriptor : ModelDescriptor) : Bool :=
  !(descriptor.contextWindow == 0 || descriptor.supportedReasoning.isEmpty)

/-- Whether a model supports a reasoning preference. -/
def ModelDescriptor.supportsReasoning (descriptor : ModelDescriptor)
    (preference : ReasoningPreference) : Bool :=
  descriptor.supportedReasoning.contains preference

/-- The check of the token limits of a request. -/
def ModelLimits.validFields (contextWindowTokens maxOutputTokens : Option UInt32) : Bool :=
  !(contextWindowTokens == some 0 || maxOutputTokens == some 0)

/-- The token limits of a request. -/
structure ModelLimits where
  contextWindowTokens : Option UInt32
  maxOutputTokens : Option UInt32
  /-- The limits are not zero. -/
  valid : ModelLimits.validFields contextWindowTokens maxOutputTokens = true
deriving DecidableEq

/-- The ways the limits of a model are malformed. -/
inductive ModelLimitsError where
  | zero
deriving DecidableEq, Repr

/-- Check token limits. -/
def ModelLimits.new (contextWindowTokens maxOutputTokens : Option UInt32) :
    Except ModelLimitsError ModelLimits :=
  if h : validFields contextWindowTokens maxOutputTokens = true then
    .ok ⟨contextWindowTokens, maxOutputTokens, h⟩
  else .error .zero

/-- No limits. -/
def ModelLimits.default : ModelLimits := ⟨none, none, rfl⟩

/-! ## Tool exchanges -/

/-- The state of the check between two messages. -/
structure Exchange where
  /-- The calls of the last assistant message that wait for a result. -/
  pending : List ToolCallId
  /-- The calls of the last assistant message that have one. -/
  completed : List ToolCallId
deriving DecidableEq

/-- The check of one message. -/
def exchangeStep (state : Exchange) (message : ModelMessage) :
    Except ModelValueError Exchange :=
  match message with
  -- The calls of the message are pending from here on.
  | .assistant parts | .assistantWithReplay parts _ =>
    if !state.pending.isEmpty then .error .incompleteToolExchange
    else match message.validate with
      | .error e => .error e
      | .ok () => .ok ⟨(toolCalls parts).map ToolCall.toolCallId, []⟩
  -- A result answers one of the calls of the last assistant message, once.
  | .tool toolCallId _ _ =>
    if state.completed.contains toolCallId then .error .duplicateToolResult
    else if state.pending.isEmpty || !state.pending.contains toolCallId then
      .error .orphanToolResult
    else .ok ⟨state.pending.erase toolCallId, toolCallId :: state.completed⟩
  | .system _ | .user _ =>
    if !state.pending.isEmpty then .error .incompleteToolExchange
    else match message.validate with
      | .error e => .error e
      | .ok () => .ok ⟨[], []⟩

/-- The check of a list of messages from a given state. -/
def exchangeFrom : Exchange → List ModelMessage → Except ModelValueError Exchange
  | state, [] => .ok state
  | state, message :: messages =>
    match exchangeStep state message with
    | .error e => .error e
    | .ok state => exchangeFrom state messages

/-- Check that tool calls and tool results are paired. -/
def validateToolExchange (messages : List ModelMessage) : Except ModelValueError Unit :=
  match exchangeFrom ⟨[], []⟩ messages with
  | .error e => .error e
  | .ok state => if state.pending.isEmpty then .ok () else .error .incompleteToolExchange

/-- The check of a concatenation is the check of its parts in turn. -/
theorem exchange_append (state : Exchange) (first second : List ModelMessage) :
    exchangeFrom state (first ++ second) =
      match exchangeFrom state first with
      | .error e => .error e
      | .ok state => exchangeFrom state second := by
  induction first generalizing state with
  | nil => rfl
  | cons message first ih =>
    rw [List.cons_append, exchangeFrom, exchangeFrom]
    cases exchangeStep state message with
    | error e => rfl
    | ok state => exact ih state

/-- A list of messages is accepted if the check ends with no call pending. -/
theorem validateToolExchange_eq_ok {messages : List ModelMessage} :
    validateToolExchange messages = .ok () ↔
      ∃ completed, exchangeFrom ⟨[], []⟩ messages = .ok ⟨[], completed⟩ := by
  unfold validateToolExchange
  cases h : exchangeFrom ⟨[], []⟩ messages with
  | error e => simp
  | ok state =>
    obtain ⟨pending, completed⟩ := state
    cases pending with
    | nil => simp
    | cons id pending => simp

/-- A result for each pending call in turn empties the pending calls. -/
theorem exchange_tools (ids completed : List ToolCallId) (results : List ModelMessage)
    (hnodup : ids.Nodup) (hdisj : ∀ id ∈ ids, id ∉ completed)
    (hresults : results.map (fun
      | .tool id _ _ => some id
      | _ => none) = ids.map some) :
    ∃ completed', exchangeFrom ⟨ids, completed⟩ results = .ok ⟨[], completed'⟩ := by
  induction ids generalizing completed results with
  | nil =>
    have : results = [] := by simpa using hresults
    subst this
    exact ⟨completed, rfl⟩
  | cons id ids ih =>
    obtain ⟨message, rest, rfl, hmessage, hrest⟩ := List.map_eq_cons_iff.mp hresults
    -- Only a result carries the identifier of a call.
    cases message with
    | tool toolCallId output outcome =>
      obtain rfl : toolCallId = id := by simpa using hmessage
      rw [List.nodup_cons] at hnodup
      have hfresh : toolCallId ∉ completed := hdisj toolCallId (by simp)
      have hstep : exchangeStep ⟨toolCallId :: ids, completed⟩ (.tool toolCallId output outcome) =
          .ok ⟨ids, toolCallId :: completed⟩ := by
        simp [exchangeStep, hfresh]
      rw [exchangeFrom, hstep]
      refine ih _ rest hnodup.2 ?_ hrest
      intro id hid hmem
      rcases List.mem_cons.mp hmem with rfl | hmem
      · exact hnodup.1 hid
      · exact hdisj id (by simp [hid]) hmem
    | system text => exact absurd hmessage (by simp)
    | user text => exact absurd hmessage (by simp)
    | assistant parts => exact absurd hmessage (by simp)
    | assistantWithReplay parts replay => exact absurd hmessage (by simp)

/-! ## Requests -/

/-- A request handed to a model. -/
structure ModelRequest where
  messages : List ModelMessage
  tools : List ToolSpec
  limits : ModelLimits
  reasoning : ReasoningPreference

/-- Build a request over a checked catalogue, checking the messages. -/
def ModelRequest.withValidatedTools (messages : List ModelMessage) (tools : List ToolSpec)
    (limits : ModelLimits) (reasoning : ReasoningPreference) :
    Except ModelValueError ModelRequest :=
  if messages.isEmpty then .error .emptyMessages
  else match validateToolExchange messages with
    | .error e => .error e
    | .ok () => .ok ⟨messages, tools, limits, reasoning⟩

/-- A request over a checked catalogue is its arguments. -/
theorem ModelRequest.withValidatedTools_eq_ok {messages : List ModelMessage}
    {tools : List ToolSpec} {limits : ModelLimits} {reasoning : ReasoningPreference}
    {request : ModelRequest} :
    withValidatedTools messages tools limits reasoning = .ok request ↔
      messages ≠ [] ∧ validateToolExchange messages = .ok () ∧
        request = ⟨messages, tools, limits, reasoning⟩ := by
  unfold withValidatedTools
  cases messages with
  | nil => simp
  | cons message messages =>
    cases h : validateToolExchange (message :: messages) with
    | error e => simp
    | ok u => simp [eq_comm]

/-- Two neighbours of a catalogue are not in increasing order of their names. -/
def outOfOrder : List ToolSpec → Bool
  | first :: second :: rest => !ToolName.lt first.name second.name || outOfOrder (second :: rest)
  | _ => false

/-- A catalogue in increasing order of names has no neighbours out of order. -/
theorem outOfOrder_of_increasing {specs : List ToolSpec}
    (h : specs.Pairwise fun a b ↦ ToolName.lt a.name b.name = true) : outOfOrder specs = false := by
  induction specs with
  | nil => rfl
  | cons first rest ih =>
    obtain ⟨hfirst, hrest⟩ := List.pairwise_cons.mp h
    cases rest with
    | nil => rfl
    | cons second rest =>
      rw [outOfOrder, ih hrest, hfirst second List.mem_cons_self]
      rfl

/-- Build a request, checking the order of the catalogue too. -/
def ModelRequest.new (messages : List ModelMessage) (tools : List ToolSpec) (limits : ModelLimits)
    (reasoning : ReasoningPreference) : Except ModelValueError ModelRequest :=
  if outOfOrder tools then .error .invalidTools
  else withValidatedTools messages tools limits reasoning

end MinicoreRuntime
