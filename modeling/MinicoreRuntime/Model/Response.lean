import MinicoreRuntime.Model.Request

/-!
# Model responses

The events a model streams, the response assembled from them, and the token usage added up over
the requests of a loop.

## Main definitions

* `ModelEvent`, `ModelEvent.validate`.
* `ModelResponse`, `ModelResponse.newWithProviderReplay`, `ModelResponse.Constructed`.
* `Usage`, `UsageAccumulator`.
-/

namespace MinicoreRuntime

/-- Why a model stopped. -/
inductive ModelFinishReason where
  | stop
  | toolCalls
  | length
  | contentFiltered
  | refused
  | unknown
deriving DecidableEq, Repr

/-- The token usage of one request. -/
structure Usage where
  inputTokens : Option UInt64
  outputTokens : Option UInt64
  reasoningTokens : Option UInt64
  cacheReadTokens : Option UInt64
  cacheWriteTokens : Option UInt64
  providerTotalTokens : Option UInt64
deriving DecidableEq, Repr

/-- No usage reported. -/
def Usage.default : Usage := ⟨none, none, none, none, none, none⟩

/-- Add two reported token counts within 64 bits; a missing count counts as absent. -/
def sumField (left right : Option UInt64) : Option (Option UInt64) :=
  match left, right with
  | some left, some right =>
    if left.toNat + right.toNat < 2 ^ 64 then some (some (left + right)) else none
  | left, right => some (left.or right)

/-- Add two usages, or `none` where a sum overflows. -/
def sumUsage (left right : Usage) : Option Usage := do
  let inputTokens ← sumField left.inputTokens right.inputTokens
  let outputTokens ← sumField left.outputTokens right.outputTokens
  let reasoningTokens ← sumField left.reasoningTokens right.reasoningTokens
  let cacheReadTokens ← sumField left.cacheReadTokens right.cacheReadTokens
  let cacheWriteTokens ← sumField left.cacheWriteTokens right.cacheWriteTokens
  let providerTotalTokens ← sumField left.providerTotalTokens right.providerTotalTokens
  return ⟨inputTokens, outputTokens, reasoningTokens, cacheReadTokens, cacheWriteTokens,
    providerTotalTokens⟩

/-- The usage added up over the requests of one loop. -/
structure UsageAccumulator where
  value : Usage
deriving DecidableEq, Repr

namespace UsageAccumulator

/-- Nothing added yet. -/
def default : UsageAccumulator := ⟨Usage.default⟩

/-- Add the usage of a request. -/
def add (acc : UsageAccumulator) (value : Usage) : Option UsageAccumulator :=
  (sumUsage acc.value value).map UsageAccumulator.mk

/-- The total. -/
def finish (acc : UsageAccumulator) : Usage := acc.value

end UsageAccumulator

/-- A complete response. -/
structure ModelResponse where
  parts : List AssistantPart
  finishReason : ModelFinishReason
  usage : Option Usage
  providerReplay : Option ProviderReplay

/-- Check and normalise a response; no parts are allowed only with replay metadata. -/
def ModelResponse.newWithProviderReplay (parts : List AssistantPart)
    (finishReason : ModelFinishReason) (usage : Option Usage)
    (providerReplay : Option ProviderReplay) : Except ModelValueError ModelResponse :=
  let parts := normalizeParts parts
  if parts.isEmpty && providerReplay.isNone then .error .emptyResponseParts
  else match validateToolCallOrder parts with
    | .error e => .error e
    | .ok () => .ok ⟨parts, finishReason, usage, providerReplay⟩

/-- Attach replay metadata to a response. -/
def ModelResponse.withProviderReplay (response : ModelResponse) (replay : ProviderReplay) :
    ModelResponse :=
  { response with providerReplay := some replay }

/-- The response was made by its constructor. -/
def ModelResponse.Constructed (response : ModelResponse) : Prop :=
  ∃ parts, ModelResponse.newWithProviderReplay parts response.finishReason response.usage
    response.providerReplay = .ok response

theorem ModelResponse.constructed_of_eq_ok {parts : List AssistantPart}
    {finishReason : ModelFinishReason} {usage : Option Usage}
    {providerReplay : Option ProviderReplay} {response : ModelResponse}
    (h : ModelResponse.newWithProviderReplay parts finishReason usage providerReplay =
      .ok response) : response.Constructed := by
  refine ⟨parts, ?_⟩
  have hfields : response.finishReason = finishReason ∧ response.usage = usage ∧
      response.providerReplay = providerReplay := by
    unfold ModelResponse.newWithProviderReplay at h
    dsimp only at h
    split at h
    · exact absurd h (by simp)
    · split at h
      · exact absurd h (by simp)
      · obtain rfl := Except.ok.inj h
        exact ⟨rfl, rfl, rfl⟩
  obtain ⟨rfl, rfl, rfl⟩ := hfields
  exact h

/-- Parts and replay metadata that a message accepts as they are. -/
structure AcceptedParts (parts : List AssistantPart) (replay : Option ProviderReplay) : Prop where
  ordered : OrderedParts parts
  nonempty : parts ≠ [] ∨ replay.isSome = true

/-- What the constructor of responses makes is accepted. -/
theorem ModelResponse.Constructed.accepted {response : ModelResponse} (h : response.Constructed) :
    AcceptedParts response.parts response.providerReplay := by
  obtain ⟨parts, hparts⟩ := h
  unfold ModelResponse.newWithProviderReplay at hparts
  dsimp only at hparts
  split at hparts
  · exact absurd hparts (by simp)
  · rename_i hnonempty
    split at hparts
    · exact absurd hparts (by simp)
    · rename_i hordered
      have hresponse := Except.ok.inj hparts
      have hparts' : response.parts = normalizeParts parts := by rw [← hresponse]
      refine ⟨?_, ?_⟩
      · rw [hparts']
        exact validateToolCallOrder_eq_ok.mp hordered
      · rw [hparts']
        by_cases hnil : normalizeParts parts = []
        · right
          simpa [hnil, Option.isSome_iff_ne_none] using hnonempty
        · exact .inl hnil

/-- The largest delta of one event, in bytes. -/
def maxModelEventTextBytes : Nat := 64 * 1024

/-- An event of a model's stream. Deltas are raw text. -/
inductive ModelEvent where
  | textDelta (delta : BoundedText)
  | reasoningDelta (delta : BoundedText)
  | toolCallStart (toolCallId : ToolCallId) (toolName : ToolName)
  | toolCallArgumentsDelta (toolCallId : ToolCallId) (delta : BoundedText)
  | toolCallEnd (toolCallId : ToolCallId)
  | usage (usage : Usage)
  | providerReplay (replay : ProviderReplay)
  | finish (reason : ModelFinishReason)

namespace ModelEvent

/-- The raw text an event carries. -/
def delta? : ModelEvent → Option BoundedText
  | .textDelta delta | .reasoningDelta delta | .toolCallArgumentsDelta _ delta => some delta
  | _ => none

/-- The check of an event: its delta is within the cap. -/
def validate (event : ModelEvent) : Bool :=
  match event.delta? with
  | some delta => decide (delta.byteLen ≤ maxModelEventTextBytes)
  | none => true

end ModelEvent

end MinicoreRuntime
