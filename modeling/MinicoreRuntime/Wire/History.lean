import MinicoreRuntime.Wire.Model

/-!
# History items on the wire

How the items of a history are written and read back. A host persists the items a loop appended and
hands them to later loops as their base.

## Main definitions

* `serialize` and `deserialize` of history items.
* `HistoryItem.Sound`: the items that are read back.

## Main results

* `HistoryItem.deserialize_serialize`: these items are read back.
-/

namespace MinicoreRuntime

namespace UserInput

/-- Write an input. -/
def serialize : UserInput → Json
  | .text value => .object [("text".toList, value.serialize)]

/-- Read an input. -/
def deserialize : Json → Option UserInput
  | .object [(name, value)] =>
    if name = "text".toList then (BoundedText.deserialize value).map .text else none
  | _ => none

theorem deserialize_serialize (input : UserInput) : deserialize input.serialize = some input := by
  obtain ⟨value⟩ := input
  simp only [serialize, deserialize, if_true, BoundedText.deserialize_serialize, Option.map_some]

end UserInput

namespace UserHistory

/-- The names of the fields. -/
def fieldNames : List String := ["loop_id", "kind", "input"]

/-- The fields of an input of a history. -/
def fields (item : UserHistory) : List (String × Option Json) :=
  [("loop_id", some (LoopId.serialize item.loopId)), ("kind", some item.kind.serialize),
    ("input", some item.input.serialize)]

/-- Write an input of a history. -/
def serialize (item : UserHistory) : Json := serializeStruct item.fields

/-- Read an input of a history. -/
def deserialize (value : Json) : Option UserHistory := do
  let fields ← deserializeStruct fieldNames false value
  let loopId ← fields.required "loop_id" LoopId.deserialize
  let kind ← fields.required "kind" UserMessageKind.deserialize
  let input ← fields.required "input" UserInput.deserialize
  return ⟨loopId, kind, input⟩

theorem deserialize_serialize (item : UserHistory) : deserialize item.serialize = some item := by
  have hnames : (item.fields.map Prod.fst).Nodup := by
    change fieldNames.Nodup
    decide
  simp only [deserialize, serialize, Option.bind_eq_bind]
  rw [deserializeStruct_serializeStruct (by simp [fields, fieldNames]), Option.bind_some,
    StructFields.required_ofStruct hnames (LoopId.deserialize_serialize item.loopId)
      (by simp [fields]), Option.bind_some,
    StructFields.required_ofStruct hnames (UserMessageKind.canonical.readBack item.kind trivial)
      (by simp [fields]), Option.bind_some,
    StructFields.required_ofStruct hnames (UserInput.deserialize_serialize item.input)
      (by simp [fields]), Option.bind_some]
  rfl

end UserHistory

namespace AssistantHistory

/-- The names of the fields. -/
def fieldNames : List String :=
  ["loop_id", "request_index", "model", "reasoning", "content", "provider_replay", "finish_reason",
    "usage"]

/-- The fields; replay metadata that is missing is skipped. -/
def fields (item : AssistantHistory) : List (String × Option Json) :=
  [("loop_id", some (LoopId.serialize item.loopId)),
    ("request_index", some (serializeUint item.requestIndex)),
    ("model", some item.model.serialize), ("reasoning", some item.reasoning.serialize),
    ("content", some (serializeVec AssistantPart.serialize item.content)),
    ("provider_replay", item.providerReplay.map ProviderReplay.serialize),
    ("finish_reason", some item.finishReason.serialize), ("usage", some item.usage.serialize)]

/-- Write a response of a history. -/
def serialize (item : AssistantHistory) : Json := serializeStruct item.fields

/-- Read a response of a history. -/
def deserialize (value : Json) : Option AssistantHistory := do
  let fields ← deserializeStruct fieldNames false value
  let loopId ← fields.required "loop_id" LoopId.deserialize
  let requestIndex ← fields.required "request_index" (deserializeUint 32)
  let model ← fields.required "model" ModelRef.deserialize
  let reasoning ← fields.required "reasoning" ReasoningPreference.deserialize
  let content ← fields.required "content" (deserializeVec AssistantPart.deserialize)
  let providerReplay ← fields.defaulted "provider_replay" ProviderReplay.deserialize
  let finishReason ← fields.required "finish_reason" ModelFinishReason.deserialize
  let usage ← fields.required "usage" Usage.deserialize
  return ⟨loopId, requestIndex, model, reasoning, content, providerReplay, finishReason, usage⟩

/-- A response whose parts are read back, at an index within 32 bits, is read back. -/
theorem deserialize_of_content {item : AssistantHistory} (hindex : item.requestIndex < 2 ^ 32)
    (hcontent : deserializeVec AssistantPart.deserialize
      (serializeVec AssistantPart.serialize item.content) = some item.content) :
    deserialize item.serialize = some item := by
  have hnames : (item.fields.map Prod.fst).Nodup := by
    change fieldNames.Nodup
    decide
  have hreplay : (StructFields.ofStruct item.fields).defaulted "provider_replay"
      ProviderReplay.deserialize = some item.providerReplay := by
    exact ProviderReplay.defaulted_ofStruct hnames (by simp [fields])
  -- The fields in the order in which they are read.
  simp only [deserialize, serialize, Option.bind_eq_bind]
  rw [deserializeStruct_serializeStruct (by simp [fields, fieldNames]), Option.bind_some,
    StructFields.required_ofStruct hnames (LoopId.deserialize_serialize item.loopId)
      (by simp [fields]), Option.bind_some,
    StructFields.required_ofStruct hnames (deserializeUint_serializeUint hindex)
      (by simp [fields]), Option.bind_some,
    StructFields.required_ofStruct hnames (ModelRef.deserialize_serialize item.model)
      (by simp [fields]), Option.bind_some,
    StructFields.required_ofStruct hnames
      (ReasoningPreference.canonical.readBack item.reasoning trivial)
      (by simp [fields]), Option.bind_some,
    StructFields.required_ofStruct hnames hcontent (by simp [fields]),
    Option.bind_some, hreplay, Option.bind_some,
    StructFields.required_ofStruct hnames
      (ModelFinishReason.canonical.readBack item.finishReason trivial) (by simp [fields]),
    Option.bind_some,
    StructFields.required_ofStruct hnames (Usage.deserialize_serialize item.usage)
      (by simp [fields]), Option.bind_some]
  rfl

/-- So is one whose parts are in order. -/
theorem deserialize_serialize {item : AssistantHistory} (hindex : item.requestIndex < 2 ^ 32)
    (hparts : OrderedParts item.content) : deserialize item.serialize = some item :=
  deserialize_of_content hindex (deserialize_parts hparts)

end AssistantHistory

namespace ToolResultHistory

/-- The names of the fields. -/
def fieldNames : List String :=
  ["loop_id", "request_index", "call_id", "tool_name", "outcome", "output"]

/-- The fields of a tool result of a history. -/
def fields (item : ToolResultHistory) : List (String × Option Json) :=
  [("loop_id", some (LoopId.serialize item.loopId)),
    ("request_index", some (serializeUint item.requestIndex)),
    ("call_id", some item.callId.serialize), ("tool_name", some item.toolName.serialize),
    ("outcome", some item.outcome.serialize), ("output", some item.output.serialize)]

/-- Write a tool result of a history. -/
def serialize (item : ToolResultHistory) : Json := serializeStruct item.fields

/-- Read a tool result of a history. -/
def deserialize (value : Json) : Option ToolResultHistory := do
  let fields ← deserializeStruct fieldNames false value
  let loopId ← fields.required "loop_id" LoopId.deserialize
  let requestIndex ← fields.required "request_index" (deserializeUint 32)
  let callId ← fields.required "call_id" ToolCallId.deserialize
  let toolName ← fields.required "tool_name" ToolName.deserialize
  let outcome ← fields.required "outcome" ToolResultOutcome.deserialize
  let output ← fields.required "output" ToolOutput.deserialize
  return ⟨loopId, requestIndex, callId, toolName, outcome, output⟩

/-- A result at an index within 32 bits is read back. -/
theorem deserialize_serialize {item : ToolResultHistory} (hindex : item.requestIndex < 2 ^ 32) :
    deserialize item.serialize = some item := by
  have hnames : (item.fields.map Prod.fst).Nodup := by
    change fieldNames.Nodup
    decide
  simp only [deserialize, serialize, Option.bind_eq_bind]
  rw [deserializeStruct_serializeStruct (by simp [fields, fieldNames]), Option.bind_some,
    StructFields.required_ofStruct hnames (LoopId.deserialize_serialize item.loopId)
      (by simp [fields]), Option.bind_some,
    StructFields.required_ofStruct hnames (deserializeUint_serializeUint hindex)
      (by simp [fields]), Option.bind_some,
    StructFields.required_ofStruct hnames (ToolCallId.deserialize_serialize item.callId)
      (by simp [fields]), Option.bind_some,
    StructFields.required_ofStruct hnames (ToolName.deserialize_serialize item.toolName)
      (by simp [fields]), Option.bind_some,
    StructFields.required_ofStruct hnames
      (ToolResultOutcome.canonical.readBack item.outcome trivial)
      (by simp [fields]), Option.bind_some,
    StructFields.required_ofStruct hnames (ToolOutput.deserialize_serialize item.output)
      (by simp [fields]), Option.bind_some]
  rfl

end ToolResultHistory

namespace SummaryHistory

/-- The names of the fields. -/
def fieldNames : List String := ["content"]

/-- The fields of a summary of a history. -/
def fields (item : SummaryHistory) : List (String × Option Json) :=
  [("content", some item.content.serialize)]

/-- Write a summary of a history. -/
def serialize (item : SummaryHistory) : Json := serializeStruct item.fields

/-- Read a summary of a history. -/
def deserialize (value : Json) : Option SummaryHistory := do
  let fields ← deserializeStruct fieldNames false value
  let content ← fields.required "content" BoundedText.deserialize
  return ⟨content⟩

theorem deserialize_serialize (item : SummaryHistory) : deserialize item.serialize = some item := by
  have hnames : (item.fields.map Prod.fst).Nodup := by
    change fieldNames.Nodup
    decide
  simp only [deserialize, serialize, Option.bind_eq_bind]
  rw [deserializeStruct_serializeStruct (by simp [fields, fieldNames]), Option.bind_some,
    StructFields.required_ofStruct hnames (BoundedText.deserialize_serialize item.content)
      (by simp [fields]), Option.bind_some]
  rfl

end SummaryHistory

namespace HistoryItem

/-- Write an item of a history. -/
def serialize : HistoryItem → Json
  | .user item => serializeTagged "type" "data" "user" item.serialize
  | .assistant item => serializeTagged "type" "data" "assistant" item.serialize
  | .toolResult item => serializeTagged "type" "data" "tool_result" item.serialize
  | .summary item => serializeTagged "type" "data" "summary" item.serialize

/-- The variants, each with how its content is read. -/
def variants : List (String × (Json → Option HistoryItem)) :=
  [("user", fun value ↦ (UserHistory.deserialize value).map .user),
    ("assistant", fun value ↦ (AssistantHistory.deserialize value).map .assistant),
    ("tool_result", fun value ↦ (ToolResultHistory.deserialize value).map .toolResult),
    ("summary", fun value ↦ (SummaryHistory.deserialize value).map .summary)]

/-- Read an item of a history. -/
def deserialize : Json → Option HistoryItem := deserializeTagged "type" "data" false variants

/-- Indices are within 32 bits, and the parts of a response are in order. -/
def Sound : HistoryItem → Prop
  | .assistant item => item.requestIndex < 2 ^ 32 ∧ OrderedParts item.content
  | .toolResult item => item.requestIndex < 2 ^ 32
  | .user _ | .summary _ => True

/-- A sound item is read back. -/
theorem deserialize_serialize {item : HistoryItem} (h : item.Sound) :
    deserialize item.serialize = some item := by
  have hnames : (variants.map Prod.fst).Nodup := by
    change ["user", "assistant", "tool_result", "summary"].Nodup
    decide
  have hread : ∀ {name : String} {value : Json} {read : Json → Option HistoryItem},
      (name, read) ∈ variants →
      deserialize (serializeTagged "type" "data" name value) = read value :=
    fun hmem ↦ deserializeTagged_serializeTagged (by decide) hnames hmem _
  cases item with
  | user item =>
    refine (hread (.head _)).trans ?_
    rw [item.deserialize_serialize, Option.map_some]
  | assistant item =>
    refine (hread (.tail _ (.head _))).trans ?_
    rw [AssistantHistory.deserialize_serialize h.1 h.2, Option.map_some]
  | toolResult item =>
    refine (hread (.tail _ (.tail _ (.head _)))).trans ?_
    rw [ToolResultHistory.deserialize_serialize h, Option.map_some]
  | summary item =>
    refine (hread (.tail _ (.tail _ (.tail _ (.head _))))).trans ?_
    rw [item.deserialize_serialize, Option.map_some]

end HistoryItem

end MinicoreRuntime
