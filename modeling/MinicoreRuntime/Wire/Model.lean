import MinicoreRuntime.Wire.Values
import MinicoreRuntime.ToolSet

/-!
# Messages, requests and responses on the wire

How model messages, requests and responses are written and read back. Reading normalises and checks
every nested value again. The content of an assistant message has two shapes: a list of parts, and
an object with the parts and replay metadata; reading tries them in this order.

## Main definitions

* `serialize` and `deserialize` of parts, messages, tool specifications, requests and responses.
* `ModelResponse.Built`, `ModelRequest.Built`: the responses and requests that are made.

## Main results

* `ModelMessage.deserialize_serialize`, `ModelResponse.deserialize_serialize`,
  `ModelRequest.deserialize_serialize`: these values are read back.
-/

namespace MinicoreRuntime

/-- A value of JSON stands for itself. -/
def deserializeValue (value : Json) : Option Json := some value

/-! ## Parts -/

namespace ReasoningContent

/-- The names of the fields. -/
def fieldNames : List String := ["text", "summary", "encrypted", "signature"]

/-- The fields; an artifact that is missing is null. -/
def fields (content : ReasoningContent) : List (String × Option Json) :=
  [("text", some (serializeOption .string content.text)),
    ("summary", some (serializeOption .string content.summary)),
    ("encrypted", some (serializeOption .string content.encrypted)),
    ("signature", some (serializeOption .string content.signature))]

/-- Write reasoning. -/
def serialize (content : ReasoningContent) : Json := serializeStruct content.fields

/-- Read reasoning, which is normalised and checked again. -/
def deserialize (value : Json) : Option ReasoningContent := do
  let fields ← deserializeStruct fieldNames true value
  let text ← fields.optional "text" deserializeString
  let summary ← fields.optional "summary" deserializeString
  let encrypted ← fields.optional "encrypted" deserializeString
  let signature ← fields.optional "signature" deserializeString
  (ReasoningContent.new text summary encrypted signature).toOption

/-- Reasoning is normalised and checked again, and read back. -/
theorem deserialize_serialize (content : ReasoningContent) :
    deserialize content.serialize = some content := by
  have hnames : (content.fields.map Prod.fst).Nodup := by
    change fieldNames.Nodup
    decide
  have hfield : ∀ (name : String) (text : Option Text),
      (name, some (serializeOption .string text)) ∈ content.fields →
      (StructFields.ofStruct content.fields).optional name deserializeString = some text := by
    intro name text h
    have hread : deserializeOption deserializeString (serializeOption .string text) = some text :=
      deserializeOption_serializeOption (fun _ ↦ by simp) fun _ _ ↦ rfl
    exact StructFields.optional_ofStruct hnames hread h
  simp only [deserialize, serialize, Option.bind_eq_bind]
  rw [deserializeStruct_serializeStruct (by simp [fields, fieldNames]), Option.bind_some,
    hfield "text" content.text (by simp [fields]), Option.bind_some,
    hfield "summary" content.summary (by simp [fields]), Option.bind_some,
    hfield "encrypted" content.encrypted (by simp [fields]), Option.bind_some,
    hfield "signature" content.signature (by simp [fields]), Option.bind_some, new_self]
  rfl

end ReasoningContent

namespace ToolCall

/-- The names of the fields. -/
def fieldNames : List String := ["tool_call_id", "name", "arguments", "call_index"]

/-- The fields of a tool call. -/
def fields (call : ToolCall) : List (String × Option Json) :=
  [("tool_call_id", some call.toolCallId.serialize), ("name", some call.name.serialize),
    ("arguments", some call.arguments), ("call_index", some (serializeUint call.callIndex))]

/-- Write a tool call. -/
def serialize (call : ToolCall) : Json := serializeStruct call.fields

/-- Read a tool call, whose arguments are checked again. -/
def deserialize (value : Json) : Option ToolCall := do
  let fields ← deserializeStruct fieldNames true value
  let toolCallId ← fields.required "tool_call_id" ToolCallId.deserialize
  let name ← fields.required "name" ToolName.deserialize
  let arguments ← fields.required "arguments" deserializeValue
  let callIndex ← fields.required "call_index" (deserializeUint 32)
  (ToolCall.newWithMaxBytes toolCallId name arguments callIndex maxJsonBytes).toOption

/-- A call whose index is a 32-bit integer is read back. -/
theorem deserialize_serialize {call : ToolCall} (h : call.callIndex < 2 ^ 32) :
    deserialize call.serialize = some call := by
  have hnames : (call.fields.map Prod.fst).Nodup := by
    change fieldNames.Nodup
    decide
  have harguments : deserializeValue call.arguments = some call.arguments := rfl
  simp only [deserialize, serialize, Option.bind_eq_bind]
  rw [deserializeStruct_serializeStruct (by simp [fields, fieldNames]), Option.bind_some,
    StructFields.required_ofStruct hnames (ToolCallId.deserialize_serialize call.toolCallId)
      (by simp [fields]), Option.bind_some,
    StructFields.required_ofStruct hnames (ToolName.deserialize_serialize call.name)
      (by simp [fields]), Option.bind_some,
    StructFields.required_ofStruct hnames harguments (by simp [fields]), Option.bind_some,
    StructFields.required_ofStruct hnames (deserializeUint_serializeUint h) (by simp [fields]),
    Option.bind_some, newWithMaxBytes, dif_pos call.valid]
  rfl

end ToolCall

namespace AssistantPart

/-- Write a part of a response. -/
def serialize : AssistantPart → Json
  | .text s => serializeTagged "type" "data" "text" (.string s)
  | .reasoning content => serializeTagged "type" "data" "reasoning" content.serialize
  | .toolCall call => serializeTagged "type" "data" "tool_call" call.serialize

/-- The variants, each with how its content is read. -/
def variants : List (String × (Json → Option AssistantPart)) :=
  [("text", fun value ↦ (deserializeString value).map fun s ↦ .text (normalizeModelText s)),
    ("reasoning", fun value ↦ (ReasoningContent.deserialize value).map .reasoning),
    ("tool_call", fun value ↦ (ToolCall.deserialize value).map .toolCall)]

/-- Read a part of a response, which is checked again. -/
def deserialize (value : Json) : Option AssistantPart := do
  let part ← deserializeTagged "type" "data" true variants value
  match part.validate with
  | .ok () => some part
  | .error _ => none

/-- A part that passes its check, with the index of a call within 32 bits, is read back. -/
theorem deserialize_serialize {part : AssistantPart} (hvalid : part.validate = .ok ())
    (hindex : ∀ call, part = .toolCall call → call.callIndex < 2 ^ 32) :
    deserialize part.serialize = some part := by
  have hnames : (variants.map Prod.fst).Nodup := by
    change ["text", "reasoning", "tool_call"].Nodup
    decide
  -- Reading the content of a variant decides, since the part passes the check again.
  have hread : ∀ {name : String} {value : Json} {read : Json → Option AssistantPart},
      (name, read) ∈ variants → read value = some part →
      deserialize (serializeTagged "type" "data" name value) = some part := by
    intro name value read hmem hvalue
    rw [deserialize, deserializeTagged_serializeTagged (by decide) hnames hmem, hvalue,
      Option.bind_eq_bind, Option.bind_some, hvalid]
  cases part with
  | text s =>
    have htext := AssistantPart.validate_eq_ok.mp hvalid s rfl
    refine hread (.head _) ?_
    rw [deserializeString, Option.map_some, normalizeModelText_of_valid htext]
  | reasoning content =>
    refine hread (.tail _ (.head _)) ?_
    rw [ReasoningContent.deserialize_serialize, Option.map_some]
  | toolCall call =>
    refine hread (.tail _ (.tail _ (.head _))) ?_
    rw [ToolCall.deserialize_serialize (hindex call rfl), Option.map_some]

end AssistantPart

/-- Ordered parts are read back. -/
theorem deserialize_parts {parts : List AssistantPart} (h : OrderedParts parts) :
    deserializeVec AssistantPart.deserialize (serializeVec AssistantPart.serialize parts) =
      some parts := by
  apply deserializeVec_serializeVec
  intro part hpart
  apply AssistantPart.deserialize_serialize
  · refine AssistantPart.validate_eq_ok.mpr fun text htext ↦ h.texts text ?_
    rwa [← htext]
  · intro call hcall
    apply h.callIndex_lt
    rwa [← hcall]

namespace ProviderReplay

/-- The names of the fields. -/
def fieldNames : List String := ["format", "payload"]

/-- The fields; the byte count is not written. -/
def fields (replay : ProviderReplay) : List (String × Option Json) :=
  [("format", some (.string replay.format)), ("payload", some replay.payload)]

/-- Write replay metadata. -/
def serialize (replay : ProviderReplay) : Json := serializeStruct replay.fields

/-- Read replay metadata, whose bytes are counted again. -/
def deserialize (value : Json) : Option ProviderReplay := do
  let fields ← deserializeStruct fieldNames true value
  let format ← fields.required "format" deserializeString
  let payload ← fields.required "payload" deserializeValue
  (ProviderReplay.new format payload).toOption

/-- Replay metadata is read back, with the byte count that is computed again. -/
theorem deserialize_serialize (replay : ProviderReplay) :
    deserialize replay.serialize = some replay := by
  have hnames : (replay.fields.map Prod.fst).Nodup := by
    change fieldNames.Nodup
    decide
  have hformat : deserializeString (.string replay.format) = some replay.format := rfl
  have hpayload : deserializeValue replay.payload = some replay.payload := rfl
  simp only [deserialize, serialize, Option.bind_eq_bind]
  rw [deserializeStruct_serializeStruct (by simp [fields, fieldNames]), Option.bind_some,
    StructFields.required_ofStruct hnames hformat (by simp [fields]), Option.bind_some,
    StructFields.required_ofStruct hnames hpayload (by simp [fields]), Option.bind_some, new_self]
  rfl

/-- Replay metadata in a field that is skipped where there is none is read back. -/
theorem defaulted_ofStruct {fields : List (String × Option Json)}
    (hnames : (fields.map Prod.fst).Nodup) {name : String} {providerReplay : Option ProviderReplay}
    (h : (name, providerReplay.map serialize) ∈ fields) :
    (StructFields.ofStruct fields).defaulted name deserialize = some providerReplay := by
  apply StructFields.defaulted_ofStruct hnames h
  · exact fun _ ↦ serializeStruct_ne_null _
  · exact fun replay _ ↦ replay.deserialize_serialize

end ProviderReplay

/-! ## Tools -/

namespace ToolSpec

/-- The names of the fields. -/
def fieldNames : List String := ["name", "description", "input_schema"]

/-- The fields of the specification of a tool. -/
def fields (spec : ToolSpec) : List (String × Option Json) :=
  [("name", some spec.name.serialize), ("description", some spec.description.serialize),
    ("input_schema", some spec.inputSchema)]

/-- Write the specification of a tool. -/
def serialize (spec : ToolSpec) : Json := serializeStruct spec.fields

/-- Read the specification of a tool, which is checked again. -/
def deserialize (value : Json) : Option ToolSpec := do
  let fields ← deserializeStruct fieldNames true value
  let name ← fields.required "name" ToolName.deserialize
  let description ← fields.required "description" BoundedText.deserialize
  let inputSchema ← fields.required "input_schema" deserializeValue
  (ToolSpec.new name description.asStr inputSchema).toOption

theorem new_self (spec : ToolSpec) :
    ToolSpec.new spec.name spec.description.asStr spec.inputSchema = .ok spec := by
  have hvalid := spec.valid
  simp only [validFields, Bool.and_eq_true] at hvalid
  have hlength : ¬ byteLen spec.description.asStr > maxToolDescriptionBytes :=
    not_lt.mpr (validText_iff.mp hvalid.1.1).2.1
  have hlimit : ¬ maxToolDescriptionBytes > BoundedText.maxBytes := by decide
  simp only [ToolSpec.new, BoundedText.newWithMaxBytes, dif_neg hlimit, dif_neg hlength,
    dif_pos spec.valid]

theorem deserialize_serialize (spec : ToolSpec) : deserialize spec.serialize = some spec := by
  have hnames : (spec.fields.map Prod.fst).Nodup := by
    change fieldNames.Nodup
    decide
  have hschema : deserializeValue spec.inputSchema = some spec.inputSchema := rfl
  simp only [deserialize, serialize, Option.bind_eq_bind]
  rw [deserializeStruct_serializeStruct (by simp [fields, fieldNames]), Option.bind_some,
    StructFields.required_ofStruct hnames (ToolName.deserialize_serialize spec.name)
      (by simp [fields]), Option.bind_some,
    StructFields.required_ofStruct hnames (BoundedText.deserialize_serialize spec.description)
      (by simp [fields]), Option.bind_some,
    StructFields.required_ofStruct hnames hschema (by simp [fields]), Option.bind_some, new_self]
  rfl

end ToolSpec

namespace ToolOutput

/-- The names of the fields. -/
def fieldNames : List String := ["content"]

/-- The fields of the output of a tool. -/
def fields (output : ToolOutput) : List (String × Option Json) :=
  [("content", some output.content.serialize)]

/-- Write the output of a tool. -/
def serialize (output : ToolOutput) : Json := serializeStruct output.fields

/-- Read the output of a tool, which is checked again. -/
def deserialize (value : Json) : Option ToolOutput := do
  let fields ← deserializeStruct fieldNames true value
  let content ← fields.required "content" BoundedText.deserialize
  (ToolOutput.new content.asStr).toOption

theorem deserialize_serialize (output : ToolOutput) :
    deserialize output.serialize = some output := by
  have hnames : (output.fields.map Prod.fst).Nodup := by
    change fieldNames.Nodup
    decide
  simp only [deserialize, serialize, Option.bind_eq_bind]
  rw [deserializeStruct_serializeStruct (by simp [fields, fieldNames]), Option.bind_some,
    StructFields.required_ofStruct hnames (BoundedText.deserialize_serialize output.content)
      (by simp [fields]), Option.bind_some, ToolOutput.new, dif_pos output.valid]
  rfl

end ToolOutput

/-! ## Messages -/

/-- The content of an assistant message as it was read. -/
inductive AssistantMessageWire where
  | legacy (parts : List AssistantPart)
  | replay (parts : List AssistantPart) (providerReplay : Option ProviderReplay)

namespace AssistantMessageWire

/-- The names of the fields. -/
def fieldNames : List String := ["parts", "provider_replay"]

/-- The fields of the content with replay metadata. -/
def fields (parts : List AssistantPart) (providerReplay : ProviderReplay) :
    List (String × Option Json) :=
  [("parts", some (serializeVec AssistantPart.serialize parts)),
    ("provider_replay", some providerReplay.serialize)]

/-- Read the content with replay metadata. -/
def deserializeReplay (value : Json) : Option AssistantMessageWire := do
  let fields ← deserializeStruct fieldNames true value
  let parts ← fields.required "parts" (deserializeVec AssistantPart.deserialize)
  let providerReplay ← fields.defaulted "provider_replay" ProviderReplay.deserialize
  return .replay parts providerReplay

/-- Read the content, as a list of parts if it is one. -/
def deserialize (value : Json) : Option AssistantMessageWire :=
  ((deserializeVec AssistantPart.deserialize value).map .legacy).or (deserializeReplay value)

/-- A list of parts is not taken for the other shape. -/
theorem deserialize_legacy {parts : List AssistantPart} (h : OrderedParts parts) :
    deserialize (serializeVec AssistantPart.serialize parts) = some (.legacy parts) := by
  rw [deserialize, deserialize_parts h]
  rfl

/-- Nor is the content with replay metadata. -/
theorem deserialize_replay {parts : List AssistantPart} (h : OrderedParts parts)
    (providerReplay : ProviderReplay) :
    deserialize (serializeStruct (fields parts providerReplay)) =
      some (.replay parts (some providerReplay)) := by
  have hnames : ((fields parts providerReplay).map Prod.fst).Nodup := by
    change fieldNames.Nodup
    decide
  -- An object is no list.
  have hlist : deserializeVec AssistantPart.deserialize
      (serializeStruct (fields parts providerReplay)) = none := rfl
  have hreplay : (StructFields.ofStruct (fields parts providerReplay)).defaulted "provider_replay"
      ProviderReplay.deserialize = some (some providerReplay) := by
    exact ProviderReplay.defaulted_ofStruct hnames (by simp [fields])
  simp only [deserialize, hlist, deserializeReplay, Option.bind_eq_bind, Option.map_none,
    Option.none_or]
  rw [deserializeStruct_serializeStruct (by simp [fields, fieldNames]), Option.bind_some,
    StructFields.required_ofStruct hnames (deserialize_parts h) (by simp [fields]),
    Option.bind_some, hreplay, Option.bind_some]
  rfl

end AssistantMessageWire

namespace ModelMessage

/-- The names of the fields of a tool message. -/
def toolFieldNames : List String := ["tool_call_id", "output", "outcome"]

/-- The fields of a tool message. -/
def toolFields (toolCallId : ToolCallId) (output : ToolOutput) (outcome : ToolResultOutcome) :
    List (String × Option Json) :=
  [("tool_call_id", some toolCallId.serialize), ("output", some output.serialize),
    ("outcome", some outcome.serialize)]

/-- Write a message. -/
def serialize : ModelMessage → Json
  | .system s => serializeTagged "role" "content" "system" (.string s)
  | .user s => serializeTagged "role" "content" "user" (.string s)
  | .assistant parts =>
    serializeTagged "role" "content" "assistant" (serializeVec AssistantPart.serialize parts)
  | .assistantWithReplay parts providerReplay =>
    serializeTagged "role" "content" "assistant"
      (serializeStruct (AssistantMessageWire.fields parts providerReplay))
  | .tool toolCallId output outcome =>
    serializeTagged "role" "content" "tool"
      (serializeStruct (toolFields toolCallId output outcome))

/-- Read the content of an assistant message. -/
def deserializeAssistant (value : Json) : Option ModelMessage := do
  match ← AssistantMessageWire.deserialize value with
  | .legacy parts => return .assistant parts
  | .replay parts providerReplay => (assistantWithProviderReplay parts providerReplay).toOption

/-- Read the content of a tool message. -/
def deserializeTool (value : Json) : Option ModelMessage := do
  let fields ← deserializeObject toolFieldNames true value
  let toolCallId ← fields.required "tool_call_id" ToolCallId.deserialize
  let output ← fields.required "output" ToolOutput.deserialize
  let outcome ← fields.required "outcome" ToolResultOutcome.deserialize
  return .tool toolCallId output outcome

/-- The variants, each with how its content is read. -/
def variants : List (String × (Json → Option ModelMessage)) :=
  [("system", fun value ↦ (deserializeString value).map .system),
    ("user", fun value ↦ (deserializeString value).map .user),
    ("assistant", deserializeAssistant), ("tool", deserializeTool)]

/-- Read a message, which is checked again. -/
def deserialize (value : Json) : Option ModelMessage := do
  let message ← deserializeTagged "role" "content" true variants value
  match message.validate with
  | .ok () => some message
  | .error _ => none

theorem deserializeTool_serialize (toolCallId : ToolCallId) (output : ToolOutput)
    (outcome : ToolResultOutcome) :
    deserializeTool (serializeStruct (toolFields toolCallId output outcome)) =
      some (.tool toolCallId output outcome) := by
  have hnames : ((toolFields toolCallId output outcome).map Prod.fst).Nodup := by
    change toolFieldNames.Nodup
    decide
  simp only [deserializeTool, Option.bind_eq_bind]
  rw [deserializeObject_serializeStruct (by simp [toolFields, toolFieldNames]), Option.bind_some,
    StructFields.required_ofStruct hnames (ToolCallId.deserialize_serialize toolCallId)
      (by simp [toolFields]), Option.bind_some,
    StructFields.required_ofStruct hnames (ToolOutput.deserialize_serialize output)
      (by simp [toolFields]), Option.bind_some,
    StructFields.required_ofStruct hnames (ToolResultOutcome.canonical.readBack outcome trivial)
      (by simp [toolFields]), Option.bind_some]
  rfl

/-- A message with replay metadata whose parts are in order is made as it is. -/
theorem assistantWithProviderReplay_some {parts : List AssistantPart} (h : OrderedParts parts)
    (providerReplay : ProviderReplay) :
    assistantWithProviderReplay parts (some providerReplay) =
      .ok (.assistantWithReplay parts providerReplay) := by
  have hvalid : (ModelMessage.assistantWithReplay parts providerReplay).validate = .ok () :=
    validateToolCallOrder_eq_ok.mpr h
  simp only [assistantWithProviderReplay, normalizeParts_of_valid h.texts, hvalid]

/-- A message that passes its check is read back. -/
theorem deserialize_serialize {message : ModelMessage} (hvalid : message.validate = .ok ()) :
    deserialize message.serialize = some message := by
  have hnames : (variants.map Prod.fst).Nodup := by
    change ["system", "user", "assistant", "tool"].Nodup
    decide
  -- Reading the content decides, since the message passes the check again.
  have hread : ∀ {name : String} {value : Json} {read : Json → Option ModelMessage},
      (name, read) ∈ variants → read value = some message →
      deserialize (serializeTagged "role" "content" name value) = some message := by
    intro name value read hmem hvalue
    rw [deserialize, deserializeTagged_serializeTagged (by decide) hnames hmem, hvalue,
      Option.bind_eq_bind, Option.bind_some, hvalid]
  cases message with
  | system s => exact hread (.head _) rfl
  | user s => exact hread (.tail _ (.head _)) rfl
  | assistant parts =>
    have hparts : OrderedParts parts := by
      rw [validate] at hvalid
      split at hvalid
      · exact absurd hvalid (by simp)
      · exact validateToolCallOrder_eq_ok.mp hvalid
    refine hread (.tail _ (.tail _ (.head _))) ?_
    rw [deserializeAssistant, AssistantMessageWire.deserialize_legacy hparts]
    rfl
  | assistantWithReplay parts providerReplay =>
    have hparts : OrderedParts parts := validateToolCallOrder_eq_ok.mp hvalid
    refine hread (.tail _ (.tail _ (.head _))) ?_
    rw [deserializeAssistant, AssistantMessageWire.deserialize_replay hparts providerReplay,
      Option.bind_eq_bind, Option.bind_some]
    simp only [assistantWithProviderReplay_some hparts]
    rfl
  | tool toolCallId output outcome =>
    exact hread (.tail _ (.tail _ (.tail _ (.head _))))
      (deserializeTool_serialize toolCallId output outcome)

end ModelMessage

/-! ## Responses -/

namespace ModelResponse

/-- The names of the fields. -/
def fieldNames : List String := ["parts", "finish_reason", "usage", "provider_replay"]

/-- The fields; replay metadata that is missing is skipped. -/
def fields (response : ModelResponse) : List (String × Option Json) :=
  [("parts", some (serializeVec AssistantPart.serialize response.parts)),
    ("finish_reason", some response.finishReason.serialize),
    ("usage", some (serializeOption Usage.serialize response.usage)),
    ("provider_replay", response.providerReplay.map ProviderReplay.serialize)]

/-- Write a response. -/
def serialize (response : ModelResponse) : Json := serializeStruct response.fields

/-- Read a response, which is made again. -/
def deserialize (value : Json) : Option ModelResponse := do
  let fields ← deserializeStruct fieldNames true value
  let parts ← fields.required "parts" (deserializeVec AssistantPart.deserialize)
  let finishReason ← fields.required "finish_reason" ModelFinishReason.deserialize
  let usage ← fields.optional "usage" Usage.deserialize
  let providerReplay ← fields.defaulted "provider_replay" ProviderReplay.deserialize
  (newWithProviderReplay parts finishReason usage providerReplay).toOption

/-- A response that a constructor returned, perhaps with replay metadata attached afterwards. -/
inductive Built : ModelResponse → Prop
  | new {parts : List AssistantPart} {finishReason : ModelFinishReason} {usage : Option Usage}
    {providerReplay : Option ProviderReplay} {response : ModelResponse} :
    newWithProviderReplay parts finishReason usage providerReplay = .ok response → Built response
  | withReplay {response : ModelResponse} (replay : ProviderReplay) :
    Built response → Built (response.withProviderReplay replay)

/-- The parts of a response that was made are accepted. -/
theorem Built.accepted {response : ModelResponse} (h : Built response) :
    AcceptedParts response.parts response.providerReplay := by
  induction h with
  | new h => exact (constructed_of_eq_ok h).accepted
  | withReplay replay _ ih => exact ⟨ih.ordered, .inr rfl⟩

/-- A response that was made is read back. -/
theorem deserialize_serialize {response : ModelResponse} (h : Built response) :
    deserialize response.serialize = some response := by
  obtain ⟨hparts, hnonempty⟩ := h.accepted
  have hsome : (response.parts.isEmpty && response.providerReplay.isNone) = false := by
    rcases hnonempty with hne | hreplay
    · simp [hne]
    · simp [hreplay]
  have hnames : (response.fields.map Prod.fst).Nodup := by
    change fieldNames.Nodup
    decide
  have husage : deserializeOption Usage.deserialize
      (serializeOption Usage.serialize response.usage) = some response.usage :=
    deserializeOption_serializeOption (fun _ ↦ serializeStruct_ne_null _)
      fun usage _ ↦ usage.deserialize_serialize
  have hreplay : (StructFields.ofStruct response.fields).defaulted "provider_replay"
      ProviderReplay.deserialize = some response.providerReplay := by
    exact ProviderReplay.defaulted_ofStruct hnames (by simp [fields])
  simp only [deserialize, serialize, Option.bind_eq_bind]
  rw [deserializeStruct_serializeStruct (by simp [fields, fieldNames]), Option.bind_some,
    StructFields.required_ofStruct hnames (deserialize_parts hparts) (by simp [fields]),
    Option.bind_some,
    StructFields.required_ofStruct hnames
      (ModelFinishReason.canonical.readBack response.finishReason trivial) (by simp [fields]),
    Option.bind_some, StructFields.optional_ofStruct hnames husage (by simp [fields]),
    Option.bind_some, hreplay, Option.bind_some]
  simp only [newWithProviderReplay, normalizeParts_of_valid hparts.texts, hsome,
    Bool.false_eq_true, if_false, validateToolCallOrder_eq_ok.mpr hparts]
  rfl

end ModelResponse

/-! ## Requests -/

namespace ModelLimits

/-- The names of the fields. -/
def fieldNames : List String := ["context_window_tokens", "max_output_tokens"]

/-- The fields; a limit that is missing is null. -/
def fields (limits : ModelLimits) : List (String × Option Json) :=
  [("context_window_tokens", some (serializeOption serializeU32 limits.contextWindowTokens)),
    ("max_output_tokens", some (serializeOption serializeU32 limits.maxOutputTokens))]

/-- Write the limits of a model. -/
def serialize (limits : ModelLimits) : Json := serializeStruct limits.fields

/-- Read the limits of a model, which are checked again. -/
def deserialize (value : Json) : Option ModelLimits := do
  let fields ← deserializeStruct fieldNames true value
  let contextWindowTokens ← fields.optional "context_window_tokens" deserializeU32
  let maxOutputTokens ← fields.optional "max_output_tokens" deserializeU32
  (ModelLimits.new contextWindowTokens maxOutputTokens).toOption

theorem deserialize_serialize (limits : ModelLimits) :
    deserialize limits.serialize = some limits := by
  have hnames : (limits.fields.map Prod.fst).Nodup := by
    change fieldNames.Nodup
    decide
  have hread : ∀ limit : Option UInt32,
      deserializeOption deserializeU32 (serializeOption serializeU32 limit) = some limit :=
    fun _ ↦ deserializeOption_serializeOption serializeU32_ne_null
      fun n _ ↦ deserializeU32_serializeU32 n
  simp only [deserialize, serialize, Option.bind_eq_bind]
  rw [deserializeStruct_serializeStruct (by simp [fields, fieldNames]), Option.bind_some,
    StructFields.optional_ofStruct hnames (hread limits.contextWindowTokens) (by simp [fields]),
    Option.bind_some,
    StructFields.optional_ofStruct hnames (hread limits.maxOutputTokens) (by simp [fields]),
    Option.bind_some, ModelLimits.new, dif_pos limits.valid]
  rfl

end ModelLimits

/-- A message that the check of a tool exchange accepts passes its own check. -/
theorem validate_of_exchangeStep {state state' : Exchange} {message : ModelMessage}
    (h : exchangeStep state message = .ok state') : message.validate = .ok () := by
  unfold exchangeStep at h
  cases message with
  | tool toolCallId output outcome => rfl
  | system s | user s | assistant parts | assistantWithReplay parts replay =>
    simp only at h
    split at h
    · exact absurd h (by simp)
    · split at h
      · exact absurd h (by simp)
      · assumption

theorem validate_of_exchangeFrom {state state' : Exchange} {messages : List ModelMessage}
    (h : exchangeFrom state messages = .ok state') :
    ∀ message ∈ messages, message.validate = .ok () := by
  induction messages generalizing state with
  | nil => exact nofun
  | cons first rest ih =>
    rw [exchangeFrom] at h
    split at h
    · exact absurd h (by simp)
    · rename_i next hnext
      intro message hmessage
      rcases List.mem_cons.mp hmessage with rfl | hmessage
      · exact validate_of_exchangeStep hnext
      · exact ih h message hmessage

namespace ModelRequest

/-- The names of the fields. -/
def fieldNames : List String := ["messages", "tools", "limits", "reasoning"]

/-- The fields of a request. -/
def fields (request : ModelRequest) : List (String × Option Json) :=
  [("messages", some (serializeVec ModelMessage.serialize request.messages)),
    ("tools", some (serializeVec ToolSpec.serialize request.tools)),
    ("limits", some request.limits.serialize), ("reasoning", some request.reasoning.serialize)]

/-- Write a request. -/
def serialize (request : ModelRequest) : Json := serializeStruct request.fields

/-- Read a request, which is made again. -/
def deserialize (value : Json) : Option ModelRequest := do
  let fields ← deserializeStruct fieldNames true value
  let messages ← fields.required "messages" (deserializeVec ModelMessage.deserialize)
  let tools ← fields.required "tools" (deserializeVec ToolSpec.deserialize)
  let limits ← fields.required "limits" ModelLimits.deserialize
  let reasoning ← fields.required "reasoning" ReasoningPreference.deserialize
  (ModelRequest.new messages tools limits reasoning).toOption

/-- A request that a constructor returned: over any catalogue, or over the one of a tool set that
was built. -/
inductive Built : ModelRequest → Prop
  | new {messages : List ModelMessage} {tools : List ToolSpec} {limits : ModelLimits}
    {reasoning : ReasoningPreference} {request : ModelRequest} :
    ModelRequest.new messages tools limits reasoning = .ok request → Built request
  | withValidatedTools {registrations : List (ToolHandle × Option ToolSpec)} {set : ToolSet}
    {messages : List ModelMessage} {limits : ModelLimits} {reasoning : ReasoningPreference}
    {request : ModelRequest} :
    (ToolSetBuilder.registerAll registrations).build = .ok set →
    ModelRequest.withValidatedTools messages set.specs limits reasoning = .ok request →
    Built request

/-- A request that was made passes the check of its constructor. -/
theorem Built.new_self {request : ModelRequest} (h : Built request) :
    ModelRequest.new request.messages request.tools request.limits request.reasoning =
      .ok request := by
  cases h with
  | new h =>
    unfold ModelRequest.new at h ⊢
    split at h
    · exact absurd h (by simp)
    · rename_i horder
      obtain ⟨hsome, hexchange, rfl⟩ := withValidatedTools_eq_ok.mp h
      rw [if_neg horder]
      exact withValidatedTools_eq_ok.mpr ⟨hsome, hexchange, rfl⟩
  | withValidatedTools hset h =>
    have horder := outOfOrder_of_increasing (ToolSetBuilder.build_coherent hset).ordered
    obtain ⟨hsome, hexchange, rfl⟩ := withValidatedTools_eq_ok.mp h
    rw [ModelRequest.new, horder, if_neg Bool.false_ne_true]
    exact withValidatedTools_eq_ok.mpr ⟨hsome, hexchange, rfl⟩

/-- The messages of a request that was made pass their checks. -/
theorem Built.messages {request : ModelRequest} (h : Built request) :
    ∀ message ∈ request.messages, message.validate = .ok () := by
  have hnew := h.new_self
  unfold ModelRequest.new at hnew
  split at hnew
  · exact absurd hnew (by simp)
  · obtain ⟨-, hexchange, -⟩ := withValidatedTools_eq_ok.mp hnew
    obtain ⟨completed, hfrom⟩ := validateToolExchange_eq_ok.mp hexchange
    exact validate_of_exchangeFrom hfrom

/-- A request that was made is read back. -/
theorem deserialize_serialize {request : ModelRequest} (h : Built request) :
    deserialize request.serialize = some request := by
  have hnames : (request.fields.map Prod.fst).Nodup := by
    change fieldNames.Nodup
    decide
  have hmessages := deserializeVec_serializeVec fun message hmessage ↦
    ModelMessage.deserialize_serialize (h.messages message hmessage)
  have htools := deserializeVec_serializeVec fun spec (_ : spec ∈ request.tools) ↦
    spec.deserialize_serialize
  simp only [deserialize, serialize, Option.bind_eq_bind]
  rw [deserializeStruct_serializeStruct (by simp [fields, fieldNames]), Option.bind_some,
    StructFields.required_ofStruct hnames hmessages (by simp [fields]), Option.bind_some,
    StructFields.required_ofStruct hnames htools (by simp [fields]), Option.bind_some,
    StructFields.required_ofStruct hnames (ModelLimits.deserialize_serialize request.limits)
      (by simp [fields]), Option.bind_some,
    StructFields.required_ofStruct hnames
      (ReasoningPreference.canonical.readBack request.reasoning trivial) (by simp [fields]),
    Option.bind_some, h.new_self]
  rfl

end ModelRequest

end MinicoreRuntime
