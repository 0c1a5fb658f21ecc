import MinicoreRuntime.Wire.Derive
import MinicoreRuntime.Model.Response
import MinicoreRuntime.History

/-!
# Identifiers, texts and enumerations on the wire

How the small values of messages and histories are written and read back: identifiers, bounded
texts, enumerations, token usage, limits and tool specifications. Reading builds each value with its
constructor, so that a value that was read is well formed.

## Main definitions

* `encodeRuntimeId`, `decodeRuntimeId`: runtime identifiers, in hexadecimal with a prefix.
* `serialize` and `deserialize` of each type.

## Main results

* `decodeRuntimeId_encodeRuntimeId`, and `canonical` of each type: values are read back.
-/

namespace MinicoreRuntime

/-! ## Runtime identifiers -/

/-- The ways the text of a runtime identifier is malformed. -/
inductive IdError where
  | invalidPrefix
  | invalidLength
  | invalidHex
  | zeroPayload
deriving DecidableEq, Repr

/-- The value of a hexadecimal digit in lower case. -/
def decodeLowerHex (c : Char) : Option Nat :=
  if 0x30 ≤ c.toNat && c.toNat ≤ 0x39 then some (c.toNat - 0x30)
  else if 0x61 ≤ c.toNat && c.toNat ≤ 0x66 then some (c.toNat - 0x61 + 10)
  else none

/-- The bytes that pairs of digits stand for. -/
def decodeHexBytes : Text → Option (List UInt8)
  | [] => some []
  | [_] => none
  | high :: low :: rest => do
    let high ← decodeLowerHex high
    let low ← decodeLowerHex low
    let bytes ← decodeHexBytes rest
    return UInt8.ofNat (16 * high + low) :: bytes

/-- Two digits for each byte. -/
def encodeHexBytes (bytes : List UInt8) : Text :=
  bytes.flatMap fun byte ↦ [Json.hexDigit (byte.toNat / 16), Json.hexDigit (byte.toNat % 16)]

/-- Read a runtime identifier. -/
def decodeRuntimeId (idPrefix value : Text) : Except IdError RuntimeId :=
  match idPrefix.isPrefixOf? value with
  | none => .error .invalidPrefix
  | some payload =>
    if byteLen payload ≠ 32 then .error .invalidLength
    else match decodeHexBytes payload with
      | none => .error .invalidHex
      | some bytes =>
        if hlength : bytes.length = 16 then
          if hnonzero : (bytes.any fun b ↦ b != 0) = true then
            .ok ⟨⟨bytes.toArray, hlength⟩, hnonzero⟩
          else .error .zeroPayload
        -- 32 digits are 16 bytes, so the length is right here.
        else .error .invalidHex

/-- Write a runtime identifier. -/
def encodeRuntimeId (idPrefix : Text) (id : RuntimeId) : Text :=
  idPrefix ++ encodeHexBytes id.bytes.toList

theorem decodeLowerHex_hexDigit : ∀ n < 16, decodeLowerHex (Json.hexDigit n) = some n := by
  decide

theorem utf8Size_hexDigit : ∀ n < 16, (Json.hexDigit n).utf8Size = 1 := by
  decide

theorem decodeHexBytes_encodeHexBytes (bytes : List UInt8) :
    decodeHexBytes (encodeHexBytes bytes) = some bytes := by
  induction bytes with
  | nil => rfl
  | cons byte bytes ih =>
    have hbyte := byte.toNat_lt
    have hhigh := decodeLowerHex_hexDigit (byte.toNat / 16) (by omega)
    have hlow := decodeLowerHex_hexDigit (byte.toNat % 16) (by omega)
    change decodeHexBytes (_ :: _ :: encodeHexBytes bytes) = _
    rw [decodeHexBytes, hhigh, hlow, ih]
    have hvalue : UInt8.ofNat (16 * (byte.toNat / 16) + byte.toNat % 16) = byte := by
      rw [Nat.div_add_mod, UInt8.ofNat_toNat]
    simp only [Option.bind_eq_bind, Option.bind_some, hvalue]
    rfl

theorem byteLen_encodeHexBytes (bytes : List UInt8) :
    byteLen (encodeHexBytes bytes) = 2 * bytes.length := by
  induction bytes with
  | nil => rfl
  | cons byte bytes ih =>
    have hbyte := byte.toNat_lt
    change byteLen (_ :: _ :: encodeHexBytes bytes) = _
    rw [byteLen_cons, byteLen_cons, ih, utf8Size_hexDigit _ (by omega),
      utf8Size_hexDigit _ (by omega), List.length_cons]
    omega

/-- A runtime identifier is read back. -/
theorem decodeRuntimeId_encodeRuntimeId (idPrefix : Text) (id : RuntimeId) :
    decodeRuntimeId idPrefix (encodeRuntimeId idPrefix id) = .ok id := by
  have hlength : id.bytes.toList.length = 16 := Vector.length_toList
  have hbytes : byteLen (encodeHexBytes id.bytes.toList) = 32 := by
    rw [byteLen_encodeHexBytes, hlength]
  have hstripped : idPrefix.isPrefixOf? (idPrefix ++ encodeHexBytes id.bytes.toList) =
      some (encodeHexBytes id.bytes.toList) :=
    List.isPrefixOf?_eq_some_iff_append_eq.mpr rfl
  unfold decodeRuntimeId encodeRuntimeId
  simp only [hstripped, hbytes, decodeHexBytes_encodeHexBytes, ne_eq, not_true_eq_false,
    if_false, dif_pos hlength, dif_pos id.nonzero]
  rfl

/-- A runtime identifier is canonical, whatever its prefix. -/
theorem canonical_runtimeId (idPrefix : Text) :
    Canonical (fun id ↦ .string (encodeRuntimeId idPrefix id))
      (deserializeFromStr (decodeRuntimeId idPrefix))
      fun id ↦ decodeRuntimeId idPrefix (encodeRuntimeId idPrefix id) = .ok id :=
  .fromStr (decodeRuntimeId_encodeRuntimeId idPrefix)

namespace LoopId

/-- Write the identifier of a loop. -/
def serialize (id : LoopId) : Json := .string (encodeRuntimeId "lup_".toList id)

/-- Read the identifier of a loop. -/
def deserialize : Json → Option LoopId := deserializeFromStr (decodeRuntimeId "lup_".toList)

theorem deserialize_serialize (id : LoopId) : deserialize (serialize id) = some id :=
  (canonical_runtimeId _).readBack id (decodeRuntimeId_encodeRuntimeId _ id)

end LoopId

namespace InteractionId

/-- Write the identifier of an interaction. -/
def serialize (id : InteractionId) : Json := .string (encodeRuntimeId "int_".toList id)

/-- Read the identifier of an interaction. -/
def deserialize : Json → Option InteractionId := deserializeFromStr (decodeRuntimeId "int_".toList)

end InteractionId

/-! ## Names and texts -/

namespace ToolCallId

/-- Write the identifier of a tool call. -/
def serialize (id : ToolCallId) : Json := .string id.asStr

/-- Read the identifier of a tool call. -/
def deserialize : Json → Option ToolCallId := deserializeFromStr ToolCallId.new

theorem new_self (id : ToolCallId) : ToolCallId.new id.asStr = .ok id := by
  have hlength : ¬ (id.asStr = [] ∨ byteLen id.asStr > 256) := by
    rw [not_or, not_lt]
    exact id.length
  rw [ToolCallId.new, dif_neg hlength, dif_pos id.printable]

theorem canonical : Canonical serialize deserialize fun id ↦ ToolCallId.new id.asStr = .ok id :=
  .fromStr new_self

theorem deserialize_serialize (id : ToolCallId) : deserialize id.serialize = some id :=
  canonical.readBack id id.new_self

end ToolCallId

namespace ToolName

/-- Write the name of a tool. -/
def serialize (name : ToolName) : Json := .string name.asStr

/-- Read the name of a tool. -/
def deserialize : Json → Option ToolName := deserializeFromStr ToolName.fromStr

theorem fromStr_self (name : ToolName) : ToolName.fromStr name.asStr = .ok name := by
  have hlength : ¬ (name.asStr = [] ∨ byteLen name.asStr > 64) := by
    rw [not_or, not_lt]
    exact name.length
  rw [ToolName.fromStr, dif_neg hlength, dif_pos name.grammar]

theorem canonical :
    Canonical serialize deserialize fun name ↦ ToolName.fromStr name.asStr = .ok name :=
  .fromStr fromStr_self

theorem deserialize_serialize (name : ToolName) : deserialize name.serialize = some name :=
  canonical.readBack name name.fromStr_self

end ToolName

namespace ModelRef

/-- Write a reference to a model. -/
def serialize (model : ModelRef) : Json := .string model.asStr

/-- Read a reference to a model. -/
def deserialize : Json → Option ModelRef := deserializeFromStr ModelRef.fromStr

theorem fromStr_self (model : ModelRef) : ModelRef.fromStr model.asStr = .ok model := by
  have hlength : ¬ (model.asStr = [] ∨ byteLen model.asStr > 256) := by
    rw [not_or, not_lt]
    exact model.length
  rw [ModelRef.fromStr, dif_neg hlength, dif_pos model.grammar]

theorem canonical :
    Canonical serialize deserialize fun model ↦ ModelRef.fromStr model.asStr = .ok model :=
  .fromStr fromStr_self

theorem deserialize_serialize (model : ModelRef) : deserialize model.serialize = some model :=
  canonical.readBack model model.fromStr_self

end ModelRef

namespace BoundedText

/-- Write a bounded text. -/
def serialize (text : BoundedText) : Json := .string text.asStr

/-- Read a bounded text. -/
def deserialize : Json → Option BoundedText := deserializeFromStr BoundedText.new

theorem new_self (text : BoundedText) : BoundedText.new text.asStr = .ok text :=
  new_eq_ok text.bounded

theorem canonical :
    Canonical serialize deserialize fun text ↦ BoundedText.new text.asStr = .ok text :=
  .fromStr new_self

theorem deserialize_serialize (text : BoundedText) : deserialize text.serialize = some text :=
  canonical.readBack text text.new_self

end BoundedText

/-! ## Enumerations -/

namespace ToolResultOutcome

/-- The name of the outcome of a tool call. -/
def name : ToolResultOutcome → String
  | .success => "success"
  | .failed => "failed"
  | .denied => "denied"
  | .cancelled => "cancelled"
  | .inputProvided => "input_provided"

/-- All of them. -/
def all : List ToolResultOutcome := [.success, .failed, .denied, .cancelled, .inputProvided]

/-- Write the outcome of a tool call by its name. -/
def serialize (outcome : ToolResultOutcome) : Json := .string outcome.name.toList

/-- Read the outcome of a tool call by its name. -/
def deserialize : Json → Option ToolResultOutcome := deserializeUnit (namedVariants name all)

theorem canonical : Canonical serialize deserialize fun _ ↦ True :=
  .unit (by decide) fun outcome ↦ by cases outcome <;> simp [all]

end ToolResultOutcome

namespace ModelFinishReason

/-- The name of a finish reason. -/
def name : ModelFinishReason → String
  | .stop => "stop"
  | .toolCalls => "tool_calls"
  | .length => "length"
  | .contentFiltered => "content_filtered"
  | .refused => "refused"
  | .unknown => "unknown"

/-- All of them. -/
def all : List ModelFinishReason :=
  [.stop, .toolCalls, .length, .contentFiltered, .refused, .unknown]

/-- Write a finish reason by its name. -/
def serialize (reason : ModelFinishReason) : Json := .string reason.name.toList

/-- Read a finish reason by its name. -/
def deserialize : Json → Option ModelFinishReason := deserializeUnit (namedVariants name all)

theorem canonical : Canonical serialize deserialize fun _ ↦ True :=
  .unit (by decide) fun reason ↦ by cases reason <;> simp [all]

end ModelFinishReason

namespace ReasoningPreference

/-- The name of a reasoning preference. -/
def name : ReasoningPreference → String
  | .auto => "auto"
  | .disabled => "disabled"
  | .low => "low"
  | .medium => "medium"
  | .high => "high"
  | .xHigh => "xhigh"
  | .max => "max"
  | .ultra => "ultra"

/-- All of them. -/
def all : List ReasoningPreference := [.auto, .disabled, .low, .medium, .high, .xHigh, .max, .ultra]

/-- Write a reasoning preference by its name. -/
def serialize (preference : ReasoningPreference) : Json := .string preference.name.toList

/-- Read a reasoning preference by its name. -/
def deserialize : Json → Option ReasoningPreference := deserializeUnit (namedVariants name all)

theorem canonical : Canonical serialize deserialize fun _ ↦ True :=
  .unit (by decide) fun preference ↦ by cases preference <;> simp [all]

end ReasoningPreference

namespace UserMessageKind

/-- The name of a kind of user message. -/
def name : UserMessageKind → String
  | .prompt => "prompt"
  | .steering => "steering"

/-- All of them. -/
def all : List UserMessageKind := [.prompt, .steering]

/-- Write a kind of user message by its name. -/
def serialize (kind : UserMessageKind) : Json := .string kind.name.toList

/-- Read a kind of user message by its name. -/
def deserialize : Json → Option UserMessageKind := deserializeUnit (namedVariants name all)

theorem canonical : Canonical serialize deserialize fun _ ↦ True :=
  .unit (by decide) fun kind ↦ by cases kind <;> simp [all]

end UserMessageKind

/-! ## Usage and limits -/

/-- Write a 64-bit integer. -/
def serializeU64 (n : UInt64) : Json := serializeUint n.toNat

/-- Read a 64-bit integer. -/
def deserializeU64 (value : Json) : Option UInt64 := (deserializeUint 64 value).map UInt64.ofNat

theorem deserializeU64_serializeU64 (n : UInt64) : deserializeU64 (serializeU64 n) = some n := by
  rw [deserializeU64, serializeU64, deserializeUint_serializeUint n.toNat_lt, Option.map_some,
    UInt64.ofNat_toNat]

theorem serializeU64_ne_null (n : UInt64) : serializeU64 n ≠ .null := by
  simp [serializeU64, serializeUint]

/-- Write a 32-bit integer. -/
def serializeU32 (n : UInt32) : Json := serializeUint n.toNat

/-- Read a 32-bit integer. -/
def deserializeU32 (value : Json) : Option UInt32 := (deserializeUint 32 value).map UInt32.ofNat

theorem deserializeU32_serializeU32 (n : UInt32) : deserializeU32 (serializeU32 n) = some n := by
  rw [deserializeU32, serializeU32, deserializeUint_serializeUint n.toNat_lt, Option.map_some,
    UInt32.ofNat_toNat]

theorem serializeU32_ne_null (n : UInt32) : serializeU32 n ≠ .null := by
  simp [serializeU32, serializeUint]

namespace Usage

/-- The names of the fields. -/
def fieldNames : List String :=
  ["input_tokens", "output_tokens", "reasoning_tokens", "cache_read_tokens", "cache_write_tokens",
    "provider_total_tokens"]

/-- The fields; a count that is not reported is skipped. -/
def fields (usage : Usage) : List (String × Option Json) :=
  [("input_tokens", usage.inputTokens.map serializeU64),
    ("output_tokens", usage.outputTokens.map serializeU64),
    ("reasoning_tokens", usage.reasoningTokens.map serializeU64),
    ("cache_read_tokens", usage.cacheReadTokens.map serializeU64),
    ("cache_write_tokens", usage.cacheWriteTokens.map serializeU64),
    ("provider_total_tokens", usage.providerTotalTokens.map serializeU64)]

/-- Write usage. -/
def serialize (usage : Usage) : Json := serializeStruct usage.fields

/-- Read usage. -/
def deserialize (value : Json) : Option Usage := do
  let fields ← deserializeStruct fieldNames true value
  let inputTokens ← fields.defaulted "input_tokens" deserializeU64
  let outputTokens ← fields.defaulted "output_tokens" deserializeU64
  let reasoningTokens ← fields.defaulted "reasoning_tokens" deserializeU64
  let cacheReadTokens ← fields.defaulted "cache_read_tokens" deserializeU64
  let cacheWriteTokens ← fields.defaulted "cache_write_tokens" deserializeU64
  let providerTotalTokens ← fields.defaulted "provider_total_tokens" deserializeU64
  return ⟨inputTokens, outputTokens, reasoningTokens, cacheReadTokens, cacheWriteTokens,
    providerTotalTokens⟩

/-- Usage is read back, whichever counts are reported. -/
theorem deserialize_serialize (usage : Usage) : deserialize usage.serialize = some usage := by
  have hnames : (usage.fields.map Prod.fst).Nodup := by
    change fieldNames.Nodup
    decide
  have hfield : ∀ (name : String) (count : Option UInt64),
      (name, count.map serializeU64) ∈ usage.fields →
      (StructFields.ofStruct usage.fields).defaulted name deserializeU64 = some count :=
    fun _ _ h ↦ StructFields.defaulted_ofStruct hnames h serializeU64_ne_null
      fun n _ ↦ deserializeU64_serializeU64 n
  simp only [deserialize, serialize, Option.bind_eq_bind]
  rw [deserializeStruct_serializeStruct (by simp [fields, fieldNames]), Option.bind_some,
    hfield "input_tokens" usage.inputTokens (by simp [fields]), Option.bind_some,
    hfield "output_tokens" usage.outputTokens (by simp [fields]), Option.bind_some,
    hfield "reasoning_tokens" usage.reasoningTokens (by simp [fields]), Option.bind_some,
    hfield "cache_read_tokens" usage.cacheReadTokens (by simp [fields]), Option.bind_some,
    hfield "cache_write_tokens" usage.cacheWriteTokens (by simp [fields]), Option.bind_some,
    hfield "provider_total_tokens" usage.providerTotalTokens (by simp [fields]), Option.bind_some]
  rfl

/-- Every usage is canonical. -/
theorem canonical : Canonical serialize deserialize fun _ ↦ True where
  legal _ _ _ := trivial
  readBack usage _ := usage.deserialize_serialize

end Usage

end MinicoreRuntime
