import MinicoreRuntime.Tools
import MinicoreRuntime.Error

/-!
# Model messages

The parts of an assistant message, the messages of a model request, and the check that the tool
calls of a message are numbered `0, 1, 2, …` and have distinct identifiers.

## Main definitions

* `ReasoningContent`, `ToolCall`, `AssistantPart`, `ProviderReplay`.
* `ModelMessage` and its constructors, `ModelMessage.validate`.
* `validateToolCallOrder`, `normalizeParts`.

## Main results

* `validateToolCallOrder_eq_ok`: what the check of a message's calls accepts.
-/

namespace MinicoreRuntime

/-- The ways a value for a model is malformed. -/
inductive ModelValueError where
  | invalidText
  | emptyReasoningContent
  | emptyMessages
  | emptyAssistantParts
  | invalidToolArguments
  | orphanToolResult
  | duplicateToolResult
  | incompleteToolExchange
  | emptyResponseParts
  | duplicateToolCallId
  | duplicateToolCallIndex
  | invalidToolCallOrder
  | invalidDescriptor
  | invalidEvent
  | invalidProviderReplay
  | invalidTools
deriving DecidableEq, Repr

/-- The absolute cap on the text of one message. -/
def maxModelMessageTextBytes : Nat := 262144

/-! ## Reasoning -/

/-- Normalise an optional text and bound it. -/
def normalizeOptionalText (value : Option Text) (maximum : Nat) :
    Except ModelValueError (Option Text) :=
  match value with
  | none => .ok none
  | some value =>
    let text := normalizeModelText value
    if byteLen text > maximum then .error .invalidText else .ok (some text)

/-- Bound an optional opaque text. -/
def validateOptionalOpaque (value : Option Text) (maximum : Nat) : Bool :=
  !value.any fun value ↦
    value.isEmpty || decide (byteLen value > maximum) || value.any fun c ↦ !isOpaqueChar c

/-- The check of an optional text that was normalised. -/
def validOptionalText (value : Option Text) (maximum : Nat) : Bool :=
  value.all fun value ↦ validText value maximum true

theorem normalizeOptionalText_valid {value text : Option Text} {maximum : Nat}
    (h : normalizeOptionalText value maximum = .ok text) :
    validOptionalText text maximum = true := by
  cases value with
  | none =>
    obtain rfl := Except.ok.inj h
    rfl
  | some value =>
    simp only [normalizeOptionalText] at h
    split at h
    · exact absurd h (by simp)
    · obtain rfl := Except.ok.inj h
      rename_i hlen
      exact validText_normalizeModelText (not_lt.mp hlen)

/-- Text that passes the check is normalised already. -/
theorem normalizeOptionalText_of_valid {text : Option Text} {maximum : Nat}
    (h : validOptionalText text maximum = true) :
    normalizeOptionalText text maximum = .ok text := by
  cases text with
  | none => rfl
  | some value =>
    have hvalid : validText value maximum true = true := h
    have hlen : ¬ byteLen value > maximum := not_lt.mpr (validText_iff.mp hvalid).2.1
    simp [normalizeOptionalText, normalizeModelText_of_valid hvalid, hlen]

/-- The check of the reasoning of an assistant message. -/
def ReasoningContent.validFields (text summary encrypted signature : Option Text) : Bool :=
  validOptionalText text 262144 && validOptionalText summary 131072 &&
    validateOptionalOpaque encrypted 262144 && validateOptionalOpaque signature 16384 &&
    !(text.isNone && summary.isNone && encrypted.isNone && signature.isNone)

/-- The reasoning of an assistant message. -/
structure ReasoningContent where
  text : Option Text
  summary : Option Text
  encrypted : Option Text
  signature : Option Text
  /-- The texts were normalised and checked, and one of them is there. -/
  valid : ReasoningContent.validFields text summary encrypted signature = true
deriving DecidableEq

theorem ReasoningContent.validFields_of_checks {text summary encrypted signature : Option Text}
    (htext : validOptionalText text 262144 = true)
    (hsummary : validOptionalText summary 131072 = true)
    (hencrypted : ¬ (!validateOptionalOpaque encrypted 262144) = true)
    (hsignature : ¬ (!validateOptionalOpaque signature 16384) = true)
    (hsome : ¬ (text.isNone && summary.isNone && encrypted.isNone && signature.isNone) = true) :
    validFields text summary encrypted signature = true := by
  rw [Bool.not_eq_true] at hencrypted hsignature hsome
  simp only [Bool.not_eq_false'] at hencrypted hsignature
  simp only [validFields, htext, hsummary, hencrypted, hsignature, hsome, Bool.not_false,
    Bool.and_self]

/-- Check and normalise the reasoning of an assistant message. -/
def ReasoningContent.new (text summary encrypted signature : Option Text) :
    Except ModelValueError ReasoningContent :=
  match htext : normalizeOptionalText text 262144 with
  | .error e => .error e
  | .ok text =>
    match hsummary : normalizeOptionalText summary 131072 with
    | .error e => .error e
    | .ok summary =>
      if hencrypted : !validateOptionalOpaque encrypted 262144 then .error .invalidText
      else if hsignature : !validateOptionalOpaque signature 16384 then .error .invalidText
      -- One of the artifacts is there.
      else if hsome : text.isNone && summary.isNone && encrypted.isNone && signature.isNone then
        .error .emptyReasoningContent
      else .ok ⟨text, summary, encrypted, signature,
        validFields_of_checks (normalizeOptionalText_valid htext)
          (normalizeOptionalText_valid hsummary) hencrypted hsignature hsome⟩

/-- Checked reasoning passes the check again, unchanged. -/
theorem ReasoningContent.new_self (content : ReasoningContent) :
    ReasoningContent.new content.text content.summary content.encrypted content.signature =
      .ok content := by
  obtain ⟨text, summary, encrypted, signature, hvalid⟩ := content
  have hchecks := hvalid
  simp only [validFields, Bool.and_eq_true, Bool.not_eq_true'] at hchecks
  obtain ⟨⟨⟨⟨htext, hsummary⟩, hencrypted⟩, hsignature⟩, hsome⟩ := hchecks
  unfold ReasoningContent.new
  split
  · rename_i e he
    rw [normalizeOptionalText_of_valid htext] at he
    exact absurd he (by simp)
  · rename_i text' htext'
    rw [normalizeOptionalText_of_valid htext] at htext'
    obtain rfl := Except.ok.inj htext'
    split
    · rename_i e he
      rw [normalizeOptionalText_of_valid hsummary] at he
      exact absurd he (by simp)
    · rename_i summary' hsummary'
      rw [normalizeOptionalText_of_valid hsummary] at hsummary'
      obtain rfl := Except.ok.inj hsummary'
      rw [dif_neg (by simp [hencrypted]), dif_neg (by simp [hsignature]), dif_neg (by simp [hsome])]

/-- The reasoning is this text, and nothing else. -/
structure ReasoningContent.IsText (content : ReasoningContent) (value : Text) : Prop where
  text : content.text = some value
  summary : content.summary = none
  encrypted : content.encrypted = none
  signature : content.signature = none

/-- Legal text within the cap is kept as the only artifact. -/
theorem ReasoningContent.new_text {value : Text} (h : validText value 262144 true = true) :
    ∃ content, ReasoningContent.new (some value) none none none = .ok content ∧
      content.IsText value := by
  have hvalid : validFields (some value) none none none = true := by
    simp [validFields, validOptionalText, validateOptionalOpaque, h]
  exact ⟨⟨some value, none, none, none, hvalid⟩, new_self ⟨_, _, _, _, hvalid⟩, rfl, rfl, rfl, rfl⟩

/-! ## Tool calls -/

/-- The check of a call's arguments. -/
def ToolCall.validArguments (arguments : Json) (maxBytes : Nat) : Bool :=
  arguments.isObject && (validateJsonSize arguments maxBytes).toBool

/-- A tool call of an assistant message. -/
structure ToolCall where
  toolCallId : ToolCallId
  name : ToolName
  arguments : Json
  callIndex : Nat
  /-- The arguments are a JSON object within the caps. -/
  valid : ToolCall.validArguments arguments maxJsonBytes = true

theorem validateJsonSize_toBool_iff {value : Json} {maxBytes : Nat} :
    (validateJsonSize value maxBytes).toBool = true ↔ validateJsonSize value maxBytes = .ok () := by
  cases validateJsonSize value maxBytes <;> simp [Except.toBool]

theorem ToolCall.validArguments_mono {arguments : Json} {maxBytes : Nat}
    (h : validArguments arguments maxBytes = true) :
    validArguments arguments maxJsonBytes = true := by
  simp only [validArguments, Bool.and_eq_true, validateJsonSize_toBool_iff] at h ⊢
  exact ⟨h.1, validateJsonSize_mono h.2 (validateJsonSize_eq_ok.mp h.2).1 le_rfl⟩

/-- Check the arguments of a tool call against a byte budget. -/
def ToolCall.newWithMaxBytes (toolCallId : ToolCallId) (name : ToolName) (arguments : Json)
    (callIndex maxBytes : Nat) : Except ModelValueError ToolCall :=
  if h : validArguments arguments maxBytes = true then
    .ok ⟨toolCallId, name, arguments, callIndex, validArguments_mono h⟩
  else .error .invalidToolArguments

/-! ## Replay metadata -/

mutual

/-- Count the nodes of a replay payload onto `nodes`, within the caps on depth and nodes. -/
def validateShape : Json → Nat → Nat → Except ModelValueError Nat
  | value, depth, nodes =>
    -- A node counts before its children are looked at.
    if depth > 32 || nodes + 1 > 16384 then .error .invalidProviderReplay
    else match value with
      | .array items => validateShapeItems items (depth + 1) (nodes + 1)
      | .object items => validateShapeFields items (depth + 1) (nodes + 1)
      | _ => .ok (nodes + 1)

/-- The same for the items of an array. -/
def validateShapeItems : List Json → Nat → Nat → Except ModelValueError Nat
  | [], _, nodes => .ok nodes
  | item :: items, depth, nodes =>
    match validateShape item depth nodes with
    | .ok nodes => validateShapeItems items depth nodes
    | .error e => .error e

/-- The same for the fields of an object. -/
def validateShapeFields : List (Text × Json) → Nat → Nat → Except ModelValueError Nat
  | [], _, nodes => .ok nodes
  | (_, item) :: items, depth, nodes =>
    match validateShape item depth nodes with
    | .ok nodes => validateShapeFields items depth nodes
    | .error e => .error e

end

namespace ProviderReplay

/-- The cap on the serialised envelope. -/
def maxBytes : Nat := 256 * 1024

/-- The writes of the serialised envelope. -/
def envelope (format : Text) (payload : Json) : List Text :=
  (Json.object [("format".toList, .string format), ("payload".toList, payload)]).writes

/-- Check replay metadata and count the bytes of its envelope. -/
def measure (format : Text) (payload : Json) : Except ModelValueError Nat :=
  if format.isEmpty || decide (byteLen format > 128) || !format.all isSymbolicChar then
    .error .invalidProviderReplay
  else match validateShape payload 0 0 with
    | .error e => .error e
    | .ok _ =>
      match (JsonCountingWriter.new maxBytes).writeAll (envelope format payload) with
      | (true, sink) => .ok sink.written
      | (false, _) => .error .invalidProviderReplay

end ProviderReplay

/-- Provider-owned metadata of a response, carried along without being interpreted. -/
structure ProviderReplay where
  format : Text
  payload : Json
  bytes : Nat
  /-- The metadata was checked and counted. -/
  valid : ProviderReplay.measure format payload = .ok bytes

namespace ProviderReplay

/-- Check replay metadata. -/
def new (format : Text) (payload : Json) : Except ModelValueError ProviderReplay :=
  match h : measure format payload with
  | .error e => .error e
  | .ok bytes => .ok ⟨format, payload, bytes, h⟩

/-- Checked metadata passes the check again, and the same bytes are counted. -/
theorem new_self (replay : ProviderReplay) : new replay.format replay.payload = .ok replay := by
  obtain ⟨format, payload, bytes, hvalid⟩ := replay
  unfold new
  split
  · rename_i e he
    rw [hvalid] at he
    exact absurd he (by simp)
  · rename_i bytes' hbytes
    rw [hvalid] at hbytes
    obtain rfl := Except.ok.inj hbytes
    rfl

end ProviderReplay

/-! ## Assistant parts -/

/-- A part of an assistant message. -/
inductive AssistantPart where
  | text (text : Text)
  | reasoning (content : ReasoningContent)
  | toolCall (call : ToolCall)

namespace AssistantPart

/-- The check of a part. -/
def validate : AssistantPart → Except ModelValueError Unit
  | .text value =>
    if validText value maxModelMessageTextBytes true then .ok () else .error .invalidText
  | .reasoning _ | .toolCall _ => .ok ()

/-- The tool call of a part, if it is one. -/
def asToolCall : AssistantPart → Option ToolCall
  | .toolCall call => some call
  | .text _ | .reasoning _ => none

end AssistantPart

/-- The tool calls among the parts of a message. -/
def toolCalls (parts : List AssistantPart) : List ToolCall :=
  parts.filterMap AssistantPart.asToolCall

@[simp]
theorem toolCalls_nil : toolCalls [] = [] := rfl

@[simp]
theorem toolCalls_cons (part : AssistantPart) (parts : List AssistantPart) :
    toolCalls (part :: parts) = part.asToolCall.toList ++ toolCalls parts := by
  cases h : part.asToolCall <;> simp [toolCalls, h]

/-- Normalise the texts among the parts of a message. -/
def normalizeParts (parts : List AssistantPart) : List AssistantPart :=
  parts.map fun
    | .text text => .text (normalizeModelText text)
    | part => part

/-- The loop of the check of a message's parts, with the indices and identifiers seen so far. -/
def validateToolCallOrderFrom : List AssistantPart → List ToolCallId → List Nat → Nat →
    Except ModelValueError Unit
  | [], _, _, _ => .ok ()
  | part :: parts, ids, indices, expectedIndex =>
    match part.validate with
    | .error e => .error e
    | .ok () =>
      match part.asToolCall with
      | none => validateToolCallOrderFrom parts ids indices expectedIndex
      | some call =>
        -- The checks in the order of the code, which decides about the error.
        if indices.contains call.callIndex then .error .duplicateToolCallIndex
        else if call.callIndex ≠ expectedIndex then .error .invalidToolCallOrder
        else if ids.contains call.toolCallId then .error .duplicateToolCallId
        else if expectedIndex + 1 ≥ 2 ^ 32 then .error .invalidToolCallOrder
        else validateToolCallOrderFrom parts (call.toolCallId :: ids) (call.callIndex :: indices)
          (expectedIndex + 1)

/-- Check the parts of a message: the texts are legal, the calls are numbered in order, and their
identifiers are distinct. -/
def validateToolCallOrder (parts : List AssistantPart) : Except ModelValueError Unit :=
  validateToolCallOrderFrom parts [] [] 0

/-- What the check of a message's parts accepts. -/
structure OrderedParts (parts : List AssistantPart) : Prop where
  texts : ∀ text, .text text ∈ parts → validText text maxModelMessageTextBytes true = true
  indices : (toolCalls parts).map ToolCall.callIndex = List.range (toolCalls parts).length
  ids : ((toolCalls parts).map ToolCall.toolCallId).Nodup
  few : (toolCalls parts).length < 2 ^ 32

theorem AssistantPart.validate_eq_ok {part : AssistantPart} :
    part.validate = .ok () ↔
      ∀ text, part = .text text → validText text maxModelMessageTextBytes true = true := by
  cases part with
  | text text =>
    simp only [validate, AssistantPart.text.injEq, forall_eq']
    split <;> simp_all
  | reasoning content => simp [validate]
  | toolCall call => simp [validate]

private theorem validateFrom_eq_ok (parts : List AssistantPart) (ids : List ToolCallId)
    (indices : List Nat) (n : Nat) (hn : n < 2 ^ 32) (hindices : ∀ i ∈ indices, i < n) :
    validateToolCallOrderFrom parts ids indices n = .ok () ↔
      (∀ text, .text text ∈ parts → validText text maxModelMessageTextBytes true = true) ∧
      (toolCalls parts).map ToolCall.callIndex = List.range' n (toolCalls parts).length ∧
      ((toolCalls parts).map ToolCall.toolCallId).Nodup ∧
      (∀ id ∈ (toolCalls parts).map ToolCall.toolCallId, id ∉ ids) ∧
      n + (toolCalls parts).length < 2 ^ 32 := by
  induction parts generalizing ids indices n with
  | nil => simpa [validateToolCallOrderFrom] using hn
  | cons part parts ih =>
    rw [validateToolCallOrderFrom]
    by_cases hpart : part.validate = .ok ()
    · simp only [hpart]
      have htexts : (∀ text, .text text ∈ part :: parts →
          validText text maxModelMessageTextBytes true = true) ↔
          ∀ text, .text text ∈ parts → validText text maxModelMessageTextBytes true = true := by
        rw [AssistantPart.validate_eq_ok] at hpart
        refine ⟨fun h text ht ↦ h text (by simp [ht]), fun h text ht ↦ ?_⟩
        rcases List.mem_cons.mp ht with ht | ht
        · exact hpart text ht.symm
        · exact h text ht
      rw [htexts]
      -- A part that is no call is only checked itself.
      cases hcall : part.asToolCall with
      | none =>
        simp only [toolCalls_cons, hcall, Option.toList_none, List.nil_append]
        exact ih ids indices n hn hindices
      | some call =>
        simp only [toolCalls_cons, hcall, Option.toList_some, List.singleton_append,
          List.map_cons, List.length_cons, List.range'_succ, List.cons.injEq, List.nodup_cons,
          List.forall_mem_cons]
        by_cases hindex : call.callIndex = n
        · -- The index is the next one, so that the check for one used before is idle.
          have hfresh : indices.contains call.callIndex = false := by
            rw [List.contains_eq_mem, decide_eq_false_iff_not]
            intro hmem
            have := hindices _ hmem
            omega
          rw [if_neg (by rw [hfresh]; exact Bool.false_ne_true), if_neg (not_not.mpr hindex)]
          by_cases hid : call.toolCallId ∈ ids
          · rw [if_pos (by simpa using hid)]
            simp [hid]
          · rw [if_neg (by simpa using hid)]
            by_cases hmax : n + 1 ≥ 2 ^ 32
            · rw [if_pos hmax]
              simp only [reduceCtorEq, false_iff, not_and]
              omega
            · rw [if_neg hmax, ih _ _ (n + 1) (by omega) ?_]
              · simp only [hindex, List.mem_cons, not_or, true_and]
                constructor
                · rintro ⟨h₁, h₂, h₃, h₄, h₅⟩
                  refine ⟨h₁, h₂, ⟨fun hmem ↦ (h₄ _ hmem).1 rfl, h₃⟩, ⟨hid, ?_⟩, by omega⟩
                  exact fun id hmem ↦ (h₄ id hmem).2
                · rintro ⟨h₁, h₂, ⟨h₃, h₃'⟩, ⟨-, h₄⟩, h₅⟩
                  refine ⟨h₁, h₂, h₃', fun id hmem ↦ ⟨?_, h₄ id hmem⟩, by omega⟩
                  rintro rfl
                  exact h₃ hmem
              · intro i hi
                rcases List.mem_cons.mp hi with rfl | hi
                · omega
                · have := hindices i hi
                  omega
        · have hne : ¬ call.callIndex = n := hindex
          split
          · simp [hne]
          · simp [hne]
    · have herr : ∃ e, part.validate = .error e := by
        cases h : part.validate with
        | error e => exact ⟨e, rfl⟩
        | ok u => exact absurd h hpart
      obtain ⟨e, he⟩ := herr
      simp only [he, reduceCtorEq, false_iff, not_and]
      intro h
      exact absurd (AssistantPart.validate_eq_ok.mpr fun text ht ↦ h text (by simp [ht])) hpart

/-- The calls of ordered parts are numbered within 32 bits. -/
theorem OrderedParts.callIndex_lt {parts : List AssistantPart} (h : OrderedParts parts)
    {call : ToolCall} (hcall : .toolCall call ∈ parts) : call.callIndex < 2 ^ 32 := by
  have hmem : call ∈ toolCalls parts := List.mem_filterMap.mpr ⟨_, hcall, rfl⟩
  have hindex := List.mem_map_of_mem (f := ToolCall.callIndex) hmem
  rw [h.indices, List.mem_range] at hindex
  exact hindex.trans h.few

/-- The check of a message's parts accepts exactly ordered parts. -/
theorem validateToolCallOrder_eq_ok {parts : List AssistantPart} :
    validateToolCallOrder parts = .ok () ↔ OrderedParts parts := by
  rw [validateToolCallOrder, validateFrom_eq_ok parts [] [] 0 (by omega) (by simp)]
  constructor
  · rintro ⟨h₁, h₂, h₃, -, h₅⟩
    exact ⟨h₁, by rw [h₂, List.range_eq_range'], h₃, by omega⟩
  · rintro ⟨h₁, h₂, h₃, h₄⟩
    exact ⟨h₁, by rw [h₂, List.range_eq_range'], h₃, by simp, by omega⟩

/-- Parts whose texts are legal are normalised already. -/
theorem normalizeParts_of_valid {parts : List AssistantPart}
    (h : ∀ text, .text text ∈ parts → validText text maxModelMessageTextBytes true = true) :
    normalizeParts parts = parts := by
  unfold normalizeParts
  conv_rhs => rw [← List.map_id parts]
  refine List.map_congr_left fun part hpart ↦ ?_
  cases part with
  | text text => simp [normalizeModelText_of_valid (h text hpart)]
  | reasoning content => rfl
  | toolCall call => rfl

/-! ## Messages -/

/-- A message of a model request. -/
inductive ModelMessage where
  | system (text : Text)
  | user (text : Text)
  | assistant (parts : List AssistantPart)
  | assistantWithReplay (parts : List AssistantPart) (providerReplay : ProviderReplay)
  | tool (toolCallId : ToolCallId) (output : ToolOutput) (outcome : ToolResultOutcome)

namespace ModelMessage

/-- The check of a message. -/
def validate : ModelMessage → Except ModelValueError Unit
  | .system text | .user text =>
    if validText text maxModelMessageTextBytes false then .ok () else .error .invalidText
  | .assistant parts =>
    if parts.isEmpty then .error .emptyAssistantParts else validateToolCallOrder parts
  | .assistantWithReplay parts _ => validateToolCallOrder parts
  | .tool _ _ _ => .ok ()

/-- A checked system message. -/
def newSystem (text : Text) : Except ModelValueError ModelMessage :=
  if validText text maxModelMessageTextBytes false then .ok (.system text) else .error .invalidText

/-- A checked user message. -/
def newUser (text : Text) : Except ModelValueError ModelMessage :=
  if validText text maxModelMessageTextBytes false then .ok (.user text) else .error .invalidText

/-- A checked assistant message; no parts are allowed only with replay metadata. -/
def assistantWithProviderReplay (parts : List AssistantPart)
    (providerReplay : Option ProviderReplay) : Except ModelValueError ModelMessage :=
  let parts := normalizeParts parts
  let message : ModelMessage := match providerReplay with
    | some providerReplay => .assistantWithReplay parts providerReplay
    | none => .assistant parts
  match message.validate with
  | .ok () => .ok message
  | .error e => .error e

/-- A checked assistant message without replay metadata. -/
def newAssistant (parts : List AssistantPart) : Except ModelValueError ModelMessage :=
  assistantWithProviderReplay parts none

/-- The message of a tool result. -/
def toolWithOutcome (toolCallId : ToolCallId) (output : ToolOutput) (outcome : ToolResultOutcome) :
    Except ModelValueError ModelMessage :=
  .ok (.tool toolCallId output outcome)

/-- A message that a constructor returned or that passes the check. -/
inductive Accepted : ModelMessage → Prop
  | system {text : Text} {message : ModelMessage} : newSystem text = .ok message → Accepted message
  | user {text : Text} {message : ModelMessage} : newUser text = .ok message → Accepted message
  | assistant {parts : List AssistantPart} {message : ModelMessage} :
    newAssistant parts = .ok message → Accepted message
  | replay {parts : List AssistantPart} {providerReplay : Option ProviderReplay}
    {message : ModelMessage} :
    assistantWithProviderReplay parts providerReplay = .ok message → Accepted message
  | tool {toolCallId : ToolCallId} {output : ToolOutput} {outcome : ToolResultOutcome}
    {message : ModelMessage} :
    toolWithOutcome toolCallId output outcome = .ok message → Accepted message
  | validated {message : ModelMessage} : message.validate = .ok () → Accepted message

theorem validate_assistantWithProviderReplay {parts : List AssistantPart}
    {providerReplay : Option ProviderReplay} {message : ModelMessage}
    (h : assistantWithProviderReplay parts providerReplay = .ok message) :
    message.validate = .ok () := by
  unfold assistantWithProviderReplay at h
  dsimp only at h
  split at h
  · rename_i hvalid
    obtain rfl := Except.ok.inj h
    exact hvalid
  · exact absurd h (by simp)

/-- What the constructors return passes the check. -/
theorem Accepted.validate {message : ModelMessage} (h : Accepted message) :
    message.validate = .ok () := by
  cases h with
  | system h | user h =>
    simp only [newSystem, newUser] at h
    split at h
    · rename_i hvalid
      obtain rfl := Except.ok.inj h
      simp [ModelMessage.validate, hvalid]
    · exact absurd h (by simp)
  | assistant h | replay h => exact validate_assistantWithProviderReplay h
  | tool h =>
    obtain rfl := Except.ok.inj h
    rfl
  | validated h => exact h

end ModelMessage

end MinicoreRuntime
