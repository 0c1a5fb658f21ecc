import MinicoreRuntime.Error
import MinicoreRuntime.Time
import MinicoreRuntime.Wire.Canonical

/-!
# Errors, questions and answers on the wire

Adapters report errors, tools ask questions and hosts answer them, often from another process. What
is read of these values is well formed whatever was sent, and what is written of them is read back.

An error is retryable only if its request was not started, and its diagnostic says the same. A
record that claims otherwise in its delivery is rejected; one that claims otherwise in its
diagnostic is corrected.

## Main definitions

* `serialize` and `deserialize` of diagnostics, spans of time, retry hints and model errors.
* `serialize` and `deserialize` of questions of tools, of answers, and of invocations.

## Main results

* `ModelError.deserialize_record`: which records are errors, and of what.
* `interchange_canonical`: all of these formats read exactly the well-formed values.
-/

namespace MinicoreRuntime

/-! ## Enumerations -/

namespace DiagnosticCategory

/-- The name of the category of a diagnostic. -/
def name : DiagnosticCategory → String
  | .configuration => "configuration"
  | .model => "model"
  | .tool => "tool"
  | .policy => "policy"
  | .context => "context"
  | .cancellation => "cancellation"
  | .internal => "internal"

/-- All of them. -/
def all : List DiagnosticCategory :=
  [.configuration, .model, .tool, .policy, .context, .cancellation, .internal]

/-- Write the category of a diagnostic. -/
def serialize (category : DiagnosticCategory) : Json := .string category.name.toList

/-- Read the category of a diagnostic. -/
def deserialize : Json → Option DiagnosticCategory := deserializeUnit (namedVariants name all)

theorem canonical : Canonical serialize deserialize fun _ ↦ True :=
  .unit (by decide) fun category ↦ by cases category <;> simp [all]

end DiagnosticCategory

namespace DiagnosticCode

/-- The name of the code of a diagnostic. -/
def name : DiagnosticCode → String
  | .invalidConfiguration => "invalid_configuration"
  | .modelTimeout => "model_timeout"
  | .modelMalformedResponse => "model_malformed_response"
  | .modelUnavailable => "model_unavailable"
  | .runtimeTerminated => "runtime_terminated"
  | .contextFailed => "context_failed"
  | .policyDenied => "policy_denied"
  | .policyFailed => "policy_failed"
  | .toolNotFound => "tool_not_found"
  | .toolTimeout => "tool_timeout"
  | .toolFailed => "tool_failed"
  | .interactionNotFound => "interaction_not_found"
  | .interactionKindMismatch => "interaction_kind_mismatch"
  | .turnBudgetExceeded => "turn_budget_exceeded"
  | .internal => "internal"

/-- All of them. -/
def all : List DiagnosticCode :=
  [.invalidConfiguration, .modelTimeout, .modelMalformedResponse, .modelUnavailable,
    .runtimeTerminated, .contextFailed, .policyDenied, .policyFailed, .toolNotFound, .toolTimeout,
    .toolFailed, .interactionNotFound, .interactionKindMismatch, .turnBudgetExceeded, .internal]

/-- Write the code of a diagnostic. -/
def serialize (code : DiagnosticCode) : Json := .string code.name.toList

/-- Read the code of a diagnostic. -/
def deserialize : Json → Option DiagnosticCode := deserializeUnit (namedVariants name all)

theorem canonical : Canonical serialize deserialize fun _ ↦ True :=
  .unit (by decide) fun code ↦ by cases code <;> simp [all]

end DiagnosticCode

namespace DeliveryState

/-- The name of a delivery state. -/
def name : DeliveryState → String
  | .notStarted => "not_started"
  | .started => "started"
  | .unknown => "unknown"

/-- All of them. -/
def all : List DeliveryState := [.notStarted, .started, .unknown]

/-- Write a delivery state. -/
def serialize (delivery : DeliveryState) : Json := .string delivery.name.toList

/-- Read a delivery state. -/
def deserialize : Json → Option DeliveryState := deserializeUnit (namedVariants name all)

theorem canonical : Canonical serialize deserialize fun _ ↦ True :=
  .unit (by decide) fun delivery ↦ by cases delivery <;> simp [all]

end DeliveryState

namespace ModelErrorKind

/-- The name of the kind of a model error. -/
def name : ModelErrorKind → String
  | .invalidRequest => "invalid_request"
  | .unavailable => "unavailable"
  | .providerUnavailable => "provider_unavailable"
  | .authMissing => "auth_missing"
  | .authRejected => "auth_rejected"
  | .rateLimited => "rate_limited"
  | .quotaExceeded => "quota_exceeded"
  | .contextOverflow => "context_overflow"
  | .timeout => "timeout"
  | .transportUnavailable => "transport_unavailable"
  | .cancelled => "cancelled"
  | .invalidProviderResponse => "invalid_provider_response"
  | .incompleteResponse => "incomplete_response"
  | .streamInterrupted => "stream_interrupted"
  | .requestOutcomeUnknown => "request_outcome_unknown"
  | .unexpectedToolCall => "unexpected_tool_call"
  | .panicked => "panicked"
  | .internal => "internal"

/-- All of them. -/
def all : List ModelErrorKind :=
  [.invalidRequest, .unavailable, .providerUnavailable, .authMissing, .authRejected, .rateLimited,
    .quotaExceeded, .contextOverflow, .timeout, .transportUnavailable, .cancelled,
    .invalidProviderResponse, .incompleteResponse, .streamInterrupted, .requestOutcomeUnknown,
    .unexpectedToolCall, .panicked, .internal]

/-- Write the kind of a model error. -/
def serialize (kind : ModelErrorKind) : Json := .string kind.name.toList

/-- Read the kind of a model error. -/
def deserialize : Json → Option ModelErrorKind := deserializeUnit (namedVariants name all)

theorem canonical : Canonical serialize deserialize fun _ ↦ True :=
  .unit (by decide) fun kind ↦ by cases kind <;> simp [all]

end ModelErrorKind

/-! ## Diagnostics -/

namespace DiagnosticSummary

/-- The names of the fields. -/
def fieldNames : List String := ["code", "category", "message", "retryable"]

/-- The fields of a diagnostic. -/
def fields (summary : DiagnosticSummary) : List (String × Option Json) :=
  [("code", some summary.code.serialize), ("category", some summary.category.serialize),
    ("message", some summary.message.serialize), ("retryable", some (.bool summary.retryable))]

/-- Write a diagnostic. -/
def serialize (summary : DiagnosticSummary) : Json := serializeStruct summary.fields

/-- Read a diagnostic, which is checked again. -/
def deserialize (value : Json) : Option DiagnosticSummary := do
  let fields ← deserializeStruct fieldNames true value
  let code ← fields.required "code" DiagnosticCode.deserialize
  let category ← fields.required "category" DiagnosticCategory.deserialize
  let message ← fields.required "message" BoundedText.deserialize
  let retryable ← fields.required "retryable" deserializeBool
  (DiagnosticSummary.new code category message retryable).toOption

theorem canonical : Canonical serialize deserialize fun _ ↦ True where
  legal _ _ _ := trivial
  readBack summary _ := by
    have hnames : (summary.fields.map Prod.fst).Nodup := by
      change fieldNames.Nodup
      decide
    have hretryable : deserializeBool (.bool summary.retryable) = some summary.retryable := rfl
    simp only [deserialize, serialize, Option.bind_eq_bind]
    rw [deserializeStruct_serializeStruct (by simp [fields, fieldNames]), Option.bind_some,
      StructFields.required_ofStruct hnames
        (DiagnosticCode.canonical.readBack summary.code trivial) (by simp [fields]),
      Option.bind_some,
      StructFields.required_ofStruct hnames
        (DiagnosticCategory.canonical.readBack summary.category trivial) (by simp [fields]),
      Option.bind_some,
      StructFields.required_ofStruct hnames (BoundedText.deserialize_serialize summary.message)
        (by simp [fields]), Option.bind_some,
      StructFields.required_ofStruct hnames hretryable (by simp [fields]), Option.bind_some,
      DiagnosticSummary.new, dif_pos summary.valid]
    rfl

end DiagnosticSummary

/-! ## Spans of time -/

/-- Write a span of time: its seconds and what is left in nanoseconds. -/
def durationFields (d : Nat) : List (String × Option Json) :=
  [("secs", some (serializeUint (d / 1000000000))),
    ("nanos", some (serializeUint (d % 1000000000)))]

/-- Write a span of time. -/
def serializeDuration (d : Nat) : Json := serializeStruct (durationFields d)

/-- Read a span of time. The nanoseconds may be more than a second, but the sum has to fit. -/
def deserializeDuration (value : Json) : Option Nat := do
  let fields ← deserializeStruct ["secs", "nanos"] true value
  let secs ← fields.required "secs" (deserializeUint 64)
  let nanos ← fields.required "nanos" (deserializeUint 32)
  if secs + nanos / 1000000000 < 2 ^ 64 then some (secs * 1000000000 + nanos) else none

theorem canonical_duration :
    Canonical serializeDuration deserializeDuration fun d ↦ d ≤ maxDuration where
  legal value d h := by
    simp only [deserializeDuration, Option.bind_eq_bind, Option.bind_eq_some_iff] at h
    obtain ⟨fields, -, secs, -, nanos, -, h⟩ := h
    split at h
    · obtain rfl := Option.some.inj h
      unfold maxDuration
      omega
    · exact absurd h (by simp)
  readBack d h := by
    have hnames : ((durationFields d).map Prod.fst).Nodup := by
      change ["secs", "nanos"].Nodup
      decide
    unfold maxDuration at h
    have hsecs : d / 1000000000 < 2 ^ 64 := by omega
    have hnanos : d % 1000000000 < 2 ^ 32 := by omega
    -- What is left is less than a second, so nothing is carried.
    have hcarry : d / 1000000000 + d % 1000000000 / 1000000000 < 2 ^ 64 := by omega
    simp only [deserializeDuration, serializeDuration, Option.bind_eq_bind]
    rw [deserializeStruct_serializeStruct (by simp [durationFields]), Option.bind_some,
      StructFields.required_ofStruct hnames (deserializeUint_serializeUint hsecs)
        (by simp [durationFields]), Option.bind_some,
      StructFields.required_ofStruct hnames (deserializeUint_serializeUint hnanos)
        (by simp [durationFields]), Option.bind_some, if_pos hcarry]
    congr 1
    omega

/-! ## Model errors -/

namespace RetryHint

/-- The fields of a retryable hint; a delay that is missing is skipped. -/
def retryableFields (retryAfter : Option Nat) : List (String × Option Json) :=
  [("retry_after", retryAfter.map serializeDuration)]

/-- Write a retry hint. -/
def serialize : RetryHint → Json
  | .never => .string "never".toList
  | .retryable retryAfter =>
    .object [("retryable".toList, serializeStruct (retryableFields retryAfter))]

/-- Read the content of a retryable hint. -/
def deserializeRetryable (value : Json) : Option RetryHint := do
  let fields ← deserializeStruct ["retry_after"] true value
  let retryAfter ← fields.defaulted "retry_after" deserializeDuration
  return .retryable retryAfter

/-- Read a hint: the name of a variant alone, or with its content. -/
def deserialize : Json → Option RetryHint
  | .string name => if name = "never".toList then some .never else none
  | .object [(name, value)] =>
    if name = "never".toList then (match value with | .null => some .never | _ => none)
    else if name = "retryable".toList then deserializeRetryable value
    else none
  | _ => none

/-- A hint whose delay is a span of time. -/
def Readable (hint : RetryHint) : Prop := ∀ d, hint = .retryable (some d) → d ≤ maxDuration

theorem deserializeRetryable_serialize {retryAfter : Option Nat}
    (h : (retryable retryAfter).Readable) :
    deserializeRetryable (serializeStruct (retryableFields retryAfter)) =
      some (.retryable retryAfter) := by
  have hnames : ((retryableFields retryAfter).map Prod.fst).Nodup := by
    change ["retry_after"].Nodup
    decide
  have hnull (d : Nat) : serializeDuration d ≠ .null := serializeStruct_ne_null (durationFields d)
  have hafter : (StructFields.ofStruct (retryableFields retryAfter)).defaulted "retry_after"
      deserializeDuration = some retryAfter :=
    StructFields.defaulted_ofStruct hnames (List.mem_singleton.mpr rfl) hnull
      fun d hd ↦ canonical_duration.readBack d (h d (congrArg retryable hd))
  simp only [deserializeRetryable, Option.bind_eq_bind]
  rw [deserializeStruct_serializeStruct (by simp [retryableFields]), Option.bind_some, hafter,
    Option.bind_some]
  rfl

/-- A delay that is read is a span of time. -/
theorem readable_of_retryable {value : Json} {hint : RetryHint}
    (h : deserializeRetryable value = some hint) : hint.Readable := by
  simp only [deserializeRetryable, Option.bind_eq_bind, Option.bind_eq_some_iff] at h
  obtain ⟨fields, -, retryAfter, hafter, h⟩ := h
  obtain rfl := Option.some.inj h
  rintro d heq
  obtain rfl := RetryHint.retryable.inj heq
  -- A field that was found is read from its value.
  unfold StructFields.defaulted at hafter
  split at hafter
  · unfold deserializeOption at hafter
    split at hafter
    · exact absurd hafter (by simp)
    · obtain ⟨d', hd', heq⟩ := Option.map_eq_some_iff.mp hafter
      obtain rfl := Option.some.inj heq
      exact canonical_duration.legal _ _ hd'
  · exact absurd hafter (by simp)

theorem canonical : Canonical serialize deserialize Readable where
  legal value hint h := by
    have hnever : Readable .never := fun d heq ↦ absurd heq (by simp)
    unfold deserialize at h
    split at h
    · split at h
      · obtain rfl := Option.some.inj h
        exact hnever
      · exact absurd h (by simp)
    · split at h
      · split at h
        · obtain rfl := Option.some.inj h
          exact hnever
        · exact absurd h (by simp)
      · split at h
        · exact readable_of_retryable h
        · exact absurd h (by simp)
    · exact absurd h (by simp)
  readBack hint h := by
    cases hint with
    | never => rfl
    | retryable retryAfter =>
      have hother : "retryable".toList ≠ "never".toList := by decide
      simp only [serialize, deserialize, if_neg hother, if_true]
      exact deserializeRetryable_serialize h

end RetryHint

namespace ModelError

/-- The names of the fields. -/
def fieldNames : List String := ["kind", "delivery", "retry_hint", "diagnostic"]

/-- The record of an error, as an adapter may send it. -/
def record (kind : ModelErrorKind) (delivery : DeliveryState) (hint : RetryHint)
    (diagnostic : DiagnosticSummary) : List (String × Option Json) :=
  [("kind", some kind.serialize), ("delivery", some delivery.serialize),
    ("retry_hint", some hint.serialize), ("diagnostic", some diagnostic.serialize)]

/-- Write a model error. -/
def serialize (error : ModelError) : Json :=
  serializeStruct (record error.kind error.delivery error.retryHint error.diagnostic)

/-- The error that a record stands for. -/
def ofRecord (kind : ModelErrorKind) (delivery : DeliveryState) (hint : RetryHint)
    (diagnostic : DiagnosticSummary) : Option ModelError :=
  match hint with
  | .retryable retryAfter =>
    if delivery ≠ .notStarted then none else some (.notStarted kind retryAfter diagnostic)
  | .never => some (.permanent kind delivery diagnostic)

/-- Read a model error, which is the one its record stands for. -/
def deserialize (value : Json) : Option ModelError := do
  let fields ← deserializeStruct fieldNames true value
  let kind ← fields.required "kind" ModelErrorKind.deserialize
  let delivery ← fields.required "delivery" DeliveryState.deserialize
  let hint ← fields.required "retry_hint" RetryHint.deserialize
  let diagnostic ← fields.required "diagnostic" DiagnosticSummary.deserialize
  ofRecord kind delivery hint diagnostic

/-- A record is read as the error that it stands for. -/
theorem deserialize_record (kind : ModelErrorKind) (delivery : DeliveryState) {hint : RetryHint}
    (hhint : hint.Readable) (diagnostic : DiagnosticSummary) :
    deserialize (serializeStruct (record kind delivery hint diagnostic)) =
      ofRecord kind delivery hint diagnostic := by
  have hnames : ((record kind delivery hint diagnostic).map Prod.fst).Nodup := by
    change fieldNames.Nodup
    decide
  simp only [deserialize, Option.bind_eq_bind]
  rw [deserializeStruct_serializeStruct (by simp [record, fieldNames]), Option.bind_some,
    StructFields.required_ofStruct hnames (ModelErrorKind.canonical.readBack kind trivial)
      (by simp [record]), Option.bind_some,
    StructFields.required_ofStruct hnames (DeliveryState.canonical.readBack delivery trivial)
      (by simp [record]), Option.bind_some,
    StructFields.required_ofStruct hnames (RetryHint.canonical.readBack hint hhint)
      (by simp [record]), Option.bind_some,
    StructFields.required_ofStruct hnames (DiagnosticSummary.canonical.readBack diagnostic trivial)
      (by simp [record]), Option.bind_some]

/-- An error stands for itself. -/
theorem ofRecord_self (error : ModelError) :
    ofRecord error.kind error.delivery error.retryHint error.diagnostic = some error := by
  obtain ⟨kind, delivery, hint, ⟨code, category, message, retryable, hvalid⟩, hdelivery,
    hretryable⟩ := error
  cases hint with
  | never =>
    obtain rfl : retryable = false := hretryable
    rfl
  | retryable retryAfter =>
    obtain rfl : retryable = true := hretryable
    obtain rfl := hdelivery rfl
    rfl

/-- A record is rejected if it is retryable and its request may have started. -/
theorem ofRecord_eq_none {kind : ModelErrorKind} {delivery : DeliveryState} {hint : RetryHint}
    {diagnostic : DiagnosticSummary} :
    ofRecord kind delivery hint diagnostic = none ↔
      hint.isRetryable = true ∧ delivery ≠ .notStarted := by
  cases hint with
  | never => simp [ofRecord, RetryHint.isRetryable]
  | retryable retryAfter => simp [ofRecord, RetryHint.isRetryable]

/-- The error of a record has what the record has; only its diagnostic is corrected. -/
theorem fields_of_ofRecord {kind : ModelErrorKind} {delivery : DeliveryState} {hint : RetryHint}
    {diagnostic : DiagnosticSummary} {error : ModelError}
    (h : ofRecord kind delivery hint diagnostic = some error) :
    error.kind = kind ∧ error.delivery = delivery ∧ error.retryHint = hint ∧
      error.diagnostic = { diagnostic with retryable := hint.isRetryable } := by
  unfold ofRecord at h
  split at h
  · split at h
    · exact absurd h (by simp)
    · -- A retryable error was not started.
      rename_i hdelivery
      obtain rfl := Option.some.inj h
      exact ⟨rfl, (not_not.mp hdelivery).symm, rfl, rfl⟩
  · obtain rfl := Option.some.inj h
    exact ⟨rfl, rfl, rfl, rfl⟩

theorem canonical : Canonical serialize deserialize fun error ↦ error.retryHint.Readable where
  legal value error h := by
    simp only [deserialize, Option.bind_eq_bind, Option.bind_eq_some_iff] at h
    obtain ⟨fields, -, kind, -, delivery, -, hint, hhint, diagnostic, -, h⟩ := h
    obtain ⟨value', hvalue⟩ := StructFields.required_eq_some hhint
    rw [(fields_of_ofRecord h).2.2.1]
    exact RetryHint.canonical.legal value' hint hvalue
  readBack error h := (deserialize_record _ _ h _).trans error.ofRecord_self

end ModelError

/-! ## Questions -/

namespace ToolInputAnswerKind

/-- The name of the kind of answer that a question asks for. -/
def name : ToolInputAnswerKind → String
  | .text => "text"
  | .singleChoice => "single_choice"

/-- All of them. -/
def all : List ToolInputAnswerKind := [.text, .singleChoice]

/-- Write the kind of answer that a question asks for. -/
def serialize (kind : ToolInputAnswerKind) : Json := .string kind.name.toList

/-- Read the kind of answer that a question asks for. -/
def deserialize : Json → Option ToolInputAnswerKind := deserializeUnit (namedVariants name all)

theorem canonical : Canonical serialize deserialize fun _ ↦ True :=
  .unit (by decide) fun kind ↦ by cases kind <;> simp [all]

end ToolInputAnswerKind

/-- A text within a limit passes the check against it. -/
theorem BoundedText.newWithMaxBytes_self {text : BoundedText} {limit : Nat}
    (hlimit : limit ≤ maxBytes) (h : text.byteLen ≤ limit) :
    newWithMaxBytes text.asStr limit = .ok text := by
  have hlen : ¬ MinicoreRuntime.byteLen text.asStr > limit := Nat.not_lt.mpr h
  unfold newWithMaxBytes
  rw [dif_neg (Nat.not_lt.mpr hlimit), dif_neg hlen]

namespace ToolInputRequest

/-- Check a question. -/
def new (prompt : Text) (choices : List BoundedText) (answerKind : ToolInputAnswerKind) :
    Except ToolValueError ToolInputRequest :=
  match BoundedText.newWithMaxBytes prompt 8192 with
  | .error _ => .error .invalidText
  | .ok prompt =>
    if validate ⟨prompt, choices, answerKind⟩ then .ok ⟨prompt, choices, answerKind⟩
    else .error .invalidText

/-- What is built passes its check. -/
theorem validate_of_new {prompt : Text} {choices : List BoundedText}
    {answerKind : ToolInputAnswerKind} {request : ToolInputRequest}
    (h : new prompt choices answerKind = .ok request) : request.validate = true := by
  unfold new at h
  split at h
  · exact absurd h (by simp)
  · split at h
    · rename_i hvalid
      obtain rfl := Except.ok.inj h
      exact hvalid
    · exact absurd h (by simp)

/-- What passes its check is built from its parts. -/
theorem new_self {request : ToolInputRequest} (h : request.validate = true) :
    new request.prompt.asStr request.choices request.answerKind = .ok request := by
  have hprompt : validText request.prompt.asStr 8192 false = true := by
    simp only [validate, Bool.not_eq_true', Bool.or_eq_false_iff, Bool.not_eq_false'] at h
    exact h.1.1.1
  have hlimit : 8192 ≤ BoundedText.maxBytes := by decide
  have hlen : request.prompt.byteLen ≤ 8192 := (validText_iff.mp hprompt).2.1
  simp only [new, BoundedText.newWithMaxBytes_self hlimit hlen]
  exact if_pos h

/-- The names of the fields. -/
def fieldNames : List String := ["prompt", "choices", "answer_kind"]

/-- The fields of a question. -/
def fields (request : ToolInputRequest) : List (String × Option Json) :=
  [("prompt", some request.prompt.serialize),
    ("choices", some (serializeVec BoundedText.serialize request.choices)),
    ("answer_kind", some request.answerKind.serialize)]

/-- Write a question. -/
def serialize (request : ToolInputRequest) : Json := serializeStruct request.fields

/-- Read a question, which is checked again. -/
def deserialize (value : Json) : Option ToolInputRequest := do
  let fields ← deserializeStruct fieldNames true value
  let prompt ← fields.required "prompt" BoundedText.deserialize
  let choices ← fields.required "choices" (deserializeVec BoundedText.deserialize)
  let answerKind ← fields.required "answer_kind" ToolInputAnswerKind.deserialize
  (new prompt.asStr choices answerKind).toOption

theorem canonical : Canonical serialize deserialize fun request ↦ request.validate = true where
  legal value request h := by
    simp only [deserialize, Option.bind_eq_bind, Option.bind_eq_some_iff] at h
    obtain ⟨fields, -, prompt, -, choices, -, answerKind, -, h⟩ := h
    exact validate_of_new (eq_ok_of_toOption h)
  readBack request h := by
    have hnames : (request.fields.map Prod.fst).Nodup := by
      change fieldNames.Nodup
      decide
    simp only [deserialize, serialize, Option.bind_eq_bind]
    rw [deserializeStruct_serializeStruct (by simp [fields, fieldNames]), Option.bind_some,
      StructFields.required_ofStruct hnames (BoundedText.deserialize_serialize request.prompt)
        (by simp [fields]), Option.bind_some,
      StructFields.required_ofStruct hnames
        (BoundedText.canonical.vec.readBack request.choices fun text _ ↦ text.new_self)
        (by simp [fields]),
      Option.bind_some,
      StructFields.required_ofStruct hnames
        (ToolInputAnswerKind.canonical.readBack request.answerKind trivial) (by simp [fields]),
      Option.bind_some, new_self h]
    rfl

end ToolInputRequest

/-! ## Answers -/

namespace ToolInputAnswer

/-- Write an answer. -/
def serialize : ToolInputAnswer → Json
  | .text value => serializeTagged "kind" "data" "text" value.serialize
  | .choice index =>
    serializeTagged "kind" "data" "choice" (serializeStruct [("index", some (serializeUint index))])

/-- Read the text of an answer. -/
def deserializeText (data : Json) : Option ToolInputAnswer := do
  let text ← deserializeString data
  if validText text 8192 false then
    (BoundedText.newWithMaxBytes text 8192).toOption.map .text
  else none

/-- Read the choice of an answer: nothing but its index. -/
def deserializeChoice : Json → Option ToolInputAnswer
  | .object entries =>
    if entries.length ≠ 1 then none
    else ((entries.lookup "index".toList).bind (deserializeUint 64)).map .choice
  | _ => none

/-- Read an answer: its kind and its content, and nothing else. -/
def deserialize : Json → Option ToolInputAnswer
  | .object entries => do
    if entries.length ≠ 2 then none
    else
      let kind ← (entries.lookup "kind".toList).bind deserializeString
      let data ← entries.lookup "data".toList
      if kind = "text".toList then deserializeText data
      else if kind = "choice".toList then deserializeChoice data
      else none
  | _ => none

/-- An answer that can be read: a text that some question allows, or an index of 64 bits. -/
def Readable : ToolInputAnswer → Prop
  | .text value => validText value.asStr 8192 false = true
  | .choice index => index < 2 ^ 64

theorem readable_of_text {data : Json} {answer : ToolInputAnswer}
    (h : deserializeText data = some answer) : answer.Readable := by
  obtain ⟨text, -, h⟩ := Option.bind_eq_some_iff.mp h
  split at h
  · rename_i hvalid
    obtain ⟨value, hvalue, rfl⟩ := Option.map_eq_some_iff.mp h
    have hnew := eq_ok_of_toOption hvalue
    unfold BoundedText.newWithMaxBytes at hnew
    split at hnew
    · exact absurd hnew (by simp)
    · split at hnew
      · exact absurd hnew (by simp)
      · obtain rfl := Except.ok.inj hnew
        exact hvalid
  · exact absurd h (by simp)

theorem readable_of_choice {data : Json} {answer : ToolInputAnswer}
    (h : deserializeChoice data = some answer) : answer.Readable := by
  unfold deserializeChoice at h
  split at h
  · split at h
    · exact absurd h (by simp)
    · obtain ⟨index, hindex, rfl⟩ := Option.map_eq_some_iff.mp h
      obtain ⟨value, -, hvalue⟩ := Option.bind_eq_some_iff.mp hindex
      exact lt_of_deserializeUint hvalue
  · exact absurd h (by simp)

/-- A written answer is read as its kind says. -/
theorem deserialize_tagged (name : String) (data : Json) :
    deserialize (serializeTagged "kind" "data" name data) =
      if name = "text" then deserializeText data
      else if name = "choice" then deserializeChoice data
      else none := by
  -- The fields come in the order of their names.
  have hlt : "data".toList < "kind".toList := by decide
  have hwritten : serializeTagged "kind" "data" name data =
      .object [("data".toList, data), ("kind".toList, .string name.toList)] := by
    simp only [serializeTagged, serializeStruct, presentFields, OrderedMap.ofList,
      List.filterMap_cons, List.filterMap_nil, Option.map_some, List.foldl_cons, List.foldl_nil,
      OrderedMap.toList_insert, OrderedMap.toList_empty, OrderedMap.insertEntry, if_pos hlt]
  rw [hwritten]
  have hkind : [("data".toList, data), ("kind".toList, Json.string name.toList)].lookup
      "kind".toList = some (.string name.toList) := rfl
  have hdata : [("data".toList, data), ("kind".toList, Json.string name.toList)].lookup
      "data".toList = some data := rfl
  simp only [deserialize, hkind, hdata, Option.bind_some, Option.bind_eq_bind, deserializeString,
    String.toList_inj, List.length_cons, List.length_nil]
  rfl

theorem canonical_format : Canonical serialize deserialize Readable where
  legal value answer h := by
    -- The tag is read first; it decides how the data is read.
    unfold deserialize at h
    split at h
    · split at h
      · exact absurd h (by simp)
      · obtain ⟨kind, -, h⟩ := Option.bind_eq_some_iff.mp h
        obtain ⟨data, -, h⟩ := Option.bind_eq_some_iff.mp h
        split at h
        · exact readable_of_text h
        · split at h
          · exact readable_of_choice h
          · exact absurd h (by simp)
    · exact absurd h (by simp)
  readBack answer h := by
    cases answer with
    | text value =>
      have hlimit : 8192 ≤ BoundedText.maxBytes := by decide
      have hlen : value.byteLen ≤ 8192 := (validText_iff.mp h).2.1
      have hvalid : validText value.asStr 8192 false = true := h
      -- The text is legal within its own limit, so that the check passes again.
      rw [serialize, deserialize_tagged, if_pos rfl]
      simp only [deserializeText, BoundedText.serialize, deserializeString, Option.bind_eq_bind,
        Option.bind_some, hvalid, if_true, BoundedText.newWithMaxBytes_self hlimit hlen]
      rfl
    | choice index =>
      have hne : ¬ "choice" = "text" := by decide
      have hwritten : serializeStruct [("index", some (serializeUint index))] =
          .object [("index".toList, serializeUint index)] := by
        simp only [serializeStruct, presentFields, OrderedMap.ofList, List.filterMap_cons,
          List.filterMap_nil, Option.map_some, List.foldl_cons, List.foldl_nil,
          OrderedMap.toList_insert, OrderedMap.toList_empty, OrderedMap.insertEntry]
      have hindex : [("index".toList, serializeUint index)].lookup "index".toList =
          some (serializeUint index) := rfl
      rw [serialize, deserialize_tagged, if_neg hne, if_pos rfl, hwritten]
      simp only [deserializeChoice, hindex, Option.bind_some, deserializeUint_serializeUint h]
      rfl

end ToolInputAnswer

/-! ## Invocations -/

namespace ToolInvocation

/-- Check an invocation. -/
def new (toolCallId : ToolCallId) (toolName : ToolName) (arguments : Json) :
    Except ToolError ToolInvocation :=
  if !arguments.isObject || !(validateJsonSize arguments maxJsonBytes).toBool then
    .error .invalidInvocation
  else .ok ⟨toolCallId, toolName, arguments⟩

/-- The names of the fields. -/
def fieldNames : List String := ["tool_call_id", "tool_name", "arguments"]

/-- The fields of an invocation. -/
def fields (invocation : ToolInvocation) : List (String × Option Json) :=
  [("tool_call_id", some invocation.toolCallId.serialize),
    ("tool_name", some invocation.toolName.serialize), ("arguments", some invocation.arguments)]

/-- Write an invocation. -/
def serialize (invocation : ToolInvocation) : Json := serializeStruct invocation.fields

/-- Read an invocation, which is checked again. -/
def deserialize (value : Json) : Option ToolInvocation := do
  let fields ← deserializeStruct fieldNames true value
  let toolCallId ← fields.required "tool_call_id" ToolCallId.deserialize
  let toolName ← fields.required "tool_name" ToolName.deserialize
  let arguments ← fields.required "arguments" deserializeValue
  (new toolCallId toolName arguments).toOption

/-- An invocation is built exactly of what may be the arguments of a call. -/
theorem new_eq_ok {toolCallId : ToolCallId} {toolName : ToolName} {arguments : Json}
    {invocation : ToolInvocation} :
    new toolCallId toolName arguments = .ok invocation ↔
      ToolCall.validArguments arguments maxJsonBytes = true ∧
        ⟨toolCallId, toolName, arguments⟩ = invocation := by
  unfold new ToolCall.validArguments
  cases arguments.isObject <;> cases (validateJsonSize arguments maxJsonBytes).toBool <;> simp

theorem canonical : Canonical serialize deserialize
    fun invocation ↦ ToolCall.validArguments invocation.arguments maxJsonBytes = true where
  legal value invocation h := by
    simp only [deserialize, Option.bind_eq_bind, Option.bind_eq_some_iff] at h
    obtain ⟨fields, -, toolCallId, -, toolName, -, arguments, -, h⟩ := h
    obtain ⟨hvalid, rfl⟩ := new_eq_ok.mp (eq_ok_of_toOption h)
    exact hvalid
  readBack invocation h := by
    have hnames : (invocation.fields.map Prod.fst).Nodup := by
      change fieldNames.Nodup
      decide
    have harguments : deserializeValue invocation.arguments = some invocation.arguments := rfl
    simp only [deserialize, serialize, Option.bind_eq_bind]
    rw [deserializeStruct_serializeStruct (by simp [fields, fieldNames]), Option.bind_some,
      StructFields.required_ofStruct hnames (ToolCallId.deserialize_serialize invocation.toolCallId)
        (by simp [fields]), Option.bind_some,
      StructFields.required_ofStruct hnames (ToolName.deserialize_serialize invocation.toolName)
        (by simp [fields]), Option.bind_some,
      StructFields.required_ofStruct hnames harguments (by simp [fields]), Option.bind_some,
      new_eq_ok.mpr ⟨h, rfl⟩]
    rfl

end ToolInvocation

/-! ## All of them -/

/-- Whatever JSON they are read from, errors, questions, answers and invocations are well formed,
and the well-formed ones are read back from what is written of them. The record of an error is
rejected exactly if it is retryable though its request may have started; otherwise the error is what
the record says, with the diagnostic corrected where it says otherwise. -/
theorem interchange_canonical :
    Canonical ModelError.serialize ModelError.deserialize (fun error ↦ error.retryHint.Readable) ∧
    (∀ (kind : ModelErrorKind) (delivery : DeliveryState) (hint : RetryHint)
      (diagnostic : DiagnosticSummary), hint.Readable →
      let read := ModelError.deserialize
        (serializeStruct (ModelError.record kind delivery hint diagnostic))
      (read = none ↔ hint.isRetryable = true ∧ delivery ≠ .notStarted) ∧
      ∀ error, read = some error →
        error.kind = kind ∧ error.delivery = delivery ∧ error.retryHint = hint ∧
          error.diagnostic = { diagnostic with retryable := hint.isRetryable }) ∧
    Canonical ToolInputRequest.serialize ToolInputRequest.deserialize
      (fun request ↦ request.validate = true) ∧
    Canonical ToolInputAnswer.serialize ToolInputAnswer.deserialize ToolInputAnswer.Readable ∧
    Canonical ToolInvocation.serialize ToolInvocation.deserialize
      (fun invocation ↦ ToolCall.validArguments invocation.arguments maxJsonBytes = true) := by
  refine ⟨ModelError.canonical, ?_, ToolInputRequest.canonical, ToolInputAnswer.canonical_format,
    ToolInvocation.canonical⟩
  intro kind delivery hint diagnostic hhint read
  have hread : read = ModelError.ofRecord kind delivery hint diagnostic :=
    ModelError.deserialize_record kind delivery hhint diagnostic
  rw [hread]
  exact ⟨ModelError.ofRecord_eq_none, fun error ↦ ModelError.fields_of_ofRecord⟩

end MinicoreRuntime
