import MinicoreRuntime.Limits

/-!
# Diagnostics and model errors

The diagnostic attached to a failure, and the structured error of a model request with its
delivery state and retry hint.

## Main definitions

* `DiagnosticSummary`, `DiagnosticSummary.new`.
* `ModelError` and its four constructors.
-/

namespace MinicoreRuntime

/-- The area a diagnostic belongs to. -/
inductive DiagnosticCategory where
  | configuration
  | model
  | tool
  | policy
  | context
  | cancellation
  | internal
deriving DecidableEq, Repr

/-- The stable code of a diagnostic. -/
inductive DiagnosticCode where
  | invalidConfiguration
  | modelTimeout
  | modelMalformedResponse
  | modelUnavailable
  | runtimeTerminated
  | contextFailed
  | policyDenied
  | policyFailed
  | toolNotFound
  | toolTimeout
  | toolFailed
  | interactionNotFound
  | interactionKindMismatch
  | turnBudgetExceeded
  | internal
deriving DecidableEq, Repr

/-- A diagnostic with a bounded message free of control characters. -/
structure DiagnosticSummary where
  code : DiagnosticCode
  category : DiagnosticCategory
  message : BoundedText
  retryable : Bool
  /-- The message is valid text. -/
  valid : validText message.asStr BoundedText.maxBytes true = true
deriving DecidableEq

namespace DiagnosticSummary

/-- Check the message of a diagnostic. -/
def new (code : DiagnosticCode) (category : DiagnosticCategory) (message : BoundedText)
    (retryable : Bool) : Except ValueError DiagnosticSummary :=
  if h : validText message.asStr BoundedText.maxBytes true = true then
    .ok ⟨code, category, message, retryable, h⟩
  else .error .invalidText

/-- A diagnostic whose message is a constant of the program. -/
def boundedStatic (code : DiagnosticCode) (category : DiagnosticCategory) (message : String)
    (retryable : Bool)
    (h : validText message.toList BoundedText.maxBytes true = true) : DiagnosticSummary :=
  ⟨code, category, ⟨message.toList, (validText_iff.mp h).2.1⟩, retryable, h⟩

end DiagnosticSummary

/-- How far a failed model request got. -/
inductive DeliveryState where
  | notStarted
  | started
  | unknown
deriving DecidableEq, Repr

/-- The kind of a model error. -/
inductive ModelErrorKind where
  | invalidRequest
  | unavailable
  | providerUnavailable
  | authMissing
  | authRejected
  | rateLimited
  | quotaExceeded
  | contextOverflow
  | timeout
  | transportUnavailable
  | cancelled
  | invalidProviderResponse
  | incompleteResponse
  | streamInterrupted
  | requestOutcomeUnknown
  | unexpectedToolCall
  | panicked
  | internal
deriving DecidableEq, Repr

/-- Whether a failed request may be retried. -/
inductive RetryHint where
  | never
  | retryable (retryAfter : Option Nat)
deriving DecidableEq, Repr

/-- Whether the hint allows a retry. -/
def RetryHint.isRetryable : RetryHint → Bool
  | .never => false
  | .retryable _ => true

/-- A structured model error. Only a request that was not started may be retryable, and the
diagnostic agrees with the hint. -/
structure ModelError where
  kind : ModelErrorKind
  delivery : DeliveryState
  retryHint : RetryHint
  diagnostic : DiagnosticSummary
  /-- A retryable request was not started. -/
  retryable_notStarted : retryHint.isRetryable = true → delivery = .notStarted
  /-- The diagnostic agrees with the hint. -/
  retryable_eq : diagnostic.retryable = retryHint.isRetryable
deriving DecidableEq

namespace ModelError

/-- A retryable error of a request that was not started. -/
def notStarted (kind : ModelErrorKind) (retryAfter : Option Nat)
    (diagnostic : DiagnosticSummary) : ModelError where
  kind := kind
  delivery := .notStarted
  retryHint := .retryable retryAfter
  diagnostic := { diagnostic with retryable := true }
  retryable_notStarted := fun _ ↦ rfl
  retryable_eq := rfl

/-- A permanent error with an explicit delivery state. -/
def permanent (kind : ModelErrorKind) (delivery : DeliveryState)
    (diagnostic : DiagnosticSummary) : ModelError where
  kind := kind
  delivery := delivery
  retryHint := .never
  diagnostic := { diagnostic with retryable := false }
  retryable_notStarted := fun h ↦ absurd h (by simp [RetryHint.isRetryable])
  retryable_eq := rfl

/-- A permanent error of a request that was started. -/
def started (kind : ModelErrorKind) (diagnostic : DiagnosticSummary) : ModelError :=
  permanent kind .started diagnostic

/-- A permanent error of a request whose delivery is unknown. -/
def unknown (kind : ModelErrorKind) (diagnostic : DiagnosticSummary) : ModelError :=
  permanent kind .unknown diagnostic

end ModelError

end MinicoreRuntime
