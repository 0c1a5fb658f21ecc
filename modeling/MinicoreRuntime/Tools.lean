import MinicoreRuntime.Ids

/-!
# Tools, policies and interactions

What the runtime knows of a tool: its specification, an invocation of it and the result, the
decision of a policy about an invocation, and the questions put to the host while a tool call
waits. The tools, policies and prompt providers themselves belong to the host; here they are
handles, and what they do is up to the environment of a run.

## Main definitions

* `ToolSpec`, `ToolOutput`, `ToolInvocation`, `ToolExecutionOutcome`, `ToolProgress`.
* `ToolDecision`, `ApprovalRequest`, `ToolInputRequest`, `ToolInputAnswer`.
* `PendingInteraction`, `InteractionKind`, `InteractionAnswer`.
* `ToolSet`, `ToolSet.find`: the registered tools.
-/

namespace MinicoreRuntime

/-- The host's implementation of a tool. -/
structure ToolHandle where
  id : Nat
deriving DecidableEq, Repr

/-- The host's implementation of a tool policy. -/
structure PolicyHandle where
  id : Nat
deriving DecidableEq, Repr

/-- The ways a tool call fails. -/
inductive ToolError where
  | cancelled
  | failed
  | timedOut
  | panicked
  | invalidInvocation
  | internal
deriving DecidableEq, Repr

/-- The ways a value of a tool is malformed. -/
inductive ToolValueError where
  | invalidText
  | invalidSchema
  | invalidAnswer
deriving DecidableEq, Repr

/-- How a tool call ended. -/
inductive ToolResultOutcome where
  | success
  | failed
  | denied
  | cancelled
  | inputProvided
deriving DecidableEq, Repr

/-- The absolute cap on a tool's description. -/
def maxToolDescriptionBytes : Nat := 4096

/-- The check of a tool specification. -/
def ToolSpec.validFields (description : BoundedText) (inputSchema : Json) : Bool :=
  validText description.asStr maxToolDescriptionBytes false && inputSchema.isObject &&
    (validateJsonSize inputSchema maxJsonBytes).toBool

/-- The specification of a tool. -/
structure ToolSpec where
  name : ToolName
  description : BoundedText
  inputSchema : Json
  /-- The description and the schema were checked. -/
  valid : ToolSpec.validFields description inputSchema = true

/-- Check a tool specification. -/
def ToolSpec.new (name : ToolName) (description : Text) (inputSchema : Json) :
    Except ToolValueError ToolSpec :=
  match BoundedText.newWithMaxBytes description maxToolDescriptionBytes with
  | .error _ => .error .invalidText
  | .ok description =>
    if h : validFields description inputSchema = true then
      .ok ⟨name, description, inputSchema, h⟩
    else if validText description.asStr maxToolDescriptionBytes false then .error .invalidSchema
    else .error .invalidText

/-- The check of a specification against a loop's ceilings. -/
def ToolSpec.validateForBindings (spec : ToolSpec) (maxNameBytes maxSchemaBytes : Nat) :
    Except ToolValueError Unit :=
  if byteLen spec.name.asStr > maxNameBytes
      || spec.description.byteLen > min maxSchemaBytes maxToolDescriptionBytes then
    .error .invalidText
  else if jsonBytes spec.inputSchema > maxSchemaBytes then .error .invalidSchema
  else .ok ()

/-- The body of a tool result: bounded text without illegal control characters. -/
structure ToolOutput where
  content : BoundedText
  valid : validText content.asStr maxTextBytes true = true
deriving DecidableEq

/-- Check the body of a tool result. -/
def ToolOutput.new (content : Text) : Except ToolValueError ToolOutput :=
  if h : validText content maxTextBytes true = true then
    .ok ⟨⟨content, (validText_iff.mp h).2.1⟩, h⟩
  else .error .invalidText

/-- One call of a tool as policies and tools see it. -/
structure ToolInvocation where
  toolCallId : ToolCallId
  toolName : ToolName
  arguments : Json

/-- How a tool asks for input. -/
inductive ToolInputAnswerKind where
  | text
  | singleChoice
deriving DecidableEq, Repr

/-- A question a tool puts to the host. -/
structure ToolInputRequest where
  prompt : BoundedText
  choices : List BoundedText
  answerKind : ToolInputAnswerKind
deriving DecidableEq

/-- The check of a tool's question. -/
def ToolInputRequest.validate (request : ToolInputRequest) : Bool :=
  !(!validText request.prompt.asStr 8192 false
    || decide (request.choices.length > 32)
    || request.choices.any (fun choice ↦ !validText choice.asStr 1024 false)
    || (request.answerKind == .singleChoice && request.choices.isEmpty))

/-- The host's answer to a tool's question. -/
inductive ToolInputAnswer where
  | text (value : BoundedText)
  | choice (index : Nat)
deriving DecidableEq

namespace ToolInputAnswer

/-- The check of an answer against its question. -/
def validate (answer : ToolInputAnswer) (request : ToolInputRequest) : Bool :=
  match answer, request.answerKind with
  | .text value, .text => validText value.asStr 8192 false
  | .choice index, .singleChoice => decide (index < request.choices.length)
  | _, _ => false

/-- The canonical result of an answer, or `none` where the choice is out of range. -/
def encodeResult (answer : ToolInputAnswer) (request : ToolInputRequest) : Option Text :=
  match answer with
  | .text value => some (Json.object [("answer".toList, .string value.asStr)]).compact
  | .choice index =>
    match request.choices[index]? with
    | some chosen =>
      some (Json.object [("choice_index".toList, .number (Nat.toDigits 10 index)),
        ("choice".toList, .string chosen.asStr)]).compact
    | none => none

end ToolInputAnswer

/-- What an execution of a tool answers. -/
inductive ToolExecutionOutcome where
  | completed (output : ToolOutput)
  | requestInput (request : ToolInputRequest)
deriving DecidableEq

/-- A progress report of a tool. -/
structure ToolProgress where
  message : Option BoundedText
  completed : Option Nat
  total : Option Nat
deriving DecidableEq

/-- The check of a progress report. -/
def ToolProgress.validate (progress : ToolProgress) : Bool :=
  !(progress.message.any fun message ↦ !validText message.asStr BoundedText.maxBytes true)
  && !(match progress.completed, progress.total with
    | some completed, some total => decide (completed > total)
    | _, _ => false)

/-! ## Policies -/

/-- The ways a policy fails. -/
inductive ToolPolicyError where
  | cancelled
  | failed
  | invalidDecision
  | panicked
  | internal
deriving DecidableEq, Repr

/-- The cap on the texts of a policy. -/
def maxToolPolicyTextBytes : Nat := 8192

/-- How risky a call is that needs approval. -/
inductive ApprovalRisk where
  | low
  | medium
  | high
deriving DecidableEq, Repr

/-- A policy's question whether a call may run. -/
structure ApprovalRequest where
  prompt : BoundedText
  risk : ApprovalRisk
deriving DecidableEq

/-- The check of a policy's question. -/
def ApprovalRequest.validate (request : ApprovalRequest) : Bool :=
  validText request.prompt.asStr maxToolPolicyTextBytes false

/-- What the host decides about an approval. -/
inductive ApprovalDecision where
  | allowOnce
  | deny
deriving DecidableEq, Repr

/-- A policy's decision about a call. -/
inductive ToolDecision where
  | allow
  | deny (reason : BoundedText)
  | requireApproval (request : ApprovalRequest)
deriving DecidableEq

/-- The check of a decision. -/
def ToolDecision.validate : ToolDecision → Bool
  | .allow => true
  | .deny reason => validText reason.asStr maxToolPolicyTextBytes false
  | .requireApproval request => request.validate

/-! ## Interactions -/

/-- What an interaction asks. -/
inductive InteractionKind where
  | approval (request : ApprovalRequest)
  | toolInput (request : ToolInputRequest)
deriving DecidableEq

/-- An interaction that waits for the host. -/
structure PendingInteraction where
  interactionId : InteractionId
  toolCallId : ToolCallId
  toolName : ToolName
  kind : InteractionKind
deriving DecidableEq

/-- The host's answer to an interaction. -/
inductive InteractionAnswer where
  | approval (decision : ApprovalDecision)
  | toolInput (answer : ToolInputAnswer)
deriving DecidableEq

/-- The check of an answer against what was asked. -/
def InteractionAnswer.validate : InteractionAnswer → InteractionKind → Bool
  | .approval _, .approval _ => true
  | .toolInput answer, .toolInput request => answer.validate request
  | _, _ => false

/-! ## Tool sets -/

/-- A registered tool. -/
structure EnabledTool where
  implementation : ToolHandle
  spec : ToolSpec

/-- The registered tools: the catalogue sent with a request, and the tools by name. -/
structure ToolSet where
  specs : List ToolSpec
  entries : List (ToolName × EnabledTool)

namespace ToolSet

/-- The tool registered under a name. -/
def find (tools : ToolSet) (name : ToolName) : Option EnabledTool :=
  tools.entries.lookup name

/-- Whether the catalogue has a tool of this name. -/
def offers (specs : List ToolSpec) (name : ToolName) : Bool :=
  specs.any fun spec ↦ spec.name == name

end ToolSet

end MinicoreRuntime
