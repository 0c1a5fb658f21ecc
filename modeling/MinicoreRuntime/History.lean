import MinicoreRuntime.Model.Response

/-!
# History

The typed history of a conversation: the items a host keeps, the view of them handed to a prompt
provider, and the delta one loop appends.

## Main definitions

* `UserInput`, `HistoryItem`: what a history is made of.
* `HistoryView`, `WorkingHistory`: the host's base and the loop's own items.
-/

namespace MinicoreRuntime

/-- The ways an input is malformed. -/
inductive UserInputError where
  | invalidText
deriving DecidableEq, Repr

/-- An input of the user. -/
inductive UserInput where
  | text (text : BoundedText)
deriving DecidableEq

namespace UserInput

/-- Check an input: bounded text that is not empty. -/
def new (value : Text) : Except UserInputError UserInput :=
  match BoundedText.new value with
  | .error _ => .error .invalidText
  | .ok value => if value.isEmpty then .error .invalidText else .ok (.text value)

/-- The text of an input. -/
def asText : UserInput → Text
  | .text value => value.asStr

end UserInput

/-- Whether an input started the loop or was taken at a request boundary. -/
inductive UserMessageKind where
  | prompt
  | steering
deriving DecidableEq, Repr

/-- An input that belongs to a loop. -/
structure UserHistory where
  loopId : LoopId
  kind : UserMessageKind
  input : UserInput
deriving DecidableEq

/-- A complete response to one request. -/
structure AssistantHistory where
  loopId : LoopId
  requestIndex : Nat
  model : ModelRef
  reasoning : ReasoningPreference
  content : List AssistantPart
  providerReplay : Option ProviderReplay
  finishReason : ModelFinishReason
  usage : Usage

/-- The result of one tool call. -/
structure ToolResultHistory where
  loopId : LoopId
  requestIndex : Nat
  callId : ToolCallId
  toolName : ToolName
  outcome : ToolResultOutcome
  output : ToolOutput
deriving DecidableEq

/-- A summary made by the host. -/
structure SummaryHistory where
  content : BoundedText
deriving DecidableEq

/-- An item of a history. -/
inductive HistoryItem where
  | user (item : UserHistory)
  | assistant (item : AssistantHistory)
  | toolResult (item : ToolResultHistory)
  | summary (item : SummaryHistory)

/-- A response with tool calls. -/
def HistoryItem.hasCalls : HistoryItem → Bool
  | .assistant item => !(toolCalls item.content).isEmpty
  | _ => false

/-- The host's history and the items appended by the loop, as a prompt provider sees them. -/
structure HistoryView where
  base : List HistoryItem
  appended : List HistoryItem

/-- All items of a view in order. -/
def HistoryView.items (view : HistoryView) : List HistoryItem :=
  view.base ++ view.appended

/-- The history a loop works on. -/
structure WorkingHistory where
  base : List HistoryItem
  appended : List HistoryItem

namespace WorkingHistory

/-- Nothing appended yet. -/
def new (base : List HistoryItem) : WorkingHistory := ⟨base, []⟩

/-- The view of the working history. -/
def view (working : WorkingHistory) : HistoryView := ⟨working.base, working.appended⟩

/-- Append an item. -/
def append (working : WorkingHistory) (item : HistoryItem) : WorkingHistory :=
  { working with appended := working.appended ++ [item] }

@[simp]
theorem append_base (working : WorkingHistory) (item : HistoryItem) :
    (working.append item).base = working.base := rfl

@[simp]
theorem append_appended (working : WorkingHistory) (item : HistoryItem) :
    (working.append item).appended = working.appended ++ [item] := rfl

end WorkingHistory

end MinicoreRuntime
