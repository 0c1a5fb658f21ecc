import MinicoreRuntime.Execution

/-!
# Prompts

What a prompt provider is asked, and the default provider: the projection of a history into the
messages of a request, item by item and in order, after an optional system prompt.

## Main definitions

* `PromptRequest`: one request for a prompt.
* `projectItem`, `projectItems`: the projection of a history.
* `DefaultPromptProvider.project`, `DefaultPromptProvider.prepare`.

## Main results

* `projectItems_append`: the projection of a concatenation.
* `projectItems_forall₂`: the projection has one message for each item, in order.
-/

namespace MinicoreRuntime

/-- The ways a prompt fails. -/
inductive PromptError where
  | invalidHistory
  | cancelled
  | emptyPrompt
deriving DecidableEq, Repr

/-- What a prompt provider sees of one request. -/
structure PromptRequest where
  loopId : LoopId
  requestIndex : Nat
  history : HistoryView
  model : ModelDescriptor
  reasoning : ReasoningPreference
  tools : List ToolSpec
  deadline : Nat

/-- The fixed start of a projected summary. -/
def summaryPrefix : Text := "Conversation summary:\n".toList

/-- The longest prefix of at most `limit` bytes that ends between two characters. -/
def truncateAtCharBoundary : Nat → Text → Text
  | _, [] => []
  | limit, c :: rest =>
    if c.utf8Size ≤ limit then c :: truncateAtCharBoundary (limit - c.utf8Size) rest else []

/-- The message of a summary. A content too long for one message is cut short. -/
def summaryMessage (summary : SummaryHistory) : Except ModelValueError ModelMessage :=
  let content := summary.content.asStr
  let content :=
    if byteLen summaryPrefix + byteLen content > maxModelMessageTextBytes then
      truncateAtCharBoundary (maxModelMessageTextBytes - byteLen summaryPrefix) content
    else content
  ModelMessage.newSystem (summaryPrefix ++ content)

/-- The message of a response. -/
def assistantMessage (assistant : AssistantHistory) : Except ModelValueError ModelMessage :=
  ModelMessage.assistantWithProviderReplay assistant.content assistant.providerReplay

/-- The message of an item. -/
def projectItem : HistoryItem → Except ModelValueError ModelMessage
  | .user item => .ok (.user item.input.asText)
  | .assistant item => assistantMessage item
  | .toolResult item => .ok (.tool item.callId item.output item.outcome)
  | .summary item => summaryMessage item

/-- The messages of a list of items. -/
def projectItems : List HistoryItem → Except PromptError (List ModelMessage)
  | [] => .ok []
  | item :: items =>
    match projectItem item with
    | .error _ => .error .invalidHistory
    | .ok message =>
      match projectItems items with
      | .error e => .error e
      | .ok messages => .ok (message :: messages)

/-- The default prompt provider. -/
structure DefaultPromptProvider where
  systemPrompt : Option BoundedText

namespace DefaultPromptProvider

/-- The leading system message, if the provider has a prompt that is not empty. -/
def systemMessages (provider : DefaultPromptProvider) : List ModelMessage :=
  match provider.systemPrompt with
  | some text => if text.isEmpty then [] else [.system text.asStr]
  | none => []

/-- The projection of a history. -/
def project (provider : DefaultPromptProvider) (view : HistoryView) :
    Except PromptError (List ModelMessage) :=
  match projectItems view.items with
  | .error e => .error e
  | .ok messages =>
    let messages := provider.systemMessages ++ messages
    if messages.isEmpty then .error .emptyPrompt else .ok messages

/-- The answer to a request for a prompt made at the instant `now`. -/
def prepare (provider : DefaultPromptProvider) (isCancelled : Bool) (now : Nat)
    (request : PromptRequest) : Except PromptError (List ModelMessage) :=
  if isCancelled || request.deadline ≤ now then .error .cancelled
  else provider.project request.history

end DefaultPromptProvider

theorem projectItems_cons_eq_ok {item : HistoryItem} {items : List HistoryItem}
    {messages : List ModelMessage} :
    projectItems (item :: items) = .ok messages ↔
      ∃ message rest, projectItem item = .ok message ∧ projectItems items = .ok rest ∧
        messages = message :: rest := by
  rw [projectItems]
  cases projectItem item with
  | error e => simp
  | ok message =>
    cases projectItems items with
    | error e => simp
    | ok rest => simp [eq_comm]

/-- The projection of a concatenation is the concatenation of the projections. -/
theorem projectItems_append {first second : List HistoryItem} {messages : List ModelMessage} :
    projectItems (first ++ second) = .ok messages ↔
      ∃ left right, projectItems first = .ok left ∧ projectItems second = .ok right ∧
        messages = left ++ right := by
  induction first generalizing messages with
  | nil => simp [projectItems]
  | cons item first ih =>
    rw [List.cons_append, projectItems_cons_eq_ok]
    constructor
    · rintro ⟨message, rest, hitem, hrest, rfl⟩
      obtain ⟨left, right, hleft, hright, rfl⟩ := ih.mp hrest
      exact ⟨message :: left, right, projectItems_cons_eq_ok.mpr ⟨_, _, hitem, hleft, rfl⟩,
        hright, rfl⟩
    · rintro ⟨left, right, hleft, hright, rfl⟩
      obtain ⟨message, rest, hitem, hrest, rfl⟩ := projectItems_cons_eq_ok.mp hleft
      exact ⟨message, rest ++ right, hitem, ih.mpr ⟨_, _, hrest, hright, rfl⟩, rfl⟩

/-- The projection has one message for each item, in order. -/
theorem projectItems_forall₂ {items : List HistoryItem} {messages : List ModelMessage} :
    projectItems items = .ok messages ↔
      List.Forall₂ (fun item message ↦ projectItem item = .ok message) items messages := by
  induction items generalizing messages with
  | nil =>
    rw [List.forall₂_nil_left_iff]
    simp [projectItems, eq_comm]
  | cons item items ih =>
    rw [projectItems_cons_eq_ok, List.forall₂_cons_left_iff]
    constructor
    · rintro ⟨message, rest, hitem, hrest, rfl⟩
      exact ⟨message, rest, hitem, ih.mp hrest, rfl⟩
    · rintro ⟨message, rest, hitem, hrest, rfl⟩
      exact ⟨message, rest, hitem, ih.mpr hrest, rfl⟩

end MinicoreRuntime
