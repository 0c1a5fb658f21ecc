import MinicoreRuntime.AgentLoop.Conformance
import MinicoreRuntime.Model.ExchangeGrammar
import MinicoreRuntime.Summary

/-!
# Inputs a request can carry

Which inputs and summaries a loop admits, and for which of them the default provider projects
messages that a request accepts. A bounded text may contain control characters. Neither its
constructor nor the projection of an input normalises them, and the text of a message may not
contain them.

## Main definitions

* `Admitted`: an input or a summary that the constructors admit.
* `Usable`: an item whose projected text has only legal characters.

## Main results

* `prepare_usable_iff`: a request is built from the projection exactly when every item is usable.
* `carriageReturn_unusable`: an input with a line break of two characters ends the loop.
-/

namespace MinicoreRuntime

/-! ## Truncation -/

/-- The character `c` lies whole in the first `limit` bytes of a text. -/
def InFirstBytes (limit : Nat) (content : Text) (c : Char) : Prop :=
  ∃ earlier later, content = earlier ++ c :: later ∧ byteLen earlier + c.utf8Size ≤ limit

theorem mem_truncateAtCharBoundary {limit : Nat} {content : Text} {c : Char} :
    c ∈ truncateAtCharBoundary limit content ↔ InFirstBytes limit content c := by
  induction content generalizing limit with
  | nil => simp [truncateAtCharBoundary, InFirstBytes]
  | cons d content ih =>
    rw [truncateAtCharBoundary]
    -- By the first character: it is kept where it fits, and the limit is less by its bytes.
    constructor
    · intro h
      split at h
      · rename_i hd
        rcases List.mem_cons.mp h with rfl | h
        · exact ⟨[], content, rfl, by simpa using hd⟩
        · obtain ⟨earlier, later, rfl, hlen⟩ := ih.mp h
          exact ⟨d :: earlier, later, rfl, by rw [byteLen_cons]; omega⟩
      · exact absurd h (by simp)
    · rintro ⟨earlier, later, heq, hlen⟩
      cases earlier with
      | nil =>
        obtain ⟨rfl, rfl⟩ := List.cons.inj heq
        rw [if_pos (by simpa using hlen)]
        exact List.mem_cons_self
      | cons d' earlier =>
        obtain ⟨rfl, rfl⟩ := List.cons.inj heq
        rw [byteLen_cons] at hlen
        rw [if_pos (by omega)]
        exact List.mem_cons_of_mem _ (ih.mpr ⟨earlier, later, rfl, by omega⟩)

/-- A text within the limit is in its first bytes as a whole. -/
theorem inFirstBytes_of_le {limit : Nat} {content : Text} (h : byteLen content ≤ limit) {c : Char} :
    InFirstBytes limit content c ↔ c ∈ content := by
  constructor
  · rintro ⟨earlier, later, rfl, -⟩
    simp
  · intro hc
    obtain ⟨earlier, later, rfl⟩ := List.append_of_mem hc
    rw [byteLen_append, byteLen_cons] at h
    exact ⟨earlier, later, rfl, by omega⟩

/-! ## Items -/

/-- What the constructors admit as an input or as a summary. -/
inductive Admitted : HistoryItem → Prop where
  | user (item : UserHistory) (value : Text) (h : UserInput.new value = .ok item.input) :
      Admitted (.user item)
  | summary (item : SummaryHistory) : Admitted (.summary item)

/-- Every character of the item's text that is projected is legal in a message. -/
def Usable : HistoryItem → Prop
  | .user item => ∀ c ∈ item.input.asText, legalChar c = true
  | .summary item => ∀ c, InFirstBytes summaryRoom item.content.asStr c → legalChar c = true
  | .assistant _ | .toolResult _ => True

/-- An admitted input is neither empty nor too long for a message. -/
theorem UserInput.bounds_of_new {value : Text} {input : UserInput}
    (h : UserInput.new value = .ok input) :
    input.asText ≠ [] ∧ byteLen input.asText ≤ maxModelMessageTextBytes := by
  unfold UserInput.new at h
  cases htext : BoundedText.new value with
  | error e => simp [htext] at h
  | ok text =>
    rw [htext] at h
    by_cases hempty : text.isEmpty = true
    · simp [hempty] at h
    · obtain rfl : UserInput.text text = input := by simpa [hempty] using h
      exact ⟨fun hnil ↦ hempty (BoundedText.isEmpty_iff.mpr hnil), text.bounded⟩

/-- A message that a list may contain anywhere: legal, without tool calls, and not a result. -/
def Plain (message : ModelMessage) : Prop :=
  LegalMessage message ∧ message.resultId = none ∧ message.callIds = []

/-- A summary's message is legal exactly when the summary is usable. -/
theorem summaryMessage_plain_iff (summary : SummaryHistory) :
    (∃ message, summaryMessage summary = .ok message ∧ Plain message) ↔
      Usable (.summary summary) := by
  have hroom : byteLen summaryPrefix + summaryRoom = maxModelMessageTextBytes := by decide
  have hprefix : ∀ c ∈ summaryPrefix, legalChar c = true := List.all_eq_true.mp (by decide)
  -- The characters of the message after the prefix are those in the first bytes of the content.
  have key (content : Text) (hlen : byteLen content ≤ summaryRoom)
      (hmem : ∀ c, c ∈ content ↔ InFirstBytes summaryRoom summary.content.asStr c) :
      (∃ message, ModelMessage.newSystem (summaryPrefix ++ content) = .ok message ∧ Plain message) ↔
        Usable (.summary summary) := by
    have hvalid : validText (summaryPrefix ++ content) maxModelMessageTextBytes false = true ↔
        Usable (.summary summary) := by
      rw [validText_iff, byteLen_append]
      simp only [List.mem_append, hmem]
      constructor
      · rintro ⟨-, -, h⟩ c hc
        exact h c (.inr hc)
      · intro h
        refine ⟨.inr fun hnil ↦ absurd (List.append_eq_nil_iff.mp hnil).1 (by decide), by omega, ?_⟩
        rintro c (hc | hc)
        · exact hprefix c hc
        · exact h c hc
    rw [← hvalid]
    constructor
    · rintro ⟨message, hmessage, -⟩
      exact (ModelMessage.newSystem_eq_ok.mp hmessage).1
    · intro h
      exact ⟨_, ModelMessage.newSystem_eq_ok.mpr ⟨h, rfl⟩, h, rfl, rfl⟩
  rw [summaryMessage_eq]
  split
  · rename_i hle
    exact key _ hle fun c ↦ (inFirstBytes_of_le hle).symm
  · exact key _ (byteLen_truncateAtCharBoundary_le _ _) fun c ↦ mem_truncateAtCharBoundary

/-- An admitted item is projected to a legal message exactly when it is usable. -/
theorem Admitted.projectItem_plain_iff {item : HistoryItem} (h : Admitted item) :
    (∃ message, projectItem item = .ok message ∧ Plain message) ↔ Usable item := by
  cases h with
  | user item value hnew =>
    obtain ⟨hne, hlen⟩ := UserInput.bounds_of_new hnew
    -- The input is within the bytes and not empty, so that only its characters are left to check.
    have hvalid : validText item.input.asText maxModelMessageTextBytes false = true ↔
        Usable (.user item) := by
      rw [validText_iff]
      exact ⟨fun h ↦ h.2.2, fun h ↦ ⟨.inr hne, hlen, h⟩⟩
    rw [← hvalid]
    constructor
    · rintro ⟨message, hmessage, hlegal, -⟩
      obtain rfl : ModelMessage.user item.input.asText = message := by
        simpa [projectItem] using hmessage
      exact hlegal
    · intro h
      exact ⟨_, rfl, h, rfl, rfl⟩
  | summary item => exact summaryMessage_plain_iff item

/-- The message of an admitted item is no result and has no tool calls. -/
theorem Admitted.projectItem_shape {item : HistoryItem} (h : Admitted item) {message : ModelMessage}
    (hmessage : projectItem item = .ok message) :
    message.resultId = none ∧ message.callIds = [] := by
  cases h with
  | user item value hnew =>
    obtain rfl : ModelMessage.user item.input.asText = message := by
      simpa [projectItem] using hmessage
    exact ⟨rfl, rfl⟩
  | summary item =>
    rw [projectItem, summaryMessage_eq, ModelMessage.newSystem_eq_ok] at hmessage
    rw [hmessage.2]
    exact ⟨rfl, rfl⟩

/-! ## Requests -/

/-- Admitted items are projected to legal messages exactly when all of them are usable. -/
theorem projectItems_plain_iff {items : List HistoryItem} (h : ∀ item ∈ items, Admitted item) :
    (∃ messages, projectItems items = .ok messages ∧ ∀ message ∈ messages, Plain message) ↔
      ∀ item ∈ items, Usable item := by
  induction items with
  | nil => exact ⟨fun _ ↦ by simp, fun _ ↦ ⟨[], rfl, by simp⟩⟩
  | cons item items ih =>
    have hrest := ih fun item hitem ↦ h item (List.mem_cons_of_mem _ hitem)
    have hitem := (h item List.mem_cons_self).projectItem_plain_iff
    rw [List.forall_mem_cons, ← hitem, ← hrest]
    constructor
    · rintro ⟨messages, hmessages, hplain⟩
      obtain ⟨message, rest, hfirst, hlater, rfl⟩ := projectItems_cons_eq_ok.mp hmessages
      rw [List.forall_mem_cons] at hplain
      exact ⟨⟨message, hfirst, hplain.1⟩, rest, hlater, hplain.2⟩
    · rintro ⟨⟨message, hfirst, hplain⟩, rest, hlater, hplains⟩
      refine ⟨message :: rest, projectItems_cons_eq_ok.mpr ⟨_, _, hfirst, hlater, rfl⟩, ?_⟩
      exact List.forall_mem_cons.mpr ⟨hplain, hplains⟩

/-- The messages of admitted items are no results and have no tool calls. -/
theorem projectItems_shape {items : List HistoryItem} (h : ∀ item ∈ items, Admitted item)
    {messages : List ModelMessage} (hmessages : projectItems items = .ok messages) :
    ∀ message ∈ messages, message.resultId = none ∧ message.callIds = [] := by
  induction items generalizing messages with
  | nil =>
    obtain rfl := Except.ok.inj hmessages
    simp
  | cons item items ih =>
    obtain ⟨message, rest, hfirst, hlater, rfl⟩ := projectItems_cons_eq_ok.mp hmessages
    rw [List.forall_mem_cons] at h ⊢
    exact ⟨h.1.projectItem_shape hfirst, ih h.2 hlater⟩

/-- Messages without tool calls and results are a segment each. -/
theorem validateToolExchange_plain_iff {messages : List ModelMessage}
    (h : ∀ message ∈ messages, message.resultId = none ∧ message.callIds = []) :
    validateToolExchange messages = .ok () ↔ ∀ message ∈ messages, Plain message := by
  rw [validateToolExchange_grammar]
  constructor
  · rintro ⟨hlegal, -⟩ message hmessage
    exact ⟨hlegal message hmessage, h message hmessage⟩
  · intro hplain
    refine ⟨fun message hmessage ↦ (hplain message hmessage).1, ?_⟩
    clear hplain
    induction messages with
    | nil => exact ⟨[], rfl⟩
    | cons message messages ih =>
      rw [List.forall_mem_cons] at h
      obtain ⟨segments, rfl⟩ := ih h.2
      exact ⟨⟨message, h.1.1, [], [], rfl, by rw [h.1.2]⟩ :: segments, rfl⟩

/-- Over admitted items and without a system prompt, the provider's answer makes a request exactly
when every projected character is legal. -/
theorem prepare_usable_iff {provider : DefaultPromptProvider}
    (hsystem : provider.systemPrompt = none)
    {request : PromptRequest} {now : Nat} (hlive : now < request.deadline)
    (hne : request.history.items ≠ []) (hadmitted : ∀ item ∈ request.history.items, Admitted item)
    (config : ExecutionConfig) :
    (∃ messages modelRequest, provider.prepare false now request = .ok messages ∧
        buildModelRequest messages config = .ok modelRequest) ↔
      ∀ item ∈ request.history.items, Usable item := by
  -- A call in time without a system prompt is the projection of the items.
  have hprepare (messages : List ModelMessage) : provider.prepare false now request = .ok messages ↔
      projectItems request.history.items = .ok messages ∧ messages ≠ [] := by
    have hlate : ¬ request.deadline ≤ now := by omega
    simp only [DefaultPromptProvider.prepare, Bool.false_or, decide_eq_true_eq, hlate, if_false,
      DefaultPromptProvider.project, DefaultPromptProvider.systemMessages, hsystem]
    cases projectItems request.history.items with
    | error e => simp
    | ok projected =>
      cases projected with
      | nil => simp [eq_comm]
      | cons message projected =>
        simp only [List.nil_append, List.isEmpty_cons, Bool.false_eq_true, if_false,
          Except.ok.injEq]
        refine ⟨fun h ↦ ⟨h, ?_⟩, And.left⟩
        rw [← h]
        exact List.cons_ne_nil _ _
  rw [← projectItems_plain_iff hadmitted]
  -- Building the request checks the exchange of calls and results, and nothing else.
  constructor
  · rintro ⟨messages, modelRequest, hmessages, hbuild⟩
    obtain ⟨hproject, -⟩ := (hprepare messages).mp hmessages
    have hexchange := (ModelRequest.withValidatedTools_eq_ok.mp hbuild).2.1
    exact ⟨messages, hproject,
      (validateToolExchange_plain_iff (projectItems_shape hadmitted hproject)).mp hexchange⟩
  · rintro ⟨messages, hproject, hplain⟩
    have hmessages : messages ≠ [] := by
      rintro rfl
      exact hne (List.forall₂_nil_right_iff.mp (projectItems_forall₂.mp hproject))
    have hexchange := (validateToolExchange_plain_iff
      (projectItems_shape hadmitted hproject)).mpr hplain
    exact ⟨messages, _, (hprepare messages).mpr ⟨hproject, hmessages⟩,
      ModelRequest.withValidatedTools_eq_ok.mpr ⟨hmessages, hexchange, rfl⟩⟩

/-- A request for a prompt over some items. -/
private def Sample.promptRequest (items : List HistoryItem) : PromptRequest :=
  ⟨.ofByte 1 (Eq.refl true), 0, ⟨items, []⟩, Sample.model, .auto, [], 1⟩

private def Sample.item (input : UserInput) : HistoryItem :=
  .user ⟨.ofByte 1 (Eq.refl true), .prompt, input⟩

theorem prepare_usable_iff_sample :
    (∃ messages modelRequest, (⟨none⟩ : DefaultPromptProvider).prepare false 0
        (Sample.promptRequest [Sample.item (.text ⟨"hi".toList, by decide⟩)]) = .ok messages ∧
        buildModelRequest messages Sample.config = .ok modelRequest) := by
  have hadmitted : ∀ item ∈ (Sample.promptRequest
      [Sample.item (.text ⟨"hi".toList, by decide⟩)]).history.items, Admitted item := by
    rintro item hitem
    obtain rfl := List.mem_singleton.mp hitem
    exact .user _ "hi".toList rfl
  refine (prepare_usable_iff rfl (by decide) (by decide) hadmitted Sample.config).mpr ?_
  rintro item hitem
  obtain rfl := List.mem_singleton.mp hitem
  exact List.all_eq_true (p := legalChar).mp (by decide : "hi".toList.all legalChar = true)

/-- The constructor admits an input with a line break of two characters, the provider projects it,
and no request is built. -/
theorem carriageReturn_unusable :
    ∃ input, UserInput.new "a\r\nb".toList = .ok input ∧
      ∃ messages, (⟨none⟩ : DefaultPromptProvider).prepare false 0
          (Sample.promptRequest [Sample.item input]) = .ok messages ∧
        buildModelRequest messages Sample.config = .error .invalidText :=
  ⟨.text ⟨"a\r\nb".toList, by decide⟩, rfl, [.user "a\r\nb".toList], rfl, rfl⟩

end MinicoreRuntime
