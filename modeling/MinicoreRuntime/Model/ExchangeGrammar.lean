import MinicoreRuntime.Model.Request
import Mathlib.Data.List.Induction

/-!
# The grammar of tool exchanges

What the check of tool exchanges accepts, as a grammar: a list of messages is a sequence of
segments, each a message that is not a tool result, followed by one result for each of its tool
calls in any order. Where a list leaves the grammar, the error says how.

## Main definitions

* `Segment`: a segment, with the proof that its results answer its calls.
* `LegalMessage`: what the check of one message accepts.
* `OpenExchange`: a beginning of a list in the grammar, with the calls pending and those answered.
* `Offends`: a message that may not follow, with the error.

## Main results

* `openExchange_of_ok`, `OpenExchange.run`: the check accepts exactly the beginnings of the grammar.
* `ModelRequest.withValidatedTools_grammar`: a request accepts exactly the grammar, and its errors.
-/

namespace MinicoreRuntime

namespace ModelMessage

/-- The identifiers of the tool calls of a message. -/
def callIds : ModelMessage → List ToolCallId
  | .assistant parts | .assistantWithReplay parts _ => (toolCalls parts).map ToolCall.toolCallId
  | .system _ | .user _ | .tool _ _ _ => []

/-- The identifier a tool result answers. -/
def resultId : ModelMessage → Option ToolCallId
  | .tool toolCallId _ _ => some toolCallId
  | .system _ | .user _ | .assistant _ | .assistantWithReplay _ _ => none

end ModelMessage

/-- What the check of one message accepts: legal text that is not empty, or ordered parts, which may
be missing only beside replay metadata. -/
def LegalMessage : ModelMessage → Prop
  | .system text | .user text => validText text maxModelMessageTextBytes false = true
  | .assistant parts => parts ≠ [] ∧ OrderedParts parts
  | .assistantWithReplay parts _ => OrderedParts parts
  | .tool _ _ _ => True

theorem ModelMessage.validate_eq_ok {message : ModelMessage} :
    message.validate = .ok () ↔ LegalMessage message := by
  cases message with
  | system text => simp [ModelMessage.validate, LegalMessage]
  | user text => simp [ModelMessage.validate, LegalMessage]
  | assistant parts =>
    rw [ModelMessage.validate, LegalMessage, ← validateToolCallOrder_eq_ok]
    cases parts <;> simp
  | assistantWithReplay parts replay => exact validateToolCallOrder_eq_ok
  | tool toolCallId output outcome => simp [ModelMessage.validate, LegalMessage]

/-- The calls of a legal message have distinct identifiers. -/
theorem LegalMessage.nodup {message : ModelMessage} (h : LegalMessage message) :
    message.callIds.Nodup := by
  cases message with
  | assistant parts => exact h.2.ids
  | assistantWithReplay parts replay => exact h.ids
  | _ => exact List.nodup_nil

/-- A message that is not a tool result, and a result for each of its tool calls in any order. -/
structure Segment where
  head : ModelMessage
  notResult : head.resultId = none
  results : List ModelMessage
  answers : ∃ ids : List ToolCallId,
    results.map ModelMessage.resultId = ids.map some ∧ ids.Perm head.callIds

/-- The messages of a segment. -/
def Segment.messages (segment : Segment) : List ModelMessage := segment.head :: segment.results

/-- A beginning of a list in the grammar, before any segment or within one: the results so far
answer the calls `answered` in order, and the calls `pending` have no result yet. -/
inductive OpenExchange : List ModelMessage → List ToolCallId → List ToolCallId → Prop where
  | nil : OpenExchange [] [] []
  | within (segments : List Segment) (head : ModelMessage) (results : List ModelMessage)
      (pending answered : List ToolCallId) (hlegal : ∀ message ∈
        segments.flatMap Segment.messages ++ head :: results, LegalMessage message)
      (hhead : head.resultId = none)
      (hresults : results.map ModelMessage.resultId = answered.map some)
      (hcalls : (answered ++ pending).Perm head.callIds) :
      OpenExchange (segments.flatMap Segment.messages ++ head :: results) pending answered

/-- A message that may not follow where the calls `pending` have no result and the calls `answered`
of the same exchange have one. -/
def Offends (pending answered : List ToolCallId) (message : ModelMessage) (e : ModelValueError) :
    Prop :=
  match message.resultId with
  | some id =>
    (id ∈ answered ∧ e = .duplicateToolResult) ∨
      (id ∉ answered ∧ id ∉ pending ∧ e = .orphanToolResult)
  | none =>
    (pending ≠ [] ∧ e = .incompleteToolExchange) ∨ (pending = [] ∧ message.validate = .error e)

/-! ## One message -/

/-- The check of a message that is not a tool result. -/
theorem exchangeStep_head (state : Exchange) {message : ModelMessage}
    (h : message.resultId = none) :
    exchangeStep state message =
      if !state.pending.isEmpty then .error .incompleteToolExchange
      else match message.validate with
        | .error e => .error e
        | .ok () => .ok ⟨message.callIds, []⟩ := by
  cases message with
  | tool id output outcome => exact absurd h (by simp [ModelMessage.resultId])
  | _ => rfl

/-- The check of a tool result. -/
theorem exchangeStep_result (state : Exchange) {message : ModelMessage} {id : ToolCallId}
    (h : message.resultId = some id) :
    exchangeStep state message =
      if state.completed.contains id then .error .duplicateToolResult
      else if state.pending.isEmpty || !state.pending.contains id then .error .orphanToolResult
      else .ok ⟨state.pending.erase id, id :: state.completed⟩ := by
  cases message with
  | tool id' output outcome =>
    obtain rfl : id' = id := by simpa [ModelMessage.resultId] using h
    rfl
  | _ => exact absurd h (by simp [ModelMessage.resultId])

/-- What the check of one message accepts, and what it leaves. -/
theorem exchangeStep_eq_ok {state state' : Exchange} {message : ModelMessage} :
    exchangeStep state message = .ok state' ↔
      (message.resultId = none ∧ state.pending = [] ∧ LegalMessage message ∧
        state' = ⟨message.callIds, []⟩) ∨
      ∃ id, message.resultId = some id ∧ id ∉ state.completed ∧ id ∈ state.pending ∧
        state' = ⟨state.pending.erase id, id :: state.completed⟩ := by
  cases hresult : message.resultId with
  | none =>
    rw [exchangeStep_head state hresult, ← ModelMessage.validate_eq_ok]
    cases hpending : state.pending with
    | nil => cases message.validate <;> simp [eq_comm]
    | cons id pending => simp
  | some id =>
    rw [exchangeStep_result state hresult]
    by_cases hcompleted : id ∈ state.completed
    · simp [hcompleted]
    · by_cases hpending : id ∈ state.pending
      · have hne : state.pending ≠ [] := List.ne_nil_of_mem hpending
        simp only [List.contains_eq_mem, hcompleted, hpending, hne, decide_false, decide_true,
          List.isEmpty_iff, Bool.not_true, Bool.or_false, Bool.false_eq_true, if_false,
          Except.ok.injEq, reduceCtorEq, false_and, false_or, Option.some.injEq,
          exists_eq_left', not_false_eq_true, true_and]
        exact eq_comm
      · simp [hcompleted, hpending]

/-- The errors of the check of one message. -/
theorem exchangeStep_eq_error {state : Exchange} {message : ModelMessage} {e : ModelValueError} :
    exchangeStep state message = .error e ↔ Offends state.pending state.completed message e := by
  unfold Offends
  -- A result is checked against the calls, any other message against what is pending.
  cases hresult : message.resultId with
  | none =>
    rw [exchangeStep_head state hresult]
    cases hpending : state.pending with
    | nil => cases message.validate <;> simp
    | cons id pending =>
      simp only [List.isEmpty_cons, Bool.not_false, if_true, Except.error.injEq, ne_eq,
        reduceCtorEq, not_false_eq_true, true_and, false_and, or_false]
      exact eq_comm
  | some id =>
    rw [exchangeStep_result state hresult]
    by_cases hcompleted : id ∈ state.completed
    · simp only [List.contains_eq_mem, hcompleted, decide_true, if_true, Except.error.injEq,
        true_and, not_true_eq_false, false_and, or_false]
      exact eq_comm
    · by_cases hpending : id ∈ state.pending
      · have hne : state.pending ≠ [] := List.ne_nil_of_mem hpending
        simp [hcompleted, hpending, hne]
      · simp only [List.contains_eq_mem, hcompleted, hpending, decide_false, Bool.not_false,
          Bool.or_true, Bool.false_eq_true, if_false, if_true, Except.error.injEq, false_and,
          not_false_eq_true, true_and, false_or]
        exact eq_comm

/-! ## Beginnings -/

/-- Where no call is pending, a beginning is a sequence of whole segments of legal messages. -/
theorem OpenExchange.segments {messages : List ModelMessage} {answered : List ToolCallId}
    (h : OpenExchange messages [] answered) :
    (∀ message ∈ messages, LegalMessage message) ∧
      ∃ segments : List Segment, messages = segments.flatMap Segment.messages := by
  cases h with
  | nil => exact ⟨by simp, [], rfl⟩
  | within segments head results pending answered hlegal hhead hresults hcalls =>
    rw [List.append_nil] at hcalls
    refine ⟨hlegal, segments ++ [⟨head, hhead, results, answered, hresults, hcalls⟩], ?_⟩
    simp [Segment.messages]

/-- A message that the check accepts extends a beginning. -/
theorem OpenExchange.snoc {messages : List ModelMessage} {pending answered : List ToolCallId}
    (h : OpenExchange messages pending answered) {message : ModelMessage} {state : Exchange}
    (hstep : exchangeStep ⟨pending, answered.reverse⟩ message = .ok state) :
    OpenExchange (messages ++ [message]) state.pending state.completed.reverse := by
  rcases exchangeStep_eq_ok.mp hstep with ⟨hresult, hpending, hlegal, rfl⟩ |
    ⟨id, hresult, -, hmem, rfl⟩
  · -- A new segment begins.
    obtain rfl : pending = [] := hpending
    obtain ⟨hlegals, segments, rfl⟩ := h.segments
    refine .within segments message [] message.callIds [] ?_ hresult rfl (List.Perm.refl _)
    intro message' hmessage
    rcases List.mem_append.mp hmessage with hmessage | hmessage
    · exact hlegals message' hmessage
    · rw [List.mem_singleton.mp hmessage]
      exact hlegal
  · -- The segment has one more result.
    cases h with
    | nil => exact absurd hmem (by simp)
    | within segments head results pending answered hlegals hhead hresults hcalls =>
      rw [List.append_assoc, List.cons_append, List.reverse_cons, List.reverse_reverse]
      refine .within segments head (results ++ [message]) _ (answered ++ [id]) ?_ hhead ?_ ?_
      · intro message' hmessage
        rw [← List.cons_append, ← List.append_assoc] at hmessage
        rcases List.mem_append.mp hmessage with hmessage | hmessage
        · exact hlegals message' hmessage
        · rw [List.mem_singleton.mp hmessage]
          cases message with
          | tool _ _ _ => trivial
          | _ => exact absurd hresult (by simp [ModelMessage.resultId])
      · simp [hresults, hresult]
      · refine List.Perm.trans ?_ hcalls
        rw [List.append_assoc]
        exact List.Perm.append_left _ (List.perm_cons_erase hmem).symm

/-- What the check accepts is a beginning. -/
theorem openExchange_of_ok {messages : List ModelMessage} {state : Exchange}
    (h : exchangeFrom ⟨[], []⟩ messages = .ok state) :
    OpenExchange messages state.pending state.completed.reverse := by
  induction messages using List.reverseRecOn generalizing state with
  | nil =>
    obtain rfl := Except.ok.inj h
    exact .nil
  | append_singleton messages message ih =>
    rw [exchange_append] at h
    cases hbefore : exchangeFrom ⟨[], []⟩ messages with
    | error e =>
      rw [hbefore] at h
      exact absurd h (by simp)
    | ok before =>
      rw [hbefore] at h
      refine (ih hbefore).snoc ?_
      rw [List.reverse_reverse]
      cases hstep : exchangeStep before message with
      | error e => simp [exchangeFrom, hstep] at h
      | ok after => simpa [exchangeFrom, hstep] using h

/-! ## The converse -/

/-- Results for some of the pending calls, in any order, leave the others pending. -/
theorem exchange_results {ids rest p completed : List ToolCallId} {results : List ModelMessage}
    (hnodup : (completed ++ p).Nodup) (hpending : p.Perm (ids ++ rest))
    (hresults : results.map ModelMessage.resultId = ids.map some) :
    ∃ p', exchangeFrom ⟨p, completed⟩ results = .ok ⟨p', ids.reverse ++ completed⟩ ∧
      p'.Perm rest := by
  induction ids generalizing p completed results with
  | nil =>
    obtain rfl : results = [] := by simpa using hresults
    exact ⟨p, rfl, hpending⟩
  | cons id ids ih =>
    obtain ⟨message, results, rfl, hmessage, hresults⟩ := List.map_eq_cons_iff.mp hresults
    have hmem : id ∈ p := hpending.mem_iff.mpr (by simp)
    have herase : (p.erase id).Perm (ids ++ rest) := by
      simpa using hpending.erase id
    have hfresh : id ∉ completed := fun h ↦ (List.nodup_append.mp hnodup).2.2 id h id hmem rfl
    have hstep : exchangeStep ⟨p, completed⟩ message = .ok ⟨p.erase id, id :: completed⟩ :=
      exchangeStep_eq_ok.mpr (.inr ⟨id, hmessage, hfresh, hmem, rfl⟩)
    have hnodup' : (id :: completed ++ p.erase id).Nodup := by
      -- The call moves from the pending ones to the answered ones.
      refine (List.Perm.nodup_iff ?_).mp hnodup
      exact (List.Perm.append_left _ (List.perm_cons_erase hmem)).trans List.perm_middle
    obtain ⟨p', hrun, hrest⟩ := ih hnodup' herase hresults
    refine ⟨p', ?_, hrest⟩
    rw [exchangeFrom, hstep]
    simpa using hrun

/-- The check of the beginning of a segment. -/
theorem exchange_within {completed ids rest : List ToolCallId} {head : ModelMessage}
    {results : List ModelMessage} (hhead : head.resultId = none) (hlegal : LegalMessage head)
    (hresults : results.map ModelMessage.resultId = ids.map some)
    (hcalls : (ids ++ rest).Perm head.callIds) :
    ∃ p, exchangeFrom ⟨[], completed⟩ (head :: results) = .ok ⟨p, ids.reverse⟩ ∧ p.Perm rest := by
  have hstep : exchangeStep ⟨[], completed⟩ head = .ok ⟨head.callIds, []⟩ :=
    exchangeStep_eq_ok.mpr (.inl ⟨hhead, rfl, hlegal, rfl⟩)
  have hnodup : ([] ++ head.callIds).Nodup := hlegal.nodup
  obtain ⟨p, hrun, hrest⟩ := exchange_results hnodup hcalls.symm hresults
  refine ⟨p, ?_, hrest⟩
  rw [exchangeFrom, hstep]
  simpa using hrun

/-- The check of whole segments leaves no call pending. -/
theorem exchange_segments (segments : List Segment) (completed : List ToolCallId)
    (hlegal : ∀ message ∈ segments.flatMap Segment.messages, LegalMessage message) :
    ∃ completed', exchangeFrom ⟨[], completed⟩ (segments.flatMap Segment.messages) =
      .ok ⟨[], completed'⟩ := by
  induction segments generalizing completed with
  | nil => exact ⟨completed, rfl⟩
  | cons segment segments ih =>
    rw [List.flatMap_cons] at hlegal ⊢
    obtain ⟨ids, hresults, hcalls⟩ := segment.answers
    have hhead : LegalMessage segment.head :=
      hlegal _ (List.mem_append_left _ List.mem_cons_self)
    have hall : (ids ++ []).Perm segment.head.callIds := by simpa using hcalls
    obtain ⟨p, hrun, hrest⟩ : ∃ p, exchangeFrom ⟨[], completed⟩ segment.messages =
        .ok ⟨p, ids.reverse⟩ ∧ p.Perm [] :=
      exchange_within segment.notResult hhead hresults hall
    obtain rfl : p = [] := List.perm_nil.mp hrest
    rw [exchange_append, hrun]
    exact ih _ fun message hmessage ↦ hlegal message (List.mem_append_right _ hmessage)

/-- The check accepts every beginning. -/
theorem OpenExchange.run {messages : List ModelMessage} {pending answered : List ToolCallId}
    (h : OpenExchange messages pending answered) :
    ∃ p, exchangeFrom ⟨[], []⟩ messages = .ok ⟨p, answered.reverse⟩ ∧ p.Perm pending := by
  cases h with
  | nil => exact ⟨[], rfl, List.Perm.refl _⟩
  | within segments head results pending answered hlegal hhead hresults hcalls =>
    obtain ⟨completed, hrun⟩ := exchange_segments segments []
      fun message hmessage ↦ hlegal message (List.mem_append_left _ hmessage)
    rw [exchange_append, hrun]
    exact exchange_within hhead
      (hlegal head (List.mem_append_right _ List.mem_cons_self)) hresults hcalls

/-- Which message may not follow does not depend on the order of the calls. -/
theorem Offends.of_perm {pending pending' answered answered' : List ToolCallId}
    {message : ModelMessage} {e : ModelValueError} (h : Offends pending answered message e)
    (hpending : pending.Perm pending') (hanswered : answered.Perm answered') :
    Offends pending' answered' message e := by
  unfold Offends at h ⊢
  cases hresult : message.resultId with
  | none =>
    rw [hresult] at h
    rcases h with ⟨hne, he⟩ | ⟨rfl, he⟩
    · exact .inl ⟨fun hnil ↦ hne (List.perm_nil.mp (hnil ▸ hpending)), he⟩
    · exact .inr ⟨List.perm_nil.mp hpending.symm, he⟩
  | some id =>
    rw [hresult] at h
    simpa only [hanswered.mem_iff, hpending.mem_iff] using h

/-- A list the check does not accept has a first message that may not follow its beginning. -/
theorem exchange_eq_error {messages : List ModelMessage} {e : ModelValueError} :
    exchangeFrom ⟨[], []⟩ messages = .error e ↔
      ∃ earlier message later pending answered, messages = earlier ++ message :: later ∧
        OpenExchange earlier pending answered ∧ Offends pending answered message e := by
  constructor
  · intro h
    -- By the messages from the end: the first error stands.
    induction messages using List.reverseRecOn with
    | nil => exact absurd h (by simp [exchangeFrom])
    | append_singleton messages message ih =>
      rw [exchange_append] at h
      cases hbefore : exchangeFrom ⟨[], []⟩ messages with
      | error e' =>
        rw [hbefore] at h
        obtain rfl := Except.error.inj h
        obtain ⟨earlier, first, later, pending, answered, rfl, hopen, hoffends⟩ := ih hbefore
        exact ⟨earlier, first, later ++ [message], pending, answered, by simp, hopen, hoffends⟩
      | ok before =>
        rw [hbefore] at h
        refine ⟨messages, message, [], before.pending, before.completed.reverse, rfl,
          openExchange_of_ok hbefore, ?_⟩
        have hstep : exchangeStep before message = .error e := by
          cases hstep : exchangeStep before message with
          | error e' => simpa [exchangeFrom, hstep] using h
          | ok after => simp [exchangeFrom, hstep] at h
        exact (exchangeStep_eq_error.mp hstep).of_perm (List.Perm.refl _)
          (List.reverse_perm _).symm
  · rintro ⟨earlier, message, later, pending, answered, rfl, hopen, hoffends⟩
    obtain ⟨p, hrun, hperm⟩ := hopen.run
    have hstep : exchangeStep ⟨p, answered.reverse⟩ message = .error e :=
      exchangeStep_eq_error.mpr (hoffends.of_perm hperm.symm (List.reverse_perm _).symm)
    rw [exchange_append, hrun]
    simp [exchangeFrom, hstep]

/-- The check accepts exactly the sequences of segments of legal messages. -/
theorem validateToolExchange_grammar {messages : List ModelMessage} :
    validateToolExchange messages = .ok () ↔
      (∀ message ∈ messages, LegalMessage message) ∧
        ∃ segments : List Segment, messages = segments.flatMap Segment.messages := by
  rw [validateToolExchange_eq_ok]
  constructor
  · rintro ⟨completed, h⟩
    exact (openExchange_of_ok h).segments
  · rintro ⟨hlegal, segments, rfl⟩
    exact exchange_segments segments [] hlegal

/-- The check fails at the first message that may not follow, or at the end of an open exchange. -/
theorem validateToolExchange_eq_error {messages : List ModelMessage} {e : ModelValueError} :
    validateToolExchange messages = .error e ↔
      (∃ earlier message later pending answered, messages = earlier ++ message :: later ∧
        OpenExchange earlier pending answered ∧ Offends pending answered message e) ∨
      ∃ pending answered, OpenExchange messages pending answered ∧ pending ≠ [] ∧
        e = .incompleteToolExchange := by
  rw [← exchange_eq_error]
  constructor
  · intro h
    unfold validateToolExchange at h
    cases hrun : exchangeFrom ⟨[], []⟩ messages with
    | error e' =>
      rw [hrun] at h
      exact .inl (by simpa using h)
    -- Every message passed, and calls are pending at the end.
    | ok state =>
      refine .inr ⟨state.pending, _, openExchange_of_ok hrun, ?_⟩
      rw [hrun] at h
      cases hpending : state.pending with
      | nil => simp [hpending] at h
      | cons id pending => exact ⟨by simp, by simpa [hpending, eq_comm] using h⟩
  · rintro (h | ⟨pending, answered, hopen, hne, rfl⟩)
    · rw [validateToolExchange, h]
    · obtain ⟨p, hrun, hperm⟩ := hopen.run
      have hp : p ≠ [] := fun hnil ↦ hne (List.perm_nil.mp (hnil ▸ hperm.symm))
      rw [validateToolExchange, hrun]
      simp [hp]

/-! ## Requests -/

/-- A request over a checked catalogue accepts exactly the lists of legal messages that are
sequences of segments and not empty. Its error otherwise is that of the first message that may not
follow: a result for an answered call, a result for no call of the exchange, another message while
calls are pending, or an illegal message; or that calls are pending at the end. -/
theorem ModelRequest.withValidatedTools_grammar (messages : List ModelMessage)
    (tools : List ToolSpec) (limits : ModelLimits) (reasoning : ReasoningPreference) :
    ((∃ request, withValidatedTools messages tools limits reasoning = .ok request) ↔
      messages ≠ [] ∧ (∀ message ∈ messages, message.validate = .ok ()) ∧
        ∃ segments : List Segment, messages = segments.flatMap Segment.messages) ∧
    (∀ message : ModelMessage, message.validate = .ok () ↔ LegalMessage message) ∧
    ∀ e, withValidatedTools messages tools limits reasoning = .error e ↔
      (messages = [] ∧ e = .emptyMessages) ∨
      (∃ earlier message later pending answered, messages = earlier ++ message :: later ∧
        OpenExchange earlier pending answered ∧ Offends pending answered message e) ∨
      ∃ pending answered, OpenExchange messages pending answered ∧ pending ≠ [] ∧
        e = .incompleteToolExchange := by
  refine ⟨?_, fun _ ↦ ModelMessage.validate_eq_ok, fun e ↦ ?_⟩
  · simp only [withValidatedTools_eq_ok, validateToolExchange_grammar,
      ← ModelMessage.validate_eq_ok]
    constructor
    · rintro ⟨request, hne, hlegal, -⟩
      exact ⟨hne, hlegal⟩
    · rintro ⟨hne, hlegal⟩
      exact ⟨_, hne, hlegal, rfl⟩
  · rw [← validateToolExchange_eq_error]
    unfold withValidatedTools
    cases messages with
    | nil =>
      -- The empty list has no open exchange and no first message.
      have hempty : validateToolExchange [] = .ok () := rfl
      simp only [List.isEmpty_nil, if_true, Except.error.injEq, true_and, hempty, reduceCtorEq,
        or_false]
      exact eq_comm
    | cons message messages =>
      cases h : validateToolExchange (message :: messages) with
      | error e' => simp
      | ok u => simp

end MinicoreRuntime
