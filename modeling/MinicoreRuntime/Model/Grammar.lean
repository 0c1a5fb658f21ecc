import MinicoreRuntime.Model.Assembler
import Mathlib.Data.List.Forall2
import Mathlib.Data.List.Nodup

/-!
# The grammar of a model stream

Which event streams the assembler accepts, stated over the whole stream and without a state, and
which response it returns for them.

The assembler checks event by event. `Admits` is the check of one event against the events before
it, and `Reflects` says that the state of the assembler is the one those events determine. A run
of the assembler is then a run of `Admits`.

## Main definitions

* `textOf`, `reasoningOf`, `startsOf`, `argumentsOf`, `slotsOf`: what a list of events amounts to.
* `WellFormed`: the grammar. `Yields`: the response a stream stands for.
* `Admits`, `Reflects`: the check of one event, and the meaning of a state.

## Main results

* `push_of_admits`, `admits_of_push`: one event is pushed if and only if it is admitted.
* `push_reflects`: the state after one event.
* `pushAll_eq_ok`: a run over a list of events.
-/

namespace MinicoreRuntime.Stream

variable {past events : List ModelEvent} {e : ModelEvent} {id : ToolCallId}

/-! ## What a list of events amounts to -/

/-- The raw text of the text deltas. -/
def rawText (events : List ModelEvent) : Text :=
  events.flatMap fun
    | .textDelta delta => delta.asStr
    | _ => []

/-- The raw text of the reasoning deltas. -/
def rawReasoning (events : List ModelEvent) : Text :=
  events.flatMap fun
    | .reasoningDelta delta => delta.asStr
    | _ => []

/-- The text of the response. -/
def textOf (events : List ModelEvent) : Text := normalizeModelText (rawText events)

/-- The reasoning of the response. -/
def reasoningOf (events : List ModelEvent) : Text := normalizeModelText (rawReasoning events)

/-- The tool calls started, in order. -/
def startsOf (events : List ModelEvent) : List (ToolCallId × ToolName) :=
  events.filterMap fun
    | .toolCallStart id name => some (id, name)
    | _ => none

/-- The identifiers of the tool calls started. -/
def startedIds (events : List ModelEvent) : List ToolCallId := (startsOf events).map Prod.fst

/-- The identifiers of the tool calls ended. -/
def endedIds (events : List ModelEvent) : List ToolCallId :=
  events.filterMap fun
    | .toolCallEnd id => some id
    | _ => none

/-- The arguments of a tool call: its deltas, each normalised by itself. -/
def argumentsOf (id : ToolCallId) (events : List ModelEvent) : Text :=
  events.flatMap fun
    | .toolCallArgumentsDelta id' delta => if id' = id then normalizeModelText delta.asStr else []
    | _ => []

/-- The usages reported. -/
def usagesOf (events : List ModelEvent) : List Usage :=
  events.filterMap fun
    | .usage usage => some usage
    | _ => none

/-- The replay metadata reported. -/
def replaysOf (events : List ModelEvent) : List ProviderReplay :=
  events.filterMap fun
    | .providerReplay replay => some replay
    | _ => none

/-- The finish reasons reported. -/
def finishesOf (events : List ModelEvent) : List ModelFinishReason :=
  events.filterMap fun
    | .finish reason => some reason
    | _ => none

/-- The tool call an arguments delta or an end refers to. -/
def callRef? : ModelEvent → Option ToolCallId
  | .toolCallArgumentsDelta id _ | .toolCallEnd id => some id
  | _ => none

/-- The parts that first appear with an event. -/
def opens (past : List ModelEvent) (e : ModelEvent) : List PartSlot :=
  match e with
  | .textDelta _ => if textOf past = [] ∧ textOf (past ++ [e]) ≠ [] then [.text] else []
  | .reasoningDelta _ =>
    if reasoningOf past = [] ∧ reasoningOf (past ++ [e]) ≠ [] then [.reasoning] else []
  | .toolCallStart _ _ => [.tool (startsOf past).length]
  | _ => []

/-- The parts that first appear in a list of events that follows `past`. -/
def slotsFrom (past : List ModelEvent) : List ModelEvent → List PartSlot
  | [] => []
  | e :: events => opens past e ++ slotsFrom (past ++ [e]) events

/-- The parts of the response, in the order of first appearance. -/
def slotsOf (events : List ModelEvent) : List PartSlot := slotsFrom [] events

section Append

variable (first second : List ModelEvent)

@[simp]
theorem rawText_append : rawText (first ++ second) = rawText first ++ rawText second := by
  simp [rawText]

@[simp]
theorem rawReasoning_append :
    rawReasoning (first ++ second) = rawReasoning first ++ rawReasoning second := by
  simp [rawReasoning]

@[simp]
theorem startsOf_append : startsOf (first ++ second) = startsOf first ++ startsOf second := by
  simp [startsOf]

@[simp]
theorem startedIds_append :
    startedIds (first ++ second) = startedIds first ++ startedIds second := by
  simp [startedIds]

@[simp]
theorem endedIds_append : endedIds (first ++ second) = endedIds first ++ endedIds second := by
  simp [endedIds]

@[simp]
theorem argumentsOf_append :
    argumentsOf id (first ++ second) = argumentsOf id first ++ argumentsOf id second := by
  simp [argumentsOf]

@[simp]
theorem usagesOf_append : usagesOf (first ++ second) = usagesOf first ++ usagesOf second := by
  simp [usagesOf]

@[simp]
theorem replaysOf_append : replaysOf (first ++ second) = replaysOf first ++ replaysOf second := by
  simp [replaysOf]

@[simp]
theorem finishesOf_append :
    finishesOf (first ++ second) = finishesOf first ++ finishesOf second := by
  simp [finishesOf]

end Append

theorem slotsFrom_append (past first second : List ModelEvent) :
    slotsFrom past (first ++ second) =
      slotsFrom past first ++ slotsFrom (past ++ first) second := by
  induction first generalizing past with
  | nil => simp [slotsFrom]
  | cons e first ih => simp [slotsFrom, ih]

theorem slotsOf_snoc (past : List ModelEvent) (e : ModelEvent) :
    slotsOf (past ++ [e]) = slotsOf past ++ opens past e := by
  rw [slotsOf, slotsFrom_append]
  simp [slotsOf, slotsFrom]

/-- The text of a longer stream extends the text of a shorter one. -/
theorem textOf_append (first second : List ModelEvent) :
    textOf (first ++ second) =
      textOf first ++ normalizeFrom (endsWithCr false (rawText first)) (rawText second) := by
  rw [textOf, textOf, normalizeModelText_eq, normalizeModelText_eq, rawText_append,
    normalizeFrom_append]

theorem reasoningOf_append (first second : List ModelEvent) :
    reasoningOf (first ++ second) = reasoningOf first ++
      normalizeFrom (endsWithCr false (rawReasoning first)) (rawReasoning second) := by
  rw [reasoningOf, reasoningOf, normalizeModelText_eq, normalizeModelText_eq, rawReasoning_append,
    normalizeFrom_append]

theorem argumentsOf_snoc_self (past : List ModelEvent) (id : ToolCallId) (delta : BoundedText) :
    argumentsOf id (past ++ [.toolCallArgumentsDelta id delta]) =
      argumentsOf id past ++ normalizeModelText delta.asStr := by
  rw [argumentsOf_append]
  simp [argumentsOf]

theorem singleton_of_callRef_ne (h : callRef? e ≠ some id) :
    argumentsOf id [e] = [] ∧ id ∉ endedIds [e] := by
  cases e with
  | toolCallArgumentsDelta id' delta =>
    have hne : id' ≠ id := fun heq ↦ h (by rw [heq]; rfl)
    simp [argumentsOf, endedIds, hne]
  | toolCallEnd id' =>
    have hne : id ≠ id' := fun heq ↦ h (by rw [heq]; rfl)
    simp [argumentsOf, endedIds, hne]
  | textDelta delta => simp [argumentsOf, endedIds]
  | reasoningDelta delta => simp [argumentsOf, endedIds]
  | toolCallStart id' name => simp [argumentsOf, endedIds]
  | usage usage => simp [argumentsOf, endedIds]
  | providerReplay replay => simp [argumentsOf, endedIds]
  | finish reason => simp [argumentsOf, endedIds]

theorem textOf_snoc_of_rawText (h : rawText [e] = []) :
    textOf (past ++ [e]) = textOf past := by
  rw [textOf_append, h, normalizeFrom, List.append_nil]

theorem reasoningOf_snoc_of_rawReasoning (h : rawReasoning [e] = []) :
    reasoningOf (past ++ [e]) = reasoningOf past := by
  rw [reasoningOf_append, h, normalizeFrom, List.append_nil]

theorem mem_endedIds_iff : id ∈ endedIds events ↔ ModelEvent.toolCallEnd id ∈ events := by
  rw [endedIds, List.mem_filterMap]
  constructor
  · rintro ⟨e, he, hmatch⟩
    cases e <;> simp at hmatch
    exact hmatch ▸ he
  · intro he
    exact ⟨_, he, rfl⟩

/-! ## The grammar -/

variable [SerdeJson]

/-- The event streams the assembler accepts. -/
structure WellFormed (tools : List ToolSpec) (limits : LoopLimits) (events : List ModelEvent) :
    Prop where
  /-- Exactly one finish occurs, and it is last. -/
  finish : ∃ body reason, events = body ++ [.finish reason] ∧ finishesOf body = []
  /-- Every delta is within the cap on raw bytes. -/
  deltas : ∀ e ∈ events, ∀ delta, e.delta? = some delta → delta.byteLen ≤ 65536
  /-- The normalised totals are within their budgets. -/
  text : byteLen (textOf events) ≤ limits.maxModelTextBytes
  reasoning : byteLen (reasoningOf events) ≤ limits.maxModelReasoningBytes
  /-- Every started call names a tool of the request. -/
  named : ∀ start ∈ startsOf events, ToolSet.offers tools start.2 = true
  /-- The identifiers of the calls are distinct, and there are not too many. -/
  distinct : (startedIds events).Nodup
  few : (startedIds events).length ≤ limits.maxToolCallsPerResponse
  /-- Every arguments delta and every end refers to a call that is started and not ended. -/
  current : ∀ past e rest, events = past ++ e :: rest → ∀ id, callRef? e = some id →
    id ∈ startedIds past ∧ id ∉ endedIds past
  /-- Each started call is ended exactly once. -/
  ended : ∀ id ∈ startedIds events, (endedIds events).count id = 1
  /-- The arguments of each call are a JSON object within the bounds. -/
  arguments : ∀ id ∈ startedIds events, argumentsOf id events ≠ [] ∧
    byteLen (argumentsOf id events) ≤ 65536 ∧
    ∃ value, SerdeJson.fromStr (argumentsOf id events) = some value ∧ value.isObject = true ∧
      validateJsonSize value limits.maxToolArgumentsBytes = .ok ()
  /-- Usage and replay metadata are reported at most once. -/
  usage : (usagesOf events).length ≤ 1
  replay : (replaysOf events).length ≤ 1
  /-- The finish reason fits the presence of calls, and a refusal comes with text. -/
  reason : ∀ reason ∈ finishesOf events,
    (startedIds events ≠ [] → reason = .toolCalls ∨ reason = .unknown) ∧
    (startedIds events = [] → reason ≠ .toolCalls) ∧
    (reason = .contentFiltered ∨ reason = .refused → textOf events ≠ [])
  /-- The response has a part or replay metadata. -/
  content : textOf events ≠ [] ∨ reasoningOf events ≠ [] ∨ startedIds events ≠ [] ∨
    replaysOf events ≠ []

/-- The part a slot stands for. -/
def IsPart (events : List ModelEvent) : PartSlot → AssistantPart → Prop
  | .text, part => part = .text (textOf events)
  | .reasoning, part => ∃ content, part = .reasoning content ∧ content.IsText (reasoningOf events)
  | .tool i, part => ∃ id name call, (startsOf events)[i]? = some (id, name) ∧
      part = .toolCall call ∧ call.toolCallId = id ∧ call.name = name ∧ call.callIndex = i ∧
      SerdeJson.fromStr (argumentsOf id events) = some call.arguments

/-- The response a stream stands for. -/
structure Yields (events : List ModelEvent) (response : ModelResponse) : Prop where
  parts : List.Forall₂ (IsPart events) (slotsOf events) response.parts
  finishReason : finishesOf events = [response.finishReason]
  usage : response.usage = some ((usagesOf events).head?.getD Usage.default)
  providerReplay : response.providerReplay = (replaysOf events).head?

/-! ## One event -/

/-- The check of one event against the events before it. -/
def Admits (tools : List ToolSpec) (limits : LoopLimits) (past : List ModelEvent)
    (e : ModelEvent) : Prop :=
  finishesOf past = [] ∧ e.validate = true ∧
    match e with
    | .textDelta _ => byteLen (textOf (past ++ [e])) ≤ limits.maxModelTextBytes
    | .reasoningDelta _ => byteLen (reasoningOf (past ++ [e])) ≤ limits.maxModelReasoningBytes
    | .toolCallStart id name => ToolSet.offers tools name = true ∧
        (startedIds past).length < limits.maxToolCallsPerResponse ∧ id ∉ startedIds past
    | .toolCallArgumentsDelta id _ => id ∈ startedIds past ∧ id ∉ endedIds past ∧
        byteLen (argumentsOf id (past ++ [e])) ≤ maxJsonBytes
    | .toolCallEnd id => id ∈ startedIds past ∧ id ∉ endedIds past ∧ argumentsOf id past ≠ [] ∧
        ∃ value, SerdeJson.fromStr (argumentsOf id past) = some value ∧
          ToolCall.validArguments value limits.maxToolArgumentsBytes = true
    | .usage _ => usagesOf past = []
    | .providerReplay _ => replaysOf past = []
    | .finish _ => ∀ id ∈ startedIds past, id ∈ endedIds past

/-- What the state knows of one tool call. -/
structure CallReflects (past : List ModelEvent) (tool : ToolAssembly) : Prop where
  argumentsText : tool.argumentsText = argumentsOf tool.toolCallId past
  ended : tool.call.isSome = true ↔ tool.toolCallId ∈ endedIds past
  call : ∀ call, tool.call = some call → call.toolCallId = tool.toolCallId ∧
    call.name = tool.name ∧ call.callIndex = tool.callIndex ∧
    SerdeJson.fromStr (argumentsOf tool.toolCallId past) = some call.arguments

/-- The state of the assembler is the one the events determine. -/
structure Reflects (tools : List ToolSpec) (limits : LoopLimits) (past : List ModelEvent)
    (a : Assembler) : Prop where
  sameTools : a.requestTools = tools
  sameLimits : a.limits = limits
  slots : a.slots = slotsOf past
  text : a.text = textOf past
  textCr : a.textEndedWithCr = endsWithCr false (rawText past)
  textFits : byteLen (textOf past) ≤ limits.maxModelTextBytes
  reasoning : a.reasoning = reasoningOf past
  reasoningCr : a.reasoningEndedWithCr = endsWithCr false (rawReasoning past)
  reasoningFits : byteLen (reasoningOf past) ≤ limits.maxModelReasoningBytes
  starts : a.tools.map (fun tool ↦ (tool.toolCallId, tool.name)) = startsOf past
  indices : a.tools.map ToolAssembly.callIndex = List.range a.tools.length
  distinct : (startedIds past).Nodup
  calls : ∀ tool ∈ a.tools, CallReflects past tool
  unstarted : ∀ id, id ∉ startedIds past → argumentsOf id past = [] ∧ id ∉ endedIds past
  usage : a.usage = (usagesOf past).head?
  providerReplay : a.providerReplay = (replaysOf past).head?
  finishReason : a.finishReason = (finishesOf past).head?

variable {tools : List ToolSpec} {limits : LoopLimits} {a a' : Assembler}
  {progress : Option ModelDriverProgress}

/-- The assembler starts in the state of the empty stream. -/
theorem reflects_new (tools : List ToolSpec) (limits : LoopLimits) :
    Reflects tools limits [] (Assembler.new tools limits) := by
  constructor <;> simp [Assembler.new, slotsOf, slotsFrom, textOf, reasoningOf, rawText,
    rawReasoning, normalizeModelText_eq, normalizeFrom, startsOf, startedIds, argumentsOf,
    endedIds, usagesOf, replaysOf, finishesOf]

namespace Reflects

theorem observed (h : Reflects tools limits past a) :
    Reflects tools limits past { a with observedEvent := true } :=
  { h with }

theorem tools_ids (h : Reflects tools limits past a) :
    a.tools.map ToolAssembly.toolCallId = startedIds past := by
  rw [startedIds, ← h.starts, List.map_map]
  rfl

theorem tools_length (h : Reflects tools limits past a) :
    a.tools.length = (startedIds past).length := by
  rw [← h.tools_ids, List.length_map]

theorem finishReason_isSome (h : Reflects tools limits past a) :
    a.finishReason.isSome = true ↔ finishesOf past ≠ [] := by
  rw [h.finishReason]
  cases finishesOf past <;> simp

end Reflects

/-- An event that is pushed successfully comes before the finish and is valid. -/
theorem guard_of_push (h : Reflects tools limits past a) (hp : a.push e = .ok (progress, a')) :
    finishesOf past = [] ∧ e.validate = true := by
  unfold Assembler.push at hp
  split at hp
  · cases hp
  · rename_i hguard
    rw [Bool.not_eq_true, Bool.or_eq_false_iff] at hguard
    refine ⟨?_, by simpa using hguard.2⟩
    by_contra hfin
    rw [h.finishReason_isSome.mpr hfin] at hguard
    exact Bool.noConfusion hguard.1

private theorem guard_false (h : Reflects tools limits past a) (hfin : finishesOf past = [])
    (hval : e.validate = true) : ¬ (a.finishReason.isSome || !e.validate) = true := by
  rw [h.finishReason, hfin, hval]
  exact Bool.false_ne_true

/-! ### Text and reasoning -/

/-- The progress of a delta: the delta, unless nothing is left of it. -/
def progressOf (make : BoundedText → ModelDriverProgress) (delta : BoundedText) :
    Option ModelDriverProgress :=
  if delta.isEmpty then none else some (make delta)

theorem textOf_snoc (h : Reflects tools limits past a) (raw : BoundedText) :
    textOf (past ++ [.textDelta raw]) =
      textOf past ++ (normalizedDelta raw a.textEndedWithCr).1.asStr := by
  rw [textOf_append, normalizedDelta_asStr, h.textCr]
  simp [rawText]

theorem reasoningOf_snoc (h : Reflects tools limits past a) (raw : BoundedText) :
    reasoningOf (past ++ [.reasoningDelta raw]) =
      reasoningOf past ++ (normalizedDelta raw a.reasoningEndedWithCr).1.asStr := by
  rw [reasoningOf_append, normalizedDelta_asStr, h.reasoningCr]
  simp [rawReasoning]

/-- The effect of a text delta that is within the budget. -/
theorem push_textDelta (h : Reflects tools limits past a) (raw : BoundedText)
    (hmax : limits.maxModelTextBytes ≤ usizeMax)
    (hadm : Admits tools limits past (.textDelta raw)) :
    a.push (.textDelta raw) = .ok
      (progressOf .textDelta (normalizedDelta raw a.textEndedWithCr).1,
        { a with
          textEndedWithCr := (normalizedDelta raw a.textEndedWithCr).2
          slots := a.slots ++ opens past (.textDelta raw)
          text := textOf (past ++ [.textDelta raw]) }) := by
  obtain ⟨hfin, hval, hfits⟩ := hadm
  have hsnoc := textOf_snoc h raw
  unfold Assembler.push
  rw [if_neg (guard_false h hfin hval)]
  dsimp only
  -- A delta that is empty after normalisation opens no part and is not offered.
  by_cases hempty : (normalizedDelta raw a.textEndedWithCr).1.isEmpty = true
  · rw [BoundedText.isEmpty_iff.mp hempty, List.append_nil] at hsnoc
    rw [if_pos hempty, progressOf, if_pos hempty]
    simp [opens, hsnoc, ← h.text]
  · have hne := mt BoundedText.isEmpty_iff.mpr hempty
    have happend : appendBounded (textOf past) (normalizedDelta raw a.textEndedWithCr).1.asStr
        limits.maxModelTextBytes = .ok (textOf (past ++ [.textDelta raw])) := by
      rw [appendBounded_eq_ok hmax, ← hsnoc]
      exact ⟨hfits, rfl⟩
    rw [if_neg hempty, progressOf, if_neg hempty]
    -- The first delta of the channel opens its part.
    by_cases hfirst : textOf past = []
    · simp [h.text, h.sameLimits, opens, hfirst, hsnoc, hne] at happend ⊢
      rw [happend]
    · simp [h.text, h.sameLimits, opens, hfirst, happend]

/-- The effect of a reasoning delta that is within the budget. -/
theorem push_reasoningDelta (h : Reflects tools limits past a) (raw : BoundedText)
    (hmax : limits.maxModelReasoningBytes ≤ usizeMax)
    (hadm : Admits tools limits past (.reasoningDelta raw)) :
    a.push (.reasoningDelta raw) = .ok
      (progressOf .reasoningDelta (normalizedDelta raw a.reasoningEndedWithCr).1,
        { a with
          reasoningEndedWithCr := (normalizedDelta raw a.reasoningEndedWithCr).2
          slots := a.slots ++ opens past (.reasoningDelta raw)
          reasoning := reasoningOf (past ++ [.reasoningDelta raw]) }) := by
  obtain ⟨hfin, hval, hfits⟩ := hadm
  have hsnoc := reasoningOf_snoc h raw
  unfold Assembler.push
  rw [if_neg (guard_false h hfin hval)]
  dsimp only
  by_cases hempty : (normalizedDelta raw a.reasoningEndedWithCr).1.isEmpty = true
  · rw [BoundedText.isEmpty_iff.mp hempty, List.append_nil] at hsnoc
    rw [if_pos hempty, progressOf, if_pos hempty]
    simp [opens, hsnoc, ← h.reasoning]
  · have hne := mt BoundedText.isEmpty_iff.mpr hempty
    have happend : appendBounded (reasoningOf past)
        (normalizedDelta raw a.reasoningEndedWithCr).1.asStr
        limits.maxModelReasoningBytes = .ok (reasoningOf (past ++ [.reasoningDelta raw])) := by
      rw [appendBounded_eq_ok hmax, ← hsnoc]
      exact ⟨hfits, rfl⟩
    rw [if_neg hempty, progressOf, if_neg hempty]
    -- The first delta of the channel opens its part.
    by_cases hfirst : reasoningOf past = []
    · simp [h.reasoning, h.sameLimits, opens, hfirst, hsnoc, hne] at happend ⊢
      rw [happend]
    · simp [h.reasoning, h.sameLimits, opens, hfirst, happend]

private theorem textFits_of_push (h : Reflects tools limits past a) {raw : BoundedText}
    (hmax : limits.maxModelTextBytes ≤ usizeMax)
    (hp : a.push (.textDelta raw) = .ok (progress, a')) :
    byteLen (textOf (past ++ [.textDelta raw])) ≤ limits.maxModelTextBytes := by
  obtain ⟨hfin, hval⟩ := guard_of_push h hp
  have hsnoc := textOf_snoc h raw
  unfold Assembler.push at hp
  rw [if_neg (guard_false h hfin hval)] at hp
  dsimp only at hp
  by_cases hempty : (normalizedDelta raw a.textEndedWithCr).1.isEmpty = true
  · rw [hsnoc, BoundedText.isEmpty_iff.mp hempty, List.append_nil]
    exact h.textFits
  · rw [if_neg hempty] at hp
    split at hp
    · rename_i text happend
      -- Opening the part changes neither the text nor the limits.
      have hstate : ∀ b : Assembler, b.text = a.text → b.limits = a.limits →
          appendBounded b.text (normalizedDelta raw a.textEndedWithCr).1.asStr
            b.limits.maxModelTextBytes = .ok text →
          byteLen (textOf (past ++ [.textDelta raw])) ≤ limits.maxModelTextBytes := by
        intro b htext hlimits hb
        rw [htext, hlimits, h.text, h.sameLimits, appendBounded_eq_ok hmax, ← hsnoc] at hb
        exact hb.1
      refine hstate _ ?_ ?_ happend
      · split <;> rfl
      · split <;> rfl
    · cases hp

private theorem reasoningFits_of_push (h : Reflects tools limits past a) {raw : BoundedText}
    (hmax : limits.maxModelReasoningBytes ≤ usizeMax)
    (hp : a.push (.reasoningDelta raw) = .ok (progress, a')) :
    byteLen (reasoningOf (past ++ [.reasoningDelta raw])) ≤ limits.maxModelReasoningBytes := by
  obtain ⟨hfin, hval⟩ := guard_of_push h hp
  have hsnoc := reasoningOf_snoc h raw
  unfold Assembler.push at hp
  rw [if_neg (guard_false h hfin hval)] at hp
  dsimp only at hp
  by_cases hempty : (normalizedDelta raw a.reasoningEndedWithCr).1.isEmpty = true
  · rw [hsnoc, BoundedText.isEmpty_iff.mp hempty, List.append_nil]
    exact h.reasoningFits
  · rw [if_neg hempty] at hp
    split at hp
    · rename_i reasoning happend
      -- Opening the part changes neither the reasoning nor the limits.
      have hstate : ∀ b : Assembler, b.reasoning = a.reasoning → b.limits = a.limits →
          appendBounded b.reasoning (normalizedDelta raw a.reasoningEndedWithCr).1.asStr
            b.limits.maxModelReasoningBytes = .ok reasoning →
          byteLen (reasoningOf (past ++ [.reasoningDelta raw])) ≤
            limits.maxModelReasoningBytes := by
        intro b hreasoning hlimits hb
        rw [hreasoning, hlimits, h.reasoning, h.sameLimits, appendBounded_eq_ok hmax, ← hsnoc] at hb
        exact hb.1
      refine hstate _ ?_ ?_ happend
      · split <;> rfl
      · split <;> rfl
    · cases hp

/-! ### Tool calls -/

/-- The other tool calls of the state have other identifiers. -/
theorem ne_of_split (h : Reflects tools limits past a) {before after : List ToolAssembly}
    {tool : ToolAssembly} (hsplit : a.tools = before ++ tool :: after) :
    ∀ t ∈ before ++ after, t.toolCallId ≠ tool.toolCallId := by
  have hnodup := h.distinct
  rw [← h.tools_ids, hsplit, List.map_append, List.map_cons, List.nodup_middle,
    List.nodup_cons, ← List.map_append] at hnodup
  intro t ht heq
  exact hnodup.1 (List.mem_map.mpr ⟨t, ht, heq⟩)

/-- A started tool call has a state of its own. -/
theorem exists_split (h : Reflects tools limits past a) (hstart : id ∈ startedIds past) :
    ∃ before tool after, a.tools = before ++ tool :: after ∧ tool.toolCallId = id := by
  rw [← h.tools_ids, List.mem_map] at hstart
  obtain ⟨tool, hmem, hid⟩ := hstart
  obtain ⟨before, after, hsplit⟩ := List.append_of_mem hmem
  exact ⟨before, tool, after, hsplit, hid⟩

/-- A state of a tool call belongs to a started tool call. -/
theorem started_of_split (h : Reflects tools limits past a) {before after : List ToolAssembly}
    {tool : ToolAssembly} (hsplit : a.tools = before ++ tool :: after) :
    tool.toolCallId ∈ startedIds past := by
  rw [← h.tools_ids, hsplit]
  simp

/-- Changing a started tool call. -/
theorem toolMut_of_split (h : Reflects tools limits past a) {before after : List ToolAssembly}
    {tool tool' : ToolAssembly} (hsplit : a.tools = before ++ tool :: after)
    {f : ToolAssembly → Except ModelError ToolAssembly} (hf : f tool = .ok tool') :
    toolMut a.tools tool.toolCallId f = .ok (before ++ tool' :: after) := by
  rw [toolMut_eq_ok]
  refine ⟨before, tool, tool', after, hsplit, fun t ht ↦ ?_, rfl, hf, rfl⟩
  exact ne_of_split h hsplit t (by simp [ht])

/-! ### From one state to the next -/

/-- An event admitted after `past` refers to a call that is started and not ended. -/
theorem current_of_admits (hadm : Admits tools limits past e) (href : callRef? e = some id) :
    id ∈ startedIds past ∧ id ∉ endedIds past := by
  obtain ⟨-, -, hadm⟩ := hadm
  cases e with
  | toolCallArgumentsDelta id' delta =>
    cases href
    exact ⟨hadm.1, hadm.2.1⟩
  | toolCallEnd id' =>
    cases href
    exact ⟨hadm.1, hadm.2.1⟩
  | textDelta delta => cases href
  | reasoningDelta delta => cases href
  | toolCallStart id' name => cases href
  | usage usage => cases href
  | providerReplay replay => cases href
  | finish reason => cases href

/-- An event about another call leaves what is known of a call as it is. -/
theorem CallReflects.snoc {tool : ToolAssembly} (h : CallReflects past tool)
    (hne : callRef? e ≠ some tool.toolCallId) : CallReflects (past ++ [e]) tool := by
  obtain ⟨hargs, hended⟩ := singleton_of_callRef_ne hne
  constructor
  · rw [argumentsOf_append, hargs, List.append_nil]
    exact h.argumentsText
  · rw [endedIds_append, List.mem_append, or_iff_left hended]
    exact h.ended
  · rw [argumentsOf_append, hargs, List.append_nil]
    exact h.call

private theorem fits_snoc (h : Reflects tools limits past a) (hadm : Admits tools limits past e) :
    byteLen (textOf (past ++ [e])) ≤ limits.maxModelTextBytes ∧
      byteLen (reasoningOf (past ++ [e])) ≤ limits.maxModelReasoningBytes := by
  obtain ⟨-, -, hadm⟩ := hadm
  cases e with
  | textDelta delta =>
    rw [reasoningOf_snoc_of_rawReasoning (by rfl)]
    exact ⟨hadm, h.reasoningFits⟩
  | reasoningDelta delta =>
    rw [textOf_snoc_of_rawText (by rfl)]
    exact ⟨h.textFits, hadm⟩
  | toolCallStart _ _ | toolCallArgumentsDelta _ _ | toolCallEnd _ | usage _ | providerReplay _
  | finish _ =>
    rw [textOf_snoc_of_rawText (by rfl), reasoningOf_snoc_of_rawReasoning (by rfl)]
    exact ⟨h.textFits, h.reasoningFits⟩

private theorem distinct_snoc (h : Reflects tools limits past a)
    (hadm : Admits tools limits past e) : (startedIds (past ++ [e])).Nodup := by
  rw [startedIds_append]
  cases e with
  | toolCallStart id name =>
    obtain ⟨-, -, -, -, hfresh⟩ := hadm
    rw [List.nodup_append]
    refine ⟨h.distinct, by simp [startedIds, startsOf], ?_⟩
    rintro x hx y hy rfl
    have : x = id := by simpa [startedIds, startsOf] using hy
    exact hfresh (this ▸ hx)
  | textDelta _ | reasoningDelta _ | toolCallArgumentsDelta _ _ | toolCallEnd _ | usage _
  | providerReplay _ | finish _ =>
    change (startedIds past ++ []).Nodup
    rw [List.append_nil]
    exact h.distinct

/-- A state reflects one more event if each of its fields took the event in. -/
theorem Reflects.snoc (h : Reflects tools limits past a) (hadm : Admits tools limits past e)
    (hsame : a'.requestTools = a.requestTools ∧ a'.limits = a.limits)
    (hslots : a'.slots = a.slots ++ opens past e)
    (htext : a'.text = textOf (past ++ [e]))
    (htextCr : a'.textEndedWithCr = endsWithCr a.textEndedWithCr (rawText [e]))
    (hreasoning : a'.reasoning = reasoningOf (past ++ [e]))
    (hreasoningCr :
      a'.reasoningEndedWithCr = endsWithCr a.reasoningEndedWithCr (rawReasoning [e]))
    (hstarts : a'.tools.map (fun tool ↦ (tool.toolCallId, tool.name)) =
      startsOf past ++ startsOf [e])
    (hindices : a'.tools.map ToolAssembly.callIndex = List.range a'.tools.length)
    (hcalls : ∀ tool ∈ a'.tools, CallReflects (past ++ [e]) tool)
    (husage : a'.usage = (usagesOf past ++ usagesOf [e]).head?)
    (hreplay : a'.providerReplay = (replaysOf past ++ replaysOf [e]).head?)
    (hfinish : a'.finishReason = (finishesOf past ++ finishesOf [e]).head?) :
    Reflects tools limits (past ++ [e]) a' where
  sameTools := by rw [hsame.1, h.sameTools]
  sameLimits := by rw [hsame.2, h.sameLimits]
  slots := by rw [hslots, h.slots, slotsOf_snoc]
  text := htext
  textCr := by rw [htextCr, h.textCr, rawText_append, endsWithCr_append]
  textFits := (fits_snoc h hadm).1
  reasoning := hreasoning
  reasoningCr := by rw [hreasoningCr, h.reasoningCr, rawReasoning_append, endsWithCr_append]
  reasoningFits := (fits_snoc h hadm).2
  starts := by rw [hstarts, startsOf_append]
  indices := hindices
  distinct := distinct_snoc h hadm
  calls := hcalls
  unstarted := by
    intro id hid
    rw [startedIds_append, List.mem_append, not_or] at hid
    have hne : callRef? e ≠ some id := fun href ↦ hid.1 (current_of_admits hadm href).1
    obtain ⟨hargs, hended⟩ := singleton_of_callRef_ne hne
    obtain ⟨hargs', hended'⟩ := h.unstarted id hid.1
    rw [argumentsOf_append, endedIds_append, hargs, hargs', List.mem_append]
    exact ⟨rfl, not_or.mpr ⟨hended', hended⟩⟩
  usage := by rw [husage, usagesOf_append]
  providerReplay := by rw [hreplay, replaysOf_append]
  finishReason := by rw [hfinish, finishesOf_append]

/-- The same for an event without text and reasoning, which leaves both alone. -/
theorem Reflects.snoc_textless (h : Reflects tools limits past a)
    (hadm : Admits tools limits past e) (hraw : rawText [e] = [] ∧ rawReasoning [e] = [])
    (hsame : a'.requestTools = a.requestTools ∧ a'.limits = a.limits)
    (hslots : a'.slots = a.slots ++ opens past e)
    (htext : a'.text = a.text ∧ a'.textEndedWithCr = a.textEndedWithCr)
    (hreasoning : a'.reasoning = a.reasoning ∧ a'.reasoningEndedWithCr = a.reasoningEndedWithCr)
    (hstarts : a'.tools.map (fun tool ↦ (tool.toolCallId, tool.name)) =
      startsOf past ++ startsOf [e])
    (hindices : a'.tools.map ToolAssembly.callIndex = List.range a'.tools.length)
    (hcalls : ∀ tool ∈ a'.tools, CallReflects (past ++ [e]) tool)
    (husage : a'.usage = (usagesOf past ++ usagesOf [e]).head?)
    (hreplay : a'.providerReplay = (replaysOf past ++ replaysOf [e]).head?)
    (hfinish : a'.finishReason = (finishesOf past ++ finishesOf [e]).head?) :
    Reflects tools limits (past ++ [e]) a' := by
  refine h.snoc hadm hsame hslots ?_ ?_ ?_ ?_ hstarts hindices hcalls husage hreplay hfinish
  · rw [htext.1, textOf_snoc_of_rawText hraw.1, h.text]
  · rw [htext.2, hraw.1, endsWithCr_nil]
  · rw [hreasoning.1, reasoningOf_snoc_of_rawReasoning hraw.2, h.reasoning]
  · rw [hreasoning.2, hraw.2, endsWithCr_nil]

private theorem calls_snoc (h : Reflects tools limits past a) (hne : callRef? e = none) :
    ∀ tool ∈ a.tools, CallReflects (past ++ [e]) tool := by
  intro tool htool
  exact (h.calls tool htool).snoc (by simp [hne])

private theorem calls_replace (h : Reflects tools limits past a) {before after : List ToolAssembly}
    {tool tool' : ToolAssembly} (hsplit : a.tools = before ++ tool :: after)
    (href : callRef? e = some tool.toolCallId) (htool' : CallReflects (past ++ [e]) tool') :
    ∀ t ∈ before ++ tool' :: after, CallReflects (past ++ [e]) t := by
  have hother : ∀ t ∈ before ++ after, CallReflects (past ++ [e]) t := by
    intro t ht
    refine (h.calls t ?_).snoc ?_
    · rw [hsplit]
      rcases List.mem_append.mp ht with ht | ht <;> simp [ht]
    · rw [href]
      exact fun heq ↦ ne_of_split h hsplit t ht (Option.some.inj heq).symm
  intro t ht
  rcases List.mem_append.mp ht with ht | ht
  · exact hother t (by simp [ht])
  · rcases List.mem_cons.mp ht with rfl | ht
    · exact htool'
    · exact hother t (by simp [ht])

/-- The state of a tool call changes nothing that is known of the list of calls. -/
private theorem keys_replace (h : Reflects tools limits past a) {before after : List ToolAssembly}
    {tool : ToolAssembly} (hsplit : a.tools = before ++ tool :: after) (tool' : ToolAssembly)
    (hid : tool'.toolCallId = tool.toolCallId) (hname : tool'.name = tool.name)
    (hindex : tool'.callIndex = tool.callIndex) :
    (before ++ tool' :: after).map (fun tool ↦ (tool.toolCallId, tool.name)) = startsOf past ∧
      (before ++ tool' :: after).map ToolAssembly.callIndex =
        List.range (before ++ tool' :: after).length := by
  constructor
  · rw [← h.starts, hsplit]
    simp [hid, hname]
  · have hindices := h.indices
    rw [hsplit] at hindices
    simpa [hindex] using hindices

/-! ### Events that are admitted -/

section Pushed

variable (h : Reflects tools limits past a)
include h

private theorem pushed_textDelta (hlimits : limits.Caps) {delta : BoundedText}
    (hadm : Admits tools limits past (.textDelta delta)) :
    ∃ progress a', a.push (.textDelta delta) = .ok (progress, a') ∧
      Reflects tools limits (past ++ [.textDelta delta]) a' := by
  have hcap : maxTextBytes ≤ usizeMax := by decide
  have hmax := hlimits.text
  refine ⟨_, _, push_textDelta h delta (by omega) hadm, ?_⟩
  refine h.snoc hadm ⟨rfl, rfl⟩ rfl rfl ?_ ?_ rfl ?_ h.indices (fun t ht ↦ calls_snoc h rfl t ht)
    ?_ ?_ ?_
  · rw [normalizedDelta_snd]
    simp [rawText]
  · rw [reasoningOf_snoc_of_rawReasoning (by rfl), h.reasoning]
  all_goals simp [startsOf, usagesOf, replaysOf, finishesOf, h.starts, h.usage,
    h.providerReplay, h.finishReason]

private theorem pushed_reasoningDelta (hlimits : limits.Caps) {delta : BoundedText}
    (hadm : Admits tools limits past (.reasoningDelta delta)) :
    ∃ progress a', a.push (.reasoningDelta delta) = .ok (progress, a') ∧
      Reflects tools limits (past ++ [.reasoningDelta delta]) a' := by
  have hcap : maxTextBytes ≤ usizeMax := by decide
  have hmax := hlimits.reasoning
  refine ⟨_, _, push_reasoningDelta h delta (by omega) hadm, ?_⟩
  refine h.snoc hadm ⟨rfl, rfl⟩ rfl ?_ rfl rfl ?_ ?_ h.indices (fun t ht ↦ calls_snoc h rfl t ht)
    ?_ ?_ ?_
  · rw [textOf_snoc_of_rawText (by rfl), h.text]
  · rw [normalizedDelta_snd]
    simp [rawReasoning]
  all_goals simp [startsOf, usagesOf, replaysOf, finishesOf, h.starts, h.usage,
    h.providerReplay, h.finishReason]

/-- A call that starts is one more, with no arguments yet. -/
private theorem pushed_toolCallStart (hlimits : limits.Caps) {id : ToolCallId} {name : ToolName}
    (hadm : Admits tools limits past (.toolCallStart id name)) :
    ∃ progress a', a.push (.toolCallStart id name) = .ok (progress, a') ∧
      Reflects tools limits (past ++ [.toolCallStart id name]) a' := by
  have hadm' := hadm
  have hcallsMax := hlimits.calls
  have hcapCalls : 64 < 2 ^ 32 := by decide
  obtain ⟨hfin, hval, hoffers, hfew, hfresh⟩ := hadm'
  have hlen := h.tools_length
  have hany : a.tools.any (fun tool ↦ tool.toolCallId == id) = false := by
    rw [← h.tools_ids] at hfresh
    simpa using hfresh
  refine ⟨none, { a with
    tools := a.tools ++ [⟨id, name, [], none, a.tools.length⟩]
    slots := a.slots ++ [.tool a.tools.length] }, ?_, ?_⟩
  · unfold Assembler.push
    rw [if_neg (guard_false h hfin hval)]
    dsimp only
    rw [h.sameTools, h.sameLimits, hoffers, hany, if_neg (by simp), if_neg, if_neg]
    · omega
    · simp only [Bool.or_false, decide_eq_true_eq]
      omega
  · refine h.snoc_textless hadm ⟨rfl, rfl⟩ ⟨rfl, rfl⟩ ?_ ⟨rfl, rfl⟩ ⟨rfl, rfl⟩ ?_ ?_ ?_ ?_ ?_ ?_
    · rw [opens, ← h.starts, List.length_map]
    · simp [startsOf, h.starts]
    · simp [h.indices, List.range_succ]
    · intro tool htool
      rcases List.mem_append.mp htool with htool | htool
      · exact calls_snoc h rfl tool htool
      · -- The new call: no event before it was about its identifier.
        obtain rfl := List.mem_singleton.mp htool
        obtain ⟨hargs, hended⟩ := h.unstarted id hfresh
        have hargs' : argumentsOf id [.toolCallStart id name] = [] := rfl
        have hended' : endedIds [.toolCallStart id name] = [] := rfl
        constructor <;> simp [hargs, hargs', hended, hended']
    all_goals simp [usagesOf, replaysOf, finishesOf, h.usage, h.providerReplay, h.finishReason]

/-- Arguments are added to those of a call that has not ended. -/
private theorem pushed_argumentsDelta {id : ToolCallId} {delta : BoundedText}
    (hadm : Admits tools limits past (.toolCallArgumentsDelta id delta)) :
    ∃ progress a', a.push (.toolCallArgumentsDelta id delta) = .ok (progress, a') ∧
      Reflects tools limits (past ++ [.toolCallArgumentsDelta id delta]) a' := by
  have hadm' := hadm
  obtain ⟨hfin, hval, hstarted, hopen, hfits⟩ := hadm
  obtain ⟨before, tool, after, hsplit, rfl⟩ := exists_split h hstarted
  have htool := h.calls tool (by rw [hsplit]; simp)
  have hcall : tool.call.isSome = false := by
    rw [← Bool.not_eq_true, htool.ended]
    exact hopen
  rw [argumentsOf_snoc_self, ← htool.argumentsText] at hfits
  let tool' : ToolAssembly :=
    { tool with argumentsText := tool.argumentsText ++ normalizeModelText delta.asStr }
  -- The call is open, so that the delta is appended to its arguments.
  have hmut : toolMut a.tools tool.toolCallId (appendArguments (normalizeModelText delta.asStr)) =
      .ok (before ++ tool' :: after) :=
    toolMut_of_split h hsplit (appendArguments_eq_ok.mpr ⟨hcall, hfits, rfl⟩)
  refine ⟨none, { a with tools := before ++ tool' :: after }, ?_, ?_⟩
  · unfold Assembler.push
    rw [if_neg (guard_false h hfin hval)]
    dsimp only
    rw [hmut]
  · obtain ⟨hkeys, hindices⟩ := keys_replace h hsplit tool' rfl rfl rfl
    have hnone : tool.call = none := by simpa using hcall
    refine h.snoc_textless hadm' ⟨rfl, rfl⟩ ⟨rfl, rfl⟩ ?_ ⟨rfl, rfl⟩ ⟨rfl, rfl⟩ ?_ hindices
      (calls_replace h hsplit rfl ?_) ?_ ?_ ?_
    · simp [opens]
    · rw [hkeys]
      simp [startsOf]
    · have hended : endedIds [.toolCallArgumentsDelta tool.toolCallId delta] = [] := rfl
      constructor
      · simp only [tool']
        rw [argumentsOf_snoc_self, htool.argumentsText]
      · simp [tool', hended, hnone, hopen]
      · intro call hsome
        exact absurd (hnone.symm.trans hsome) (by simp)
    all_goals simp [usagesOf, replaysOf, finishesOf, h.usage, h.providerReplay, h.finishReason]

/-- A call that ends is complete, with the arguments that were collected. -/
private theorem pushed_toolCallEnd {id : ToolCallId}
    (hadm : Admits tools limits past (.toolCallEnd id)) :
    ∃ progress a', a.push (.toolCallEnd id) = .ok (progress, a') ∧
      Reflects tools limits (past ++ [.toolCallEnd id]) a' := by
  have hadm' := hadm
  obtain ⟨hfin, hval, hstarted, hopen, hne, value, hparse, hvalid⟩ := hadm
  obtain ⟨before, tool, after, hsplit, rfl⟩ := exists_split h hstarted
  have htool := h.calls tool (by rw [hsplit]; simp)
  have hcall : tool.call.isSome = false := by
    rw [← Bool.not_eq_true, htool.ended]
    exact hopen
  have hargs : argumentsOf tool.toolCallId (past ++ [.toolCallEnd tool.toolCallId]) =
      argumentsOf tool.toolCallId past := by
    rw [argumentsOf_append]
    simp [argumentsOf]
  rw [← htool.argumentsText] at hne hparse
  let tool' : ToolAssembly :=
    { tool with call := some ⟨tool.toolCallId, tool.name, value, tool.callIndex,
      ToolCall.validArguments_mono hvalid⟩ }
  -- The call is open and its arguments parse, so that it is completed.
  have hmut : toolMut a.tools tool.toolCallId (completeCall limits.maxToolArgumentsBytes) =
      .ok (before ++ tool' :: after) :=
    toolMut_of_split h hsplit
      (completeCall_eq_ok.mpr ⟨hcall, hne, _, hparse, hvalid, rfl, rfl, rfl, rfl⟩)
  refine ⟨none, { a with tools := before ++ tool' :: after }, ?_, ?_⟩
  · unfold Assembler.push
    rw [if_neg (guard_false h hfin hval)]
    dsimp only
    rw [h.sameLimits, hmut]
  · obtain ⟨hkeys, hindices⟩ := keys_replace h hsplit tool' rfl rfl rfl
    refine h.snoc_textless hadm' ⟨rfl, rfl⟩ ⟨rfl, rfl⟩ ?_ ⟨rfl, rfl⟩ ⟨rfl, rfl⟩ ?_ hindices
      (calls_replace h hsplit rfl ?_) ?_ ?_ ?_
    · simp [opens]
    · rw [hkeys]
      simp [startsOf]
    · constructor
      · simp only [tool']
        rw [hargs, htool.argumentsText]
      · simp [tool', endedIds]
      · intro call hsome
        cases hsome
        simp only [tool']
        rw [hargs, ← htool.argumentsText]
        exact ⟨trivial, trivial, trivial, hparse⟩
    all_goals simp [usagesOf, replaysOf, finishesOf, h.usage, h.providerReplay, h.finishReason]

private theorem pushed_usage {usage : Usage} (hadm : Admits tools limits past (.usage usage)) :
    ∃ progress a', a.push (.usage usage) = .ok (progress, a') ∧
      Reflects tools limits (past ++ [.usage usage]) a' := by
  have hadm' := hadm
  obtain ⟨hfin, hval, hnone⟩ := hadm
  have hfirst : usagesOf past = [] := hnone
  refine ⟨none, { a with usage := some usage }, ?_, ?_⟩
  · unfold Assembler.push
    rw [if_neg (guard_false h hfin hval)]
    simp only [h.usage, hfirst]
    rfl
  · refine h.snoc_textless hadm' ⟨rfl, rfl⟩ ⟨rfl, rfl⟩ ?_ ⟨rfl, rfl⟩ ⟨rfl, rfl⟩ ?_ h.indices
      (fun t ht ↦ calls_snoc h rfl t ht) ?_ ?_ ?_
    · simp [opens]
    all_goals simp [startsOf, replaysOf, finishesOf, h.starts, h.providerReplay, h.finishReason]
    rw [hfirst]
    rfl

private theorem pushed_providerReplay {replay : ProviderReplay}
    (hadm : Admits tools limits past (.providerReplay replay)) :
    ∃ progress a', a.push (.providerReplay replay) = .ok (progress, a') ∧
      Reflects tools limits (past ++ [.providerReplay replay]) a' := by
  have hadm' := hadm
  obtain ⟨hfin, hval, hnone⟩ := hadm
  have hfirst : replaysOf past = [] := hnone
  refine ⟨none, { a with providerReplay := some replay }, ?_, ?_⟩
  · unfold Assembler.push
    rw [if_neg (guard_false h hfin hval)]
    simp only [h.providerReplay, hfirst]
    rfl
  · refine h.snoc_textless hadm' ⟨rfl, rfl⟩ ⟨rfl, rfl⟩ ?_ ⟨rfl, rfl⟩ ⟨rfl, rfl⟩ ?_ h.indices
      (fun t ht ↦ calls_snoc h rfl t ht) ?_ ?_ ?_
    · simp [opens]
    all_goals simp [startsOf, usagesOf, finishesOf, h.starts, h.usage, h.finishReason]
    rw [hfirst]
    rfl

/-- The response ends where every call that started has ended. -/
private theorem pushed_finish {reason : ModelFinishReason}
    (hadm : Admits tools limits past (.finish reason)) :
    ∃ progress a', a.push (.finish reason) = .ok (progress, a') ∧
      Reflects tools limits (past ++ [.finish reason]) a' := by
  have hadm' := hadm
  obtain ⟨hfin, hval, hended⟩ := hadm
  -- Every call was ended.
  have hall : a.tools.any (fun tool ↦ tool.call.isNone) = false := by
    rw [List.any_eq_false]
    intro tool htool
    rw [Option.isNone_iff_eq_none, ← Option.not_isSome_iff_eq_none, not_not,
      (h.calls tool htool).ended]
    refine hended _ ?_
    rw [← h.tools_ids]
    exact List.mem_map_of_mem htool
  refine ⟨none, { a with finishReason := some reason }, ?_, ?_⟩
  · unfold Assembler.push
    rw [if_neg (guard_false h hfin hval)]
    dsimp only
    rw [hall, if_neg Bool.false_ne_true]
  · refine h.snoc_textless hadm' ⟨rfl, rfl⟩ ⟨rfl, rfl⟩ ?_ ⟨rfl, rfl⟩ ⟨rfl, rfl⟩ ?_ h.indices
      (fun t ht ↦ calls_snoc h rfl t ht) ?_ ?_ ?_
    · simp [opens]
    all_goals simp [startsOf, usagesOf, replaysOf, h.starts, h.usage, h.providerReplay]
    rw [hfin]
    rfl

end Pushed

/-- An admitted event is pushed, and the state after it reflects it. -/
theorem push_of_admits (hlimits : limits.Caps) (h : Reflects tools limits past a)
    (hadm : Admits tools limits past e) :
    ∃ progress a', a.push e = .ok (progress, a') ∧ Reflects tools limits (past ++ [e]) a' := by
  cases e with
  | textDelta delta => exact pushed_textDelta h hlimits hadm
  | reasoningDelta delta => exact pushed_reasoningDelta h hlimits hadm
  | toolCallStart id name => exact pushed_toolCallStart h hlimits hadm
  | toolCallArgumentsDelta id delta => exact pushed_argumentsDelta h hadm
  | toolCallEnd id => exact pushed_toolCallEnd h hadm
  | usage usage => exact pushed_usage h hadm
  | providerReplay replay => exact pushed_providerReplay h hadm
  | finish reason => exact pushed_finish h hadm

/-! ### Events that are pushed -/

/-- An event that is pushed successfully is admitted. -/
theorem admits_of_push (hlimits : limits.Caps) (h : Reflects tools limits past a)
    (hp : a.push e = .ok (progress, a')) : Admits tools limits past e := by
  obtain ⟨hfin, hval⟩ := guard_of_push h hp
  refine ⟨hfin, hval, ?_⟩
  have hcap : maxTextBytes ≤ usizeMax := by decide
  have htextMax := hlimits.text
  have hreasoningMax := hlimits.reasoning
  -- The event comes before the end and is valid, so that only the check of its kind is left.
  have hpush := hp
  unfold Assembler.push at hpush
  rw [if_neg (guard_false h hfin hval)] at hpush
  cases e with
  | textDelta delta => exact textFits_of_push h (by omega) hp
  | reasoningDelta delta => exact reasoningFits_of_push h (by omega) hp
  | toolCallStart id name =>
    dsimp only at hpush
    rw [h.sameTools, h.sameLimits] at hpush
    split at hpush
    · cases hpush
    · rename_i hoffers
      split at hpush
      · cases hpush
      · rename_i hfew
        rw [Bool.or_eq_true, not_or, decide_eq_true_eq, List.any_eq_true] at hfew
        refine ⟨by simpa using hoffers, ?_, ?_⟩
        · rw [← h.tools_length]
          omega
        · rw [← h.tools_ids, List.mem_map]
          rintro ⟨tool, htool, hid⟩
          exact hfew.2 ⟨tool, htool, by simpa using hid⟩
  | toolCallArgumentsDelta id delta =>
    dsimp only at hpush
    split at hpush
    · rename_i tools' hmut
      -- The call the event names is there and open, so that it has started and not ended.
      obtain ⟨before, tool, tool', after, hsplit, -, rfl, hf, -⟩ := toolMut_eq_ok.mp hmut
      obtain ⟨hcall, hfits, -⟩ := appendArguments_eq_ok.mp hf
      have htool := h.calls tool (by rw [hsplit]; simp)
      refine ⟨started_of_split h hsplit, ?_, ?_⟩
      · rw [← htool.ended, hcall]
        exact Bool.false_ne_true
      · rw [argumentsOf_snoc_self, ← htool.argumentsText]
        exact hfits
    · cases hpush
  | toolCallEnd id =>
    dsimp only at hpush
    rw [h.sameLimits] at hpush
    split at hpush
    · rename_i tools' hmut
      obtain ⟨before, tool, tool', after, hsplit, -, rfl, hf, -⟩ := toolMut_eq_ok.mp hmut
      obtain ⟨hcall, hne, call, hparse, hvalid, -⟩ := completeCall_eq_ok.mp hf
      have htool := h.calls tool (by rw [hsplit]; simp)
      rw [htool.argumentsText] at hne hparse
      refine ⟨started_of_split h hsplit, ?_, hne, call.arguments, hparse, hvalid⟩
      rw [← htool.ended, hcall]
      exact Bool.false_ne_true
    · cases hpush
  | usage usage =>
    dsimp only at hpush
    split at hpush
    · cases hpush
    · rename_i hnone
      rw [h.usage] at hnone
      cases hus : usagesOf past with
      | nil => rfl
      | cons u us => exact absurd (by rw [hus]; rfl) hnone
  | providerReplay replay =>
    dsimp only at hpush
    split at hpush
    · cases hpush
    · rename_i hnone
      rw [h.providerReplay] at hnone
      cases hre : replaysOf past with
      | nil => rfl
      | cons r rs => exact absurd (by rw [hre]; rfl) hnone
  | finish reason =>
    dsimp only at hpush
    split at hpush
    · cases hpush
    · rename_i hall
      intro id hid
      obtain ⟨before, tool, after, hsplit, rfl⟩ := exists_split h hid
      have hmem : tool ∈ a.tools := by rw [hsplit]; simp
      rw [← (h.calls tool hmem).ended]
      by_contra hcall
      refine hall (List.any_eq_true.mpr ⟨tool, hmem, ?_⟩)
      rw [Option.isNone_iff_eq_none, ← Option.not_isSome_iff_eq_none]
      exact hcall

/-- One event: the state after it reflects it. -/
theorem push_reflects (hlimits : limits.Caps) (h : Reflects tools limits past a)
    (hp : a.push e = .ok (progress, a')) : Reflects tools limits (past ++ [e]) a' := by
  obtain ⟨progress', a'', hp', h'⟩ := push_of_admits hlimits h (admits_of_push hlimits h hp)
  rw [hp] at hp'
  cases hp'
  exact h'

/-! ## A run -/

/-- Every event of the list is admitted by the events before it. -/
def Admitted (tools : List ToolSpec) (limits : LoopLimits) (events : List ModelEvent) : Prop :=
  ∀ past e rest, events = past ++ e :: rest → Admits tools limits past e

theorem Admitted.of_append {first second : List ModelEvent}
    (h : Admitted tools limits (first ++ second)) : Admitted tools limits first := by
  rintro past e rest rfl
  exact h past e (rest ++ second) (by simp)

theorem admitted_snoc :
    Admitted tools limits (past ++ [e]) ↔
      Admitted tools limits past ∧ Admits tools limits past e := by
  refine ⟨fun h ↦ ⟨h.of_append, h past e [] rfl⟩, ?_⟩
  rintro ⟨hpast, he⟩ past' e' rest hsplit
  rcases List.eq_nil_or_concat rest with rfl | ⟨rest, last, rfl⟩
  · obtain ⟨rfl, hlast⟩ := List.append_inj' hsplit rfl
    cases hlast
    exact he
  · rw [List.concat_eq_append, ← List.cons_append, ← List.append_assoc] at hsplit
    obtain ⟨rfl, -⟩ := List.append_inj' hsplit rfl
    exact hpast past' e' rest rfl

/-- A run over a list of events succeeds if and only if every event is admitted, and the state
after it reflects the list. -/
theorem pushAll_eq_ok (hlimits : limits.Caps) (h : Reflects tools limits past a)
    (events : List ModelEvent) (hpast : Admitted tools limits past) :
    (Admitted tools limits (past ++ events) →
      ∃ a', a.pushAll events = .ok a' ∧ Reflects tools limits (past ++ events) a') ∧
    ((∃ a', a.pushAll events = .ok a') → Admitted tools limits (past ++ events)) := by
  induction events generalizing past a with
  | nil =>
    rw [List.append_nil]
    exact ⟨fun _ ↦ ⟨a, rfl, h⟩, fun _ ↦ hpast⟩
  | cons e events ih =>
    have hsplit : past ++ e :: events = (past ++ [e]) ++ events := by simp
    rw [Assembler.pushAll, hsplit]
    -- Each event is admitted after the ones before it, in both directions.
    constructor
    · intro hall
      obtain ⟨-, he⟩ := admitted_snoc.mp hall.of_append
      obtain ⟨progress, a', hp, h'⟩ := push_of_admits hlimits h.observed he
      rw [hp]
      exact (ih h' hall.of_append).1 hall
    · rintro ⟨a'', hrun⟩
      cases hp : Assembler.push { a with observedEvent := true } e with
      | error err =>
        rw [hp] at hrun
        cases hrun
      | ok r =>
        rw [hp] at hrun
        have he := admits_of_push hlimits h.observed hp
        exact (ih (push_reflects hlimits h.observed hp) (admitted_snoc.mpr ⟨hpast, he⟩)).2
          ⟨a'', hrun⟩

end MinicoreRuntime.Stream
