import MinicoreRuntime.Model.Response

/-!
# Stream assembly

The assembler that turns the events of one model stream into a response. It checks each event as
it arrives, forwards normalised deltas as progress, and checks the whole at the end of the stream.
Tool call arguments are parsed by the JSON parser of the environment.

## Main definitions

* `Assembler`, `Assembler.push`, `Assembler.finish`: the state and its transitions.
* `assemble`: the response to a whole stream.

## Main results

* `normalizedDelta_asStr`, `normalizedDelta_snd`: a delta is normalised as a piece of the whole.
* `toolMut_eq_ok`: what changing one tool call of the state does.
-/

namespace MinicoreRuntime

/-- The JSON parser of the environment. -/
class SerdeJson where
  /-- The value a text stands for, or `none` where it is not JSON. -/
  fromStr : Text → Option Json

/-! ## Errors made by the driver -/

/-- The diagnostic of an error the driver makes itself. -/
def generatedDiagnostic (kind : ModelErrorKind) : DiagnosticSummary :=
  match kind with
  | .cancelled =>
    .boundedStatic .runtimeTerminated .model "model request cancelled" false (by decide)
  | .timeout => .boundedStatic .modelTimeout .model "model request timed out" false (by decide)
  | .panicked => .boundedStatic .internal .model "model driver panicked" false (by decide)
  | .invalidRequest =>
    .boundedStatic .invalidConfiguration .model "invalid model request" false (by decide)
  | .invalidProviderResponse | .unexpectedToolCall | .incompleteResponse =>
    .boundedStatic .modelMalformedResponse .model "invalid model provider response" false
      (by decide)
  | .providerUnavailable | .unavailable =>
    .boundedStatic .modelUnavailable .model "model provider unavailable" false (by decide)
  | _ => .boundedStatic .internal .model "model operation failed" false (by decide)

/-- An error the driver makes itself. -/
def generatedError (kind : ModelErrorKind) (delivery : DeliveryState) : ModelError :=
  match delivery with
  | .notStarted => .permanent kind .notStarted (generatedDiagnostic kind)
  | .started => .started kind (generatedDiagnostic kind)
  | .unknown => .unknown kind (generatedDiagnostic kind)

/-- The delivery state of a request whose stream was opened. -/
def observedDelivery (observedEvent : Bool) : DeliveryState :=
  if observedEvent then .started else .unknown

/-- An error the assembler makes. -/
def assemblerError (kind : ModelErrorKind) : ModelError :=
  match kind with
  | .unexpectedToolCall =>
    .started kind (.boundedStatic .modelMalformedResponse .model
      "unexpected tool call in model response" false (by decide))
  | _ =>
    .started kind (.boundedStatic .modelMalformedResponse .model
      "invalid model provider response" false (by decide))

/-! ## The state -/

/-- A part of the response, in the order of first appearance. -/
inductive PartSlot where
  | text
  | reasoning
  | tool (index : Nat)
deriving DecidableEq, Repr

/-- A tool call being assembled. -/
structure ToolAssembly where
  toolCallId : ToolCallId
  name : ToolName
  argumentsText : Text
  call : Option ToolCall
  callIndex : Nat

/-- The state of the assembler. -/
structure Assembler where
  requestTools : List ToolSpec
  limits : LoopLimits
  slots : List PartSlot
  text : Text
  reasoning : Text
  textEndedWithCr : Bool
  reasoningEndedWithCr : Bool
  tools : List ToolAssembly
  usage : Option Usage
  providerReplay : Option ProviderReplay
  finishReason : Option ModelFinishReason
  observedEvent : Bool

/-- A delta offered to whoever watches the request. -/
inductive ModelDriverProgress where
  | textDelta (delta : BoundedText)
  | reasoningDelta (delta : BoundedText)
deriving DecidableEq

/-- Remove a leading LF. -/
def stripLf : Text → Text
  | '\n' :: rest => rest
  | raw => raw

theorem byteLen_stripLf_le (raw : Text) : byteLen (stripLf raw) ≤ byteLen raw := by
  unfold stripLf
  split
  · simp
  · exact le_rfl

/-- The text of a delta without the LF that completes a CR of the delta before it. -/
def strippedDelta (delta : BoundedText) (endedWithCr : Bool) : Text :=
  if endedWithCr then stripLf delta.asStr else delta.asStr

theorem byteLen_normalize_strippedDelta (delta : BoundedText) (endedWithCr : Bool) :
    byteLen (normalizeModelText (strippedDelta delta endedWithCr)) ≤ maxTextBytes := by
  have hdelta := delta.bounded
  have hstrip : byteLen (strippedDelta delta endedWithCr) ≤ byteLen delta.asStr := by
    unfold strippedDelta
    split
    · exact byteLen_stripLf_le _
    · exact le_rfl
  have hnorm := byteLen_normalizeFrom_le false (strippedDelta delta endedWithCr)
  rw [normalizeModelText_eq]
  omega

/-- Normalise a delta, and remember whether the raw delta ended with CR. -/
def normalizedDelta (delta : BoundedText) (endedWithCr : Bool) : BoundedText × Bool :=
  -- An empty delta leaves a CR pending.
  if delta.isEmpty then (delta, endedWithCr)
  else
    let raw := delta.asStr
    let text := strippedDelta delta endedWithCr
    let endedWithCr' := raw.getLast? == some '\r'
    -- A borrowed text of the raw length is the raw text itself.
    if validText text usizeMax true && byteLen text == byteLen raw then (delta, endedWithCr')
    else (.ofBounded (normalizeModelText text) (byteLen_normalize_strippedDelta delta endedWithCr),
      endedWithCr')

/-- Append a delta within a byte budget. -/
def appendBounded (target delta : Text) (maximum : Nat) : Except ModelError Text :=
  -- The checked addition of the code, and then the limit.
  if byteLen target + byteLen delta > usizeMax then .error (assemblerError .invalidProviderResponse)
  else if byteLen target + byteLen delta > maximum then
    .error (assemblerError .invalidProviderResponse)
  else .ok (target ++ delta)

/-- Change the tool call with the given identifier. -/
def toolMut (tools : List ToolAssembly) (toolCallId : ToolCallId)
    (f : ToolAssembly → Except ModelError ToolAssembly) : Except ModelError (List ToolAssembly) :=
  match tools with
  | [] => .error (assemblerError .invalidProviderResponse)
  | tool :: tools =>
    if tool.toolCallId = toolCallId then
      match f tool with
      | .ok tool => .ok (tool :: tools)
      | .error e => .error e
    else
      match toolMut tools toolCallId f with
      | .ok tools => .ok (tool :: tools)
      | .error e => .error e

/-- Append a normalised arguments delta to a tool call. -/
def appendArguments (delta : Text) (tool : ToolAssembly) : Except ModelError ToolAssembly :=
  if tool.call.isSome then .error (assemblerError .invalidProviderResponse)
  else match appendBounded tool.argumentsText delta maxJsonBytes with
    | .ok argumentsText => .ok { tool with argumentsText := argumentsText }
    | .error e => .error e

/-- Complete a tool call. -/
def completeCall [SerdeJson] (maximum : Nat) (tool : ToolAssembly) :
    Except ModelError ToolAssembly :=
  if tool.call.isSome || tool.argumentsText.isEmpty then
    .error (assemblerError .invalidProviderResponse)
  else match SerdeJson.fromStr tool.argumentsText with
    | none => .error (assemblerError .invalidProviderResponse)
    | some arguments =>
      match ToolCall.newWithMaxBytes tool.toolCallId tool.name arguments tool.callIndex maximum with
      | .ok call => .ok { tool with call := some call }
      | .error _ => .error (assemblerError .invalidProviderResponse)

namespace Assembler

/-- The assembler before the first event. -/
def new (requestTools : List ToolSpec) (limits : LoopLimits) : Assembler where
  requestTools := requestTools
  limits := limits
  slots := []
  text := []
  reasoning := []
  textEndedWithCr := false
  reasoningEndedWithCr := false
  tools := []
  usage := none
  providerReplay := none
  finishReason := none
  observedEvent := false

variable [SerdeJson]

/-- Take in one event; the answer is the progress to offer and the state after it. -/
def push (a : Assembler) (event : ModelEvent) :
    Except ModelError (Option ModelDriverProgress × Assembler) :=
  -- Nothing follows the finish reason, and every event passes its own check.
  if a.finishReason.isSome || !event.validate then
    .error (assemblerError .invalidProviderResponse)
  else match event with
    | .textDelta raw =>
      let (delta, ended) := normalizedDelta raw a.textEndedWithCr
      let a := { a with textEndedWithCr := ended }
      -- A delta that is empty after normalisation is offered to nobody.
      if delta.isEmpty then .ok (none, a)
      else
        let a := if a.text.isEmpty then { a with slots := a.slots ++ [.text] } else a
        match appendBounded a.text delta.asStr a.limits.maxModelTextBytes with
        | .ok text => .ok (some (.textDelta delta), { a with text := text })
        | .error e => .error e
    | .reasoningDelta raw =>
      let (delta, ended) := normalizedDelta raw a.reasoningEndedWithCr
      let a := { a with reasoningEndedWithCr := ended }
      if delta.isEmpty then .ok (none, a)
      else
        let a := if a.reasoning.isEmpty then { a with slots := a.slots ++ [.reasoning] } else a
        match appendBounded a.reasoning delta.asStr a.limits.maxModelReasoningBytes with
        | .ok reasoning => .ok (some (.reasoningDelta delta), { a with reasoning := reasoning })
        | .error e => .error e
    | .toolCallStart toolCallId toolName =>
      -- Only tools of this request may be called, and every call has an identifier of its own.
      if !ToolSet.offers a.requestTools toolName then .error (assemblerError .unexpectedToolCall)
      else if decide (a.tools.length ≥ a.limits.maxToolCallsPerResponse)
          || a.tools.any (fun tool ↦ tool.toolCallId == toolCallId) then
        .error (assemblerError .invalidProviderResponse)
      -- The index of a call has 32 bits.
      else if a.tools.length ≥ 2 ^ 32 then .error (assemblerError .invalidProviderResponse)
      else .ok (none, { a with
        tools := a.tools ++ [⟨toolCallId, toolName, [], none, a.tools.length⟩]
        slots := a.slots ++ [.tool a.tools.length] })
    | .toolCallArgumentsDelta toolCallId delta =>
      match toolMut a.tools toolCallId (appendArguments (normalizeModelText delta.asStr)) with
      | .ok tools => .ok (none, { a with tools := tools })
      | .error e => .error e
    | .toolCallEnd toolCallId =>
      match toolMut a.tools toolCallId (completeCall a.limits.maxToolArgumentsBytes) with
      | .ok tools => .ok (none, { a with tools := tools })
      | .error e => .error e
    | .usage usage =>
      if a.usage.isSome then .error (assemblerError .invalidProviderResponse)
      else .ok (none, { a with usage := some usage })
    | .providerReplay replay =>
      if a.providerReplay.isSome then .error (assemblerError .invalidProviderResponse)
      else .ok (none, { a with providerReplay := some replay })
    | .finish reason =>
      -- No call may be left incomplete.
      if a.tools.any (fun tool ↦ tool.call.isNone) then
        .error (assemblerError .invalidProviderResponse)
      else .ok (none, { a with finishReason := some reason })

/-- The parts the slots stand for. Text and reasoning are moved out of the state by the first slot
that asks for them. The answer is `none` where the code would panic: a slot names no completed
tool call. -/
def buildParts : List PartSlot → Text → Text → List ToolAssembly →
    Option (Except ModelError (List AssistantPart))
  | [], _, _, _ => some (.ok [])
  | .text :: slots, text, reasoning, tools =>
    (buildParts slots [] reasoning tools).map fun
      | .ok parts => .ok (.text text :: parts)
      | .error e => .error e
  | .reasoning :: slots, text, reasoning, tools =>
    match ReasoningContent.new (some reasoning) none none none with
    | .error _ => some (.error (assemblerError .invalidProviderResponse))
    | .ok content =>
      (buildParts slots text [] tools).map fun
        | .ok parts => .ok (.reasoning content :: parts)
        | .error e => .error e
  | .tool index :: slots, text, reasoning, tools =>
    match tools[index]? with
    | none => none
    | some tool =>
      match tool.call with
      | none => none
      | some call =>
        -- The call is moved out of the state.
        (buildParts slots text reasoning (tools.set index { tool with call := none })).map fun
          | .ok parts => .ok (.toolCall call :: parts)
          | .error e => .error e

/-- The response at the end of the stream, or `none` where the code would panic. -/
def finish (a : Assembler) : Option (Except ModelError ModelResponse) :=
  match a.finishReason with
  | none => some (.error (generatedError .incompleteResponse (observedDelivery a.observedEvent)))
  | some reason =>
    let hasTools := !a.tools.isEmpty
    -- The finish reason agrees with what was assembled.
    if (hasTools && !(reason == .toolCalls || reason == .unknown))
        || (!hasTools && reason == .toolCalls) then
      some (.error (assemblerError .invalidProviderResponse))
    -- A refusal says something.
    else if (reason == .contentFiltered || reason == .refused) && a.text.isEmpty then
      some (.error (assemblerError .invalidProviderResponse))
    else match buildParts a.slots a.text a.reasoning a.tools with
      | none => none
      | some (.error e) => some (.error e)
      | some (.ok parts) =>
        match ModelResponse.newWithProviderReplay parts reason (some (a.usage.getD Usage.default))
          a.providerReplay with
        | .ok response => some (.ok response)
        | .error _ => some (.error (assemblerError .invalidProviderResponse))

/-- Take in a list of events. -/
def pushAll : Assembler → List ModelEvent → Except ModelError Assembler
  | a, [] => .ok a
  | a, event :: events =>
    match push { a with observedEvent := true } event with
    | .ok (_, a) => a.pushAll events
    | .error e => .error e

end Assembler

/-- The response assembled from a whole stream. -/
def assemble [SerdeJson] (requestTools : List ToolSpec) (limits : LoopLimits)
    (events : List ModelEvent) : Option (Except ModelError ModelResponse) :=
  match (Assembler.new requestTools limits).pushAll events with
  | .ok a => a.finish
  | .error e => some (.error e)

/-! ## What the helpers do -/

theorem normalizeFrom_stripLf (raw : Text) :
    normalizeFrom true raw = normalizeFrom false (stripLf raw) := by
  unfold stripLf
  split
  · simp [normalizeFrom]
  · rename_i hraw
    cases raw with
    | nil => rfl
    | cons c raw =>
      have hc : (c == '\n') = false := by
        rw [beq_eq_false_iff_ne]
        rintro rfl
        exact hraw raw rfl
      simp [normalizeFrom, hc]

theorem endsWithCr_eq_getLast {raw : Text} (h : raw ≠ []) (cr : Bool) :
    endsWithCr cr raw = (raw.getLast? == some '\r') := by
  induction raw generalizing cr with
  | nil => exact absurd rfl h
  | cons c raw ih =>
    cases raw with
    | nil => simp
    | cons d raw =>
      rw [endsWithCr_cons, ih (by simp), List.getLast?_cons_cons]

/-- The delta is normalised as a piece of the whole text. -/
theorem normalizedDelta_asStr (delta : BoundedText) (cr : Bool) :
    (normalizedDelta delta cr).1.asStr = normalizeFrom cr delta.asStr := by
  have hstripped : normalizeFrom false (strippedDelta delta cr) = normalizeFrom cr delta.asStr := by
    unfold strippedDelta
    cases cr with
    | true => rw [if_pos rfl, normalizeFrom_stripLf]
    | false => rfl
  unfold normalizedDelta
  split
  · rename_i hempty
    have : delta.asStr = [] := by simpa [BoundedText.isEmpty] using hempty
    simp [this, normalizeFrom]
  · dsimp only
    split
    · -- Nothing was stripped: a text without its LF would be shorter.
      rename_i hsame
      rw [Bool.and_eq_true, beq_iff_eq] at hsame
      have hlegal := (validText_iff.mp hsame.1).2.2
      have hraw : strippedDelta delta cr = delta.asStr := by
        unfold strippedDelta at hsame ⊢
        cases cr with
        | false => rfl
        | true =>
          simp only [if_true] at hsame ⊢
          cases hd : delta.asStr with
          | nil => rfl
          | cons c rest =>
            by_cases hc : c = '\n'
            · subst hc
              rw [hd, stripLf, byteLen_cons] at hsame
              have : Char.utf8Size '\n' = 1 := by decide
              omega
            · rw [stripLf]
              rintro rest' h
              exact hc (List.cons.inj h).1
      rw [← hstripped, hraw, normalizeFrom_of_legal]
      rwa [← hraw]
    · rw [← hstripped, ← normalizeModelText_eq]
      rfl

/-- The flag says whether the raw text so far ends with CR. -/
theorem normalizedDelta_snd (delta : BoundedText) (cr : Bool) :
    (normalizedDelta delta cr).2 = endsWithCr cr delta.asStr := by
  unfold normalizedDelta
  split
  · rename_i hempty
    have : delta.asStr = [] := by simpa [BoundedText.isEmpty] using hempty
    simp [this]
  · rename_i hempty
    have hne : delta.asStr ≠ [] := by simpa [BoundedText.isEmpty] using hempty
    rw [endsWithCr_eq_getLast hne]
    dsimp only
    split <;> rfl

/-- A budget admits a delta if and only if the whole fits. -/
theorem appendBounded_eq_ok {target delta text : Text} {maximum : Nat} (h : maximum ≤ usizeMax) :
    appendBounded target delta maximum = .ok text ↔
      byteLen (target ++ delta) ≤ maximum ∧ text = target ++ delta := by
  rw [appendBounded, byteLen_append]
  by_cases hle : byteLen target + byteLen delta ≤ maximum
  · rw [if_neg (by omega), if_neg (by omega)]
    simp [hle, eq_comm]
  · simp only [hle, false_and, iff_false]
    split
    · simp
    · rw [if_pos (by omega)]
      simp

/-- Changing the tool call with an identifier changes one call of the list and keeps the others. -/
theorem toolMut_eq_ok {tools tools' : List ToolAssembly} {id : ToolCallId}
    {f : ToolAssembly → Except ModelError ToolAssembly} :
    toolMut tools id f = .ok tools' ↔
      ∃ before tool tool' after, tools = before ++ tool :: after ∧
        (∀ t ∈ before, t.toolCallId ≠ id) ∧ tool.toolCallId = id ∧ f tool = .ok tool' ∧
        tools' = before ++ tool' :: after := by
  induction tools generalizing tools' with
  | nil => simp [toolMut]
  | cons t tools ih =>
    rw [toolMut]
    -- The first call with the identifier is changed; the ones before it stay.
    by_cases ht : t.toolCallId = id
    · rw [if_pos ht]
      constructor
      · intro h
        split at h
        · rename_i t' hf
          cases h
          exact ⟨[], t, t', tools, rfl, by simp, ht, hf, rfl⟩
        · cases h
      · rintro ⟨before, tool, tool', after, hsplit, hbefore, hid, hf, rfl⟩
        cases before with
        | nil =>
          obtain ⟨rfl, rfl⟩ := List.cons.inj hsplit
          simp [hf]
        | cons b before =>
          obtain ⟨rfl, -⟩ := List.cons.inj hsplit
          exact absurd ht (hbefore _ (by simp))
    · rw [if_neg ht]
      constructor
      · intro h
        split at h
        · rename_i tools'' hmut
          cases h
          obtain ⟨before, tool, tool', after, rfl, hbefore, hid, hf, rfl⟩ := ih.mp hmut
          refine ⟨t :: before, tool, tool', after, rfl, ?_, hid, hf, rfl⟩
          intro b hb
          rcases List.mem_cons.mp hb with rfl | hb
          · exact ht
          · exact hbefore b hb
        · cases h
      · rintro ⟨before, tool, tool', after, hsplit, hbefore, hid, hf, rfl⟩
        cases before with
        | nil =>
          obtain ⟨rfl, -⟩ := List.cons.inj hsplit
          exact absurd hid ht
        | cons b before =>
          obtain ⟨rfl, rfl⟩ := List.cons.inj hsplit
          rw [ih.mpr ⟨before, tool, tool', after, rfl,
            fun b hb ↦ hbefore b (by simp [hb]), hid, hf, rfl⟩]
          rfl

/-- Appending a delta succeeds for a tool call that is not ended and has room. -/
theorem appendArguments_eq_ok {tool tool' : ToolAssembly} {delta : Text} :
    appendArguments delta tool = .ok tool' ↔
      tool.call.isSome = false ∧ byteLen (tool.argumentsText ++ delta) ≤ maxJsonBytes ∧
        tool' = { tool with argumentsText := tool.argumentsText ++ delta } := by
  unfold appendArguments
  by_cases hcall : tool.call.isSome = true
  · simp [hcall]
  · have hmax : maxJsonBytes ≤ usizeMax := by decide
    rw [if_neg hcall]
    rw [Bool.not_eq_true] at hcall
    cases happend : appendBounded tool.argumentsText delta maxJsonBytes with
    | ok text =>
      obtain ⟨hfits, rfl⟩ := (appendBounded_eq_ok hmax).mp happend
      simp only [Except.ok.injEq, hcall, hfits, true_and]
      exact eq_comm
    | error err =>
      simp only [reduceCtorEq, false_iff, hcall, true_and, not_and]
      intro hfits
      have hok := (appendBounded_eq_ok hmax).mpr
        ⟨hfits, (rfl : _ = tool.argumentsText ++ delta)⟩
      rw [happend] at hok
      cases hok

/-- Completing a tool call succeeds where its arguments are a JSON object within the bounds. -/
theorem completeCall_eq_ok [SerdeJson] {tool tool' : ToolAssembly} {maximum : Nat} :
    completeCall maximum tool = .ok tool' ↔
      tool.call.isSome = false ∧ tool.argumentsText ≠ [] ∧
        ∃ call, SerdeJson.fromStr tool.argumentsText = some call.arguments ∧
          ToolCall.validArguments call.arguments maximum = true ∧
          call.toolCallId = tool.toolCallId ∧ call.name = tool.name ∧
          call.callIndex = tool.callIndex ∧ tool' = { tool with call := some call } := by
  unfold completeCall
  -- Completed once, with some arguments, which are JSON within the limits.
  by_cases hguard : (tool.call.isSome || tool.argumentsText.isEmpty) = true
  · rw [if_pos hguard]
    simp only [reduceCtorEq, false_iff, not_and]
    intro hcall hne
    rw [hcall, Bool.false_or, List.isEmpty_iff] at hguard
    exact absurd hguard hne
  · rw [if_neg hguard]
    rw [Bool.not_eq_true, Bool.or_eq_false_iff, List.isEmpty_eq_false_iff] at hguard
    simp only [hguard.1, ne_eq, hguard.2, not_false_eq_true, true_and]
    cases hparse : SerdeJson.fromStr tool.argumentsText with
    | none => simp
    | some arguments =>
      simp only [ToolCall.newWithMaxBytes]
      by_cases hvalid : ToolCall.validArguments arguments maximum = true
      · rw [dif_pos hvalid]
        constructor
        · intro h
          cases h
          exact ⟨_, rfl, hvalid, rfl, rfl, rfl, rfl⟩
        · rintro ⟨⟨cid, cname, cargs, cindex, cvalid⟩, hargs, -, hid, hname, hindex, rfl⟩
          cases hargs
          simp only at hid hname hindex
          subst hid hname hindex
          rfl
      · rw [dif_neg hvalid]
        simp only [reduceCtorEq, false_iff, not_exists, not_and]
        intro call hcall hvalid'
        cases hcall
        exact absurd hvalid' hvalid

/-! ## What an event does -/

namespace Assembler

variable [SerdeJson]

/-- The tool calls after an event: one more where a call starts, one of them changed where its
arguments go on or it ends, and else the same. -/
inductive ToolsAfter (a : Assembler) : ModelEvent → List ToolAssembly → Prop
  | kept (event : ModelEvent) : ToolsAfter a event a.tools
  | started (toolCallId : ToolCallId) (toolName : ToolName)
      (hoffers : ToolSet.offers a.requestTools toolName = true) :
      ToolsAfter a (.toolCallStart toolCallId toolName)
        (a.tools ++ [⟨toolCallId, toolName, [], none, a.tools.length⟩])
  | extended (toolCallId : ToolCallId) (delta : BoundedText) (tools : List ToolAssembly)
      (hmut : toolMut a.tools toolCallId (appendArguments (normalizeModelText delta.asStr)) =
        .ok tools) : ToolsAfter a (.toolCallArgumentsDelta toolCallId delta) tools
  | ended (toolCallId : ToolCallId) (tools : List ToolAssembly)
      (hmut : toolMut a.tools toolCallId (completeCall a.limits.maxToolArgumentsBytes) =
        .ok tools) : ToolsAfter a (.toolCallEnd toolCallId) tools

/-- An event that is taken in leaves the request, the limits and the mark of observed events alone,
and changes the tool calls as its kind says. -/
theorem push_frame {a a' : Assembler} {event : ModelEvent} {progress : Option ModelDriverProgress}
    (h : a.push event = .ok (progress, a')) :
    a'.requestTools = a.requestTools ∧ a'.limits = a.limits ∧
      a'.observedEvent = a.observedEvent ∧ ToolsAfter a event a'.tools := by
  unfold push at h
  split at h
  · cases h
  cases event with
  | textDelta raw | reasoningDelta raw =>
    dsimp only at h
    split at h
    · cases h
      exact ⟨rfl, rfl, rfl, .kept _⟩
    · split at h
      · cases h
        -- The first delta of its kind opens a slot.
        dsimp only
        split <;> exact ⟨rfl, rfl, rfl, .kept _⟩
      · cases h
  | toolCallStart toolCallId toolName =>
    dsimp only at h
    split at h
    · cases h
    · rename_i hoffers
      split at h
      · cases h
      · split at h
        · cases h
        · cases h
          exact ⟨rfl, rfl, rfl, .started toolCallId toolName (by simpa using hoffers)⟩
  | toolCallArgumentsDelta toolCallId delta =>
    dsimp only at h
    split at h
    · rename_i tools hmut
      cases h
      exact ⟨rfl, rfl, rfl, .extended toolCallId delta tools hmut⟩
    · cases h
  | toolCallEnd toolCallId =>
    dsimp only at h
    split at h
    · rename_i tools hmut
      cases h
      exact ⟨rfl, rfl, rfl, .ended toolCallId tools hmut⟩
    · cases h
  | usage usage | providerReplay replay | finish reason =>
    dsimp only at h
    split at h
    · cases h
    · cases h
      exact ⟨rfl, rfl, rfl, .kept _⟩

end Assembler

end MinicoreRuntime
