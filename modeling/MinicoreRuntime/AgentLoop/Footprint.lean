import MinicoreRuntime.AgentLoop.State
import MinicoreRuntime.Model.Assembly

/-!
# Footprints

How much of its host's memory a history takes, as the host estimates it, and how much the items take
that a loop appends: responses that were assembled from a stream, and the results of tools.

## Main definitions

* `estimateHistoryBytes`: the estimate.
* `HistoryItem.within`: the items that keep the ceilings of a loop.
* `LoopLimits.responseBytes`, `resultBytes`: the largest footprints of appended items.

## Main results

* `fits_of_yields`: responses keep their ceilings.
* `toolResult_bytes`: so do the results of tools.
-/

namespace MinicoreRuntime

/-! ## The estimate -/

/-- Sum up sizes; the sum saturates. -/
def saturatingSum (sizes : List Nat) : Nat := sizes.foldl (saturatingAdd 64) 0

/-- The estimated size of a part. -/
def estimatePartBytes : AssistantPart → Nat
  | .text s => byteLen s
  | .reasoning content =>
    let artifact (text : Option Text) : Nat := (text.map byteLen).getD 0
    saturatingAdd 64 (saturatingAdd 64 (saturatingAdd 64 (artifact content.text)
      (artifact content.summary)) (artifact content.encrypted)) (artifact content.signature)
  | .toolCall call => byteLen call.name.asStr + jsonBytes call.arguments

/-- The estimated size of an item. -/
def estimateItemBytes : HistoryItem → Nat
  | .user user => byteLen user.input.asText
  | .assistant assistant =>
    saturatingAdd 64 (saturatingSum (assistant.content.map estimatePartBytes))
      ((assistant.providerReplay.map ProviderReplay.bytes).getD 0)
  | .toolResult result =>
    byteLen result.callId.asStr + byteLen result.toolName.asStr + result.output.content.byteLen
  | .summary summary => summary.content.byteLen

/-- The estimated size of a history. -/
def estimateHistoryBytes (items : List HistoryItem) : Nat :=
  saturatingSum (items.map estimateItemBytes)

theorem foldl_saturatingAdd_le (sizes : List Nat) (start : Nat) :
    sizes.foldl (saturatingAdd 64) start ≤ start + sizes.sum := by
  induction sizes generalizing start with
  | nil => exact Nat.le_refl _
  | cons size sizes ih =>
    calc
      (size :: sizes).foldl (saturatingAdd 64) start ≤ saturatingAdd 64 start size + sizes.sum :=
        ih _
      _ ≤ start + size + sizes.sum := Nat.add_le_add_right (Nat.min_le_left _ _) _
      _ = start + (size :: sizes).sum := by rw [List.sum_cons, Nat.add_assoc]

/-- A saturating sum is at most the sum. -/
theorem saturatingSum_le (sizes : List Nat) : saturatingSum sizes ≤ sizes.sum := by
  have h := foldl_saturatingAdd_le sizes 0
  rwa [Nat.zero_add] at h

/-- Sums compare if their terms do. -/
theorem sum_le_of_forall₂ {α β : Type} {f : α → Nat} {g : β → Nat} {xs : List α} {ys : List β}
    (h : List.Forall₂ (fun x y ↦ g y ≤ f x) xs ys) : (ys.map g).sum ≤ (xs.map f).sum := by
  induction h with
  | nil => exact Nat.le_refl _
  | cons hle _ ih =>
    rw [List.map_cons, List.map_cons, List.sum_cons, List.sum_cons]
    exact Nat.add_le_add hle ih

/-! ## Ceilings -/

/-- Whether a part keeps the ceilings of a loop. -/
def AssistantPart.within (limits : LoopLimits) : AssistantPart → Bool
  | .text s => decide (byteLen s ≤ limits.maxModelTextBytes)
  | .reasoning content => decide (estimatePartBytes (.reasoning content) ≤
      limits.maxModelReasoningBytes)
  | .toolCall call => (validateJsonSize call.arguments limits.maxToolArgumentsBytes).toBool

/-- Whether an item that a loop appends keeps the ceilings of the loop. Inputs are trusted. -/
def HistoryItem.within (limits : LoopLimits) : HistoryItem → Bool
  | .assistant item => item.content.all (AssistantPart.within limits) &&
      decide ((toolCalls item.content).length ≤ limits.maxToolCallsPerResponse)
  | .toolResult item => decide (item.output.content.byteLen ≤ limits.maxToolOutputBytes)
  | .user _ | .summary _ => true

/-- The largest footprint of a response. -/
def LoopLimits.responseBytes (limits : LoopLimits) : Nat :=
  limits.maxModelTextBytes + limits.maxModelReasoningBytes +
    limits.maxToolCallsPerResponse * (64 + limits.maxToolArgumentsBytes) + ProviderReplay.maxBytes

/-- The largest footprint of the result of a tool call. -/
def LoopLimits.resultBytes (limits : LoopLimits) : Nat := 256 + 64 + limits.maxToolOutputBytes

/-! ## JSON -/

theorem JsonCountingWriter.written_le (sink : JsonCountingWriter) (writes : List Text) :
    (sink.writeAll writes).2.written ≤ sink.written + byteLen writes.flatten := by
  induction writes generalizing sink with
  | nil => exact Nat.le_add_right _ _
  | cons bytes writes ih =>
    rw [writeAll, write, List.flatten_cons, byteLen_append]
    -- The write is counted whole, or refused and not counted.
    split
    · rename_i sink' heq
      split at heq
      · exact absurd heq (by simp)
      · obtain rfl := (Prod.mk.inj heq).2
        have hrest := ih { sink with written := sink.written + byteLen bytes }
        dsimp only at hrest
        omega
    · rename_i sink' heq
      split at heq
      · obtain rfl := (Prod.mk.inj heq).2
        exact Nat.le_add_right _ _
      · exact absurd heq (by simp)

theorem jsonBytes_le (value : Json) : jsonBytes value ≤ byteLen value.compact := by
  have h := JsonCountingWriter.written_le (.new usizeMax) value.writes
  rwa [show (JsonCountingWriter.new usizeMax).written = 0 from rfl, Nat.zero_add] at h

/-- Replay metadata keeps its cap. -/
theorem ProviderReplay.bytes_le (replay : ProviderReplay) :
    replay.bytes ≤ ProviderReplay.maxBytes := by
  obtain ⟨format, payload, bytes, hvalid⟩ := replay
  show bytes ≤ maxBytes
  unfold measure at hvalid
  split at hvalid
  · exact absurd hvalid (by simp)
  split at hvalid
  · exact absurd hvalid (by simp)
  split at hvalid
  · rename_i sink hwrites
    obtain rfl := Except.ok.inj hvalid
    -- The writer accepted every write, so that what it counted is within its limit.
    have hfits := (JsonCountingWriter.new maxBytes).writeAll_fst (envelope format payload)
      (Nat.zero_le _)
    have hwritten := JsonCountingWriter.written_le (.new maxBytes) (envelope format payload)
    rw [hwrites] at hfits hwritten
    exact le_trans hwritten (of_decide_eq_true hfits.symm)
  · exact absurd hvalid (by simp)

/-! ## Responses -/

namespace Stream

variable [SerdeJson] {events : List ModelEvent} {tools : List ToolSpec} {limits : LoopLimits}

/-- The largest footprint of what a slot stands for. -/
def slotBytes (events : List ModelEvent) (limits : LoopLimits) : PartSlot → Nat
  | .text => byteLen (textOf events)
  | .reasoning => byteLen (reasoningOf events)
  | .tool _ => 64 + limits.maxToolArgumentsBytes

omit [SerdeJson] in
/-- There is one slot for the text, one for the reasoning, and one for each call. -/
theorem sum_slotBytes_le (slots : List PartSlot) (hnodup : slots.Nodup) :
    (slots.map (slotBytes events limits)).sum ≤ byteLen (textOf events) +
      byteLen (reasoningOf events) +
        (slots.filterMap toolIndex?).length * (64 + limits.maxToolArgumentsBytes) := by
  -- Slot by slot: one for each text and each reasoning, and one for each call.
  have hsum : (slots.map (slotBytes events limits)).sum =
      slots.count .text * byteLen (textOf events) +
        slots.count .reasoning * byteLen (reasoningOf events) +
          (slots.filterMap toolIndex?).length * (64 + limits.maxToolArgumentsBytes) := by
    clear hnodup
    induction slots with
    | nil => simp
    | cons slot slots ih =>
      rw [List.map_cons, List.sum_cons, ih]
      cases slot with
      | tool i => simp [slotBytes, toolIndex?, Nat.add_mul]; omega
      | _ => simp [slotBytes, List.filterMap_cons, toolIndex?, Nat.add_mul]; omega
  have htext := Nat.mul_le_mul_right (byteLen (textOf events))
    (List.nodup_iff_count_le_one.mp hnodup .text)
  have hreasoning := Nat.mul_le_mul_right (byteLen (reasoningOf events))
    (List.nodup_iff_count_le_one.mp hnodup .reasoning)
  rw [hsum]
  omega

/-- The arguments of a call of a well-formed stream keep their budget. -/
theorem arguments_of_isPart (h : WellFormed tools limits events) {i : Nat} {part : AssistantPart}
    (hpart : IsPart events (.tool i) part) :
    ∃ call, part = .toolCall call ∧
      validateJsonSize call.arguments limits.maxToolArgumentsBytes = .ok () := by
  obtain ⟨id, name, call, hstart, rfl, -, -, -, hparse⟩ := hpart
  have hid : id ∈ startedIds events :=
    List.mem_map_of_mem (f := Prod.fst) (List.mem_of_getElem? hstart)
  obtain ⟨-, -, value, hvalue, -, hsize⟩ := h.arguments id hid
  obtain rfl := Option.some.inj (hparse.symm.trans hvalue)
  exact ⟨call, rfl, hsize⟩

omit [SerdeJson] in
/-- Reasoning with a text only has the footprint of the text. -/
theorem estimatePartBytes_of_isText {content : ReasoningContent} {text : Text}
    (h : content.IsText text) : estimatePartBytes (.reasoning content) ≤ byteLen text := by
  simp only [estimatePartBytes, h.text, h.summary, h.encrypted, h.signature, saturatingAdd,
    Option.map_some, Option.map_none, Option.getD_some, Option.getD_none, Nat.add_zero]
  omega

/-- What a slot of a well-formed stream stands for keeps the ceilings. -/
theorem part_of_isPart (h : WellFormed tools limits events) {slot : PartSlot}
    {part : AssistantPart} (hpart : IsPart events slot part) :
    part.within limits = true ∧ estimatePartBytes part ≤ slotBytes events limits slot := by
  cases slot with
  | text =>
    cases hpart
    exact ⟨decide_eq_true h.text, Nat.le_refl _⟩
  | reasoning =>
    obtain ⟨content, rfl, htext⟩ := hpart
    have hle := estimatePartBytes_of_isText htext
    exact ⟨decide_eq_true (hle.trans h.reasoning), hle⟩
  | tool i =>
    obtain ⟨call, rfl, hsize⟩ := arguments_of_isPart h hpart
    refine ⟨validateJsonSize_toBool_iff.mpr hsize, Nat.add_le_add call.name.length.2 ?_⟩
    exact (jsonBytes_le _).trans (validateJsonSize_eq_ok.mp hsize).2.2

/-- A response keeps the ceilings of its stream, and its footprint is at most the largest. -/
theorem fits_of_yields (h : WellFormed tools limits events) {response : ModelResponse}
    (hyields : Yields events response) {item : AssistantHistory}
    (hcontent : item.content = response.parts) :
    (HistoryItem.assistant item).within limits = true ∧
      estimateItemBytes (.assistant item) ≤ limits.responseBytes := by
  have hslots := slotsReflect events
  -- The calls of the response are those the events start.
  have hcalls : (toolCalls item.content).length = (startsOf events).length := by
    have hindices := congrArg List.length (toolCalls_of_parts hyields.parts).1
    rwa [List.length_map, hslots.tools, List.length_range, ← hcontent] at hindices
  have hfew : (startsOf events).length ≤ limits.maxToolCallsPerResponse := by
    rw [← List.length_map Prod.fst]
    exact h.few
  -- Each part weighs at most what its slot stands for.
  have hsum : (item.content.map estimatePartBytes).sum ≤
      ((slotsOf events).map (slotBytes events limits)).sum := by
    rw [hcontent]
    refine sum_le_of_forall₂ (hyields.parts.imp fun slot part hpart ↦ ?_)
    exact (part_of_isPart h hpart).2
  constructor
  · simp only [HistoryItem.within, Bool.and_eq_true, List.all_eq_true, decide_eq_true_eq]
    refine ⟨fun part hpart ↦ ?_, hcalls.le.trans hfew⟩
    rw [hcontent] at hpart
    obtain ⟨slot, hslot⟩ := exists_left_of_mem hyields.parts hpart
    exact (part_of_isPart h hslot).1
  · have hparts : saturatingSum (item.content.map estimatePartBytes) ≤
        limits.maxModelTextBytes + limits.maxModelReasoningBytes +
          limits.maxToolCallsPerResponse * (64 + limits.maxToolArgumentsBytes) := by
      refine ((saturatingSum_le _).trans hsum).trans ((sum_slotBytes_le _ hslots.nodup).trans ?_)
      rw [hslots.tools, List.length_range]
      exact Nat.add_le_add (Nat.add_le_add h.text h.reasoning) (Nat.mul_le_mul_right _ hfew)
    -- The replay counts with its own bytes, which were checked.
    have hreplay : (item.providerReplay.map ProviderReplay.bytes).getD 0 ≤
        ProviderReplay.maxBytes := by
      cases item.providerReplay with
      | none => exact Nat.zero_le _
      | some replay => exact replay.bytes_le
    exact (Nat.min_le_left _ _).trans (Nat.add_le_add hparts hreplay)

end Stream

/-! ## Results -/

/-- A result that keeps its ceiling has at most the largest footprint. -/
theorem toolResult_bytes {limits : LoopLimits} {result : ToolResultHistory}
    (h : (HistoryItem.toolResult result).within limits = true) :
    estimateItemBytes (.toolResult result) ≤ limits.resultBytes :=
  Nat.add_le_add (Nat.add_le_add result.callId.length.2 result.toolName.length.2)
    (of_decide_eq_true h)

end MinicoreRuntime
