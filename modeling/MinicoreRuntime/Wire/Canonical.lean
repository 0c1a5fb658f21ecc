import MinicoreRuntime.Wire.History

/-!
# What can be read

Whatever JSON a message, a request, a response or a history is read from, what is read is well
formed; and it is read back from what is written of it. So that reading and writing again brings a
value to one representation, and the values that can be read are exactly the well-formed ones.

Reading an item of a history checks its parts one by one. It checks neither the order of the tool
calls of a response, nor that an input is not empty.

## Main definitions

* `AssistantPart.Readable`, `HistoryItem.Readable`: the parts and the items that can be read.

## Main results

* `formats_canonical`: messages, requests, responses, items and histories, usage and identifiers.
-/

namespace MinicoreRuntime

/-! ## Parts -/

/-- The index of a call that is read is within 32 bits. -/
theorem ToolCall.canonical :
    Canonical serialize deserialize fun call ↦ call.callIndex < 2 ^ 32 where
  legal value call h := by
    simp only [deserialize, Option.bind_eq_bind, Option.bind_eq_some_iff] at h
    obtain ⟨fields, -, id, -, name, -, arguments, -, index, hindex, h⟩ := h
    obtain ⟨value', hvalue⟩ := StructFields.required_eq_some hindex
    have hnew := eq_ok_of_toOption h
    unfold newWithMaxBytes at hnew
    split at hnew
    · obtain rfl := Except.ok.inj hnew
      exact lt_of_deserializeUint hvalue
    · exact absurd hnew (by simp)
  readBack call h := deserialize_serialize h

/-- A part that can be read: it passes its check, and the index of a call is within 32 bits. -/
structure AssistantPart.Readable (part : AssistantPart) : Prop where
  valid : part.validate = .ok ()
  index : ∀ call, part = .toolCall call → call.callIndex < 2 ^ 32

theorem AssistantPart.canonical : Canonical serialize deserialize Readable where
  legal value part h := by
    obtain ⟨read, hread, h⟩ := Option.bind_eq_some_iff.mp h
    split at h
    · rename_i hvalid
      obtain rfl := Option.some.inj h
      refine ⟨hvalid, ?_⟩
      rintro call rfl
      obtain ⟨variant, hmem, value', hvalue⟩ := variant_of_deserializeTagged hread
      -- Only one of the variants is a call.
      simp only [variants, List.mem_cons, List.not_mem_nil, or_false] at hmem
      rcases hmem with rfl | rfl | rfl
      · simp at hvalue
      · simp at hvalue
      · simp only [Option.map_eq_some_iff] at hvalue
        obtain ⟨call', hcall, heq⟩ := hvalue
        obtain rfl := AssistantPart.toolCall.inj heq
        exact ToolCall.canonical.legal value' _ hcall
    · exact absurd h (by simp)
  readBack part h := deserialize_serialize h.valid h.index

/-! ## Messages, requests and responses -/

/-- A message that is read passes its check. -/
theorem ModelMessage.canonical :
    Canonical serialize deserialize fun message ↦ message.validate = .ok () where
  legal value message h := by
    obtain ⟨read, -, h⟩ := Option.bind_eq_some_iff.mp h
    split at h
    · rename_i hvalid
      obtain rfl := Option.some.inj h
      exact hvalid
    · exact absurd h (by simp)
  readBack message h := deserialize_serialize h

/-- A response that is read is made by its constructor. -/
theorem ModelResponse.canonical : Canonical serialize deserialize Built where
  legal value response h := by
    simp only [deserialize, Option.bind_eq_bind, Option.bind_eq_some_iff] at h
    obtain ⟨fields, -, parts, -, finishReason, -, usage, -, replay, -, h⟩ := h
    exact .new (eq_ok_of_toOption h)
  readBack response h := deserialize_serialize h

/-- So is a request that is read. -/
theorem ModelRequest.canonical : Canonical serialize deserialize Built where
  legal value request h := by
    simp only [deserialize, Option.bind_eq_bind, Option.bind_eq_some_iff] at h
    obtain ⟨fields, -, messages, -, tools, -, limits, -, reasoning, -, h⟩ := h
    exact .new (eq_ok_of_toOption h)
  readBack request h := deserialize_serialize h

/-! ## Histories -/

/-- An item that can be read: indices are within 32 bits, and the parts of a response can be read.
-/
def HistoryItem.Readable : HistoryItem → Prop
  | .assistant item => item.requestIndex < 2 ^ 32 ∧ ∀ part ∈ item.content, part.Readable
  | .toolResult item => item.requestIndex < 2 ^ 32
  | .user _ | .summary _ => True

theorem AssistantHistory.canonical :
    Canonical serialize deserialize fun item ↦ (HistoryItem.assistant item).Readable where
  legal value item h := by
    simp only [deserialize, Option.bind_eq_bind, Option.bind_eq_some_iff] at h
    obtain ⟨fields, -, loopId, -, index, hindex, model, -, reasoning, -, content, hcontent,
      replay, -,
      finishReason, -, usage, -, h⟩ := h
    obtain rfl := Option.some.inj h
    obtain ⟨value₁, hvalue₁⟩ := StructFields.required_eq_some hindex
    obtain ⟨value₂, hvalue₂⟩ := StructFields.required_eq_some hcontent
    exact ⟨lt_of_deserializeUint hvalue₁, AssistantPart.canonical.vec.legal _ _ hvalue₂⟩
  readBack item h := deserialize_of_content h.1 (AssistantPart.canonical.vec.readBack _ h.2)

theorem ToolResultHistory.canonical :
    Canonical serialize deserialize fun item ↦ item.requestIndex < 2 ^ 32 where
  legal value item h := by
    simp only [deserialize, Option.bind_eq_bind, Option.bind_eq_some_iff] at h
    obtain ⟨fields, -, loopId, -, index, hindex, callId, -, name, -, outcome, -, output, -, h⟩ := h
    obtain rfl := Option.some.inj h
    obtain ⟨value', hvalue⟩ := StructFields.required_eq_some hindex
    exact lt_of_deserializeUint hvalue
  readBack item h := deserialize_serialize h

/-- The responses of a history are the only items whose parts are checked one by one. -/
theorem HistoryItem.canonical : Canonical serialize deserialize Readable where
  legal value item h := by
    obtain ⟨variant, hmem, value', hvalue⟩ := variant_of_deserializeTagged h
    simp only [variants, List.mem_cons, List.not_mem_nil, or_false] at hmem
    rcases hmem with rfl | rfl | rfl | rfl
    all_goals
      simp only [Option.map_eq_some_iff] at hvalue
      obtain ⟨read, hread, rfl⟩ := hvalue
    · trivial
    · exact AssistantHistory.canonical.legal value' _ hread
    · exact ToolResultHistory.canonical.legal value' _ hread
    · trivial
  readBack item h := by
    have hnames : (variants.map Prod.fst).Nodup := by
      change ["user", "assistant", "tool_result", "summary"].Nodup
      decide
    cases item with
    | assistant item =>
      refine (deserializeTagged_serializeTagged (by decide) hnames (.tail _ (.head _)) _).trans ?_
      rw [AssistantHistory.canonical.readBack item h, Option.map_some]
    | user item => exact deserialize_serialize trivial
    | toolResult item => exact deserialize_serialize h
    | summary item => exact deserialize_serialize trivial

/-- From whatever JSON they are read, messages pass their check, requests and responses are ones
that their constructors return, the items of a history are readable, and identifiers pass the check
that their texts are parsed with. All of these values are read back from what is written of them,
and so is every usage, so that they are exactly the values that can be read. -/
theorem formats_canonical :
    Canonical ModelMessage.serialize ModelMessage.deserialize
      (fun message ↦ message.validate = .ok ()) ∧
    Canonical ModelRequest.serialize ModelRequest.deserialize ModelRequest.Built ∧
    Canonical ModelResponse.serialize ModelResponse.deserialize ModelResponse.Built ∧
    Canonical HistoryItem.serialize HistoryItem.deserialize HistoryItem.Readable ∧
    Canonical (serializeVec HistoryItem.serialize) (deserializeVec HistoryItem.deserialize)
      (fun items ↦ ∀ item ∈ items, item.Readable) ∧
    Canonical Usage.serialize Usage.deserialize (fun _ ↦ True) ∧
    Canonical LoopId.serialize LoopId.deserialize
      (fun id ↦ decodeRuntimeId "lup_".toList (encodeRuntimeId "lup_".toList id) = .ok id) ∧
    Canonical InteractionId.serialize InteractionId.deserialize
      (fun id ↦ decodeRuntimeId "int_".toList (encodeRuntimeId "int_".toList id) = .ok id) ∧
    Canonical ToolCallId.serialize ToolCallId.deserialize
      (fun id ↦ ToolCallId.new id.asStr = .ok id) ∧
    Canonical ToolName.serialize ToolName.deserialize
      (fun name ↦ ToolName.fromStr name.asStr = .ok name) ∧
    Canonical ModelRef.serialize ModelRef.deserialize
      (fun model ↦ ModelRef.fromStr model.asStr = .ok model) :=
  ⟨ModelMessage.canonical, ModelRequest.canonical, ModelResponse.canonical, HistoryItem.canonical,
    HistoryItem.canonical.vec, Usage.canonical, canonical_runtimeId _, canonical_runtimeId _,
    ToolCallId.canonical, ToolName.canonical, ModelRef.canonical⟩

/-- The name of a variant may come with null. An input that is empty is read. -/
example : HistoryItem.deserialize (.object [("data".toList, .object [("input".toList,
      .object [("text".toList, .string [])]), ("kind".toList, .string "prompt".toList),
      ("loop_id".toList, .string "lup_0000000000000000000000000000001f".toList)]),
      ("type".toList, .object [("user".toList, .null)])]) =
    some (.user ⟨.ofByte 0x1f (by decide), .prompt, .text ⟨[], by decide⟩⟩) := by
  rfl

end MinicoreRuntime
