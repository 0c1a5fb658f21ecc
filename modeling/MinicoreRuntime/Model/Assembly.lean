import MinicoreRuntime.Model.Grammar
import Mathlib.Data.List.Induction

/-!
# Assembly of a whole stream

The run of the assembler over a whole stream, joined with its checks at the end: the streams it
accepts are the well-formed ones, and the response it returns is the one the stream stands for.

## Main results

* `admitted_of_wellFormed`, `wellFormed_of_admitted`: the checks event by event against the grammar.
* `buildParts_eq`: the parts of the response follow the slots.
* `assemble_wellFormed`: acceptance and response.
-/

namespace MinicoreRuntime.Stream

variable {past events : List ModelEvent} {e : ModelEvent} {id : ToolCallId}

/-! ## Slots -/

/-- The index of a tool slot. -/
def toolIndex? : PartSlot → Option Nat
  | .tool i => some i
  | _ => none

/-- What the slots of a list of events are. -/
structure SlotsReflect (events : List ModelEvent) : Prop where
  nodup : (slotsOf events).Nodup
  text : .text ∈ slotsOf events ↔ textOf events ≠ []
  reasoning : .reasoning ∈ slotsOf events ↔ reasoningOf events ≠ []
  tools : (slotsOf events).filterMap toolIndex? = List.range (startsOf events).length

theorem mem_slotsOf_tool (h : SlotsReflect events) {i : Nat} :
    .tool i ∈ slotsOf events ↔ i < (startsOf events).length := by
  rw [← List.mem_range, ← h.tools, List.mem_filterMap]
  constructor
  · intro hmem
    exact ⟨.tool i, hmem, rfl⟩
  · rintro ⟨slot, hmem, hslot⟩
    cases slot <;> simp [toolIndex?] at hslot
    exact hslot ▸ hmem

private theorem nodup_snoc {slots : List PartSlot} {slot : PartSlot} (h : slots.Nodup)
    (hfresh : slot ∉ slots) : (slots ++ [slot]).Nodup := by
  rw [List.nodup_append]
  refine ⟨h, by simp, ?_⟩
  rintro x hx y hy rfl
  rw [List.mem_singleton] at hy
  exact hfresh (hy ▸ hx)

/-- An event that opens no slot. -/
private theorem SlotsReflect.keep (h : SlotsReflect past)
    (hopens : opens past e = []) (hstarts : startsOf [e] = [])
    (htext : textOf (past ++ [e]) ≠ [] ↔ textOf past ≠ [])
    (hreasoning : reasoningOf (past ++ [e]) ≠ [] ↔ reasoningOf past ≠ []) :
    SlotsReflect (past ++ [e]) := by
  have hsnoc : slotsOf (past ++ [e]) = slotsOf past := by
    rw [slotsOf_snoc, hopens, List.append_nil]
  constructor
  · rw [hsnoc]
    exact h.nodup
  · rw [hsnoc, htext, h.text]
  · rw [hsnoc, hreasoning, h.reasoning]
  · rw [hsnoc, h.tools, startsOf_append, hstarts, List.append_nil]

/-- A text that stays empty, or was not empty, opens no slot. -/
private theorem ne_nil_append_iff {first second : Text}
    (h : ¬ (first = [] ∧ first ++ second ≠ [])) : first ++ second ≠ [] ↔ first ≠ [] := by
  rw [not_and_or, not_not] at h
  rcases h with hne | hnil
  · exact ⟨fun _ ↦ hne, fun _ ↦ by simp [hne]⟩
  · rw [List.append_eq_nil_iff] at hnil
    simp [hnil.1, hnil.2]

theorem slotsReflect (events : List ModelEvent) : SlotsReflect events := by
  induction events using List.reverseRecOn with
  | nil =>
    constructor <;> simp [slotsOf, slotsFrom, textOf, reasoningOf, rawText, rawReasoning,
      normalizeModelText_eq, normalizeFrom, startsOf]
  | append_singleton past e ih =>
    cases e with
    | textDelta delta =>
      have hreasoning : reasoningOf (past ++ [.textDelta delta]) = reasoningOf past :=
        reasoningOf_snoc_of_rawReasoning rfl
      by_cases hopen : textOf past = [] ∧ textOf (past ++ [.textDelta delta]) ≠ []
      · -- The first text opens the slot, which was not there before.
        have hsnoc := slotsOf_snoc past (.textDelta delta)
        rw [opens, if_pos hopen] at hsnoc
        have hfresh : .text ∉ slotsOf past := fun hmem ↦ ih.text.mp hmem hopen.1
        constructor
        · rw [hsnoc]
          exact nodup_snoc ih.nodup hfresh
        · simp [hsnoc, hopen.2]
        · simp [hsnoc, hreasoning, ih.reasoning]
        · rw [hsnoc, List.filterMap_append, ih.tools, startsOf_append]
          simp [toolIndex?, startsOf]
      · refine ih.keep (if_neg hopen) rfl ?_ (by rw [hreasoning])
        rw [textOf_append] at hopen ⊢
        exact ne_nil_append_iff hopen
    | reasoningDelta delta =>
      have htext : textOf (past ++ [.reasoningDelta delta]) = textOf past :=
        textOf_snoc_of_rawText rfl
      by_cases hopen : reasoningOf past = [] ∧ reasoningOf (past ++ [.reasoningDelta delta]) ≠ []
      · have hsnoc := slotsOf_snoc past (.reasoningDelta delta)
        rw [opens, if_pos hopen] at hsnoc
        have hfresh : .reasoning ∉ slotsOf past := fun hmem ↦ ih.reasoning.mp hmem hopen.1
        constructor
        · rw [hsnoc]
          exact nodup_snoc ih.nodup hfresh
        · simp [hsnoc, htext, ih.text]
        · simp [hsnoc, hopen.2]
        · rw [hsnoc, List.filterMap_append, ih.tools, startsOf_append]
          simp [toolIndex?, startsOf]
      · refine ih.keep (if_neg hopen) rfl (by rw [htext]) ?_
        rw [reasoningOf_append] at hopen ⊢
        exact ne_nil_append_iff hopen
    | toolCallStart id' name =>
      have hsnoc := slotsOf_snoc past (.toolCallStart id' name)
      rw [opens] at hsnoc
      have hstarts :
          startsOf (past ++ [.toolCallStart id' name]) = startsOf past ++ [(id', name)] := by
        simp [startsOf]
      have hfresh : .tool (startsOf past).length ∉ slotsOf past := by
        rw [mem_slotsOf_tool ih]
        exact lt_irrefl _
      constructor
      · rw [hsnoc]
        exact nodup_snoc ih.nodup hfresh
      · rw [hsnoc, textOf_snoc_of_rawText rfl, ← ih.text]
        simp
      · rw [hsnoc, reasoningOf_snoc_of_rawReasoning rfl, ← ih.reasoning]
        simp
      · rw [hsnoc, hstarts, List.filterMap_append, ih.tools, List.length_append,
          List.length_singleton, List.range_succ]
        rfl
    | toolCallArgumentsDelta _ _ | toolCallEnd _ | usage _ | providerReplay _ | finish _ =>
      refine ih.keep rfl rfl ?_ ?_
      · rw [textOf_snoc_of_rawText rfl]
      · rw [reasoningOf_snoc_of_rawReasoning rfl]

theorem slotsOf_eq_nil_iff :
    slotsOf events = [] ↔
      textOf events = [] ∧ reasoningOf events = [] ∧ startedIds events = [] := by
  have hslots := slotsReflect events
  constructor
  · intro hnil
    have htools := hslots.tools
    rw [hnil, List.filterMap_nil, eq_comm, List.range_eq_nil, List.length_eq_zero_iff] at htools
    refine ⟨?_, ?_, by rw [startedIds, htools]; rfl⟩
    · rw [← not_not (a := textOf events = []), ← ne_eq, ← hslots.text, hnil]
      exact List.not_mem_nil
    · rw [← not_not (a := reasoningOf events = []), ← ne_eq, ← hslots.reasoning, hnil]
      exact List.not_mem_nil
  · rintro ⟨htext, hreasoning, hstarted⟩
    rw [List.eq_nil_iff_forall_not_mem]
    intro slot hslot
    cases slot with
    | text => exact hslots.text.mp hslot htext
    | reasoning => exact hslots.reasoning.mp hslot hreasoning
    | tool i =>
      rw [mem_slotsOf_tool hslots, ← List.length_map Prod.fst, ← startedIds, hstarted] at hslot
      exact Nat.not_lt_zero i hslot

/-! ## The parts -/

/-- The part a slot stands for in a state whose calls are complete. -/
def partOf (text reasoning : Text) (tools : List ToolAssembly) : PartSlot → Option AssistantPart
  | .text => some (.text text)
  | .reasoning => (ReasoningContent.new (some reasoning) none none none).toOption.map .reasoning
  | .tool i => (tools[i]?.bind ToolAssembly.call).map .toolCall

/-- The parts of the response follow the slots, each of which is used once. -/
theorem buildParts_eq (slots : List PartSlot) (text reasoning : Text) (tools : List ToolAssembly)
    (hnodup : slots.Nodup)
    (hreasoning : .reasoning ∈ slots → validText reasoning 262144 true = true)
    (htools : ∀ i, .tool i ∈ slots → ∃ tool call, tools[i]? = some tool ∧ tool.call = some call) :
    ∃ parts, Assembler.buildParts slots text reasoning tools = some (.ok parts) ∧
      slots.map (partOf text reasoning tools) = parts.map some := by
  induction slots generalizing text reasoning tools with
  | nil => exact ⟨[], rfl, rfl⟩
  | cons slot slots ih =>
    obtain ⟨hfresh, hrest⟩ := List.nodup_cons.mp hnodup
    cases slot with
    | text =>
      obtain ⟨parts, hparts, hmap⟩ := ih [] reasoning tools hrest
        (fun h ↦ hreasoning (by simp [h])) (fun i h ↦ htools i (by simp [h]))
      refine ⟨.text text :: parts, by simp [Assembler.buildParts, hparts], ?_⟩
      rw [List.map_cons, List.map_cons, ← hmap]
      congr 1
      refine List.map_congr_left fun slot hslot ↦ ?_
      cases slot with
      | text => exact absurd hslot hfresh
      | reasoning => rfl
      | tool i => rfl
    | reasoning =>
      obtain ⟨parts, hparts, hmap⟩ := ih text [] tools hrest
        (fun h ↦ absurd h hfresh) (fun i h ↦ htools i (by simp [h]))
      obtain ⟨content, hnew, -⟩ := ReasoningContent.new_text (hreasoning (by simp))
      refine ⟨.reasoning content :: parts, ?_, ?_⟩
      · simp [Assembler.buildParts, hnew, hparts]
      · rw [List.map_cons, List.map_cons, ← hmap, partOf, hnew]
        congr 1
        refine List.map_congr_left fun slot hslot ↦ ?_
        cases slot with
        | text => rfl
        | reasoning => exact absurd hslot hfresh
        | tool i => rfl
    | tool i =>
      obtain ⟨tool, call, htool, hcall⟩ := htools i (by simp)
      -- The call is moved out of its place; the other slots are of other places.
      have hne : ∀ j, .tool j ∈ slots → i ≠ j := by
        rintro j hj rfl
        exact hfresh hj
      obtain ⟨parts, hparts, hmap⟩ := ih text reasoning (tools.set i { tool with call := none })
        hrest (fun h ↦ hreasoning (by simp [h])) (fun j hj ↦ by
          rw [List.getElem?_set_ne (hne j hj)]
          exact htools j (by simp [hj]))
      refine ⟨.toolCall call :: parts, ?_, ?_⟩
      · simp [Assembler.buildParts, htool, hcall, hparts]
      · rw [List.map_cons, List.map_cons, ← hmap]
        congr 1
        · simp [partOf, htool, hcall]
        · refine List.map_congr_left fun slot hslot ↦ ?_
          cases slot with
          | text => rfl
          | reasoning => rfl
          | tool j => rw [partOf, partOf, List.getElem?_set_ne (hne j hslot)]

theorem forall₂_of_map {α β : Type} {R : α → β → Prop} {f : α → Option β} {xs : List α}
    {ys : List β} (hmap : xs.map f = ys.map some) (h : ∀ x ∈ xs, ∀ y, f x = some y → R x y) :
    List.Forall₂ R xs ys := by
  induction xs generalizing ys with
  | nil =>
    have : ys = [] := by simpa using hmap.symm
    subst this
    exact .nil
  | cons x xs ih =>
    obtain ⟨y, ys, rfl, hy, hys⟩ := List.map_eq_cons_iff.mp hmap.symm
    refine .cons (h x (by simp) y hy.symm) (ih hys.symm fun x' hx' ↦ h x' (by simp [hx']))

theorem exists_left_of_mem {α β : Type} {R : α → β → Prop} {xs : List α} {ys : List β}
    (h : List.Forall₂ R xs ys) {y : β} (hy : y ∈ ys) : ∃ x, R x y := by
  induction h with
  | nil => cases hy
  | @cons x y' _ _ hxy _ ih =>
    rcases List.mem_cons.mp hy with rfl | hy
    · exact ⟨x, hxy⟩
    · exact ih hy

/-! ## From the checks to the grammar -/

/-- After the end of a call nothing is added to its arguments. -/
theorem argumentsOf_after_end (first : List ModelEvent) {second : List ModelEvent}
    (hcurrent : ∀ past e rest, first ++ second = past ++ e :: rest → ∀ id, callRef? e = some id →
      id ∉ endedIds past)
    (hend : id ∈ endedIds first) : argumentsOf id second = [] := by
  rw [argumentsOf, List.flatMap_eq_nil_iff]
  intro e he
  obtain ⟨before, after, rfl⟩ := List.append_of_mem he
  have hne : callRef? e ≠ some id := by
    intro href
    refine hcurrent (first ++ before) e after (by simp) id href ?_
    rw [endedIds_append, List.mem_append]
    exact .inl hend
  have hargs := (singleton_of_callRef_ne hne).1
  rwa [argumentsOf, List.flatMap_singleton] at hargs

theorem validArguments_iff {value : Json} {maxBytes : Nat} :
    ToolCall.validArguments value maxBytes = true ↔
      value.isObject = true ∧ validateJsonSize value maxBytes = .ok () := by
  rw [ToolCall.validArguments, Bool.and_eq_true, validateJsonSize_toBool_iff]

private theorem length_le_of_prefix {α : Type} {first second : List α} {n : Nat}
    (h : (first ++ second).length ≤ n) : first.length ≤ n := by
  rw [List.length_append] at h
  omega

/-- The checks of `finish` on the reason. -/
theorem reason_accepted_iff (noTools noText : Bool) (reason : ModelFinishReason) :
    (¬ ((!noTools && !(reason == .toolCalls || reason == .unknown))
        || (!(!noTools) && reason == .toolCalls)) = true ∧
      ¬ ((reason == .contentFiltered || reason == .refused) && noText) = true) ↔
    (noTools = false → reason = .toolCalls ∨ reason = .unknown) ∧
      (noTools = true → reason ≠ .toolCalls) ∧
      (reason = .contentFiltered ∨ reason = .refused → noText = false) := by
  cases noTools <;> cases noText <;> cases reason <;> decide

/-- The checks at the end of the stream. -/
structure Complete (events : List ModelEvent) : Prop where
  finish : finishesOf events ≠ []
  reason : ∀ reason ∈ finishesOf events,
    (startedIds events ≠ [] → reason = .toolCalls ∨ reason = .unknown) ∧
    (startedIds events = [] → reason ≠ .toolCalls) ∧
    (reason = .contentFiltered ∨ reason = .refused → textOf events ≠ [])
  content : textOf events ≠ [] ∨ reasoningOf events ≠ [] ∨ startedIds events ≠ [] ∨
    replaysOf events ≠ []

variable [SerdeJson] {tools : List ToolSpec} {limits : LoopLimits} {a : Assembler}

/-- A finish is the last event of an admitted list. -/
theorem finish_last_of_admitted (h : Admitted tools limits events) (hfin : finishesOf events ≠ []) :
    ∃ body reason, events = body ++ [.finish reason] ∧ finishesOf body = [] := by
  rcases List.eq_nil_or_concat events with rfl | ⟨body, e, rfl⟩
  · exact absurd rfl hfin
  · rw [List.concat_eq_append] at h hfin ⊢
    obtain ⟨-, hadm⟩ := admitted_snoc.mp h
    rw [finishesOf_append, hadm.1, List.nil_append] at hfin
    cases e with
    | finish reason => exact ⟨body, reason, rfl, hadm.1⟩
    | textDelta _ | reasoningDelta _ | toolCallStart _ _ | toolCallArgumentsDelta _ _
    | toolCallEnd _ | usage _ | providerReplay _ => exact absurd rfl hfin

/-- What the checks keep true of every list of admitted events. -/
structure AdmittedFacts (tools : List ToolSpec) (limits : LoopLimits) (events : List ModelEvent) :
    Prop where
  few : (startedIds events).length ≤ limits.maxToolCallsPerResponse
  ended : (endedIds events).Nodup
  fits : ∀ id, byteLen (argumentsOf id events) ≤ maxJsonBytes
  usage : (usagesOf events).length ≤ 1
  replay : (replaysOf events).length ≤ 1

theorem admittedFacts (h : Admitted tools limits events) : AdmittedFacts tools limits events := by
  induction events using List.reverseRecOn with
  | nil => constructor <;> simp [startedIds, startsOf, endedIds, argumentsOf, usagesOf, replaysOf]
  | append_singleton past e ih =>
    obtain ⟨hpast, hfin, hval, hadm⟩ := admitted_snoc.mp h
    obtain ⟨few, ended, fits, usage, replay⟩ := ih hpast
    -- An event adds to the arguments of its own call only.
    have hother : ∀ id, callRef? e ≠ some id →
        byteLen (argumentsOf id (past ++ [e])) ≤ maxJsonBytes := by
      intro id hne
      rw [argumentsOf_append, (singleton_of_callRef_ne hne).1, List.append_nil]
      exact fits id
    cases e with
    | toolCallStart id name =>
      refine ⟨?_, by simpa [endedIds] using ended, fun id' ↦ hother id' (by simp [callRef?]),
        by simpa [usagesOf] using usage, by simpa [replaysOf] using replay⟩
      rw [startedIds_append, List.length_append]
      exact hadm.2.1
    | toolCallArgumentsDelta id delta =>
      refine ⟨by simpa [startedIds, startsOf] using few, by simpa [endedIds] using ended,
        fun id' ↦ ?_, by simpa [usagesOf] using usage, by simpa [replaysOf] using replay⟩
      by_cases hid : id = id'
      · subst hid
        exact hadm.2.2
      · exact hother id' (by simp [callRef?, hid])
    | toolCallEnd id =>
      refine ⟨by simpa [startedIds, startsOf] using few, ?_, fun id' ↦ ?_,
        by simpa [usagesOf] using usage, by simpa [replaysOf] using replay⟩
      · rw [endedIds_append, List.nodup_append]
        refine ⟨ended, by simp [endedIds], ?_⟩
        rintro x hx y hy rfl
        have : x = id := by simpa [endedIds] using hy
        exact hadm.2.1 (this ▸ hx)
      · rw [argumentsOf_append]
        simpa [argumentsOf] using fits id'
    | usage u =>
      refine ⟨by simpa [startedIds, startsOf] using few, by simpa [endedIds] using ended,
        fun id' ↦ hother id' (by simp [callRef?]), ?_, by simpa [replaysOf] using replay⟩
      rw [usagesOf_append, hadm]
      simp [usagesOf]
    | providerReplay r =>
      refine ⟨by simpa [startedIds, startsOf] using few, by simpa [endedIds] using ended,
        fun id' ↦ hother id' (by simp [callRef?]), by simpa [usagesOf] using usage, ?_⟩
      rw [replaysOf_append, hadm]
      simp [replaysOf]
    | textDelta _ | reasoningDelta _ | finish _ =>
      exact ⟨by simpa [startedIds, startsOf] using few, by simpa [endedIds] using ended,
        fun id' ↦ hother id' (by simp [callRef?]), by simpa [usagesOf] using usage,
        by simpa [replaysOf] using replay⟩

/-- At the finish every started call has been ended. -/
theorem ended_of_finish (h : Admitted tools limits events) (hfin : finishesOf events ≠ []) :
    ∀ id ∈ startedIds events, id ∈ endedIds events := by
  obtain ⟨body, reason, rfl, -⟩ := finish_last_of_admitted h hfin
  obtain ⟨-, -, -, hall⟩ := admitted_snoc.mp h
  intro id hid
  have hbody : id ∈ startedIds body := by simpa [startedIds, startsOf] using hid
  rw [endedIds_append, List.mem_append]
  exact .inl (hall id hbody)

/-- Admitted events that are complete form a well-formed stream. -/
theorem wellFormed_of_admitted (hlimits : limits.Caps) (h : Admitted tools limits events)
    (hcomplete : Complete events) : WellFormed tools limits events := by
  obtain ⟨a, -, hreflects⟩ :=
    (pushAll_eq_ok hlimits (reflects_new tools limits) events
      (fun past e rest hsplit ↦ absurd hsplit (by simp))).1 (by simpa using h)
  have hfacts := admittedFacts h
  have hall := ended_of_finish h hcomplete.finish
  have hcurrent : ∀ past e rest, events = past ++ e :: rest → ∀ id, callRef? e = some id →
      id ∈ startedIds past ∧ id ∉ endedIds past :=
    fun past e rest hsplit id href ↦ current_of_admits (h past e rest hsplit) href
  rw [List.nil_append] at hreflects
  refine ⟨finish_last_of_admitted h hcomplete.finish, ?_, hreflects.textFits,
    hreflects.reasoningFits, ?_, hreflects.distinct, hfacts.few, hcurrent, ?_, ?_, hfacts.usage,
    hfacts.replay, hcomplete.reason, hcomplete.content⟩
  · intro e he delta hdelta
    obtain ⟨past, rest, hsplit⟩ := List.append_of_mem he
    have hval := (h past e rest hsplit).2.1
    rw [ModelEvent.validate, hdelta] at hval
    exact of_decide_eq_true hval
  · rintro ⟨id, name⟩ hstart
    rw [startsOf, List.mem_filterMap] at hstart
    obtain ⟨e, he, hmatch⟩ := hstart
    obtain ⟨past, rest, hsplit⟩ := List.append_of_mem he
    have hadm := (h past e rest hsplit).2.2
    cases e <;> simp at hmatch
    obtain ⟨rfl, rfl⟩ := hmatch
    exact hadm.1
  · intro id hid
    exact List.count_eq_one_of_mem hfacts.ended (hall id hid)
  · intro id hid
    have hend := hall id hid
    obtain ⟨past, rest, hsplit⟩ := List.append_of_mem (mem_endedIds_iff.mp hend)
    obtain ⟨-, -, -, -, hne, value, hparse, hvalid⟩ := h past _ rest hsplit
    -- A call gets no arguments after its end, so that those at the end are all of them.
    have hafter : argumentsOf id (ModelEvent.toolCallEnd id :: rest) = [] := by
      have hrest : argumentsOf id rest = [] := by
        refine argumentsOf_after_end (past ++ [.toolCallEnd id]) ?_ (by simp [endedIds])
        intro past' e' rest' hsplit' id' href
        exact (hcurrent past' e' rest' (by rw [hsplit, ← hsplit']; simp) id' href).2
      simpa [argumentsOf] using hrest
    have hargs : argumentsOf id events = argumentsOf id past := by
      rw [hsplit, argumentsOf_append, hafter, List.append_nil]
    rw [hargs]
    obtain ⟨hobject, hsize⟩ := validArguments_iff.mp hvalid
    exact ⟨hne, hargs ▸ hfacts.fits id, value, hparse, hobject, hsize⟩

/-- The events of a well-formed stream are admitted. -/
theorem admitted_of_wellFormed (h : WellFormed tools limits events) :
    Admitted tools limits events := by
  rintro past e rest hsplit
  obtain ⟨body, reason, hbody, hnone⟩ := h.finish
  -- Everything before an event of the stream lies before the finish.
  have hprefix : ∃ after, body = past ++ after ∧ e :: rest = after ++ [.finish reason] := by
    rcases List.eq_nil_or_concat (e :: rest) with hnil | ⟨after, last, hlast⟩
    · cases hnil
    · rw [List.concat_eq_append] at hlast
      rw [hsplit, hlast, ← List.append_assoc] at hbody
      obtain ⟨rfl, hlast'⟩ := List.append_inj' hbody rfl
      cases hlast'
      exact ⟨after, rfl, hlast⟩
  obtain ⟨after, rfl, hafter⟩ := hprefix
  rw [finishesOf_append, List.append_eq_nil_iff] at hnone
  have hmem : e ∈ events := by
    rw [hsplit]
    simp
  have hval : e.validate = true := by
    cases hdelta : e.delta? with
    | none => simp [ModelEvent.validate, hdelta]
    | some delta =>
      have := h.deltas e hmem delta hdelta
      simp [ModelEvent.validate, hdelta, maxModelEventTextBytes, this]
  have hevents : events = (past ++ [e]) ++ rest := by simp [hsplit]
  refine ⟨hnone.1, hval, ?_⟩
  cases e with
  | textDelta delta =>
    have htext := h.text
    rw [hevents, textOf_append, byteLen_append] at htext
    dsimp only
    omega
  | reasoningDelta delta =>
    have hreasoning := h.reasoning
    rw [hevents, reasoningOf_append, byteLen_append] at hreasoning
    dsimp only
    omega
  | toolCallStart id name =>
    have hnamed := h.named (id, name)
    have hdistinct := h.distinct
    have hfew := h.few
    rw [hevents, startedIds_append, startedIds_append] at hdistinct hfew
    have hself : startedIds [.toolCallStart id name] = [id] := rfl
    rw [hself] at hdistinct hfew
    refine ⟨hnamed ?_, ?_, ?_⟩
    · rw [hevents, startsOf_append, startsOf_append]
      simp [startsOf]
    · have := length_le_of_prefix hfew
      rw [List.length_append, List.length_singleton] at this
      omega
    · intro hin
      have hnodup := (List.nodup_append.mp hdistinct).1
      exact (List.nodup_append.mp hnodup).2.2 id hin id (by simp) rfl
  | toolCallArgumentsDelta id delta =>
    obtain ⟨hstarted, hopen⟩ := h.current past _ rest hsplit id rfl
    have hall : id ∈ startedIds events := by
      rw [hsplit, startedIds_append, List.mem_append]
      exact .inl hstarted
    have hfits := (h.arguments id hall).2.1
    rw [hevents, argumentsOf_append, byteLen_append] at hfits
    have hcap : maxJsonBytes = 65536 := rfl
    exact ⟨hstarted, hopen, by omega⟩
  | toolCallEnd id =>
    obtain ⟨hstarted, hopen⟩ := h.current past _ rest hsplit id rfl
    have hall : id ∈ startedIds events := by
      rw [hsplit, startedIds_append, List.mem_append]
      exact .inl hstarted
    have hrest : argumentsOf id rest = [] := by
      refine argumentsOf_after_end (past ++ [.toolCallEnd id]) ?_ (by simp [endedIds])
      intro past' e' rest' hsplit' id' href
      exact (h.current past' e' rest' (by rw [hevents, ← hsplit']) id' href).2
    have hargs : argumentsOf id events = argumentsOf id past := by
      rw [hevents, argumentsOf_append, argumentsOf_append, hrest]
      simp [argumentsOf]
    obtain ⟨hne, -, value, hparse, hobject, hsize⟩ := h.arguments id hall
    rw [hargs] at hne hparse
    exact ⟨hstarted, hopen, hne, value, hparse, validArguments_iff.mpr ⟨hobject, hsize⟩⟩
  | usage u =>
    have husage := h.usage
    rw [hevents, usagesOf_append, usagesOf_append] at husage
    have hself : usagesOf [.usage u] = [u] := rfl
    have := length_le_of_prefix husage
    rw [hself, List.length_append, List.length_singleton] at this
    exact List.eq_nil_of_length_eq_zero (by omega)
  | providerReplay r =>
    have hreplay := h.replay
    rw [hevents, replaysOf_append, replaysOf_append] at hreplay
    have hself : replaysOf [.providerReplay r] = [r] := rfl
    have := length_le_of_prefix hreplay
    rw [hself, List.length_append, List.length_singleton] at this
    exact List.eq_nil_of_length_eq_zero (by omega)
  | finish reason' =>
    intro id hid
    have hall : id ∈ startedIds events := by
      rw [hsplit, startedIds_append, List.mem_append]
      exact .inl hid
    have hcount := h.ended id hall
    have hin : id ∈ endedIds events := List.count_pos_iff.mp (by omega)
    -- A second event after a finish would put a finish before the last event.
    have hlast : rest = [] := by
      cases after with
      | nil => exact (List.cons.inj hafter).2
      | cons x after =>
        obtain ⟨rfl, -⟩ := List.cons.inj hafter
        exact absurd hnone.2 (by simp [finishesOf])
    rw [hsplit, hlast, endedIds_append, List.mem_append] at hin
    rcases hin with hin | hin
    · exact hin
    · exact absurd hin (by simp [endedIds])

/-! ## The response -/

/-- The calls among the parts follow the tool slots. -/
theorem toolCalls_of_parts {slots : List PartSlot} {parts : List AssistantPart}
    (h : List.Forall₂ (IsPart events) slots parts) :
    (toolCalls parts).map ToolCall.callIndex = slots.filterMap toolIndex? ∧
      (toolCalls parts).map (fun call ↦ some call.toolCallId) =
        (slots.filterMap toolIndex?).map fun i ↦ (startsOf events)[i]?.map Prod.fst := by
  induction h with
  | nil => exact ⟨rfl, rfl⟩
  | @cons slot part slots parts hpart _ ih =>
    cases slot with
    | text =>
      cases hpart
      exact ih
    | reasoning =>
      obtain ⟨content, rfl, -⟩ := hpart
      exact ih
    | tool i =>
      obtain ⟨id, name, call, hstart, rfl, hid, -, hindex, -⟩ := hpart
      obtain ⟨ih₁, ih₂⟩ := ih
      simp only [toolCalls_cons, AssistantPart.asToolCall, Option.toList_some,
        List.singleton_append, List.map_cons, List.filterMap_cons, toolIndex?, hindex, ih₁, ih₂,
        hstart, hid, Option.map_some]
      exact ⟨trivial, trivial⟩

/-- The parts of the response form a well-ordered message. -/
theorem orderedParts (hlimits : limits.Caps) (h : Admitted tools limits events)
    (hreflects : Reflects tools limits events a) {parts : List AssistantPart}
    (hparts : List.Forall₂ (IsPart events) (slotsOf events) parts) : OrderedParts parts := by
  have hslots := slotsReflect events
  obtain ⟨hindices, hids⟩ := toolCalls_of_parts hparts
  rw [hslots.tools] at hindices hids
  have hlength : (toolCalls parts).length = (startsOf events).length := by
    rw [← List.length_map ToolCall.callIndex, hindices, List.length_range]
  have hids' : (toolCalls parts).map ToolCall.toolCallId = startedIds events := by
    refine List.map_injective_iff.mpr (fun _ _ ↦ Option.some.inj) ?_
    rw [List.map_map]
    refine Eq.trans hids ?_
    refine List.ext_getElem? fun i ↦ ?_
    rw [startedIds, List.map_map, List.getElem?_map, List.getElem?_map]
    by_cases hi : i < (startsOf events).length
    · rw [List.getElem?_range hi, List.getElem?_eq_getElem hi]
      simp [List.getElem?_eq_getElem hi]
    · rw [List.getElem?_eq_none (by simpa using hi), List.getElem?_eq_none (by omega)]
      rfl
  refine ⟨?_, ?_, ?_, ?_⟩
  · -- A text part is the normalised text, which was within its limit.
    intro text hmem
    obtain ⟨slot, hpart⟩ := exists_left_of_mem hparts hmem
    cases slot with
    | text =>
      cases hpart
      have hfits := hreflects.textFits
      have hcap := hlimits.text
      exact validText_normalizeModelText (hfits.trans hcap)
    | reasoning =>
      obtain ⟨content, hcontent, -⟩ := hpart
      exact absurd hcontent (by simp)
    | tool i =>
      obtain ⟨_, _, _, -, hpart, -⟩ := hpart
      cases hpart
  · rw [hindices, hlength]
  · rw [hids']
    exact hreflects.distinct
  · have hfew := (admittedFacts h).few
    have hcalls := hlimits.calls
    rw [startedIds, List.length_map] at hfew
    rw [hlength]
    omega

/-- A slot's part in a state that reflects the stream is the part the slot stands for. -/
theorem isPart_of_partOf (hreflects : Reflects tools limits events a)
    (hreasoning : validText a.reasoning 262144 true = true) {slot : PartSlot}
    {part : AssistantPart} (h : partOf a.text a.reasoning a.tools slot = some part) :
    IsPart events slot part := by
  cases slot with
  | text =>
    cases h
    rw [hreflects.text]
    rfl
  | reasoning =>
    obtain ⟨content, hnew, htext⟩ := ReasoningContent.new_text hreasoning
    rw [partOf, hnew] at h
    obtain rfl := Option.some.inj h
    rw [hreflects.reasoning] at htext
    exact ⟨content, rfl, htext⟩
  | tool i =>
    rw [partOf, Option.map_eq_some_iff] at h
    obtain ⟨call, hbind, rfl⟩ := h
    obtain ⟨tool, htool, hcall⟩ := Option.bind_eq_some_iff.mp hbind
    -- The call of a slot is the one that was started there.
    have hmem := List.mem_of_getElem? htool
    obtain ⟨hid, hname, hindex, hparse⟩ := (hreflects.calls tool hmem).call call hcall
    have hstart := congrArg (fun l ↦ l[i]?) hreflects.starts
    have hposition := congrArg (fun l ↦ l[i]?) hreflects.indices
    obtain ⟨hi, -⟩ := List.getElem?_eq_some_iff.mp htool
    simp only [List.getElem?_map, htool, Option.map_some, List.getElem?_range hi]
      at hstart hposition
    exact ⟨tool.toolCallId, tool.name, call, hstart.symm, rfl, hid, hname,
      hindex.trans (Option.some.inj hposition), hparse⟩

/-- The parts are built, and they are the parts the slots stand for. -/
theorem buildParts_of_reflects (hlimits : limits.Caps)
    (hreflects : Reflects tools limits events a)
    (hended : ∀ id ∈ startedIds events, id ∈ endedIds events) :
    ∃ parts, Assembler.buildParts a.slots a.text a.reasoning a.tools = some (.ok parts) ∧
      List.Forall₂ (IsPart events) (slotsOf events) parts := by
  have hslots := slotsReflect events
  have hcomplete : ∀ i, .tool i ∈ a.slots →
      ∃ tool call, a.tools[i]? = some tool ∧ tool.call = some call := by
    intro i hi
    rw [hreflects.slots, mem_slotsOf_tool hslots, ← hreflects.starts, List.length_map] at hi
    obtain ⟨call, hcall⟩ := Option.isSome_iff_exists.mp
      ((hreflects.calls a.tools[i] (List.getElem_mem hi)).ended.mpr (hended _ (by
        rw [← hreflects.tools_ids]
        exact List.mem_map_of_mem (List.getElem_mem hi))))
    exact ⟨a.tools[i], call, List.getElem?_eq_getElem hi, hcall⟩
  have hvalid : validText a.reasoning 262144 true = true := by
    rw [hreflects.reasoning]
    exact validText_normalizeModelText (hreflects.reasoningFits.trans hlimits.reasoning)
  obtain ⟨parts, hparts, hmap⟩ := buildParts_eq a.slots a.text a.reasoning a.tools
    (by rw [hreflects.slots]; exact hslots.nodup) (fun _ ↦ hvalid) hcomplete
  refine ⟨parts, hparts, ?_⟩
  rw [← hreflects.slots]
  exact forall₂_of_map hmap fun slot _ part hpart ↦ isPart_of_partOf hreflects hvalid hpart

/-- The end of an admitted stream: the response is returned if and only if the stream is complete,
and nothing panics. -/
theorem finish_of_reflects (hlimits : limits.Caps) (h : Admitted tools limits events)
    (hreflects : Reflects tools limits events a) :
    (Complete events → ∃ response, a.finish = some (.ok response) ∧ Yields events response) ∧
    (¬ Complete events → ∃ err, a.finish = some (.error err)) := by
  by_cases hfin : finishesOf events = []
  · refine ⟨fun hc ↦ absurd hfin hc.finish, fun _ ↦ ?_⟩
    simp [Assembler.finish, hreflects.finishReason, hfin]
  obtain ⟨body, reason, hlast, hbody⟩ := finish_last_of_admitted h hfin
  have hfinishes : finishesOf events = [reason] := by
    rw [hlast, finishesOf_append, hbody]
    rfl
  have hreason : a.finishReason = some reason := by
    rw [hreflects.finishReason, hfinishes]
    rfl
  have hchecks := reason_accepted_iff a.tools.isEmpty a.text.isEmpty reason
  have htools : a.tools.isEmpty = true ↔ startedIds events = [] := by
    rw [← hreflects.tools_ids]
    simp
  have htext : a.text.isEmpty = true ↔ textOf events = [] := by
    rw [hreflects.text, List.isEmpty_iff]
  rw [← Bool.not_eq_true a.tools.isEmpty, ← Bool.not_eq_true a.text.isEmpty, htools, htext]
    at hchecks
  obtain ⟨parts, hbuild, hparts⟩ :=
    buildParts_of_reflects hlimits hreflects (ended_of_finish h hfin)
  have hordered := orderedParts hlimits h hreflects hparts
  have hnorm := normalizeParts_of_valid hordered.texts
  have hempty : parts = [] ↔ slotsOf events = [] := by
    rw [← List.length_eq_zero_iff, ← List.length_eq_zero_iff, hparts.length_eq]
  -- The parts are ordered and normal, so that only a response without content is refused.
  have hresponse : ModelResponse.newWithProviderReplay parts reason
      (some (a.usage.getD Usage.default)) a.providerReplay =
      if parts = [] ∧ a.providerReplay = none then .error .emptyResponseParts
      else .ok ⟨parts, reason, some (a.usage.getD Usage.default), a.providerReplay⟩ := by
    rw [ModelResponse.newWithProviderReplay, hnorm, validateToolCallOrder_eq_ok.mpr hordered]
    simp
  have hreplay : a.providerReplay = none ↔ replaysOf events = [] := by
    rw [hreflects.providerReplay, List.head?_eq_none_iff]
  by_cases hok : (startedIds events ≠ [] → reason = .toolCalls ∨ reason = .unknown) ∧
      (startedIds events = [] → reason ≠ .toolCalls) ∧
      (reason = .contentFiltered ∨ reason = .refused → textOf events ≠ [])
  · obtain ⟨hno₁, hno₂⟩ := hchecks.mpr hok
    by_cases hcontent : parts = [] ∧ a.providerReplay = none
    · have hfinish : a.finish = some (.error (assemblerError .invalidProviderResponse)) := by
        rw [if_pos hcontent] at hresponse
        rw [Assembler.finish, hreason]
        simp only [if_neg hno₁, if_neg hno₂, hbuild, hresponse]
      refine ⟨fun hc ↦ ?_, fun _ ↦ ⟨_, hfinish⟩⟩
      rw [hempty, hreplay, slotsOf_eq_nil_iff] at hcontent
      obtain ⟨⟨h₁, h₂, h₃⟩, h₄⟩ := hcontent
      rcases hc.content with hc | hc | hc | hc
      · exact absurd h₁ hc
      · exact absurd h₂ hc
      · exact absurd h₃ hc
      · exact absurd h₄ hc
    · have hfinish : a.finish =
          some (.ok ⟨parts, reason, some (a.usage.getD Usage.default), a.providerReplay⟩) := by
        rw [if_neg hcontent] at hresponse
        rw [Assembler.finish, hreason]
        simp only [if_neg hno₁, if_neg hno₂, hbuild, hresponse]
      refine ⟨fun _ ↦ ⟨_, hfinish, hparts, hfinishes, ?_, hreflects.providerReplay⟩,
        fun hc ↦ ?_⟩
      · rw [hreflects.usage]
      · refine absurd ⟨hfin, ?_, ?_⟩ hc
        · intro reason' hmem
          rw [hfinishes, List.mem_singleton] at hmem
          exact hmem ▸ hok
        · rw [hempty, hreplay, slotsOf_eq_nil_iff] at hcontent
          by_contra hnone
          simp only [not_or, not_not] at hnone
          exact hcontent ⟨⟨hnone.1, hnone.2.1, hnone.2.2.1⟩, hnone.2.2.2⟩
  · -- The reason does not fit the content: one of the two checks refuses it.
    refine ⟨fun hc ↦ absurd (hc.reason reason (by simp [hfinishes])) hok, fun _ ↦ ?_⟩
    rw [Assembler.finish, hreason]
    dsimp only
    by_cases hno₁ : ((!a.tools.isEmpty && !(reason == .toolCalls || reason == .unknown))
        || (!(!a.tools.isEmpty) && reason == .toolCalls)) = true
    · rw [if_pos hno₁]
      exact ⟨_, rfl⟩
    · rw [if_neg hno₁]
      by_cases hno₂ : ((reason == .contentFiltered || reason == .refused) && a.text.isEmpty) = true
      · rw [if_pos hno₂]
        exact ⟨_, rfl⟩
      · exact absurd (hchecks.mp ⟨hno₁, hno₂⟩) hok

/-- Stream assembly accepts exactly the well-formed streams and returns the response each stands
for. -/
theorem assemble_wellFormed (tools : List ToolSpec) (limits : LoopLimits)
    (hlimits : limits.validate = true) (events : List ModelEvent) :
    ((∃ response, assemble tools limits events = some (.ok response)) ↔
      WellFormed tools limits events) ∧
    ∀ response, assemble tools limits events = some (.ok response) → Yields events response := by
  have hcaps := LoopLimits.caps_of_validate hlimits
  have hrun := pushAll_eq_ok hcaps (reflects_new tools limits) events
    (fun past e rest hsplit ↦ absurd hsplit (by simp))
  rw [List.nil_append] at hrun
  have hforward : WellFormed tools limits events →
      ∃ response, assemble tools limits events = some (.ok response) ∧ Yields events response := by
    intro hwf
    have hadmitted := admitted_of_wellFormed hwf
    obtain ⟨a, hpush, hreflects⟩ := hrun.1 hadmitted
    obtain ⟨body, reason, hlast, -⟩ := hwf.finish
    have hcomplete : Complete events :=
      ⟨by rw [hlast, finishesOf_append]; simp [finishesOf], hwf.reason, hwf.content⟩
    obtain ⟨response, hfinish, hyields⟩ :=
      (finish_of_reflects hcaps hadmitted hreflects).1 hcomplete
    refine ⟨response, ?_, hyields⟩
    rw [assemble, hpush]
    exact hfinish
  have hbackward : (∃ response, assemble tools limits events = some (.ok response)) →
      WellFormed tools limits events := by
    rintro ⟨response, hassemble⟩
    unfold assemble at hassemble
    split at hassemble
    · rename_i a hpush
      have hadmitted := hrun.2 ⟨a, hpush⟩
      obtain ⟨a', hpush', hreflects⟩ := hrun.1 hadmitted
      rw [hpush] at hpush'
      cases hpush'
      by_contra hno
      -- A stream that is admitted and not complete ends in an error.
      have hincomplete : ¬ Complete events :=
        fun hc ↦ hno (wellFormed_of_admitted hcaps hadmitted hc)
      obtain ⟨err, herr⟩ := (finish_of_reflects hcaps hadmitted hreflects).2 hincomplete
      rw [herr] at hassemble
      cases hassemble
    · cases hassemble
  refine ⟨⟨hbackward, fun hwf ↦ ?_⟩, fun response hassemble ↦ ?_⟩
  · obtain ⟨response, hresponse, -⟩ := hforward hwf
    exact ⟨response, hresponse⟩
  · obtain ⟨response', hresponse, hyields⟩ := hforward (hbackward ⟨response, hassemble⟩)
    rw [hassemble] at hresponse
    cases hresponse
    exact hyields

/-! ### A stream with a text and a call -/

/-- The name of a tool. -/
def readName : ToolName :=
  ⟨"read".toList, ⟨by decide, by decide⟩, by decide⟩

/-- The specification of a tool without parameters. -/
def readSpec : ToolSpec :=
  ⟨readName, ⟨"reads".toList, by decide⟩, .object [], by decide⟩

/-- The identifier of a call. -/
def firstCall : ToolCallId :=
  ⟨"call_1".toList, ⟨by decide, by decide⟩, by decide⟩

/-- A parser that knows the empty object only. -/
@[reducible]
def emptyObject : SerdeJson where
  fromStr text := if text = ['\x7b', '\x7d'] then some (.object []) else none

/-- A text cut between CR and LF, and a call of a tool. -/
def readStream : List ModelEvent :=
  [.textDelta ⟨['a', '\r'], by decide⟩, .toolCallStart firstCall readName,
    .toolCallArgumentsDelta firstCall ⟨['\x7b'], by decide⟩, .textDelta ⟨['\n', 'b'], by decide⟩,
    .toolCallArgumentsDelta firstCall ⟨['\x7d'], by decide⟩, .toolCallEnd firstCall,
    .finish .toolCalls]

omit [SerdeJson] in
/-- The assembler accepts the stream, which is therefore well formed. -/
theorem wellFormed_readStream :
    LoopLimits.default.validate = true ∧
      @WellFormed emptyObject [readSpec] LoopLimits.default readStream :=
  ⟨by decide,
    (@assemble_wellFormed emptyObject [readSpec] LoopLimits.default (by decide) readStream).1.mp
      ⟨_, rfl⟩⟩

end MinicoreRuntime.Stream
