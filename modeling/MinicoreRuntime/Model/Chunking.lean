import MinicoreRuntime.Model.Assembly

/-!
# Chunk independence

A provider cuts its text into deltas wherever it likes. The text and the reasoning of a response,
and the arguments of its tool calls, do not depend on where the cuts are.

Text and reasoning are normalised across the cuts: the assembler remembers, one bit for each
channel, that the channel's text ended with CR. Argument deltas are normalised one by one, so that a
line break of two characters that is cut in two becomes two line breaks; a JSON parser makes no
difference between the two.

## Main definitions

* `Channel`: text or reasoning, with what a stream, a response and the progress have of it.
* `Assembler.pushEach`: a run of the assembler with the progress it returns.
* `argumentPieces`, `rawArguments`: the argument deltas of one call.

## Main results

* `pushEach_offered`: the progress of a run adds up to the normalised text.
* `chunk_independence`: the text and the reasoning of a response.
* `flatMap_normalize`: normalising piece by piece, up to doubled line breaks.
* `arguments_chunk_independence`: the arguments of a tool call.
-/

namespace MinicoreRuntime

namespace Assembler

variable [SerdeJson]

/-- Take in a list of events, and collect the progress to offer. -/
def pushEach : Assembler → List ModelEvent →
    Except ModelError (List ModelDriverProgress × Assembler)
  | a, [] => .ok ([], a)
  | a, event :: events =>
    match push { a with observedEvent := true } event with
    | .error e => .error e
    | .ok (progress, a) =>
      match pushEach a events with
      | .error e => .error e
      | .ok (rest, a) => .ok (progress.toList ++ rest, a)

/-- Collecting the progress does not change the run. -/
theorem pushAll_eq_pushEach (a : Assembler) (events : List ModelEvent) :
    a.pushAll events = (a.pushEach events).map Prod.snd := by
  induction events generalizing a with
  | nil => rfl
  | cons event events ih =>
    rw [pushAll, pushEach]
    cases push { a with observedEvent := true } event with
    | error e => rfl
    | ok result =>
      simp only [ih]
      cases result.2.pushEach events <;> rfl

end Assembler

namespace Stream

/-! ## Channels -/

/-- The two kinds of running text. -/
inductive Channel where
  | text
  | reasoning
deriving DecidableEq, Repr

namespace Channel

/-- The raw text of the deltas of a channel. -/
def raw : Channel → List ModelEvent → Text
  | .text => rawText
  | .reasoning => rawReasoning

/-- The delta of a progress value of a channel. -/
def delta? : Channel → ModelDriverProgress → Option BoundedText
  | .text, .textDelta delta | .reasoning, .reasoningDelta delta => some delta
  | _, _ => none

/-- The deltas of a channel among progress values. -/
def deltas (ch : Channel) (progress : List ModelDriverProgress) : List BoundedText :=
  progress.filterMap ch.delta?

/-- Whether a part of a response belongs to a channel. -/
def owns : Channel → AssistantPart → Bool
  | .text, .text _ | .reasoning, .reasoning _ => true
  | _, _ => false

/-- The text of a part of a channel; reasoning may come without text. -/
def content? : Channel → AssistantPart → Option (Option Text)
  | .text, .text value => some (some value)
  | .reasoning, .reasoning content => some content.text
  | _, _ => none

/-- The slot of a channel. -/
def slot : Channel → PartSlot
  | .text => .text
  | .reasoning => .reasoning

/-- The part of a channel with a given text and nothing else. -/
def IsPart : Channel → Text → AssistantPart → Prop
  | .text, value, part => part = .text value
  | .reasoning, value, part => ∃ content, part = .reasoning content ∧ content.IsText value

variable {ch : Channel} {value : Text} {part part' : AssistantPart}

/-- A part is determined by its text. -/
theorem IsPart.unique (h : ch.IsPart value part) (h' : ch.IsPart value part') : part = part' := by
  cases ch with
  | text => exact h.trans h'.symm
  | reasoning =>
    obtain ⟨⟨_, _, _, _, _⟩, rfl, hcontent⟩ := h
    obtain ⟨⟨_, _, _, _, _⟩, rfl, hcontent'⟩ := h'
    obtain ⟨rfl, rfl, rfl, rfl⟩ := hcontent
    obtain ⟨rfl, rfl, rfl, rfl⟩ := hcontent'
    rfl

theorem IsPart.content (h : ch.IsPart value part) : ch.content? part = some (some value) := by
  cases ch with
  | text =>
    obtain rfl := h
    rfl
  | reasoning =>
    obtain ⟨content, rfl, hcontent⟩ := h
    exact congrArg some hcontent.text

theorem content?_of_not_owns (h : ch.owns part = false) : ch.content? part = none := by
  cases ch <;> cases part <;> first | rfl | cases h

end Channel

variable [SerdeJson] {tools : List ToolSpec} {limits : LoopLimits} {past events : List ModelEvent}
  {e : ModelEvent} {id : ToolCallId} {a a' : Assembler}

/-! ## Progress -/

omit [SerdeJson] in
/-- The progress of a delta is the delta, and nothing where nothing is left of it. -/
theorem progressOf_toList {make : BoundedText → ModelDriverProgress} {delta : BoundedText}
    {f : ModelDriverProgress → Option BoundedText} (hf : f (make delta) = some delta) :
    ((progressOf make delta).toList.filterMap f).flatMap BoundedText.asStr = delta.asStr ∧
      ∀ d ∈ (progressOf make delta).toList.filterMap f, d.isEmpty = false := by
  unfold progressOf
  by_cases hempty : delta.isEmpty = true
  · rw [if_pos hempty, BoundedText.isEmpty_iff.mp hempty]
    exact ⟨rfl, by simp⟩
  · rw [if_neg hempty]
    simp [hf, hempty]

omit [SerdeJson] in
theorem progressOf_other {make : BoundedText → ModelDriverProgress} {delta : BoundedText}
    {f : ModelDriverProgress → Option BoundedText} (hf : f (make delta) = none) :
    (progressOf make delta).toList.filterMap f = [] := by
  unfold progressOf
  split <;> simp [hf]

/-- An event that is not a delta of a channel returns no progress. -/
theorem progress_eq_none {progress : Option ModelDriverProgress}
    (hp : a.push e = .ok (progress, a')) (htext : ∀ delta, e ≠ .textDelta delta)
    (hreasoning : ∀ delta, e ≠ .reasoningDelta delta) : progress = none := by
  unfold Assembler.push at hp
  split at hp
  · cases hp
  · cases e with
    | textDelta delta => exact absurd rfl (htext delta)
    | reasoningDelta delta => exact absurd rfl (hreasoning delta)
    | toolCallStart _ _ | toolCallArgumentsDelta _ _ | toolCallEnd _ | usage _ | providerReplay _
    | finish _ =>
      dsimp only at hp
      repeat' split at hp
      all_goals cases hp
      all_goals rfl

/-- The progress of one event is what the event adds to the normalised text of a channel. -/
theorem push_offered (hlimits : limits.Caps) (h : Reflects tools limits past a)
    {progress : Option ModelDriverProgress} (hp : a.push e = .ok (progress, a')) (ch : Channel) :
    normalizeModelText (ch.raw (past ++ [e])) = normalizeModelText (ch.raw past) ++
        (ch.deltas progress.toList).flatMap BoundedText.asStr ∧
      ∀ delta ∈ ch.deltas progress.toList, delta.isEmpty = false := by
  have hadm := admits_of_push hlimits h hp
  have hcap : maxTextBytes ≤ usizeMax := by decide
  have htextMax := hlimits.text
  have hreasoningMax := hlimits.reasoning
  -- An event without progress for the channel adds nothing to the channel.
  have hquiet : ch.raw [e] = [] → ch.deltas progress.toList = [] →
      normalizeModelText (ch.raw (past ++ [e])) = normalizeModelText (ch.raw past) ++
        (ch.deltas progress.toList).flatMap BoundedText.asStr ∧
      ∀ delta ∈ ch.deltas progress.toList, delta.isEmpty = false := by
    intro hraw hdeltas
    have happend : ch.raw (past ++ [e]) = ch.raw past ++ ch.raw [e] := by
      cases ch with
      | text => exact rawText_append past [e]
      | reasoning => exact rawReasoning_append past [e]
    rw [happend, hraw, hdeltas]
    simp
  cases e with
  | textDelta delta =>
    rw [push_textDelta h delta (by omega) hadm] at hp
    obtain ⟨rfl, -⟩ := Prod.mk.inj (Except.ok.inj hp)
    cases ch with
    | text =>
      have hdelta : Channel.text.delta?
          (.textDelta (normalizedDelta delta a.textEndedWithCr).1) = some _ := rfl
      obtain ⟨hvalue, hne⟩ := progressOf_toList hdelta
      refine ⟨?_, hne⟩
      rw [Channel.deltas, hvalue]
      exact textOf_snoc h delta
    | reasoning =>
      apply hquiet
      · rfl
      · exact progressOf_other rfl
  | reasoningDelta delta =>
    rw [push_reasoningDelta h delta (by omega) hadm] at hp
    obtain ⟨rfl, -⟩ := Prod.mk.inj (Except.ok.inj hp)
    cases ch with
    | text =>
      apply hquiet
      · rfl
      · exact progressOf_other rfl
    | reasoning =>
      have hdelta : Channel.reasoning.delta?
          (.reasoningDelta (normalizedDelta delta a.reasoningEndedWithCr).1) = some _ := rfl
      obtain ⟨hvalue, hne⟩ := progressOf_toList hdelta
      refine ⟨?_, hne⟩
      rw [Channel.deltas, hvalue]
      exact reasoningOf_snoc h delta
  | toolCallStart _ _ | toolCallArgumentsDelta _ _ | toolCallEnd _ | usage _ | providerReplay _
  | finish _ =>
    obtain rfl := progress_eq_none hp (by simp) (by simp)
    apply hquiet
    · cases ch <;> rfl
    · rfl

/-- The progress of a run adds up to the normalised text of each channel, whatever came before. -/
theorem pushEach_offered (hlimits : limits.Caps) (h : Reflects tools limits past a)
    (events : List ModelEvent) {progress : List ModelDriverProgress}
    (hrun : a.pushEach events = .ok (progress, a')) (ch : Channel) :
    normalizeModelText (ch.raw (past ++ events)) = normalizeModelText (ch.raw past) ++
        (ch.deltas progress).flatMap BoundedText.asStr ∧
      ∀ delta ∈ ch.deltas progress, delta.isEmpty = false := by
  induction events generalizing past a progress with
  | nil =>
    cases hrun
    simp [Channel.deltas]
  | cons e events ih =>
    rw [Assembler.pushEach] at hrun
    split at hrun
    · cases hrun
    · rename_i first a₁ hp
      split at hrun
      · cases hrun
      · rename_i rest a₂ hrest
        obtain ⟨rfl, rfl⟩ := Prod.mk.inj (Except.ok.inj hrun)
        -- What the first event offers, and then what the others do.
        obtain ⟨hfirst, hne⟩ := push_offered hlimits h.observed hp ch
        obtain ⟨hall, hne'⟩ := ih (push_reflects hlimits h.observed hp) hrest
        have hdeltas :
            ch.deltas (first.toList ++ rest) = ch.deltas first.toList ++ ch.deltas rest :=
          List.filterMap_append
        rw [List.append_assoc, List.singleton_append, hfirst] at hall
        rw [hdeltas, List.flatMap_append, hall, List.append_assoc]
        refine ⟨rfl, fun delta hdelta ↦ ?_⟩
        rcases List.mem_append.mp hdelta with hdelta | hdelta
        · exact hne delta hdelta
        · exact hne' delta hdelta

/-! ## The response -/

omit [SerdeJson] in
theorem mem_slotsOf_channel (events : List ModelEvent) (ch : Channel) :
    ch.slot ∈ slotsOf events ↔ normalizeModelText (ch.raw events) ≠ [] := by
  cases ch with
  | text => exact (slotsReflect events).text
  | reasoning => exact (slotsReflect events).reasoning

/-- The parts of a channel among parts that follow the slots: one if the channel has a slot, and
then the normalised text. -/
theorem filter_owns {slots : List PartSlot} {parts : List AssistantPart}
    (h : List.Forall₂ (IsPart events) slots parts) (hnodup : slots.Nodup) (ch : Channel) :
    (ch.slot ∉ slots → parts.filter ch.owns = []) ∧
      (ch.slot ∈ slots → ∃ part, parts.filter ch.owns = [part] ∧
        ch.IsPart (normalizeModelText (ch.raw events)) part) := by
  induction h with
  | nil => simp
  | @cons slot part slots parts hpart _ ih =>
    obtain ⟨hfresh, hrest⟩ := List.nodup_cons.mp hnodup
    obtain ⟨hnone, hsome⟩ := ih hrest
    by_cases hslot : slot = ch.slot
    · subst hslot
      -- The slot of the channel: its part is the one, as no later slot is the same.
      have howns : ch.owns part = true ∧ ch.IsPart (normalizeModelText (ch.raw events)) part := by
        cases ch with
        | text =>
          cases hpart
          exact ⟨rfl, rfl⟩
        | reasoning =>
          obtain ⟨content, rfl, hcontent⟩ := hpart
          exact ⟨rfl, content, rfl, hcontent⟩
      refine ⟨fun hno ↦ absurd List.mem_cons_self hno, fun _ ↦ ⟨part, ?_, howns.2⟩⟩
      rw [List.filter_cons_of_pos howns.1, hnone hfresh]
    · have howns : ch.owns part = false := by
        cases slot with
        | text =>
          cases hpart
          cases ch with
          | text => exact absurd rfl hslot
          | reasoning => rfl
        | reasoning =>
          obtain ⟨content, rfl, -⟩ := hpart
          cases ch with
          | text => rfl
          | reasoning => exact absurd rfl hslot
        | tool i =>
          obtain ⟨_, _, _, -, rfl, -⟩ := hpart
          cases ch <;> rfl
      rw [List.filter_cons_of_neg (by simp [howns]), List.mem_cons,
        or_iff_right (Ne.symm hslot)]
      exact ⟨hnone, hsome⟩

/-- The parts of a channel in the response to an accepted stream. -/
theorem filter_owns_response {response : ModelResponse} (h : Yields events response)
    (ch : Channel) :
    (normalizeModelText (ch.raw events) = [] → response.parts.filter ch.owns = []) ∧
      (normalizeModelText (ch.raw events) ≠ [] → ∃ part,
        response.parts.filter ch.owns = [part] ∧
          ch.IsPart (normalizeModelText (ch.raw events)) part) := by
  have hparts := filter_owns h.parts (slotsReflect events).nodup ch
  rw [mem_slotsOf_channel, not_not] at hparts
  exact hparts

omit [SerdeJson] in
theorem filterMap_content (parts : List AssistantPart) (ch : Channel) :
    parts.filterMap ch.content? = (parts.filter ch.owns).filterMap ch.content? := by
  rw [List.filterMap_filter]
  refine List.filterMap_congr fun part _ ↦ ?_
  by_cases howns : ch.owns part = true
  · rw [if_pos howns]
  · rw [if_neg howns]
    exact Channel.content?_of_not_owns (by simpa using howns)

/-- Text and reasoning do not depend on where the deltas are cut: the response has the normalised
text of all raw deltas as one part, or no part if that is empty, the progress adds up to it, and a
stream with the same raw text has the same part. -/
theorem chunk_independence (tools : List ToolSpec) (limits : LoopLimits)
    (hlimits : limits.validate = true) (events : List ModelEvent) (response : ModelResponse)
    (haccepted : assemble tools limits events = some (.ok response)) (ch : Channel) :
    (response.parts.filterMap ch.content? =
      if normalizeModelText (ch.raw events) = [] then []
      else [some (normalizeModelText (ch.raw events))]) ∧
    (∃ progress a, (Assembler.new tools limits).pushEach events = .ok (progress, a) ∧
      (ch.deltas progress).flatMap BoundedText.asStr = normalizeModelText (ch.raw events) ∧
      ∀ delta ∈ ch.deltas progress, delta.isEmpty = false) ∧
    ∀ events' response', assemble tools limits events' = some (.ok response') →
      ch.raw events' = ch.raw events →
      response'.parts.filter ch.owns = response.parts.filter ch.owns := by
  have hcaps := LoopLimits.caps_of_validate hlimits
  have hyields := (assemble_wellFormed tools limits hlimits events).2 response haccepted
  obtain ⟨hnone, hsome⟩ := filter_owns_response hyields ch
  refine ⟨?_, ?_, fun events' response' haccepted' hraw ↦ ?_⟩
  · rw [filterMap_content]
    by_cases hempty : normalizeModelText (ch.raw events) = []
    · rw [if_pos hempty, hnone hempty]
      rfl
    · obtain ⟨part, hparts, hpart⟩ := hsome hempty
      rw [if_neg hempty, hparts]
      simp [hpart.content]
  · -- The stream was accepted, so that its events were pushed one after the other.
    have hpush : ∃ a, (Assembler.new tools limits).pushAll events = .ok a := by
      unfold assemble at haccepted
      split at haccepted
      · rename_i a hpush
        exact ⟨a, hpush⟩
      · cases haccepted
    obtain ⟨a, hpush⟩ := hpush
    rw [Assembler.pushAll_eq_pushEach] at hpush
    cases hrun : (Assembler.new tools limits).pushEach events with
    | error err =>
      rw [hrun] at hpush
      cases hpush
    | ok result =>
      obtain ⟨hoffered, hne⟩ := pushEach_offered hcaps (reflects_new tools limits) events hrun ch
      refine ⟨result.1, result.2, rfl, ?_, hne⟩
      have hnew : ch.raw [] = [] := by cases ch <;> rfl
      rw [List.nil_append, hnew] at hoffered
      exact hoffered.symm
  · have hyields' := (assemble_wellFormed tools limits hlimits events').2 response' haccepted'
    obtain ⟨hnone', hsome'⟩ := filter_owns_response hyields' ch
    rw [hraw] at hnone' hsome'
    by_cases hempty : normalizeModelText (ch.raw events) = []
    · rw [hnone hempty, hnone' hempty]
    · obtain ⟨part, hparts, hpart⟩ := hsome hempty
      obtain ⟨part', hparts', hpart'⟩ := hsome' hempty
      rw [hparts, hparts', hpart'.unique hpart]

/-! ## Arguments -/

/-- The raw texts of the argument deltas of a tool call, one for each delta. -/
def argumentPieces (id : ToolCallId) (events : List ModelEvent) : List Text :=
  events.filterMap fun
    | .toolCallArgumentsDelta id' delta => if id' = id then some delta.asStr else none
    | _ => none

/-- The raw argument text of a tool call. -/
def rawArguments (id : ToolCallId) (events : List ModelEvent) : Text :=
  (argumentPieces id events).flatten

/-- The tool call is started and not ended. -/
def Opened (id : ToolCallId) (events : List ModelEvent) : Prop :=
  id ∈ startedIds events ∧ id ∉ endedIds events

omit [SerdeJson] in
theorem argumentsOf_eq (id : ToolCallId) (events : List ModelEvent) :
    argumentsOf id events = (argumentPieces id events).flatMap normalizeModelText := by
  induction events with
  | nil => rfl
  | cons e events ih =>
    simp only [argumentsOf, argumentPieces, List.flatMap_cons, List.filterMap_cons] at ih ⊢
    rw [ih]
    cases e with
    | toolCallArgumentsDelta id' delta =>
      by_cases hid : id' = id
      · simp [hid]
      · simp [hid]
    | textDelta _ | reasoningDelta _ | toolCallStart _ _ | toolCallEnd _ | usage _
    | providerReplay _ | finish _ => rfl

omit [SerdeJson] in
/-- A text that ends with CR is stored with LF at its end. -/
theorem exists_normalizeFrom_lf {text : Text} (cr : Bool) (h : endsWithCr false text = true) :
    ∃ init, normalizeFrom cr text = init ++ ['\n'] := by
  induction text generalizing cr with
  | nil => cases h
  | cons c text ih =>
    cases text with
    | nil =>
      obtain rfl : c = '\r' := by simpa using h
      have hcr : normalizeFrom cr ['\r'] = ['\n'] := by cases cr <;> decide
      exact ⟨[], hcr⟩
    | cons d text =>
      have hrest : endsWithCr false (d :: text) = true := h
      rw [normalizeFrom]
      split
      · exact ih false hrest
      · obtain ⟨init, hinit⟩ := ih (c == '\r') hrest
        exact ⟨normalizeChar c :: init, by rw [hinit]; rfl⟩

omit [SerdeJson] in
/-- Between pieces that are normalised one by one, a line break that is cut in two is doubled. What
does not distinguish a doubled LF from a single one does not see where the cuts are. -/
theorem flatMap_normalize {α : Type} {f : Text → α}
    (hf : ∀ before after, f (before ++ '\n' :: '\n' :: after) = f (before ++ '\n' :: after))
    (pieces : List Text) (before : Text) :
    f (before ++ pieces.flatMap normalizeModelText) =
      f (before ++ normalizeModelText pieces.flatten) := by
  induction pieces generalizing before with
  | nil => rfl
  | cons piece pieces ih =>
    rw [List.flatMap_cons, List.flatten_cons, ← List.append_assoc, ih, List.append_assoc,
      normalizeModelText_eq (piece ++ _), normalizeFrom_append, ← normalizeModelText_eq,
      normalizeModelText_eq pieces.flatten]
    cases hcr : endsWithCr false piece with
    | false => rfl
    | true =>
      -- Only an LF right after a CR is seen differently with and without the cut.
      cases hrest : pieces.flatten with
      | nil => rfl
      | cons c rest =>
        by_cases hc : c = '\n'
        · subst hc
          obtain ⟨init, hinit⟩ := exists_normalizeFrom_lf false hcr
          have hcut : normalizeFrom false ('\n' :: rest) = '\n' :: normalizeFrom false rest := by
            simp [normalizeFrom, normalizeChar]
          have hwhole : normalizeFrom true ('\n' :: rest) = normalizeFrom false rest := by
            simp [normalizeFrom]
          rw [normalizeModelText_eq, hinit, hcut, hwhole]
          simpa using hf (before ++ init) (normalizeFrom false rest)
        · have hc' : (c == '\n') = false := beq_eq_false_iff_ne.mpr hc
          simp only [normalizeFrom, hc', Bool.and_false]

omit [SerdeJson] in
/-- The stored arguments never have more bytes than the raw ones. -/
theorem byteLen_argumentsOf_le (id : ToolCallId) (events : List ModelEvent) :
    byteLen (argumentsOf id events) ≤ byteLen (rawArguments id events) := by
  rw [argumentsOf_eq, rawArguments]
  induction argumentPieces id events with
  | nil => exact le_rfl
  | cons piece pieces ih =>
    have hpiece := byteLen_normalizeModelText_le piece
    rw [List.flatMap_cons, List.flatten_cons, byteLen_append, byteLen_append]
    omega

omit [SerdeJson] in
theorem rawArguments_snoc (id : ToolCallId) (past : List ModelEvent) (delta : BoundedText) :
    rawArguments id (past ++ [.toolCallArgumentsDelta id delta]) =
      rawArguments id past ++ delta.asStr := by
  simp [rawArguments, argumentPieces]

/-- While a call is open, no finish was admitted. -/
theorem finishesOf_of_opened (h : Admitted tools limits events)
    (hopen : Opened id events) : finishesOf events = [] := by
  by_contra hfin
  exact hopen.2 (ended_of_finish h hfin id hopen.1)

/-- The accepted lists of events are the admitted ones. -/
theorem pushAll_new (hlimits : limits.validate = true) (events : List ModelEvent) :
    ((∃ a, (Assembler.new tools limits).pushAll events = .ok a) ↔ Admitted tools limits events) ∧
      ∀ a, (Assembler.new tools limits).pushAll events = .ok a →
        Reflects tools limits events a := by
  have hrun := pushAll_eq_ok (LoopLimits.caps_of_validate hlimits) (reflects_new tools limits)
    events (fun past e rest hsplit ↦ absurd hsplit (by simp))
  rw [List.nil_append] at hrun
  refine ⟨⟨hrun.2, fun h ↦ ?_⟩, fun a ha ↦ ?_⟩
  · obtain ⟨a, ha, -⟩ := hrun.1 h
    exact ⟨a, ha⟩
  · obtain ⟨a', ha', hreflects⟩ := hrun.1 (hrun.2 ⟨a, ha⟩)
    rw [ha] at ha'
    cases ha'
    exact hreflects

end Stream

/-- The call that was completed under an identifier. -/
def Assembler.callOf (a : Assembler) (toolCallId : ToolCallId) : Option ToolCall :=
  (a.tools.find? fun tool ↦ tool.toolCallId == toolCallId).bind ToolAssembly.call

namespace Stream

variable [SerdeJson] {tools : List ToolSpec} {limits : LoopLimits} {events : List ModelEvent}
  {id : ToolCallId} {a : Assembler}

/-- An ended call has the arguments its deltas stand for. -/
theorem callOf_of_reflects (h : Reflects tools limits events a) (hstarted : id ∈ startedIds events)
    (hended : id ∈ endedIds events) :
    ∃ call, a.callOf id = some call ∧
      SerdeJson.fromStr (argumentsOf id events) = some call.arguments := by
  have hfind : (a.tools.find? fun tool ↦ tool.toolCallId == id).isSome = true := by
    rw [← h.tools_ids, List.mem_map] at hstarted
    obtain ⟨tool, htool, rfl⟩ := hstarted
    rw [List.find?_isSome]
    exact ⟨tool, htool, by simp⟩
  obtain ⟨tool, htool⟩ := Option.isSome_iff_exists.mp hfind
  obtain rfl : tool.toolCallId = id := by simpa using List.find?_some htool
  have hcall := h.calls tool (List.mem_of_find?_eq_some htool)
  obtain ⟨call, hsome⟩ := Option.isSome_iff_exists.mp (hcall.ended.mpr hended)
  refine ⟨call, ?_, (hcall.call call hsome).2.2.2⟩
  rw [Assembler.callOf, htool]
  exact hsome

/-- The end of an open call is accepted where its arguments are there and are a JSON object within
the bounds. -/
theorem end_accepted_iff (hlimits : limits.validate = true)
    (ha : (Assembler.new tools limits).pushAll events = .ok a) (hopen : Opened id events) :
    (∃ a', (Assembler.new tools limits).pushAll (events ++ [.toolCallEnd id]) = .ok a') ↔
      (argumentsOf id events).isEmpty = false ∧
        ∃ value, SerdeJson.fromStr (argumentsOf id events) = some value ∧
          ToolCall.validArguments value limits.maxToolArgumentsBytes = true := by
  have hadmitted := (pushAll_new hlimits events).1.mp ⟨a, ha⟩
  rw [(pushAll_new hlimits _).1, admitted_snoc, and_iff_right hadmitted, List.isEmpty_eq_false_iff]
  constructor
  · exact fun hadm ↦ hadm.2.2.2.2
  · exact fun hargs ↦ ⟨finishesOf_of_opened hadmitted hopen, rfl, hopen.1, hopen.2, hargs⟩

/-- The call that an accepted end completes. -/
theorem callOf_after_end (hlimits : limits.validate = true) (hstarted : id ∈ startedIds events)
    (ha : (Assembler.new tools limits).pushAll (events ++ [.toolCallEnd id]) = .ok a) :
    ∃ call, a.callOf id = some call ∧
      SerdeJson.fromStr (argumentsOf id events) = some call.arguments := by
  have hend : argumentsOf id [.toolCallEnd id] = [] := rfl
  have hreflects := (pushAll_new hlimits _).2 a ha
  have hcall : id ∈ startedIds _ → id ∈ endedIds _ → _ := callOf_of_reflects hreflects
  rw [startedIds_append, endedIds_append, List.mem_append, List.mem_append, argumentsOf_append,
    hend, List.append_nil] at hcall
  apply hcall
  · exact .inl hstarted
  · exact .inr (by simp [endedIds])

/-- The arguments of a tool call do not depend on where its deltas are cut, if the JSON parser makes
no difference between a doubled LF and a single one: while the raw text fits no delta is rejected,
and two streams with the same raw text have the call ended both or neither, with equal arguments. -/
theorem arguments_chunk_independence (tools : List ToolSpec) (limits : LoopLimits)
    (hlimits : limits.validate = true)
    (hparser : ∀ before after : Text, SerdeJson.fromStr (before ++ '\n' :: '\n' :: after) =
      SerdeJson.fromStr (before ++ '\n' :: after)) (id : ToolCallId) :
    (∀ past delta a, (Assembler.new tools limits).pushAll past = .ok a → Opened id past →
      byteLen (rawArguments id (past ++ [.toolCallArgumentsDelta id delta])) ≤ 65536 →
      ∃ a', (Assembler.new tools limits).pushAll (past ++ [.toolCallArgumentsDelta id delta]) =
        .ok a') ∧
    ∀ first second a b, (Assembler.new tools limits).pushAll first = .ok a →
      (Assembler.new tools limits).pushAll second = .ok b → Opened id first → Opened id second →
      rawArguments id first = rawArguments id second →
      ((∃ a', (Assembler.new tools limits).pushAll (first ++ [.toolCallEnd id]) = .ok a') ↔
        ∃ b', (Assembler.new tools limits).pushAll (second ++ [.toolCallEnd id]) = .ok b') ∧
      ∀ a' b', (Assembler.new tools limits).pushAll (first ++ [.toolCallEnd id]) = .ok a' →
        (Assembler.new tools limits).pushAll (second ++ [.toolCallEnd id]) = .ok b' →
        ∃ call call', a'.callOf id = some call ∧ b'.callOf id = some call' ∧
          call.arguments = call'.arguments := by
  refine ⟨fun past delta a hpast hopen hmax ↦ ?_,
    fun first second a b hfirst hsecond hopen hopen' hraw ↦ ?_⟩
  · have hadmitted := (pushAll_new hlimits past).1.mp ⟨a, hpast⟩
    have hdelta : byteLen delta.asStr ≤ maxModelEventTextBytes := by
      rw [rawArguments_snoc, byteLen_append] at hmax
      exact le_trans (Nat.le_add_left _ _) hmax
    rw [(pushAll_new hlimits _).1, admitted_snoc]
    refine ⟨hadmitted, finishesOf_of_opened hadmitted hopen, ?_, hopen.1, hopen.2, ?_⟩
    · exact decide_eq_true hdelta
    · exact (byteLen_argumentsOf_le id _).trans hmax
  · -- What the cuts change is not seen by the parser, nor by the test for emptiness.
    have hunseen {α : Type} {f : Text → α} (hf : ∀ before after : Text,
        f (before ++ '\n' :: '\n' :: after) = f (before ++ '\n' :: after)) :
        f (argumentsOf id first) = f (argumentsOf id second) := by
      have hfirst := flatMap_normalize hf (argumentPieces id first) []
      have hsecond := flatMap_normalize hf (argumentPieces id second) []
      rw [List.nil_append, List.nil_append, ← argumentsOf_eq] at hfirst hsecond
      rw [hfirst, hsecond]
      exact congrArg (fun raw ↦ f (normalizeModelText raw)) hraw
    have hparse := hunseen hparser
    have hempty := hunseen (f := List.isEmpty) fun before after ↦ by cases before <;> rfl
    refine ⟨?_, fun a' b' ha' hb' ↦ ?_⟩
    · rw [end_accepted_iff hlimits hfirst hopen, end_accepted_iff hlimits hsecond hopen', hparse,
        hempty]
    · obtain ⟨call, hcall, hargs⟩ := callOf_after_end hlimits hopen.1 ha'
      obtain ⟨call', hcall', hargs'⟩ := callOf_after_end hlimits hopen'.1 hb'
      refine ⟨call, call', hcall, hcall', ?_⟩
      rw [hparse, hargs'] at hargs
      exact (Option.some.inj hargs).symm

/-! ### Cut and whole -/

/-- A parser that knows the empty object, with LF anywhere. -/
@[reducible]
def brokenObject : SerdeJson where
  fromStr text := if text.filter (fun c ↦ !(c == '\n')) = ['\x7b', '\x7d'] then some (.object [])
    else none

omit [SerdeJson] in
theorem brokenObject_doubled (before after : Text) :
    brokenObject.fromStr (before ++ '\n' :: '\n' :: after) =
      brokenObject.fromStr (before ++ '\n' :: after) := by
  have hfilter : (before ++ '\n' :: '\n' :: after).filter (fun c ↦ !(c == '\n')) =
      (before ++ '\n' :: after).filter (fun c ↦ !(c == '\n')) := by
    rw [List.filter_append, List.filter_append]
    rfl
  change ite _ _ _ = ite _ _ _
  rw [hfilter]

/-- Arguments cut between CR and LF, with another event between the two. -/
def cutArguments : List ModelEvent :=
  [.toolCallStart firstCall readName, .toolCallArgumentsDelta firstCall ⟨['\x7b', '\r'], by decide⟩,
    .textDelta ⟨['c', '\r'], by decide⟩,
    .toolCallArgumentsDelta firstCall ⟨['\n', '\x7d'], by decide⟩]

/-- The same arguments in one delta. -/
def wholeArguments : List ModelEvent :=
  [.toolCallStart firstCall readName,
    .toolCallArgumentsDelta firstCall ⟨['\x7b', '\r', '\n', '\x7d'], by decide⟩]

omit [SerdeJson] in
/-- The text of the stream with a text and a call. -/
theorem chunk_independence_readStream :
    ∃ response, @assemble emptyObject [readSpec] LoopLimits.default readStream =
        some (.ok response) ∧
      response.parts.filterMap Channel.text.content? = [some ['a', '\n', 'b']] := by
  refine ⟨_, rfl, ?_⟩
  exact (@chunk_independence emptyObject [readSpec] LoopLimits.default (by decide) readStream _ rfl
    .text).1

omit [SerdeJson] in
/-- The arguments cut in two and the whole ones. -/
theorem arguments_chunk_independence_cut :
    rawArguments firstCall cutArguments = rawArguments firstCall wholeArguments ∧
      argumentsOf firstCall cutArguments ≠ argumentsOf firstCall wholeArguments ∧
      ∃ a b call call',
        @Assembler.pushAll brokenObject (Assembler.new [readSpec] LoopLimits.default)
          (cutArguments ++ [.toolCallEnd firstCall]) = .ok a ∧
        @Assembler.pushAll brokenObject (Assembler.new [readSpec] LoopLimits.default)
          (wholeArguments ++ [.toolCallEnd firstCall]) = .ok b ∧
        a.callOf firstCall = some call ∧ b.callOf firstCall = some call' ∧
        call.arguments = call'.arguments := by
  obtain ⟨call, call', hcall, hcall', hargs⟩ :=
    ((@arguments_chunk_independence brokenObject [readSpec] LoopLimits.default (by decide)
      brokenObject_doubled firstCall).2 cutArguments wholeArguments _ _ rfl rfl
        ⟨by decide, by decide⟩
      ⟨by decide, by decide⟩ (by decide)).2 _ _ rfl rfl
  exact ⟨by decide, by decide, _, _, call, call', rfl, rfl, hcall, hcall', hargs⟩

end Stream

end MinicoreRuntime
