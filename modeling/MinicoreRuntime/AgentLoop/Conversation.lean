import MinicoreRuntime.AgentLoop.Continuity
import MinicoreRuntime.AgentLoop.Fallback
import MinicoreRuntime.AgentLoop.Persistence
import MinicoreRuntime.AgentLoop.Start
import MinicoreRuntime.Wire.Canonical

/-!
# Conversations

A host keeps a conversation as JSON. It reads the history, starts a loop with it, and writes the
history followed by what the loop reported; then it does so again. However many loops there are, and
however each of them ends, nothing is lost or changed on the way, and the history stays one that the
next loop can send to a model. The task around a runner that unwound reports no items, and then the
history is what it was.

## Main definitions

* `Conversation`: what is stored, and what was said.

## Main results

* `readable_report`, `closed_report`: what a loop reports can be stored and continued.
* `conversation_survives`: what was said is what is read from the store.
-/

namespace MinicoreRuntime

open Interactive

/-! ## What a loop reports -/

/-- Items that a run appends can be read. -/
theorem HistoryItem.Sound.readable {item : HistoryItem} (h : item.Sound) : item.Readable := by
  cases item with
  | assistant item =>
    refine ⟨h.1, fun part hpart ↦ ⟨AssistantPart.validate_eq_ok.mpr ?_, ?_⟩⟩
    · intro text htext
      exact h.2.texts text (htext ▸ hpart)
    · intro call hcall
      exact h.2.callIndex_lt (hcall ▸ hpart)
  | toolResult item => exact h
  | user item | summary item => trivial

section

variable [SerdeJson] {setup : Setup} {clock : Nat} {schedule : List Turn} {report : LoopReport}

/-- What a loop reports can be read. -/
theorem readable_report (h : Delivers (setup.task clock schedule) report) :
    ∀ item ∈ report.appended, item.Readable := by
  intro item hitem
  rcases delivers_task h with hrun | rfl
  · obtain ⟨-, haccepts, hdelivered⟩ := conforms setup clock schedule
    obtain ⟨newer, n, r, older, hsplit⟩ := delivered_at (hdelivered report hrun)
    rw [hsplit] at haccepts
    obtain ⟨hpast, ⟨-, happended⟩, -⟩ := haccepts.of_split
    rw [happended, (session_run setup older).2.2.1] at hitem
    exact (sound_of_accepts hpast item hitem).readable
  · -- Where the runner unwound nothing is reported.
    exact absurd hitem List.not_mem_nil

/-- The inputs that the runner of a task took were taken in the task. -/
theorem legal_of_task {input : UserInput}
    (h : ∀ input' ∈ input :: handedOver (setup.task clock schedule).2.trace, LegalInput input') :
    ∀ input' ∈ input :: handedOver (setup.run clock schedule).2.trace, LegalInput input' := by
  obtain ⟨newer, hlog, -⟩ := task_extends setup clock schedule
  have htrace : (setup.task clock schedule).2.trace =
      traceOf newer ++ (setup.run clock schedule).2.trace := by
    rw [World.trace, hlog, traceOf_append]
    rfl
  rw [htrace, handedOver_append] at h
  intro input' hinput
  apply h
  rcases List.mem_cons.mp hinput with rfl | hinput
  · exact List.mem_cons_self
  · exact List.mem_cons_of_mem _ (List.mem_append_left _ hinput)

/-- What a loop reports leaves no tool call without its result. -/
theorem closed_report (h : Delivers (setup.task clock schedule) report)
    (hlegal : ∀ input ∈ setup.request.input :: handedOver (setup.task clock schedule).2.trace,
      LegalInput input) : report.appended = [] ∨ Closed report.appended := by
  rcases delivers_task h with hrun | rfl
  · obtain ⟨-, haccepts, hdelivered⟩ := conforms setup clock schedule
    obtain ⟨⟨rounds, tail, hitems⟩, hsound⟩ :=
      (continues_of_accepts haccepts).report report (hdelivered report hrun)
    rw [(session_run setup (setup.run clock schedule).2.trace).2.1] at hsound
    rw [hitems] at hsound ⊢
    exact .inr (closed_transcript (legal_of_task hlegal) hsound)
  · exact .inl rfl

end

/-- An accepted history stays accepted when closed items follow. -/
theorem AcceptedHistory.append {history items : List HistoryItem} (h : AcceptedHistory history)
    (hitems : items = [] ∨ Closed items) : AcceptedHistory (history ++ items) := by
  by_cases hne : items = []
  · rwa [hne, List.append_nil]
  obtain ⟨before, after, -, hproject, -, hrequest⟩ := h.continued (hitems.resolve_left hne) hne
  refine .inr ⟨before ++ after, ?_, ?_⟩
  · -- The projection only looks at all items together.
    have hview : HistoryView.items ⟨history ++ items, []⟩ = HistoryView.items ⟨history, items⟩ := by
      simp [HistoryView.items]
    unfold DefaultPromptProvider.project at hproject ⊢
    rw [hview]
    exact hproject
  · exact (ModelRequest.withValidatedTools_eq_ok.mp (hrequest [] .default .auto)).2.1

/-! ## Conversations -/

/-- A conversation that a host keeps: the JSON that is stored, and what was said so far. -/
inductive Conversation [SerdeJson] : Json → List HistoryItem → Prop
  /-- The host starts from any history that it can read and that can be sent to a model. -/
  | begin {stored : Json} {history : List HistoryItem} :
    deserializeVec HistoryItem.deserialize stored = some history → AcceptedHistory history →
    Conversation stored history
  /-- A loop is started with what is read, with inputs that can be sent to a model; what is read is
  stored again with what the loop reports. -/
  | loop {stored : Json} {said history : List HistoryItem} {found : Surroundings}
    {input : UserInput}
    {config : ExecutionConfig} {options : LoopOptions} {setup : Setup} {clock : Nat}
    {schedule : List Turn} {report : LoopReport} :
    Conversation stored said →
    deserializeVec HistoryItem.deserialize stored = some history →
    AgentLoop.start found ⟨history, input, config⟩ options = some (.ok setup) →
    (∀ input' ∈ input :: handedOver (setup.task clock schedule).2.trace, LegalInput input') →
    Delivers (setup.task clock schedule) report →
    Conversation (serializeVec HistoryItem.serialize (history ++ report.appended))
      (said ++ report.appended)

/-- What was said is what is read from the store, after any number of loops: nothing is lost,
changed or said twice, whatever the hosts, the models and the tools of the loops did. And the
history can be sent to a model by the next loop. -/
theorem conversation_survives [SerdeJson] {stored : Json} {said : List HistoryItem}
    (h : Conversation stored said) :
    deserializeVec HistoryItem.deserialize stored = some said ∧ AcceptedHistory said := by
  induction h with
  | begin hread haccepted => exact ⟨hread, haccepted⟩
  | @loop stored said history found input config options setup clock schedule report _ hread hstart
      hlegal hdelivers ih =>
    obtain ⟨hstored, haccepted⟩ := ih
    -- What was read is what was said so far.
    obtain rfl := Option.some.inj (hread.symm.trans hstored)
    obtain ⟨hrequest, -, -, -, -⟩ := AgentLoop.start_eq_ok.mp hstart
    have hinputs : ∀ input' ∈ setup.request.input :: handedOver (setup.task clock schedule).2.trace,
        LegalInput input' := by
      rw [hrequest]
      exact hlegal
    have hclosed := closed_report hdelivers hinputs
    refine ⟨HistoryItem.canonical.vec.readBack _ fun item hitem ↦ ?_, haccepted.append hclosed⟩
    rcases List.mem_append.mp hitem with hitem | hitem
    · exact HistoryItem.canonical.vec.legal stored _ hread item hitem
    · exact readable_report hdelivers item hitem

/-- A conversation of one loop. -/
theorem conversation_survives_sample :
    ∃ stored said, Conversation stored said ∧ said.length = 4 ∧
      deserializeVec HistoryItem.deserialize stored = some said := by
  obtain ⟨report, hreturned, hlength⟩ := Sample.returns
  have hstart : AgentLoop.start ⟨true, 0, [some Sample.setup.ctx.id.bytes]⟩ Sample.setup.request
      Sample.options = some (.ok Sample.setup) :=
    AgentLoop.start_eq_ok.mpr ⟨rfl, rfl, ⟨by decide, by decide, by decide, by decide⟩, rfl,
      by decide⟩
  have htaken : handedOver (Sample.setup.task 0 Sample.schedule).2.trace =
      [.text ⟨"go".toList, by decide⟩] := by decide +kernel
  have hlegal : ∀ input ∈ Sample.setup.request.input ::
      handedOver (Sample.setup.task 0 Sample.schedule).2.trace, LegalInput input := by
    rw [htaken]
    intro input hinput
    rcases List.mem_cons.mp hinput with rfl | hinput
    · exact .of_plain (by decide +kernel) (by decide +kernel) (by decide +kernel)
    · rw [List.mem_singleton.mp hinput]
      exact .of_plain (by decide +kernel) (by decide +kernel) (by decide +kernel)
  have hbegin : Conversation (.array []) [] := .begin rfl (.inl rfl)
  -- The runner returns, so that the task is its run.
  have htask : Sample.setup.task 0 Sample.schedule = Sample.setup.run 0 Sample.schedule := by
    rcases task_eq_run_or_unwound Sample.setup 0 Sample.schedule with heq | ⟨w, hunwound⟩
    · exact heq
    · exact absurd (hreturned.symm.trans (congrArg Prod.fst hunwound)) (by simp)
  have hreturnedTask := (congrArg Prod.fst htask).trans hreturned
  have hloop := hbegin.loop rfl hstart hlegal (.inl hreturnedTask)
  exact ⟨_, _, hloop, hlength, (conversation_survives hloop).1⟩

end MinicoreRuntime
