import MinicoreRuntime.AgentLoop.Conformance

/-!
# Transcripts

The shape of what a runner appends: the prompt, then rounds of inputs, a response and the results of
its tool calls, then inputs that no request was issued with. On every path on which a loop can end,
each tool call that was appended has its result.

## Main definitions

* `Round`: a round, with the proof that its results answer its tool calls.
* `Transcript`: the shape.
* `Shape`: the invariant of sessions.

## Main results

* `shape_next`: an operation keeps the invariant.
* `session_run`: what a trace says about its session.
* `report_transcript`: the shape of every report.
* `report_steering`: the inputs in every report are those that were handed over.
-/

namespace MinicoreRuntime

open Interactive

/-! ## The shape -/

/-- A result answers a tool call of the request with the given index. -/
structure ResultOf (requestIndex : Nat) (call : ToolCall) (result : ToolResultHistory) : Prop where
  requestIndex : result.requestIndex = requestIndex
  callId : result.callId = call.toolCallId
  toolName : result.toolName = call.name

/-- The inputs handed over since the last response, a response, and the results of its tool calls
in order. -/
structure Round where
  steering : List UserInput
  assistant : AssistantHistory
  results : List ToolResultHistory
  settled : List.Forall₂ (ResultOf assistant.requestIndex) (toolCalls assistant.content) results

/-- The items of inputs handed over. -/
def steeringItems (id : LoopId) (inputs : List UserInput) : List HistoryItem :=
  inputs.map fun input ↦ .user ⟨id, .steering, input⟩

/-- The items of a round. -/
def Round.items (id : LoopId) (round : Round) : List HistoryItem :=
  steeringItems id round.steering ++ .assistant round.assistant ::
    round.results.map HistoryItem.toolResult

/-- The items of a prompt, rounds, and the inputs after them. -/
def transcript (id : LoopId) (input : UserInput) (rounds : List Round) (tail : List UserInput) :
    List HistoryItem :=
  .user ⟨id, .prompt, input⟩ :: (rounds.flatMap (Round.items id) ++ steeringItems id tail)

/-- The shape of what a runner appends. The requests are numbered from zero, and only the last
response may be without tool calls, with nothing after it. -/
def Transcript (id : LoopId) (input : UserInput) (items : List HistoryItem) : Prop :=
  ∃ rounds tail, items = transcript id input rounds tail ∧
    rounds.map (fun round ↦ round.assistant.requestIndex) = List.range rounds.length ∧
    ∀ earlier round later, rounds = earlier ++ round :: later →
      toolCalls round.assistant.content = [] → later = [] ∧ tail = []

/-- The inputs handed over among some items. -/
def steering : List HistoryItem → List UserInput :=
  List.filterMap fun item ↦ match item with
    | .user ⟨_, .steering, input⟩ => some input
    | _ => none

/-! ## The invariant -/

/-- Rounds after which another one may follow: they are numbered, up to the largest index there is,
and every response has tool calls. -/
structure Continuing (rounds : List Round) : Prop where
  numbered : rounds.map (fun round ↦ round.assistant.requestIndex) =
    (List.range rounds.length).map fun i ↦ min i (2 ^ 32 - 1)
  calls : ∀ round ∈ rounds, toolCalls round.assistant.content ≠ []

/-- The invariant between the phase of a session, the items appended, and the number of responses
among them. -/
def Shape (setup : Setup) (phase : Phase) (items : List HistoryItem) (responses : Nat) : Prop :=
  match phase with
  | .starting => items = [] ∧ responses = 0
  | .boundary | .prepared _ _ _ =>
    ∃ rounds tail, Continuing rounds ∧ responses = rounds.length ∧
      items = transcript setup.ctx.id setup.request.input rounds tail
  | .issued issue =>
    issue.index = min responses (2 ^ 32 - 1) ∧
      ∃ rounds tail, Continuing rounds ∧ responses = rounds.length ∧
        items = transcript setup.ctx.id setup.request.input rounds tail
  | .calling c =>
    ∃ rounds tail item done results, Continuing rounds ∧ responses = rounds.length + 1 ∧
      item.requestIndex = min rounds.length (2 ^ 32 - 1) ∧ item.requestIndex = c.issue.index ∧
      toolCalls item.content = done ++ c.call :: c.rest ∧
      List.Forall₂ (ResultOf item.requestIndex) done results ∧
      items = transcript setup.ctx.id setup.request.input rounds tail ++
        .assistant item :: results.map HistoryItem.toolResult
  | .concluded =>
    ∃ rounds round, Continuing rounds ∧ toolCalls round.assistant.content = [] ∧
      responses = rounds.length + 1 ∧
      round.assistant.requestIndex = min rounds.length (2 ^ 32 - 1) ∧
      items = transcript setup.ctx.id setup.request.input (rounds ++ [round]) []

/-- The invariant of sessions. -/
def Session.Shaped (setup : Setup) (s : Session) : Prop :=
  Shape setup s.phase s.working.appended s.responses

theorem Continuing.nil : Continuing [] := ⟨rfl, by simp⟩

/-- A round that was completed joins the others. -/
theorem Continuing.snoc {rounds : List Round} (h : Continuing rounds) {round : Round}
    (hindex : round.assistant.requestIndex = min rounds.length (2 ^ 32 - 1))
    (hcalls : toolCalls round.assistant.content ≠ []) : Continuing (rounds ++ [round]) := by
  constructor
  · rw [List.map_append, h.numbered, List.length_append, List.length_singleton, List.range_succ,
      List.map_append, List.map_singleton, List.map_singleton, hindex]
  · intro round' hmem
    rcases List.mem_append.mp hmem with hmem | hmem
    · exact h.calls round' hmem
    · rw [List.mem_singleton.mp hmem]
      exact hcalls

theorem transcript_steering (id : LoopId) (input : UserInput) (rounds : List Round)
    (tail : List UserInput) (next : UserInput) :
    transcript id input rounds tail ++ [.user ⟨id, .steering, next⟩] =
      transcript id input rounds (tail ++ [next]) := by
  simp [transcript, steeringItems]

theorem transcript_round (id : LoopId) (input : UserInput) (rounds : List Round) (round : Round) :
    transcript id input rounds round.steering ++ .assistant round.assistant ::
        round.results.map HistoryItem.toolResult =
      transcript id input (rounds ++ [round]) [] := by
  simp [transcript, Round.items, steeringItems]

/-- Changing the clearance of a call keeps the shape. -/
theorem Shape.mapClearance {setup : Setup} {phase : Phase} {items : List HistoryItem}
    {responses : Nat} (h : Shape setup phase items responses) (f : Clearance → Clearance) :
    Shape setup (Session.mapClearance f phase) items responses := by
  cases phase with
  | calling c => exact h
  | _ => exact h

section

variable {setup : Setup} {s : Session}

/-- At a boundary the shape is the same before and after a prompt was prepared. -/
theorem Session.AtBoundary.shape (h : s.AtBoundary) (hs : s.Shaped setup) :
    Shape setup .boundary s.working.appended s.responses := by
  unfold Shaped at hs
  rcases h.2.2 with hphase | ⟨provider, request, messages, hphase⟩
  · rwa [hphase] at hs
  · rw [hphase] at hs
    exact hs

/-- An item that the rules permit keeps the shape. -/
theorem shape_append (h : s.Shaped setup) {item : HistoryItem} (hitem : s.PermitsItem setup item)
    (n : Nat) (r : Unit) : (s.next (.append item) n r).Shaped setup := by
  unfold Session.Shaped at h ⊢
  cases item with
  | user item =>
    obtain ⟨loopId, kind, input⟩ := item
    cases kind with
    | prompt =>
      obtain ⟨hphase, rfl, rfl⟩ := hitem
      rw [hphase] at h
      obtain ⟨hitems, hresponses⟩ := h
      refine ⟨[], [], .nil, hresponses, ?_⟩
      show s.working.appended ++ _ = _
      rw [hitems]
      rfl
    | steering =>
      obtain ⟨rfl, hphase, -⟩ := hitem
      show Shape setup s.phase (s.working.appended ++ _) s.responses
      rw [hphase] at h ⊢
      obtain ⟨rounds, tail, hrounds, hresponses, hitems⟩ := h
      refine ⟨rounds, tail ++ [input], hrounds, hresponses, ?_⟩
      rw [hitems, transcript_steering]
  | assistant item =>
    obtain ⟨-, issue, response, hphase, hitem, -⟩ := hitem
    rw [hphase] at h
    obtain ⟨hindex, rounds, tail, hrounds, hresponses, hitems⟩ := h
    have hrequest : item.requestIndex = issue.index := by rw [hitem]; rfl
    have hnumber : item.requestIndex = min rounds.length (2 ^ 32 - 1) := by
      rw [hrequest, hindex, hresponses]
    show Shape setup (Session.afterAppend s.phase (.assistant item))
      (s.working.appended ++ [.assistant item]) (s.responses + 1)
    rw [hphase, hitems]
    cases hcalls : toolCalls item.content with
    | nil =>
      -- The response is the last one, and a round of its own.
      simp only [Session.afterAppend, hcalls]
      refine ⟨rounds, ⟨tail, item, [], by rw [hcalls]; exact .nil⟩, hrounds, hcalls,
        congrArg (· + 1) hresponses, hnumber, ?_⟩
      rw [← transcript_round]
      rfl
    | cons call rest =>
      simp only [Session.afterAppend, hcalls]
      exact ⟨rounds, tail, item, [], [], hrounds, congrArg (· + 1) hresponses, hnumber, hrequest,
        hcalls, .nil, rfl⟩
  | toolResult result =>
    obtain ⟨-, c, hphase, -, hrequest, hcall, hname⟩ := hitem
    rw [hphase] at h
    obtain ⟨rounds, tail, item, done, results, hrounds, hresponses, hnumber, hindex, hcalls, hdone,
      hitems⟩ := h
    have hresult : ResultOf item.requestIndex c.call result :=
      ⟨hrequest.trans hindex.symm, hcall, hname⟩
    have hsnoc : List.Forall₂ (ResultOf item.requestIndex) (done ++ [c.call])
        (results ++ [result]) := List.rel_append hdone (.cons hresult .nil)
    show Shape setup (Session.afterAppend s.phase (.toolResult result))
      (s.working.appended ++ [.toolResult result]) s.responses
    rw [hphase, hitems]
    obtain ⟨issue, call, rest, clearance, started⟩ := c
    cases rest with
    | nil =>
      -- The round is complete.
      have hsettled : List.Forall₂ (ResultOf item.requestIndex) (toolCalls item.content)
          (results ++ [result]) := by
        rw [hcalls]
        exact hsnoc
      let round : Round := ⟨tail, item, results ++ [result], hsettled⟩
      refine ⟨rounds ++ [round], [], hrounds.snoc hnumber (by simp [round, hcalls]),
        by simpa using hresponses, ?_⟩
      rw [← transcript_round]
      simp [round]
    | cons next rest =>
      refine ⟨rounds, tail, item, done ++ [call], results ++ [result], hrounds, hresponses, hnumber,
        hindex, ?_, hsnoc, ?_⟩
      · rw [hcalls]
        simp
      · simp
  | summary item => exact hitem.elim

/-- An operation that the rules permit keeps the shape. -/
theorem shape_next (h : s.Shaped setup) {o : Op} (ho : s.Permits setup o) (n : Nat) (r : o.Answer) :
    (s.next o n r).Shaped setup := by
  cases o with
  | append item => exact shape_append h ho n r
  | takeConfig =>
    -- A new configuration takes a prompt that was prepared back to the boundary.
    have hboundary : s.AtBoundary := ho
    cases r with
    | none => exact h
    | some pending => exact hboundary.shape h
  | takeInputs =>
    show Shape setup (if r.isEmpty then s.phase else .boundary) s.working.appended s.responses
    have hboundary : s.AtBoundary := ho
    split
    · exact h
    · exact hboundary.shape h
  | commitRevision revision =>
    obtain ⟨-, -, -, request, messages, hphase, -⟩ := ho
    unfold Session.Shaped at h ⊢
    rw [hphase] at h
    obtain ⟨rounds, tail, hrounds, hresponses, hitems⟩ := h
    simp only [Session.next, hphase]
    exact ⟨rfl, rounds, tail, hrounds, hresponses, hitems⟩
  | makeFuture call =>
    cases call with
    | execute tool invocation deadline =>
      obtain ⟨c, enabled, hphase, -⟩ := ho
      unfold Session.Shaped at h ⊢
      simp only [Session.next, Session.afterMake, hphase] at h ⊢
      exact h
    | _ => exact h
  | pollPort call deadline =>
    cases r with
    | ready result =>
      cases call with
      | prepare provider request =>
        cases result with
        | error e => exact h
        | ok messages =>
          unfold Session.Shaped at h
          rw [ho.2.1] at h
          exact h
      | decide policy invocation spec deadline =>
        cases result with
        | error e => exact h
        | ok decision => exact Shape.mapClearance h fun _ ↦ Session.decided decision
      | execute tool invocation deadline => exact h
    | _ => exact h
  | setInteraction slot =>
    cases r with
    | false => exact h
    | true => exact Shape.mapClearance h _
  | pollInteraction channel deadline =>
    show (s.afterPoll channel r).Shaped setup
    unfold Session.afterPoll
    split
    · exact Shape.mapClearance h _
    · exact h
  | _ => exact h

/-- A settled session has appended a transcript, of as many responses as it counts. -/
theorem Session.Shaped.settled (h : s.Shaped setup) (hs : s.Settled)
    (hresponses : s.responses ≤ 2 ^ 32) :
    Transcript setup.ctx.id setup.request.input s.working.appended := by
  have hnumbers : ∀ n, n ≤ 2 ^ 32 →
      (List.range n).map (fun i ↦ min i (2 ^ 32 - 1)) = List.range n := by
    intro n hn
    refine (List.map_congr_left fun i hi ↦ ?_).trans (List.map_id _)
    have := List.mem_range.mp hi
    show min i (2 ^ 32 - 1) = i
    omega
  have hopen : ∀ rounds tail, Continuing rounds → s.responses = rounds.length →
      s.working.appended = transcript setup.ctx.id setup.request.input rounds tail →
      Transcript setup.ctx.id setup.request.input s.working.appended := by
    intro rounds tail hrounds hcount hitems
    refine ⟨rounds, tail, hitems, ?_, ?_⟩
    · rw [hrounds.numbered, hnumbers _ (by omega)]
    · rintro earlier round later rfl hcalls
      exact absurd hcalls (hrounds.calls round (by simp))
  unfold Shaped at h
  cases hphase : s.phase with
  | starting => exact absurd hphase hs.2.1
  | calling c => exact absurd hphase (hs.2.2 c)
  | boundary =>
    rw [hphase] at h
    obtain ⟨rounds, tail, hrounds, hcount, hitems⟩ := h
    exact hopen rounds tail hrounds hcount hitems
  | prepared provider request messages =>
    rw [hphase] at h
    obtain ⟨rounds, tail, hrounds, hcount, hitems⟩ := h
    exact hopen rounds tail hrounds hcount hitems
  | issued issue =>
    rw [hphase] at h
    obtain ⟨-, rounds, tail, hrounds, hcount, hitems⟩ := h
    exact hopen rounds tail hrounds hcount hitems
  | concluded =>
    rw [hphase] at h
    obtain ⟨rounds, last, hrounds, hcalls, hcount, hnumber, hitems⟩ := h
    refine ⟨rounds ++ [last], [], hitems, ?_, ?_⟩
    · rw [List.map_append, hrounds.numbered, List.map_singleton, hnumber, hnumbers _ (by omega),
        List.length_append, List.length_singleton, List.range_succ]
      have hmin : min rounds.length (2 ^ 32 - 1) = rounds.length := by omega
      rw [hmin]
    · intro earlier round later heq hround
      -- Among the rounds only the last one is without tool calls.
      rcases List.eq_nil_or_concat later with rfl | ⟨later', last', rfl⟩
      · exact ⟨rfl, rfl⟩
      · have hinit : rounds = earlier ++ round :: later' := by
          have hlast : rounds ++ [last] = (earlier ++ round :: later') ++ [last'] := by
            simpa using heq
          exact (List.append_inj' hlast rfl).1
        refine absurd hround (hrounds.calls round ?_)
        rw [hinit]
        simp

/-- A settled session has appended rounds, whatever their number. -/
theorem Session.Shaped.rounds (h : s.Shaped setup) (hs : s.Settled) :
    ∃ rounds tail,
      s.working.appended = transcript setup.ctx.id setup.request.input rounds tail := by
  unfold Shaped at h
  cases hphase : s.phase with
  | starting => exact absurd hphase hs.2.1
  | calling c => exact absurd hphase (hs.2.2 c)
  | boundary =>
    rw [hphase] at h
    obtain ⟨rounds, tail, -, -, hitems⟩ := h
    exact ⟨rounds, tail, hitems⟩
  | prepared provider request messages =>
    rw [hphase] at h
    obtain ⟨rounds, tail, -, -, hitems⟩ := h
    exact ⟨rounds, tail, hitems⟩
  | issued issue =>
    rw [hphase] at h
    obtain ⟨-, rounds, tail, -, -, hitems⟩ := h
    exact ⟨rounds, tail, hitems⟩
  | concluded =>
    rw [hphase] at h
    obtain ⟨rounds, last, -, -, -, -, hitems⟩ := h
    exact ⟨rounds ++ [last], [], hitems⟩

/-! ## Requests and responses -/

/-- Each request but one that is under way has its response. -/
structure Session.Counted (s : Session) : Prop where
  issued : ∀ issue, s.phase = .issued issue → s.issues = s.responses + 1
  other : (∀ issue, s.phase ≠ .issued issue) → s.issues = s.responses

theorem Session.Counted.le (h : s.Counted) : s.responses ≤ s.issues := by
  by_cases hissued : ∃ issue, s.phase = .issued issue
  · obtain ⟨issue, hphase⟩ := hissued
    exact (h.issued issue hphase).symm ▸ Nat.le_succ _
  · exact (h.other (by simpa using hissued)).ge

theorem mapClearance_eq_issued {f : Clearance → Clearance} {phase : Phase} {issue : Issue} :
    Session.mapClearance f phase = .issued issue ↔ phase = .issued issue := by
  cases phase with
  | calling c => simp [Session.mapClearance]
  | _ => exact Iff.rfl

/-- An item that the rules permit is not the beginning of a request. -/
theorem afterAppend_ne_issued {item : HistoryItem} (ho : s.PermitsItem setup item) (issue : Issue) :
    Session.afterAppend s.phase item ≠ .issued issue := by
  cases item with
  | user item =>
    obtain ⟨loopId, kind, input⟩ := item
    cases kind with
    | prompt => simp [Session.afterAppend]
    | steering => simp [Session.afterAppend, ho.2.1]
  | assistant item =>
    obtain ⟨-, issue, response, hphase, -⟩ := ho
    rw [hphase]
    cases hcalls : toolCalls item.content <;> simp [Session.afterAppend, hcalls]
  | toolResult result =>
    obtain ⟨-, ⟨issue, call, rest, clearance, started⟩, hphase, -⟩ := ho
    rw [hphase]
    cases rest <;> simp [Session.afterAppend]
  | summary item => exact ho.elim

theorem Session.AtBoundary.ne_issued (h : s.AtBoundary) (issue : Issue) :
    s.phase ≠ .issued issue := by
  rcases h.2.2 with hphase | ⟨provider, request, messages, hphase⟩ <;> simp [hphase]

/-- Only issuing a request and its response begin and end it. -/
theorem issued_next_iff {o : Op} (ho : s.Permits setup o) (hcommit : ∀ r, o ≠ .commitRevision r)
    (happend : ∀ item, o ≠ .append item) {n : Nat} {r : o.Answer} {issue : Issue} :
    (s.next o n r).phase = .issued issue ↔ s.phase = .issued issue := by
  -- Operations at a boundary find no issue there; the others leave an issue in place.
  cases o with
  | commitRevision revision => exact absurd rfl (hcommit revision)
  | append item => exact absurd rfl (happend item)
  | takeConfig =>
    have hboundary : s.AtBoundary := ho
    cases r with
    | none => exact Iff.rfl
    | some pending => simp [Session.next, hboundary.ne_issued issue]
  | takeInputs =>
    have hboundary : s.AtBoundary := ho
    show (if r.isEmpty then s.phase else .boundary) = Phase.issued issue ↔ _
    split
    · exact Iff.rfl
    · simp [hboundary.ne_issued issue]
  | makeFuture call =>
    cases call with
    | execute tool invocation deadline =>
      obtain ⟨c, enabled, hphase, -⟩ := ho
      simp [Session.next, Session.afterMake, hphase]
    | _ => exact Iff.rfl
  | pollPort call deadline =>
    cases r with
    | ready result =>
      cases call with
      | prepare provider request =>
        cases result with
        | error e => exact Iff.rfl
        | ok messages => simp [Session.next, Session.afterReady, ho.2.1]
      | decide policy invocation spec deadline =>
        cases result with
        | error e => exact Iff.rfl
        | ok decision => exact mapClearance_eq_issued (f := fun _ ↦ Session.decided decision)
      | execute tool invocation deadline => exact Iff.rfl
    | _ => exact Iff.rfl
  | setInteraction slot =>
    cases r with
    | false => exact Iff.rfl
    | true => exact mapClearance_eq_issued
  | pollInteraction channel deadline =>
    show (s.afterPoll channel r).phase = .issued issue ↔ _
    unfold Session.afterPoll
    split
    · exact mapClearance_eq_issued
    · exact Iff.rfl
  | _ => exact Iff.rfl

/-- An operation that the rules permit keeps the counts. -/
theorem counted_next (h : s.Counted) {o : Op} (ho : s.Permits setup o) (n : Nat) (r : o.Answer) :
    (s.next o n r).Counted := by
  have hnext := s.next_changes o n r
  by_cases happend : ∃ item, o = .append item
  · obtain ⟨item, rfl⟩ := happend
    refine ⟨fun issue hphase ↦ absurd hphase (afterAppend_ne_issued ho issue), fun _ ↦ ?_⟩
    rw [hnext.issues, hnext.responses]
    unfold Session.issuesAfter Session.responsesAfter
    cases item with
    | user item =>
      obtain ⟨loopId, kind, input⟩ := item
      cases kind with
      | prompt => exact h.other (by simp [ho.1])
      | steering => exact h.other (by simp [ho.2.1])
    | assistant item =>
      -- The response makes up for the request that was issued.
      obtain ⟨-, issue, response, hphase, -⟩ := ho
      exact h.issued issue hphase
    | toolResult result =>
      obtain ⟨-, c, hphase, -⟩ := ho
      exact h.other (by simp [hphase])
    | summary item => exact ho.elim
  by_cases hcommit : ∃ revision, o = .commitRevision revision
  · -- A request that is issued is one more than there are responses.
    obtain ⟨revision, rfl⟩ := hcommit
    obtain ⟨-, -, -, request, messages, hphase, -⟩ := ho
    have hcount : s.issues = s.responses := h.other (by simp [hphase])
    have hissued : (s.next (.commitRevision revision) n r).phase =
        .issued ⟨revision, s.config, request, messages, s.index⟩ := by
      simp only [Session.next, hphase]
    exact ⟨fun issue _ ↦ congrArg (· + 1) hcount, fun hother ↦ absurd hissued (hother _)⟩
  · have hphase (issue : Issue) : (s.next o n r).phase = .issued issue ↔ s.phase = .issued issue :=
      issued_next_iff ho (by simpa using hcommit) (by simpa using happend)
    have hcounts : (s.next o n r).issues = s.issues ∧ (s.next o n r).responses = s.responses := by
      rw [hnext.issues, hnext.responses]
      cases o with
      | append item => exact absurd ⟨item, rfl⟩ happend
      | commitRevision revision => exact absurd ⟨revision, rfl⟩ hcommit
      | _ => exact ⟨rfl, rfl⟩
    constructor
    · intro issue hissue
      rw [hcounts.1, hcounts.2]
      exact h.issued issue ((hphase issue).mp hissue)
    · intro hother
      rw [hcounts.1, hcounts.2]
      exact h.other fun issue hissue ↦ hother issue ((hphase issue).mpr hissue)

/-! ## Inputs -/

/-- The inputs handed over are those appended and those about to be. -/
def Session.Conserved (s : Session) : Prop :=
  steering s.working.appended ++ s.queue = s.taken

/-- An operation that the rules permit loses and duplicates no input. -/
theorem conserved_next (h : s.Conserved) {o : Op} (ho : s.Permits setup o) (n : Nat)
    (r : o.Answer) : (s.next o n r).Conserved := by
  have hnext := s.next_changes o n r
  unfold Session.Conserved at h ⊢
  rw [hnext.working, hnext.queue, hnext.taken]
  unfold Session.queueAfter Session.takenAfter
  cases o with
  | append item =>
    cases item with
    | user item =>
      obtain ⟨loopId, kind, input⟩ := item
      cases kind with
      | prompt => simpa [Session.workingAfter, WorkingHistory.append, steering] using h
      | steering =>
        obtain ⟨-, -, rest, hqueue⟩ := ho
        rw [hqueue] at h
        simpa [Session.workingAfter, WorkingHistory.append, steering, hqueue] using h
    | _ => simpa [Session.workingAfter, WorkingHistory.append, steering] using h
  | takeInputs =>
    show steering s.working.appended ++ (s.queue ++ r) = s.taken ++ r
    rw [← List.append_assoc, h]
  | _ => exact h

/-! ## Reports -/

/-- What is known of the report: it lists what was appended, and nothing is taken after it. -/
structure Session.Reported (setup : Setup) (s : Session) : Prop where
  shaped : s.Shaped setup
  counted : s.Counted
  conserved : s.Conserved
  transcript : ∀ report, s.report = some report → s.issues < 2 ^ 32 →
    Transcript setup.ctx.id setup.request.input report.appended
  inputs : ∀ report, s.report = some report → steering report.appended = s.taken

theorem reported_next (h : s.Reported setup) {o : Op} (ho : s.Permits setup o) (n : Nat)
    (r : o.Answer) : (s.next o n r).Reported setup := by
  have hnext := s.next_changes o n r
  have hissues : s.issues ≤ (s.next o n r).issues := by
    rw [hnext.issues]
    unfold Session.issuesAfter
    split <;> omega
  refine ⟨shape_next h.shaped ho n r, counted_next h.counted ho n r,
    conserved_next h.conserved ho n r, ?_, ?_⟩
  · intro report heq hlt
    rw [hnext.report] at heq
    cases o with
    | sendReport delivered =>
      obtain rfl := Option.some.inj heq
      obtain ⟨hsettled, happended⟩ := ho
      rw [happended]
      exact h.shaped.settled hsettled (le_trans h.counted.le (le_trans hissues hlt.le))
    | _ => exact h.transcript report heq (lt_of_le_of_lt hissues hlt)
  · intro report heq
    rw [hnext.report] at heq
    rw [hnext.taken]
    cases o with
    | sendReport delivered =>
      obtain rfl := Option.some.inj heq
      obtain ⟨hsettled, happended⟩ := ho
      have hconserved := h.conserved
      rw [Session.Conserved, hsettled.1, List.append_nil] at hconserved
      exact happended ▸ hconserved
    | takeInputs =>
      -- Nothing is taken after the report.
      have hnone : s.report = none := ho.2.1.1
      exact absurd heq (by simp [hnone, Session.reportAfter])
    | _ => exact h.inputs report heq

end

/-- Every accepted trace leaves the invariants of reports. -/
theorem reported_of_accepts {setup : Setup} {trace : List (Entry interface Nat)}
    (h : (sessionMonitor setup).Accepts trace) :
    Session.Reported setup ((sessionMonitor setup).run trace) := by
  refine Monitor.Accepts.invariant (J := Session.Reported setup) _ ?_ ?_ h
  · exact ⟨⟨rfl, rfl⟩, ⟨by simp [sessionMonitor, Session.init], fun _ ↦ rfl⟩, rfl,
      by simp [sessionMonitor, Session.init], by simp [sessionMonitor, Session.init]⟩
  · exact fun s o n r hs ho _ ↦ reported_next hs ho n r

/-! ## What a trace says about its session -/

/-- How many requests were issued. -/
def issuedRequests : List (Entry interface Nat) → Nat
  | [] => 0
  | ⟨.commitRevision _, _, _⟩ :: past => issuedRequests past + 1
  | _ :: past => issuedRequests past

/-- All inputs handed over, in order. -/
def handedOver : List (Entry interface Nat) → List UserInput
  | [] => []
  | ⟨.takeInputs, _, inputs⟩ :: past => handedOver past ++ inputs
  | _ :: past => handedOver past

theorem handedOver_append (newer older : List (Entry interface Nat)) :
    handedOver (newer ++ older) = handedOver older ++ handedOver newer := by
  induction newer with
  | nil => simp [handedOver]
  | cons e newer ih =>
    obtain ⟨o, n, r⟩ := e
    cases o with
    | takeInputs =>
      show handedOver (newer ++ older) ++ r = handedOver older ++ (handedOver newer ++ r)
      rw [ih, List.append_assoc]
    | _ => exact ih

/-- All items appended, in order. -/
def appendedItems : List (Entry interface Nat) → List HistoryItem
  | [] => []
  | ⟨.append item, _, _⟩ :: past => appendedItems past ++ [item]
  | _ :: past => appendedItems past

/-- The counts and lists of a session are those of its trace. -/
theorem session_run (setup : Setup) (trace : List (Entry interface Nat)) :
    let s := (sessionMonitor setup).run trace
    s.issues = issuedRequests trace ∧ s.taken = handedOver trace ∧
      s.working.appended = appendedItems trace ∧ s.working.base = setup.request.history := by
  induction trace with
  | nil => exact ⟨rfl, rfl, rfl, rfl⟩
  | cons e past ih =>
    obtain ⟨o, n, r⟩ := e
    obtain ⟨hissues, htaken, happended, hbase⟩ := ih
    have hnext := ((sessionMonitor setup).run past).next_changes o n r
    show (Session.next _ o n r).issues = _ ∧ (Session.next _ o n r).taken = _ ∧
      (Session.next _ o n r).working.appended = _ ∧ (Session.next _ o n r).working.base = _
    rw [hnext.issues, hnext.taken, hnext.working, hissues, htaken]
    cases o with
    | append item => exact ⟨rfl, rfl, congrArg (· ++ [item]) happended, hbase⟩
    | _ => exact ⟨rfl, rfl, happended, hbase⟩

/-- The report of a session was delivered by an operation of its trace. -/
theorem delivered_at {setup : Setup} {trace : List (Entry interface Nat)} {report : LoopReport}
    (h : Session.report ((sessionMonitor setup).run trace) = some report) :
    ∃ newer n r older, trace = newer ++ ⟨.sendReport report, n, r⟩ :: older := by
  induction trace with
  | nil => exact absurd h (by simp [sessionMonitor, Session.init])
  | cons e past ih =>
    obtain ⟨o, n, r⟩ := e
    have hnext := (Session.next_changes ((sessionMonitor setup).run past) o n r).report
    have hreport : Session.reportAfter (Session.report ((sessionMonitor setup).run past)) o =
        some report := hnext.symm.trans h
    by_cases hsends : ∃ report', o = .sendReport report'
    · obtain ⟨report', rfl⟩ := hsends
      obtain rfl := Option.some.inj hreport
      exact ⟨[], n, r, past, rfl⟩
    · have hpast : Session.report ((sessionMonitor setup).run past) = some report := by
        cases o <;> first | exact hreport | exact absurd ⟨_, rfl⟩ hsends
      obtain ⟨newer, n', r', older, rfl⟩ := ih hpast
      exact ⟨⟨o, n, r⟩ :: newer, n', r', older, rfl⟩

/-- What a runner reports as appended, whatever the number of requests. -/
theorem reported_rounds {setup : Setup} {trace : List (Entry interface Nat)}
    (h : (sessionMonitor setup).Accepts trace) {report : LoopReport}
    (hreport : Session.report ((sessionMonitor setup).run trace) = some report) :
    ∃ rounds tail,
      report.appended = transcript setup.ctx.id setup.request.input rounds tail := by
  obtain ⟨newer, n, r, older, rfl⟩ := delivered_at hreport
  obtain ⟨hpast, hallowed, -⟩ := h.of_split
  obtain ⟨hsettled, happended⟩ : Session.Settled ((sessionMonitor setup).run older) ∧
      report.appended = (Session.working ((sessionMonitor setup).run older)).appended := hallowed
  obtain ⟨rounds, tail, hitems⟩ := (reported_of_accepts hpast).shaped.rounds hsettled
  exact ⟨rounds, tail, happended.trans hitems⟩

/-! ## Runs -/

/-- Whatever the host does, what a runner reports as appended is a transcript. -/
theorem report_transcript [SerdeJson] (setup : Setup) (clock : Nat) (schedule : List Turn)
    (report : LoopReport) (hreport : Delivers (setup.run clock schedule) report)
    (hrequests : issuedRequests (setup.run clock schedule).2.trace < 2 ^ 32) :
    Transcript setup.ctx.id setup.request.input report.appended := by
  obtain ⟨-, haccepts, hdelivered⟩ := conforms setup clock schedule
  refine (reported_of_accepts haccepts).transcript report (hdelivered report hreport) ?_
  rwa [(session_run setup _).1]

/-- The theorem at a run with a tool call. -/
theorem report_transcript_sample :
    ∃ report, (Sample.setup.run 0 Sample.schedule).1 = .returned report ∧
      report.appended.length = 4 ∧
      Transcript Sample.setup.ctx.id Sample.setup.request.input report.appended := by
  obtain ⟨report, hreturned, hlength⟩ := Sample.returns
  have hrequests : issuedRequests (Sample.setup.run 0 Sample.schedule).2.trace < 2 ^ 32 := by
    decide +kernel
  exact ⟨report, hreturned, hlength,
    report_transcript Sample.setup 0 Sample.schedule report (.inl hreturned) hrequests⟩

/-- The inputs among the items a runner reports are those that were handed over, each exactly once
and in order. Inputs are handed over only at a boundary: before a prompt is prepared or right after,
where every request issued so far has its response, with tool calls that all have their results. -/
theorem report_steering [SerdeJson] (setup : Setup) (clock : Nat) (schedule : List Turn) :
    (∀ report, Delivers (setup.run clock schedule) report →
      steering report.appended = handedOver (setup.run clock schedule).2.trace) ∧
    ∀ newer n inputs older,
      (setup.run clock schedule).2.trace = newer ++ ⟨.takeInputs, n, inputs⟩ :: older →
      Session.AtBoundary ((sessionMonitor setup).run older) ∧ ∃ rounds tail,
        appendedItems older = transcript setup.ctx.id setup.request.input rounds tail ∧
        rounds.length = issuedRequests older ∧
        ∀ round ∈ rounds, toolCalls round.assistant.content ≠ [] := by
  obtain ⟨-, haccepts, hdelivered⟩ := conforms setup clock schedule
  refine ⟨fun report hreport ↦ ?_, fun newer n inputs older hsplit ↦ ?_⟩
  · rw [(reported_of_accepts haccepts).inputs report (hdelivered report hreport)]
    exact (session_run setup _).2.1
  · rw [hsplit] at haccepts
    obtain ⟨hpast, hallowed, -⟩ := haccepts.of_split
    have hboundary : Session.AtBoundary ((sessionMonitor setup).run older) := hallowed
    have hreported := reported_of_accepts hpast
    obtain ⟨rounds, tail, hrounds, hcount, hitems⟩ := hboundary.shape hreported.shaped
    obtain ⟨hissues, -, happended, -⟩ := session_run setup older
    refine ⟨hboundary, rounds, tail, happended.symm.trans hitems, ?_, hrounds.calls⟩
    rw [← hcount, ← hissues, hreported.counted.other hboundary.ne_issued]

/-- The theorem at a run in which an input is handed over. -/
theorem report_steering_sample :
    ∃ report, (Sample.setup.run 0 Sample.schedule).1 = .returned report ∧
      steering report.appended = handedOver (Sample.setup.run 0 Sample.schedule).2.trace ∧
      (handedOver (Sample.setup.run 0 Sample.schedule).2.trace).length = 1 := by
  obtain ⟨report, hreturned, -⟩ := Sample.returns
  exact ⟨report, hreturned,
    (report_steering Sample.setup 0 Sample.schedule).1 report (.inl hreturned), by decide +kernel⟩

end MinicoreRuntime
