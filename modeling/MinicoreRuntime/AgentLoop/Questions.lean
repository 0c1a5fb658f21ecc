import MinicoreRuntime.AgentLoop.Updates

/-!
# Questions and answers

The question that waits for an answer and the channels that answers are sent to, as the log of a
world decides them. Answers come from any number of handles at any time; each is accepted or
refused in one critical section, and the log has them in that order. All of this holds for every
program that uses the control plane.

## Main definitions

* `pendingSlot`, `sentAnswers`: the pending interaction and the channels after a log.
* `AcceptedFor`: an answer was accepted for an interaction.
* `QuestionExplained`: what explains a record.

## Main results

* `slotted_kept`: the log of every world decides its questions and answers.
* `accepted_sublist`: every accepted answer uses up an interaction that was set.
-/

namespace MinicoreRuntime

open Interactive

/-! ## What a log says -/

/-- The pending interaction after an operation of the runner. -/
def Op.slotAfter (slot : Option InteractionSlot) : (o : Op) → o.Answer → Option InteractionSlot
  | .setInteraction new, set => if set then some new else slot
  | .takeInteraction, _ => none
  | _, _ => slot

/-- The answer that a record accepts, with the identifier it was sent under. -/
def Record.answered? : Record → Option (InteractionId × InteractionAnswer)
  | .host (.answerReturned id answer (.ok _)) => some (id, answer)
  | _ => none

/-- The interaction that a record sets. -/
def Record.opened? : Record → Option InteractionSlot
  | .runner entry => entry.op.slotAfter none entry.answer
  | .host _ => none

/-- The pending interaction after a log. -/
def pendingSlot : List Record → Option InteractionSlot
  | [] => none
  | .runner entry :: older => entry.op.slotAfter (pendingSlot older) entry.answer
  | .host event :: older =>
    if (Record.host event).answered?.isSome then none else pendingSlot older

/-- The channels for answers after an operation of the runner. -/
def Op.channelsAfter (channels : List (Option InteractionAnswer)) :
    Op → List (Option InteractionAnswer)
  | .oneshot => channels ++ [none]
  | _ => channels

/-- The channels for answers after a log; an entry is the answer sent. -/
def sentAnswers : List Record → List (Option InteractionAnswer)
  | [] => []
  | .runner entry :: older => entry.op.channelsAfter (sentAnswers older)
  | .host event :: older =>
    match (Record.host event).answered?, pendingSlot older with
    | some (_, answer), some slot => (sentAnswers older).set slot.reply (some answer)
    | _, _ => sentAnswers older

/-- The identifiers under which answers were accepted, newest first. -/
def answeredIds (log : List Record) : List InteractionId :=
  log.filterMap fun e ↦ e.answered?.map Prod.fst

/-- The identifiers of the interactions that were set, newest first. -/
def openedIds (log : List Record) : List InteractionId :=
  log.filterMap fun e ↦ e.opened?.map InteractionSlot.id

/-- The answer was accepted for the interaction while it was pending. -/
def AcceptedFor (log : List Record) (slot : InteractionSlot) (answer : InteractionAnswer) : Prop :=
  ∃ newer older, log = newer ++ .host (.answerReturned slot.id answer (.ok ())) :: older ∧
    pendingSlot older = some slot

theorem Record.answered?_eq_some {event : HostEvent} {accepted : InteractionId × InteractionAnswer}
    (h : Record.answered? (.host event) = some accepted) :
    ∃ id answer, event = .answerReturned id answer (.ok ()) := by
  unfold Record.answered? at h
  split at h
  · rename_i heq
    cases heq
    exact ⟨_, _, rfl⟩
  · exact absurd h (by simp)

@[simp]
theorem pendingSlot_runner (entry : Entry interface Nat) (older : List Record) :
    pendingSlot (.runner entry :: older) =
      entry.op.slotAfter (pendingSlot older) entry.answer := rfl

@[simp]
theorem sentAnswers_runner (entry : Entry interface Nat) (older : List Record) :
    sentAnswers (.runner entry :: older) = entry.op.channelsAfter (sentAnswers older) := rfl

theorem pendingSlot_host {event : HostEvent} (h : Record.answered? (.host event) = none)
    (older : List Record) : pendingSlot (.host event :: older) = pendingSlot older := by
  rw [pendingSlot, h]
  rfl

theorem sentAnswers_host {event : HostEvent} (h : Record.answered? (.host event) = none)
    (older : List Record) : sentAnswers (.host event :: older) = sentAnswers older := by
  rw [sentAnswers, h]

theorem sentAnswers_accepted {older : List Record} {slot : InteractionSlot}
    (h : pendingSlot older = some slot) (id : InteractionId) (answer : InteractionAnswer) :
    sentAnswers (.host (.answerReturned id answer (.ok ())) :: older) =
      (sentAnswers older).set slot.reply (some answer) := by
  rw [sentAnswers, Record.answered?, h]

@[simp]
theorem answeredIds_cons (e : Record) (older : List Record) :
    answeredIds (e :: older) = (e.answered?.map Prod.fst).toList ++ answeredIds older := by
  unfold answeredIds
  cases h : e.answered? <;> simp [h]

@[simp]
theorem openedIds_cons (e : Record) (older : List Record) :
    openedIds (e :: older) = (e.opened?.map InteractionSlot.id).toList ++ openedIds older := by
  unfold openedIds
  cases h : e.opened? <;> simp [h]

theorem AcceptedFor.cons {older : List Record} {slot : InteractionSlot}
    {answer : InteractionAnswer} (h : AcceptedFor older slot answer) (e : Record) :
    AcceptedFor (e :: older) slot answer := by
  obtain ⟨newer, past, rfl, hslot⟩ := h
  exact ⟨e :: newer, past, rfl, hslot⟩

theorem AcceptedFor.mem_answeredIds {log : List Record} {slot : InteractionSlot}
    {answer : InteractionAnswer} (h : AcceptedFor log slot answer) :
    slot.id ∈ answeredIds log := by
  obtain ⟨newer, past, rfl, -⟩ := h
  refine List.mem_filterMap.mpr ⟨_, List.mem_append_right _ List.mem_cons_self, rfl⟩

/-! ## What explains a record -/

/-- What is found in a channel: the answer sent, or that nobody can send one any more. -/
def FoundIn (log : List Record) (channel : Nat) : Option InteractionAnswer → Prop
  | some answer => (sentAnswers log)[channel]? = some (some answer)
  | none => (∀ answer, (sentAnswers log)[channel]? ≠ some (some answer)) ∧
      ∀ slot, pendingSlot log = some slot → slot.reply ≠ channel

/-- What explains an answer to the runner about its questions. -/
def QuestionAnswered (older : List Record) : (o : Op) → o.Answer → Prop
  | .setInteraction _, set => set = true ↔ pendingSlot older = none
  | .oneshot, channel => channel = (sentAnswers older).length
  | .pollInteraction channel _, polled =>
    ∀ found, polled = .ready found → FoundIn older channel found
  | _, _ => True

/-- An answer fits the pending interaction. -/
def Fits (older : List Record) (id : InteractionId) (answer : InteractionAnswer) : Prop :=
  ∃ slot, pendingSlot older = some slot ∧ slot.id = id ∧ answer.validate slot.expected = true

/-- An answer is accepted while the loop runs and accepts, where it fits. -/
def Acceptable (older : List Record) (id : InteractionId) (answer : InteractionAnswer) : Prop :=
  ¬ ClosedIn older ∧ ¬ StoppedIn older ∧ Fits older id answer

/-- What explains a record about questions and answers. -/
def QuestionExplained (older : List Record) : Record → Prop
  | .runner entry => QuestionAnswered older entry.op entry.answer
  | .host (.answerReturned id answer result) => result = .ok () ↔ Acceptable older id answer
  | .host _ => True

/-- The log decides the questions and answers of the world. -/
structure Slotted (limits : LoopLimits) (w : World) : Prop extends Describes limits w where
  pending : w.control.inner.interaction = pendingSlot w.log
  sent : w.channels = sentAnswers w.log
  /-- Only the seal holds the mutex. -/
  locked : w.locked = true → StoppedIn w.log
  questions : Justified QuestionExplained w.log

theorem Slotted.start (id : LoopId) (options : LoopOptions) (base : List HistoryItem)
    (clock : Nat) (schedule : List Turn) :
    Slotted options.limits (.start id options base clock schedule) where
  toDescribes := .start id options base clock schedule
  pending := rfl
  sent := rfl
  locked := by simp [World.start]
  questions := trivial

/-! ## What every world keeps -/

/-- An operation changes the pending interaction and the channels as the log says. -/
theorem World.effect_slot {w : World} {turn : Turn} {o : Op} {r : o.Answer}
    (h : w.answer turn o = some r) :
    (w.effect o).control.inner.interaction = o.slotAfter w.control.inner.interaction r ∧
      (w.effect o).channels = o.channelsAfter w.channels := by
  cases o with
  | sealState => exact ⟨congrArg _ w.control.sealState_spec.2.1, rfl⟩
  | sealCancelled source => exact ⟨congrArg _ (w.control.sealCancelled_spec source).2.1, rfl⟩
  | setInteraction slot =>
    obtain rfl := Option.some.inj h
    refine ⟨?_, rfl⟩
    show (w.control.setInteraction slot).2.inner.interaction =
      if (w.control.setInteraction slot).1 = true then some slot else w.control.inner.interaction
    rw [LoopControl.setInteraction]
    split <;> rfl
  | offerProgress progress =>
    unfold effect
    dsimp only
    split <;> exact ⟨rfl, rfl⟩
  | _ => exact ⟨rfl, rfl⟩

/-- The mutex is held where it was, or since the seal. -/
theorem World.effect_locked {w : World} (o : Op) (n : Nat) (r : o.Answer)
    (h : (w.effect o).locked = true) :
    Record.stops (.runner ⟨o, n, r⟩) = true ∨ w.locked = true := by
  cases o with
  | sealState => exact .inl rfl
  | closeAccepting => exact absurd h (by simp [effect])
  | offerProgress progress =>
    refine .inr ?_
    unfold effect at h
    dsimp only at h
    split at h <;> exact h
  | _ => exact .inr h

/-- A poll is ready where the channel is. -/
theorem World.select_ready {α : Type} {w : World} {turn : Turn} {deadline : Option Nat}
    {other : Polled α} {value : α} (h : w.select turn deadline other = .ready value) :
    other = .ready value := by
  unfold select at h
  split at h
  · exact absurd h (by simp)
  · split at h
    · exact absurd h (by simp)
    · exact h

namespace Slotted

variable {limits : LoopLimits} {w w' : World}

/-- What is found in a channel of the world. -/
theorem foundIn (h : Slotted limits w) {channel : Nat} {found : Option InteractionAnswer}
    (hfound : w.channelReply channel = .ready found) : FoundIn w.log channel found := by
  unfold World.channelReply at hfound
  rw [h.sent, h.pending] at hfound
  split at hfound
  · rename_i answer hanswer
    obtain rfl := Polled.ready.inj hfound
    exact hanswer
  · rename_i hnone
    split at hfound
    · exact absurd hfound (by simp)
    · rename_i hslot
      obtain rfl := Polled.ready.inj hfound
      refine ⟨fun answer hanswer ↦ hnone answer hanswer, fun slot heq hreply ↦ hslot ?_⟩
      simp [heq, hreply]

/-- An operation answers what the log explains. -/
theorem questionAnswered (h : Slotted limits w) {turn : Turn} {o : Op} {r : o.Answer}
    (hanswer : w.answer turn o = some r) : QuestionAnswered w.log o r := by
  cases o with
  | setInteraction slot =>
    obtain rfl := Option.some.inj hanswer
    show (w.control.setInteraction slot).1 = true ↔ pendingSlot w.log = none
    rw [← h.pending, LoopControl.setInteraction]
    cases w.control.inner.interaction <;> simp
  | oneshot =>
    obtain rfl := Option.some.inj hanswer
    exact congrArg List.length h.sent
  | pollInteraction channel deadline =>
    intro found hfound
    exact h.foundIn (World.select_ready ((Option.some.inj hanswer).trans hfound))
  | _ => trivial

/-- A record that accepts no answer. -/
theorem hostRecord (h : Slotted limits w) (hdescribes : Describes limits w') {event : HostEvent}
    (hlog : w'.log = .host event :: w.log)
    (hpending : w'.control.inner.interaction = w.control.inner.interaction)
    (hsent : w'.channels = w.channels) (hlocked : w'.locked = w.locked)
    (hanswered : Record.answered? (.host event) = none)
    (hexplained : QuestionExplained w.log (.host event)) : Slotted limits w' := by
  refine ⟨hdescribes, ?_, ?_, fun hheld ↦ ?_, ?_⟩
  · rw [hpending, hlog, pendingSlot_host hanswered, h.pending]
  · rw [hsent, hlog, sentAnswers_host hanswered, h.sent]
  · rw [hlog, stopped_cons]
    exact .inr (h.locked (hlocked.symm.trans hheld))
  · rw [hlog]
    exact ⟨h.questions, hexplained⟩

/-- An answer that does not fit is not acceptable. -/
theorem not_acceptable (h : Slotted limits w) {id : InteractionId} {answer : InteractionAnswer}
    (hslot : ∀ slot, w.control.inner.interaction = some slot → slot.id = id →
      answer.validate slot.expected = false) : ¬ Acceptable w.log id answer := by
  rintro ⟨-, -, slot, hpending, hid, hvalid⟩
  rw [hslot slot (h.pending.trans hpending) hid] at hvalid
  exact absurd hvalid (by simp)

/-- A step of another thread. -/
theorem hostEffect (h : Slotted limits w) (heffect : w.HostEffect w') : Slotted limits w' := by
  have hdescribes := h.toDescribes.hostEffect heffect
  cases heffect with
  | silent events toolProgress => exact ⟨hdescribes, h.pending, h.sent, h.locked, h.questions⟩
  | updateStarted config hstate hvalid =>
    exact ⟨hdescribes, h.pending, h.sent, h.locked, h.questions⟩
  | cancelLost source hstate =>
    -- Two records, neither of which is about an answer.
    have hfirst : Slotted limits ({ w with cancels := w.cancels + 1 }.record
        (.casCancel w.cancels source false)) := by
      refine h.hostRecord ?_ rfl rfl rfl rfl rfl trivial
      exact (h.toDescribes.advance (e := .host (.casCancel w.cancels source false))
        ⟨rfl, rfl, rfl, rfl, rfl, (Bool.and_true _).symm, Iff.rfl, fun _ ↦ .inl⟩ trivial)
    exact hfirst.hostRecord hdescribes rfl rfl rfl rfl rfl trivial
  | answerRefused id answer e hrefused =>
    refine h.hostRecord hdescribes rfl rfl rfl rfl rfl ⟨fun hok ↦ absurd hok (by simp), ?_⟩
    rintro hacceptable
    rcases hrefused with ⟨-, hclosed | hstopped⟩ | ⟨-, -, ⟨-, hnone⟩ | ⟨slot, -, hslot, hwrong⟩⟩
    · exact absurd (h.accepting.mp hclosed) hacceptable.1
    · exact absurd (h.inactive.mp hstopped) hacceptable.2.1
    · refine absurd hacceptable (h.not_acceptable fun slot hslot ↦ ?_)
      exact absurd (hnone.symm.trans hslot) (by simp)
    · refine absurd hacceptable (h.not_acceptable fun slot' hslot' hid ↦ ?_)
      obtain rfl := Option.some.inj (hslot.symm.trans hslot')
      exact hwrong.resolve_left fun hne ↦ hne hid
  | answerAccepted answer slot haccepting hstate hslot hvalid =>
    have hpending : pendingSlot w.log = some slot := h.pending.symm.trans hslot
    refine ⟨hdescribes, rfl, ?_, fun hheld ↦ ?_, h.questions, ?_⟩
    · show w.channels.set slot.reply (some answer) = _
      rw [h.sent]
      exact (sentAnswers_accepted hpending slot.id answer).symm
    · exact (stopped_cons _ _).mpr (.inr (h.locked hheld))
    · refine ⟨fun _ ↦ ⟨fun hclosed ↦ ?_, fun hstopped ↦ h.inactive.mpr hstopped hstate, slot,
        hpending, rfl, hvalid⟩, fun _ ↦ rfl⟩
      rw [h.accepting.mpr hclosed] at haccepting
      exact absurd haccepting (by simp)
  | _ => exact h.hostRecord hdescribes rfl rfl rfl rfl rfl trivial

end Slotted

/-- The log of every world decides its questions and answers. -/
theorem slotted_kept (limits : LoopLimits) : World.Kept (fun _ _ ↦ True) (Slotted limits) where
  host w s h := h.hostEffect (w.hostEffect s)
  pass w schedule clock hle h :=
    ⟨(describes_kept limits).pass w schedule clock hle h.toDescribes, h.pending, h.sent, h.locked,
      h.questions⟩
  answered w turn o r h _ hanswer := by
    obtain ⟨hslot, hchannels⟩ := World.effect_slot hanswer
    refine ⟨h.toDescribes.answered hanswer, ?_, ?_, fun hheld ↦ ?_, ?_⟩
    · rw [World.recordEntry_log, World.effect_log, pendingSlot_runner, ← h.pending]
      exact hslot
    · rw [World.recordEntry_log, World.effect_log, sentAnswers_runner, ← h.sent]
      exact hchannels
    · rw [World.recordEntry_log, World.effect_log, stopped_cons]
      exact (World.effect_locked o w.clock r hheld).imp_right h.locked
    · rw [World.recordEntry_log, World.effect_log]
      exact ⟨h.questions, h.questionAnswered hanswer⟩

/-! ## Interactions and their answers -/

/-- Every accepted answer uses up an interaction that was set, and the pending one is not used up.
-/
theorem accepted_sublist {log : List Record} (h : Justified QuestionExplained log) :
    List.Sublist (((pendingSlot log).map InteractionSlot.id).toList ++ answeredIds log)
      (openedIds log) := by
  induction log with
  | nil => exact List.Sublist.refl _
  | cons e older ih =>
    have hold := ih h.1
    have hdrop : List.Sublist (answeredIds older) (openedIds older) :=
      (List.sublist_append_right _ _).trans hold
    cases e with
    | host event =>
      rw [answeredIds_cons, openedIds_cons]
      cases hanswered : Record.answered? (.host event) with
      | none =>
        rw [pendingSlot_host hanswered]
        exact hold
      | some accepted =>
        -- What was pending is what the answer was accepted for.
        obtain ⟨id, answer, rfl⟩ := Record.answered?_eq_some hanswered
        obtain ⟨-, -, slot, hslot, rfl, -⟩ := h.2.mp rfl
        rw [hslot] at hold
        obtain rfl := Option.some.inj hanswered
        exact hold
    | runner entry =>
      obtain ⟨o, n, r⟩ := entry
      rw [answeredIds_cons, openedIds_cons, pendingSlot_runner]
      cases o with
      | setInteraction slot =>
        cases r with
        | false => exact hold
        | true => exact hdrop.cons_cons slot.id
      | takeInteraction => exact hdrop
      | _ => exact hold

/-- An accepted answer is valid. -/
theorem AcceptedFor.validate {log : List Record} {slot : InteractionSlot}
    {answer : InteractionAnswer} (h : AcceptedFor log slot answer)
    (hquestions : Justified QuestionExplained log) : answer.validate slot.expected = true := by
  obtain ⟨newer, older, rfl, hslot⟩ := h
  have hexplained : Except.ok () = Except.ok () ↔ Acceptable older slot.id answer :=
    hquestions.of_split
  obtain ⟨-, -, pending, hpending, -, hvalid⟩ := hexplained.mp rfl
  obtain rfl := Option.some.inj (hslot.symm.trans hpending)
  exact hvalid

end MinicoreRuntime
