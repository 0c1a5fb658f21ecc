import MinicoreRuntime.AgentLoop.Completion
import MinicoreRuntime.AgentLoop.Questions
import MinicoreRuntime.Runtime.Cancellation

/-!
# Asking the host

A question to the host is an interaction that the runner sets, waits for and removes, while answers,
cancellations and the deadline race for it. The monitor of this module follows one question at a
time: the identifier and the channel made for it, the interaction that is set, and whether the wait
is over. What the log says about answers is then what the runner finds.

## Main definitions

* `Asking`, `askMonitor`: the question under way.
* `Asking.Matches`: the question under way is the one the log says is pending.
* `Released`: what ends a wait.

## Main results

* `asking_matches`: what the runner holds is pending, or was answered.
* `pending_or_released`: a question that was published is pending until something ends the wait.
* `Slotted.answer_accepted`: the answer of a wait was accepted for the question.
-/

namespace MinicoreRuntime

open Interactive

/-! ## The question under way -/

/-- Whether a poll ends a wait. -/
def Polled.ends {α : Type} : Polled α → Bool
  | .cancelled | .expired | .ready _ => true
  | .panicked | .pending => false

/-- The question under way. -/
structure Asking where
  /-- The loop has not begun to end. -/
  running : Bool
  /-- The interaction that was set and not removed. -/
  held : Option InteractionSlot
  /-- The wait for an answer is over. -/
  ended : Bool
  /-- The channel made last, until it is used. -/
  fresh : Option Nat
  /-- The identifier drawn last, until it is used. -/
  drawn : Option InteractionId

/-- The identifier that a record draws. -/
def Record.drawn? : Record → Option InteractionId
  | .runner ⟨.newInteractionId, _, drawn⟩ => drawn
  | _ => none

/-- The identifiers drawn in a log, newest first. -/
def drawnIds (log : List Record) : List InteractionId := log.filterMap Record.drawn?

/-- Operations that may happen while a question is under way. -/
def Op.whileAsking : Op → Bool
  | .publishState _ | .currentState | .tryEmit _ | .pollInteraction _ _ | .takeInteraction => true
  | _ => false

namespace Asking

/-- One question at a time, each under a fresh identifier and with a fresh channel, and nothing else
until it is removed. -/
def Permits (ctx : LoopCtx) (s : Asking) : Op → Prop
  | .newInteractionId | .oneshot => s.running = true ∧ s.held = none
  | .setInteraction slot =>
    s.running = true ∧ s.held = none ∧ s.fresh = some slot.reply ∧ s.drawn = some slot.id
  | .pollInteraction channel deadline =>
    s.ended = false ∧ deadline = ctx.options.deadline ∧
      ∃ slot, s.held = some slot ∧ slot.reply = channel
  | .takeInteraction => s.ended = true ∧ s.held.isSome
  | .publishState state => ∀ pending, state.pendingInteraction = some pending →
      ∃ slot, s.held = some slot ∧ pending.interactionId = slot.id ∧ pending.kind = slot.expected
  | .sendReport report => s.held = none ∧ report.outcome.summary ≠ .failed .interaction
  | .currentState | .tryEmit _ => True
  | _ => s.held = none

/-- An interaction can be set, and an answer that is found is right. -/
def Expects (s : Asking) : (o : Op) → o.Answer → Prop
  | .setInteraction _, set => set = true
  | .pollInteraction _ _, polled => ∀ found, polled = .ready found →
      ∃ slot answer, s.held = some slot ∧ found = some answer ∧
        answer.validate slot.expected = true
  | _, _ => True

/-- The question under way after an operation. -/
def next (s : Asking) : (o : Op) → o.Answer → Asking
  | .newInteractionId, drawn => { s with drawn := drawn }
  | .oneshot, channel => { s with fresh := some channel }
  | .setInteraction slot, set =>
    if set then { s with held := some slot, ended := false, fresh := none, drawn := none } else s
  | .pollInteraction _ _, polled => { s with ended := polled.ends }
  | .takeInteraction, _ => { s with held := none }
  | .beginFinal, _ | .sealState, _ | .closeAccepting, _ | .cancelToken, _ =>
    { s with running := false }
  | _, _ => s

end Asking

/-- The monitor of questions. -/
def askMonitor (ctx : LoopCtx) : Monitor interface Nat where
  State := Asking
  init := ⟨true, none, false, none, none⟩
  allowed := Asking.Permits ctx
  expects s o _ r := s.Expects o r
  next s o _ r := s.next o r

/-- The question under way, by a log. -/
def askingAfter (ctx : LoopCtx) (log : List Record) : Asking := (askMonitor ctx).run (traceOf log)

/-- The last interaction that was set. -/
def openedSlot (log : List Record) : Option InteractionSlot := log.findSome? Record.opened?

@[simp]
theorem drawnIds_cons (e : Record) (older : List Record) :
    drawnIds (e :: older) = e.drawn?.toList ++ drawnIds older := by
  unfold drawnIds
  cases h : e.drawn? <;> simp [h]

@[simp]
theorem openedSlot_cons (e : Record) (older : List Record) :
    openedSlot (e :: older) = e.opened?.or (openedSlot older) := by
  unfold openedSlot
  rw [List.findSome?_cons]
  cases e.opened? <;> rfl

@[simp]
theorem askingAfter_host (ctx : LoopCtx) (event : HostEvent) (older : List Record) :
    askingAfter ctx (.host event :: older) = askingAfter ctx older := rfl

@[simp]
theorem askingAfter_runner (ctx : LoopCtx) (entry : Entry interface Nat) (older : List Record) :
    askingAfter ctx (.runner entry :: older) =
      (askingAfter ctx older).next entry.op entry.answer := rfl

/-! ## What the runner holds -/

/-- What is known of a log whose runner asks by the rules. -/
structure Asks (ctx : LoopCtx) (start : Nat) (log : List Record) : Prop where
  accepts : (askMonitor ctx).Accepts (traceOf log)
  questions : Justified QuestionExplained log
  explained : Justified (Explained ctx.options.limits) log
  told : Justified (Told start) log

namespace Asks

variable {ctx : LoopCtx} {start : Nat} {log older : List Record}

theorem past {newer : List Record} (h : Asks ctx start (newer ++ older)) :
    Asks ctx start older where
  accepts := by
    have haccepts := h.accepts
    rw [traceOf_append] at haccepts
    exact haccepts.of_append
  questions := h.questions.past
  explained := h.explained.past
  told := h.told.past

theorem of_cons {e : Record} (h : Asks ctx start ([e] ++ older)) : Asks ctx start older := h.past

/-- The rules allowed an operation of the runner, and its answer is one they expect. -/
theorem permitted {entry : Entry interface Nat} (h : Asks ctx start (.runner entry :: older)) :
    (askingAfter ctx older).Permits ctx entry.op ∧
      (askingAfter ctx older).Expects entry.op entry.answer :=
  h.accepts.2

end Asks

/-- The question under way is pending, or it was answered. -/
structure Asking.Matches (s : Asking) (log : List Record) : Prop where
  idle : s.held = none → pendingSlot log = none
  held : ∀ slot, s.held = some slot → s.running = true ∧ s.fresh = none ∧
    openedSlot log = some slot ∧
    ((pendingSlot log = some slot ∧ (sentAnswers log)[slot.reply]? = some none) ∨
      (pendingSlot log = none ∧ ∃ answer, (sentAnswers log)[slot.reply]? = some (some answer) ∧
        AcceptedFor log slot answer))
  fresh : ∀ channel, s.fresh = some channel → (sentAnswers log)[channel]? = some none

namespace Asking.Matches

variable {s s' : Asking} {older : List Record} {e : Record}

/-- A record that changes neither the question nor its channels. -/
theorem congr (h : s.Matches older) (hheld : s'.held = s.held) (hfresh : s'.fresh = s.fresh)
    (hrunning : s.held.isSome → s'.running = s.running)
    (hpending : pendingSlot (e :: older) = pendingSlot older)
    (hsent : sentAnswers (e :: older) = sentAnswers older) (hopened : e.opened? = none) :
    s'.Matches (e :: older) where
  idle := by
    rw [hheld, hpending]
    exact h.idle
  held slot hslot := by
    rw [hheld] at hslot
    obtain ⟨hrun, hnone, hlast, hanswer⟩ := h.held slot hslot
    rw [hrunning (by simp [hslot]), hfresh, hpending, hsent, openedSlot_cons, hopened]
    refine ⟨hrun, hnone, hlast, hanswer.imp_right fun ⟨hidle, answer, hfound, haccepted⟩ ↦ ?_⟩
    exact ⟨hidle, answer, hfound, haccepted.cons e⟩
  fresh := by
    rw [hfresh, hsent]
    exact h.fresh

/-- An accepted answer is sent to the channel of the question. -/
theorem accept (h : s.Matches older) {id : InteractionId} {answer : InteractionAnswer}
    (hfits : Fits older id answer) :
    s.Matches (.host (.answerReturned id answer (.ok ())) :: older) := by
  obtain ⟨slot, hslot, rfl, hvalid⟩ := hfits
  -- The question that is pending is the one that is held.
  have hheld : s.held = some slot := by
    cases hcase : s.held with
    | none => exact absurd ((h.idle hcase).symm.trans hslot) (by simp)
    | some other =>
      obtain ⟨-, -, -, ⟨hpending, -⟩ | ⟨hnone, -⟩⟩ := h.held other hcase
      · exact hpending.symm.trans hslot
      · exact absurd (hnone.symm.trans hslot) (by simp)
  obtain ⟨hrun, hfresh, hlast, ⟨-, hempty⟩ | ⟨hnone, -⟩⟩ := h.held slot hheld
  · -- Now the slot is empty and the answer is in its channel.
    refine ⟨fun _ ↦ rfl, fun other hother ↦ ?_, fun channel hchannel ↦ ?_⟩
    · obtain rfl := Option.some.inj (hheld.symm.trans hother)
      refine ⟨hrun, hfresh, hlast, .inr ⟨rfl, answer, ?_, [], older, rfl, hslot⟩⟩
      obtain ⟨hlt, -⟩ := List.getElem?_eq_some_iff.mp hempty
      rw [sentAnswers_accepted hslot, List.getElem?_set_self hlt]
    · exact absurd (hfresh.symm.trans hchannel) (by simp)
  · exact absurd (hnone.symm.trans hslot) (by simp)

/-- What an operation that the rules allow does to the question. -/
theorem answered (h : s.Matches older) {ctx : LoopCtx} {o : Op} {n : Nat} {r : o.Answer}
    (hpermits : s.Permits ctx o) (hexpects : s.Expects o r)
    (hanswered : QuestionAnswered older o r) :
    (s.next o r).Matches (.runner ⟨o, n, r⟩ :: older) := by
  cases o with
  | oneshot =>
    obtain ⟨-, hheld⟩ := hpermits
    refine ⟨h.idle, fun slot hslot ↦ absurd (hheld.symm.trans hslot) (by simp), ?_⟩
    intro channel hchannel
    obtain rfl : r = channel := Option.some.inj hchannel
    obtain rfl : r = (sentAnswers older).length := hanswered
    exact List.getElem?_concat_length
  | setInteraction slot =>
    obtain ⟨hrun, hheld, hfresh, -⟩ := hpermits
    obtain rfl : r = true := hexpects
    refine ⟨fun hnone ↦ absurd hnone (by simp [next]), fun other hother ↦ ?_, nofun⟩
    obtain rfl := Option.some.inj hother
    exact ⟨hrun, rfl, rfl, .inl ⟨rfl, h.fresh _ hfresh⟩⟩
  | takeInteraction => exact ⟨fun _ ↦ rfl, nofun, h.fresh⟩
  | beginFinal | sealState | closeAccepting | cancelToken =>
    -- The loop begins to end only where nothing is asked.
    have hheld : s.held = none := hpermits
    exact h.congr rfl rfl (fun hsome ↦ by simp [hheld] at hsome) rfl rfl rfl
  | _ => exact h.congr rfl rfl (fun _ ↦ rfl) rfl rfl rfl

/-- What is found in the channel of the question is the answer that was accepted. -/
theorem found (h : s.Matches older) {slot : InteractionSlot} (hslot : s.held = some slot)
    {found : Option InteractionAnswer} (hfound : FoundIn older slot.reply found) :
    ∃ answer, found = some answer ∧ AcceptedFor older slot answer := by
  obtain ⟨-, -, -, ⟨hpending, hempty⟩ | ⟨-, sent, hsent, haccepted⟩⟩ := h.held slot hslot
  · cases found with
    | none => exact absurd rfl (hfound.2 slot hpending)
    | some answer => exact absurd (hempty.symm.trans hfound) (by simp)
  · cases found with
    | none => exact absurd hsent (hfound.1 sent)
    | some answer =>
      obtain rfl : sent = answer := by simpa using hsent.symm.trans hfound
      exact ⟨sent, rfl, haccepted⟩

/-- What the log explains is what the rules expect. -/
theorem expects (h : s.Matches older) (hquestions : Justified QuestionExplained older)
    {ctx : LoopCtx} {o : Op} {r : o.Answer} (hpermits : s.Permits ctx o)
    (hanswered : QuestionAnswered older o r) : s.Expects o r := by
  cases o with
  | setInteraction slot => exact hanswered.mpr (h.idle hpermits.2.1)
  | pollInteraction channel deadline =>
    intro found hfound
    obtain ⟨-, -, slot, hslot, rfl⟩ := hpermits
    obtain ⟨answer, rfl, haccepted⟩ := h.found hslot (hanswered found hfound)
    exact ⟨slot, answer, hslot, rfl, haccepted.validate hquestions⟩
  | _ => trivial

end Asking.Matches

/-- What the runner holds is what the log says is pending, or it was answered. -/
theorem asking_matches {ctx : LoopCtx} {start : Nat} {log : List Record} (h : Asks ctx start log) :
    (askingAfter ctx log).Matches log := by
  induction log with
  | nil => exact ⟨fun _ ↦ rfl, nofun, nofun⟩
  | cons e older ih =>
    have hold := ih h.of_cons
    cases e with
    | runner entry =>
      obtain ⟨hpermits, hexpects⟩ := h.permitted
      exact hold.answered hpermits hexpects h.questions.2
    -- Of the steps of other threads only an accepted answer matters.
    | host event =>
      rw [askingAfter_host]
      cases hanswered : Record.answered? (.host event) with
      | none =>
        exact hold.congr rfl rfl (fun _ ↦ rfl) (pendingSlot_host hanswered older)
          (sentAnswers_host hanswered older) rfl
      | some accepted =>
        obtain ⟨id, answer, rfl⟩ := Record.answered?_eq_some hanswered
        exact hold.accept (h.questions.2.mp rfl).2.2

/-- The log of the world is one whose runner asks by the rules. -/
structure Inquired (ctx : LoopCtx) (start : Nat) (w : World) : Prop where
  slotted : Slotted ctx.options.limits w
  signalled : Signalled start w
  accepts : (askMonitor ctx).Accepts w.trace

theorem Inquired.asks {ctx : LoopCtx} {start : Nat} {w : World} (h : Inquired ctx start w) :
    Asks ctx start w.log :=
  ⟨h.accepts, h.slotted.questions, h.slotted.explained, h.signalled.told⟩

/-- What the machine answers is what the rules expect. -/
theorem Inquired.expects {ctx : LoopCtx} {start : Nat} {w : World} (h : Inquired ctx start w)
    {turn : Turn} {o : Op} {r : o.Answer} (hpermits : (askingAfter ctx w.log).Permits ctx o)
    (hanswer : w.answer turn o = some r) : (askingAfter ctx w.log).Expects o r :=
  (asking_matches h.asks).expects h.slotted.questions hpermits (h.slotted.questionAnswered hanswer)

/-- A runner that asks by the rules keeps what its log says. -/
theorem inquired_kept (ctx : LoopCtx) (start : Nat) :
    World.Kept (fun trace ↦ (askMonitor ctx).allowed ((askMonitor ctx).run trace))
      (Inquired ctx start) where
  host w s h := by
    refine ⟨(slotted_kept _).host w s h.slotted, (signalled_kept start).host w s h.signalled, ?_⟩
    rw [World.hostStep_trace]
    exact h.accepts
  pass w schedule clock hle h := ⟨(slotted_kept _).pass w schedule clock hle h.slotted,
    (signalled_kept start).pass w schedule clock hle h.signalled, h.accepts⟩
  answered w turn o r h hallowed hanswer := by
    refine ⟨(slotted_kept _).answered w turn o r h.slotted trivial hanswer,
      (signalled_kept start).answered w turn o r h.signalled trivial hanswer, ?_⟩
    rw [World.recordEntry_trace, World.effect_trace]
    exact ⟨h.accepts, hallowed, h.expects hallowed hanswer⟩

/-- The machine answers what the rules rely on. -/
theorem inquired_honours (ctx : LoopCtx) (start : Nat) :
    machine.Honours (askMonitor ctx) (Inquired ctx start) :=
  (inquired_kept ctx start).honours fun _ _ _ _ h hallowed hanswer ↦ h.expects hallowed hanswer

theorem Inquired.start (ctx : LoopCtx) (base : List HistoryItem) (clock : Nat)
    (schedule : List Turn) :
    Inquired ctx clock (.start ctx.id ctx.options base clock schedule) :=
  ⟨.start ctx.id ctx.options base clock schedule, .start ctx.id ctx.options base clock schedule,
    trivial⟩

/-! ## What ends a wait -/

/-- Something ends the wait for an answer under the identifier: a cancellation that won, the
deadline of the loop, or an answer. -/
def Released (ctx : LoopCtx) (start : Nat) (log : List Record) (id : InteractionId) : Prop :=
  cancelWins log ≠ [] ∨
    (∃ instant, ctx.options.deadline = some instant ∧ instant ≤ clockAfter start log) ∨
    id ∈ answeredIds log

section

variable {ctx : LoopCtx} {start : Nat} {log older : List Record} {e : Record}

theorem cancelWins_cons_ne_nil (h : cancelWins older ≠ []) (e : Record) :
    cancelWins (e :: older) ≠ [] := by
  rw [cancelWins_cons]
  exact fun hnil ↦ h (List.append_eq_nil_iff.mp hnil).2

/-- What ends a wait stays so. -/
theorem Released.cons {id : InteractionId} (h : Released ctx start older id)
    (hasks : Asks ctx start (e :: older)) : Released ctx start (e :: older) id := by
  refine h.imp (fun hwins ↦ cancelWins_cons_ne_nil hwins e) (Or.imp ?_ fun hid ↦ ?_)
  · rintro ⟨instant, hinstant, hle⟩
    have htold : Justified (Told start) ([e] ++ older) := hasks.told
    exact ⟨instant, hinstant, hle.trans (clockAfter_le htold)⟩
  · rw [answeredIds_cons]
    exact List.mem_append_right _ hid

/-- An operation after which the loop has not begun to end is no beginning of its end. -/
theorem Asking.running_next {s : Asking} {o : Op} {r : o.Answer} (n : Nat)
    (h : (s.next o r).running = true) :
    s.running = true ∧ Record.closes (.runner ⟨o, n, r⟩) = false ∧
      Record.stops (.runner ⟨o, n, r⟩) = false ∧
      Record.cancelsToken (.runner ⟨o, n, r⟩) = false := by
  cases o with
  | beginFinal | sealState | closeAccepting | cancelToken => exact absurd h (by simp [next])
  | setInteraction slot => cases r <;> exact ⟨h, rfl, rfl, rfl⟩
  | _ => exact ⟨h, rfl, rfl, rfl⟩

/-- While a loop has not begun to end, only cancellations stop it. -/
theorem running_spec (h : Asks ctx start log) (hrunning : (askingAfter ctx log).running = true) :
    ¬ ClosedIn log ∧ (StoppedIn log → cancelWins log ≠ []) ∧
      (TokenCancelled log → cancelWins log ≠ []) := by
  induction log with
  | nil => exact ⟨by simp [ClosedIn], by simp [StoppedIn], by simp [TokenCancelled]⟩
  | cons e older ih =>
    rw [closed_cons, stopped_cons, tokenCancelled_cons]
    cases e with
    | host event =>
      obtain ⟨hopen, hstopped, hcancelled⟩ := ih h.of_cons hrunning
      have hkept := fun hwins : cancelWins older ≠ [] ↦ cancelWins_cons_ne_nil hwins (.host event)
      refine ⟨fun hclosed ↦ hclosed.elim (by simp [Record.closes]) hopen, ?_, ?_⟩
      · rintro (hstops | hold)
        · -- A cancellation wins.
          obtain ⟨call, source, rfl⟩ : ∃ call source, event = .casCancel call source true := by
            cases event with
            | casCancel call source won =>
              obtain rfl : won = true := hstops
              exact ⟨call, source, rfl⟩
            | _ => exact absurd hstops (by simp [Record.stops])
          simp [Record.cancelWon?]
        · exact hkept (hstopped hold)
      · rintro (hcancels | hold)
        · -- The token is cancelled by a cancellation that won before.
          obtain ⟨call, source, rfl⟩ : ∃ call source, event = .cancelReturned call source true := by
            cases event with
            | cancelReturned call source result =>
              obtain rfl : result = true := hcancels
              exact ⟨call, source, rfl⟩
            | _ => exact absurd hcancels (by simp [Record.cancelsToken])
          exact hkept (hstopped (h.explained.2 rfl))
        · exact hkept (hcancelled hold)
    | runner entry =>
      obtain ⟨hbefore, hcloses, hstops, hcancels⟩ := Asking.running_next entry.note hrunning
      obtain ⟨hopen, hstopped, hcancelled⟩ := ih h.of_cons hbefore
      have hkept := fun hwins : cancelWins older ≠ [] ↦ cancelWins_cons_ne_nil hwins (.runner entry)
      rw [hcloses, hstops, hcancels]
      exact ⟨fun hclosed ↦ hclosed.elim (by simp) hopen,
        fun hold ↦ hold.elim (by simp) fun hold ↦ hkept (hstopped hold),
        fun hold ↦ hold.elim (by simp) fun hold ↦ hkept (hcancelled hold)⟩

/-- A wait that is over was ended by something. -/
theorem over_released (h : Asks ctx start log) {slot : InteractionSlot}
    (hslot : (askingAfter ctx log).held = some slot) (hended : (askingAfter ctx log).ended = true) :
    Released ctx start log slot.id := by
  -- By the log: the poll that ends the wait says why, and nothing later takes it back.
  induction log with
  | nil => exact absurd hslot (by simp [askingAfter, askMonitor, traceOf])
  | cons e older ih =>
    have hasks := h.of_cons
    cases e with
    | host event => exact (ih hasks hslot hended).cons h
    | runner entry =>
      obtain ⟨o, n, r⟩ := entry
      obtain ⟨hpermits, hexpects⟩ := h.permitted
      rw [askingAfter_runner] at hslot hended
      cases o with
      | setInteraction new =>
        obtain rfl : r = true := hexpects
        exact absurd hended (by simp [Asking.next])
      | takeInteraction => exact absurd hslot (by simp [Asking.next])
      | pollInteraction channel deadline =>
        obtain ⟨-, rfl, held, hheld, rfl⟩ := hpermits
        obtain rfl := Option.some.inj (hheld.symm.trans hslot)
        have hmatches := asking_matches hasks
        have hrunning := running_spec hasks (hmatches.held held hheld).1
        -- The three ways a wait ends without its slot: the token, the deadline, an answer.
        cases r with
        | cancelled =>
          have htoken : TokenCancelled older := h.told.2.2.2 rfl
          exact .inl (cancelWins_cons_ne_nil (hrunning.2.2 htoken) _)
        | expired =>
          obtain ⟨instant, hinstant, hle⟩ := h.told.2.2.1 rfl
          exact .inr (.inl ⟨instant, hinstant, hle⟩)
        | ready found =>
          obtain ⟨answer, -, haccepted⟩ := hmatches.found hheld (h.questions.2 found rfl)
          refine .inr (.inr ?_)
          rw [answeredIds_cons]
          exact List.mem_append_right _ haccepted.mem_answeredIds
        | panicked | pending => exact absurd hended (by simp [Asking.next, Polled.ends])
      | _ => exact (ih hasks hslot hended).cons h

/-- A question that was published is under way until something ends the wait. -/
theorem pending_or_released (h : Asks ctx start log) {state : LoopState} {n : Nat}
    (hstate : .runner ⟨.publishState state, n, ()⟩ ∈ log) {pending : PendingInteraction}
    (hpending : state.pendingInteraction = some pending) :
    Released ctx start log pending.interactionId ∨
      ∃ slot, (askingAfter ctx log).held = some slot ∧ pending.interactionId = slot.id ∧
        pending.kind = slot.expected := by
  induction log with
  | nil => exact absurd hstate (by simp)
  | cons e older ih =>
    rcases List.mem_cons.mp hstate with rfl | hstate
    · exact .inr (h.permitted.1 pending hpending)
    · have hasks := h.of_cons
      rcases ih hasks hstate with hreleased | ⟨slot, hslot, hid, hkind⟩
      · exact .inl (hreleased.cons h)
      · cases e with
        | host event => exact .inr ⟨slot, hslot, hid, hkind⟩
        | runner entry =>
          obtain ⟨o, n, r⟩ := entry
          obtain ⟨hpermits, -⟩ := h.permitted
          cases o with
          | setInteraction new => exact absurd (hpermits.2.1.symm.trans hslot) (by simp)
          | takeInteraction =>
            -- The runner removes the question only when the wait is over.
            rw [hid]
            exact .inl ((over_released hasks hslot hpermits.1).cons h)
          | _ => exact .inr ⟨slot, hslot, hid, hkind⟩

/-- A valid answer to a question that was published is acceptable until something ends the wait. -/
theorem acceptable_of_published (h : Asks ctx start log) {state : LoopState} {n : Nat}
    (hstate : .runner ⟨.publishState state, n, ()⟩ ∈ log) {pending : PendingInteraction}
    (hpending : state.pendingInteraction = some pending)
    (hreleased : ¬ Released ctx start log pending.interactionId) {answer : InteractionAnswer}
    (hvalid : answer.validate pending.kind = true) :
    Acceptable log pending.interactionId answer := by
  obtain ⟨slot, hslot, hid, hkind⟩ :=
    (pending_or_released h hstate hpending).resolve_left hreleased
  obtain ⟨hrunning, -, -, hanswer⟩ := (asking_matches h).held slot hslot
  obtain ⟨hopen, hstopped, -⟩ := running_spec h hrunning
  refine ⟨hopen, fun hstop ↦ hreleased (.inl (hstopped hstop)), slot, ?_, hid.symm, ?_⟩
  · -- An accepted answer would have released the question.
    rcases hanswer with ⟨hslot, -⟩ | ⟨-, answer, -, haccepted⟩
    · exact hslot
    · rw [hid] at hreleased
      exact absurd (.inr (.inr haccepted.mem_answeredIds)) hreleased
  · rw [← hkind]
    exact hvalid

/-- Every interaction that is set has an identifier of its own from those that were drawn. -/
theorem opened_sublist (h : Asks ctx start log) :
    List.Sublist ((askingAfter ctx log).drawn.toList ++ openedIds log) (drawnIds log) := by
  induction log with
  | nil => exact List.Sublist.refl _
  | cons e older ih =>
    have hold := ih h.of_cons
    rw [openedIds_cons, drawnIds_cons]
    cases e with
    | host event => exact hold
    | runner entry =>
      obtain ⟨o, n, r⟩ := entry
      cases o with
      | newInteractionId =>
        refine List.Sublist.append_left ?_ r.toList
        exact (List.sublist_append_right _ _).trans hold
      -- The question is put under the identifier that was drawn for it.
      | setInteraction slot =>
        obtain ⟨⟨-, -, -, hdrawn⟩, hset⟩ := h.permitted
        obtain rfl : r = true := hset
        rw [hdrawn] at hold
        exact hold
      | _ => exact hold

end

/-- An acceptable answer is accepted at once. -/
theorem Slotted.answer_accepted {limits : LoopLimits} {w : World} (h : Slotted limits w)
    {id : InteractionId} {answer : InteractionAnswer} (hacceptable : Acceptable w.log id answer) :
    (w.hostStep (.answer id answer)).log = .host (.answerReturned id answer (.ok ())) :: w.log := by
  obtain ⟨hopen, hrunning, slot, hslot, hid, hvalid⟩ := hacceptable
  -- None of the three guards of the critical section refuses.
  have hlocked : w.locked = false := by
    cases hheld : w.locked with
    | false => rfl
    | true => exact absurd (h.locked hheld) hrunning
  have haccepting : w.control.inner.acceptingUpdates = true := by
    cases hcase : w.control.inner.acceptingUpdates with
    | true => rfl
    | false => exact absurd (h.accepting.mp hcase) hopen
  have hactive : w.control.isActive = true := by
    refine World.isActive_iff.mpr (Classical.byContradiction fun hstate ↦ ?_)
    exact hrunning (h.inactive.mp hstate)
  rw [World.hostStep, hlocked, LoopControl.answer, haccepting, hactive, h.pending, hslot]
  simp [hid, hvalid]

end MinicoreRuntime
