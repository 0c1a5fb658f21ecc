import MinicoreRuntime.Interactive.Justified
import MinicoreRuntime.Runtime.Machine

/-!
# Steps of other threads

What a step of another thread does, once for all properties of runs: each kind of step with the
condition under which it happens and the world it leaves. A property of all runs, whatever program
the runner executes, is one that every such step and every operation keeps.

## Main definitions

* `World.HostEffect`: the steps of other threads.
* `World.Extends`: a longer log.

## Main results

* `World.hostEffect`: every step of another thread is one of them.
* `World.Kept.exec`: what is kept by everything that may happen holds after every program.
* `World.exec_extends`: a program adds to the log what it performs.
-/

namespace MinicoreRuntime

open Interactive

namespace World

/-- What another thread may do to the world `w`. -/
inductive HostEffect (w : World) : World → Prop where
  /-- Nothing that is logged: events are received or dropped, progress is reported, a call waits. -/
  | silent (events : LoopEvents) (toolProgress : Option ToolChannel) :
      HostEffect w { w with events := events, toolProgress := toolProgress }
  /-- A cancellation wins. -/
  | cancelWon (source : CancelSource) (hstate : w.control.state = .none) :
      HostEffect w ({ w with
        control := { w.control with state := .cancelled source }
        cancels := w.cancels + 1
        calls := w.calls ++ [HostCall.cancelling w.cancels source] }.record
          (.casCancel w.cancels source true))
  /-- A cancellation finds the loop cancelled or sealed. -/
  | cancelLost (source : CancelSource) (hstate : w.control.state ≠ .none) :
      HostEffect w (({ w with cancels := w.cancels + 1 }.record
        (.casCancel w.cancels source false)).record (.cancelReturned w.cancels source false))
  /-- A cancellation that won cancels the token. -/
  | cancelDone (i call : Nat) (source : CancelSource)
      (hcall : w.calls[i]? = some (.cancelling call source)) :
      HostEffect w ({ w with
        control := w.control.cancelToken
        calls := w.calls.eraseIdx i }.record (.cancelReturned call source true))
  /-- An update is checked and goes on to its critical section. -/
  | updateStarted (config : ExecutionConfig) (hstate : w.control.state = .none)
      (hvalid : config.validateAgainstLimits w.control.limits = .ok ()) :
      HostEffect w { w with calls := w.calls ++ [HostCall.updating config] }
  /-- An update finds the loop cancelled or sealed. -/
  | updateInactive (config : ExecutionConfig) (hstate : w.control.state ≠ .none) :
      HostEffect w (w.record (.updateReturned config (.error .notActive)))
  /-- An update is not within the limits. -/
  | updateInvalid (config : ExecutionConfig) (hstate : w.control.state = .none)
      (hvalid : config.validateAgainstLimits w.control.limits ≠ .ok ()) :
      HostEffect w (w.record (.updateReturned config (.error .invalidConfig)))
  /-- An update comes to its critical section too late. -/
  | updateLate (i : Nat) (config : ExecutionConfig)
      (hcall : w.calls[i]? = some (.updating config))
      (hlate : w.control.inner.acceptingUpdates = false ∨ w.control.state ≠ .none) :
      HostEffect w ({ w with calls := w.calls.eraseIdx i }.record
        (.updateReturned config (.error .notActive)))
  /-- An update is accepted. -/
  | updateAccepted (i : Nat) (config : ExecutionConfig)
      (hcall : w.calls[i]? = some (.updating config))
      (haccepting : w.control.inner.acceptingUpdates = true) (hstate : w.control.state = .none) :
      HostEffect w ({ w with
        control := { w.control with inner := { w.control.inner with
          nextRevision := ConfigRevision.next w.control.inner.nextRevision
          pendingConfig := some ⟨w.control.inner.nextRevision, config⟩ } }
        calls := w.calls.eraseIdx i }.record
          (.updateReturned config (.ok w.control.inner.nextRevision)))
  /-- An answer is refused. -/
  | answerRefused (id : InteractionId) (answer : InteractionAnswer) (e : AnswerError)
      (hrefused : (e = .notActive ∧
          (w.control.inner.acceptingUpdates = false ∨ w.control.state ≠ .none)) ∨
        w.control.inner.acceptingUpdates = true ∧ w.control.state = .none ∧
          ((e = .interactionNotFound ∧ w.control.inner.interaction = none) ∨
            ∃ slot, e = .wrongInteraction ∧ w.control.inner.interaction = some slot ∧
              (slot.id ≠ id ∨ answer.validate slot.expected = false))) :
      HostEffect w (w.record (.answerReturned id answer (.error e)))
  /-- An answer is accepted. -/
  | answerAccepted (answer : InteractionAnswer) (slot : InteractionSlot)
      (haccepting : w.control.inner.acceptingUpdates = true) (hstate : w.control.state = .none)
      (hslot : w.control.inner.interaction = some slot)
      (hanswer : answer.validate slot.expected = true) :
      HostEffect w ({ w with
        control := w.control.takeInteraction
        channels := w.channels.set slot.reply (some answer) }.record
          (.answerReturned slot.id answer (.ok ())))

theorem isActive_iff {control : LoopControl} :
    control.isActive = true ↔ control.state = .none := by
  simp [LoopControl.isActive]

/-- The check that `update` and `answer` make in their critical sections. -/
theorem refuses_iff {control : LoopControl} :
    (!control.inner.acceptingUpdates || !control.isActive) = true ↔
      control.inner.acceptingUpdates = false ∨ control.state ≠ .none := by
  rw [Bool.or_eq_true, Bool.not_eq_true', Bool.not_eq_true', ← Bool.not_eq_true control.isActive,
    isActive_iff]

theorem not_refuses_iff {control : LoopControl} :
    ¬ (!control.inner.acceptingUpdates || !control.isActive) = true ↔
      control.inner.acceptingUpdates = true ∧ control.state = .none := by
  rw [refuses_iff, not_or, Bool.not_eq_false, not_not]

/-- An answer is accepted, or refused for what the critical section finds. -/
theorem hostEffect_answer (w : World) (id : InteractionId) (answer : InteractionAnswer) :
    HostEffect w (w.hostStep (.answer id answer)) := by
  rw [hostStep]
  split
  · exact .silent w.events w.toolProgress
  rw [LoopControl.answer]
  by_cases hrefuses : (!w.control.inner.acceptingUpdates || !w.control.isActive) = true
  · rw [if_pos hrefuses]
    exact .answerRefused id answer _ (.inl ⟨rfl, refuses_iff.mp hrefuses⟩)
  rw [if_neg hrefuses]
  obtain ⟨haccepting, hstate⟩ := not_refuses_iff.mp hrefuses
  -- There is a question, it is this one, and the answer fits: in the order of the code.
  cases hslot : w.control.inner.interaction with
  | none => exact .answerRefused id answer _ (.inr ⟨haccepting, hstate, .inl ⟨rfl, hslot⟩⟩)
  | some slot =>
    dsimp only
    by_cases hid : slot.id = id
    · by_cases hvalid : answer.validate slot.expected = true
      · subst hid
        rw [if_neg (by simp), if_neg (by simp [hvalid])]
        exact .answerAccepted answer slot haccepting hstate hslot hvalid
      · rw [if_neg (by simpa using hid), if_pos (by simpa using hvalid)]
        exact .answerRefused id answer _
          (.inr ⟨haccepting, hstate, .inr ⟨slot, rfl, hslot, .inr (by simpa using hvalid)⟩⟩)
    · rw [if_pos hid]
      exact .answerRefused id answer _
        (.inr ⟨haccepting, hstate, .inr ⟨slot, rfl, hslot, .inl hid⟩⟩)

/-- A call that goes on cancels the token, or comes to the critical section of its update. -/
theorem hostEffect_resume (w : World) (i : Nat) : HostEffect w (w.hostStep (.resume i)) := by
  have hsilent : HostEffect w w := .silent w.events w.toolProgress
  rw [hostStep]
  split
  · exact hsilent
  · rename_i call source hcall
    exact .cancelDone i call source hcall
  · rename_i config hcall
    split
    · exact hsilent
    · rw [LoopControl.update]
      by_cases hrefuses : (!w.control.inner.acceptingUpdates || !w.control.isActive) = true
      · rw [if_pos hrefuses]
        exact .updateLate i config hcall (refuses_iff.mp hrefuses)
      · rw [if_neg hrefuses]
        obtain ⟨haccepting, hstate⟩ := not_refuses_iff.mp hrefuses
        exact .updateAccepted i config hcall haccepting hstate

/-- Every step of another thread is one of these. -/
theorem hostEffect (w : World) (s : HostStep) : HostEffect w (w.hostStep s) := by
  have hsilent : HostEffect w w := .silent w.events w.toolProgress
  cases s with
  | cancel source =>
    by_cases h : w.control.state = .none
    · rw [hostStep, LoopControl.markCancel, if_pos h]
      exact .cancelWon source h
    · rw [hostStep, LoopControl.markCancel, if_neg h]
      exact .cancelLost source h
  | update config =>
    -- Outside the critical section only the atomic state and the limits are looked at.
    rw [hostStep]
    split
    · rename_i h
      refine .updateInactive config fun hstate ↦ ?_
      simp [isActive_iff.mpr hstate] at h
    · rename_i h
      have hstate : w.control.state = .none := isActive_iff.mp (by simpa using h)
      split
      · rename_i hvalid
        exact .updateInvalid config hstate (by simp [hvalid])
      · rename_i hvalid
        exact .updateStarted config hstate hvalid
  | answer id answer => exact hostEffect_answer w id answer
  | resume i => exact hostEffect_resume w i
  | recvEvent => exact .silent _ w.toolProgress
  | dropEvents => exact .silent _ w.toolProgress
  | toolProgress progress =>
    rw [hostStep]
    split
    · exact hsilent
    · split
      · exact hsilent
      · split
        · exact .silent w.events _
        · exact .silent w.events _
  | countProgress =>
    rw [hostStep]
    split
    · exact hsilent
    · split
      · exact hsilent
      · exact .silent w.events _

/-- Other threads leave the atomic state alone, or cancel a loop that is running. -/
theorem HostEffect.state {w w' : World} (h : HostEffect w w') :
    w'.control.state = w.control.state ∨
      w.control.state = .none ∧ ∃ source, w'.control.state = .cancelled source := by
  cases h with
  | cancelWon source hstate => exact .inr ⟨hstate, source, rfl⟩
  | _ => exact .inl rfl

namespace Kept

/-- What is kept by everything that may happen holds after every program. -/
theorem exec {J : World → Prop} (h : Kept (fun _ _ ↦ True) J) {α : Type} (p : Action α) {w : World}
    (hw : J w) : J (machine.exec p w).2 :=
  machine.exec_invariant (J := J) (fun _ _ hw' ↦ h.step hw' trivial) p hw

/-- What is kept by some operations holds after every program that performs no others. -/
theorem exec_of_uses {S : Op → Prop} {J : World → Prop} (h : Kept (fun _ ↦ S) J) {α : Type}
    {p : Action α} (hp : p.Uses S) {w : World} (hw : J w) : J (machine.exec p w).2 :=
  machine.exec_invariant_of_uses (J := J) (fun _ _ ho hw' ↦ h.step hw' ho) hp hw

end Kept

/-! ## Longer logs -/

/-- The log of `w'` continues that of `w`, with operations of the runner that are in `S`. -/
def Extends (S : Op → Prop) (w w' : World) : Prop :=
  ∃ newer, w'.log = newer ++ w.log ∧ ∀ e ∈ traceOf newer, S e.op

theorem extends_kept (S : Op → Prop) (w : World) : Kept (fun _ ↦ S) (Extends S w) where
  host w' s h := by
    obtain ⟨newer, hlog, hnewer⟩ := h
    obtain ⟨events, hevents⟩ := w'.hostStep_log s
    refine ⟨events.map Record.host ++ newer, ?_, ?_⟩
    · rw [hevents, hlog, List.append_assoc]
    · rw [traceOf_host]
      exact hnewer
  pass _ _ _ _ h := h
  answered w' turn o r h ho _ := by
    obtain ⟨newer, hlog, hnewer⟩ := h
    refine ⟨.runner ⟨o, w'.clock, r⟩ :: newer, ?_, ?_⟩
    · rw [recordEntry_log, effect_log, hlog, List.cons_append]
    · intro e he
      rcases List.mem_cons.mp he with rfl | he
      · exact ho
      · exact hnewer e he

/-- A program adds to the log, and performs only what it uses. -/
theorem exec_extends {S : Op → Prop} {α : Type} {p : Action α} (hp : p.Uses S) (w : World) :
    Extends S w (machine.exec p w).2 :=
  (extends_kept S w).exec_of_uses hp ⟨[], rfl, by simp [traceOf]⟩

end World

end MinicoreRuntime
