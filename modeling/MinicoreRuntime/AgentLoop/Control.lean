import MinicoreRuntime.AgentLoop.State

/-!
# The control plane of a loop

The state shared by the runner of a loop and the handles on it. Each function below is one atomic
step: one access to the atomic state, one access to a watch channel, or one critical section of the
mutex. A method of the code that takes several such steps is taken apart, so that other threads can
come in between.

## Main definitions

* `RunState`, `CancelSource`: the cancel and finish state machine.
* `ControlState`: what the mutex guards.
* `LoopControl` and its atomic steps.
-/

namespace MinicoreRuntime

/-- Who asks for cancellation. -/
inductive CancelSource where
  | user
  | ownerDropped
  | shutdown
deriving DecidableEq, Repr

/-- The reason a cancellation is reported with. -/
def CancelSource.reason : CancelSource → CancelReason
  | .user => .user
  | .ownerDropped => .ownerDropped
  | .shutdown => .shutdown

theorem CancelSource.reason_ne_deadline (source : CancelSource) : source.reason ≠ .deadline := by
  cases source <;> simp [reason]

theorem CancelSource.reason_injective {s t : CancelSource} (h : s.reason = t.reason) : s = t := by
  cases s <;> cases t <;> simp_all [reason]

/-- The atomic state: running, cancelled by someone, or sealed. -/
inductive RunState where
  | none
  | cancelled (source : CancelSource)
  | finished
deriving DecidableEq, Repr

/-- The reason a marker stands for; anything but a marker counts as the user's. -/
def RunState.cancelReason : RunState → CancelReason
  | .cancelled source => source.reason
  | .none | .finished => .user

/-- What the seal found. -/
inductive FinishSeal where
  | clean
  | cancelledPrior (source : CancelSource)
  | alreadyFinished
deriving DecidableEq, Repr

/-- A configuration accepted for the next request boundary. -/
structure PendingConfig where
  revision : Nat
  config : ExecutionConfig

/-- An interaction that waits for an answer. The answer goes to the channel `reply`. -/
structure InteractionSlot where
  id : InteractionId
  expected : InteractionKind
  reply : Nat
deriving DecidableEq

/-- What the mutex guards. -/
structure ControlState where
  interaction : Option InteractionSlot
  acceptingUpdates : Bool
  /-- The revision of the last request issued. -/
  currentRevision : Nat
  /-- The revision of the next update accepted. -/
  nextRevision : Nat
  pendingConfig : Option PendingConfig

/-- The ways an answer is rejected. -/
inductive AnswerError where
  | interactionNotFound
  | wrongInteraction
  | notActive
deriving DecidableEq, Repr

/-- The ways an update is rejected. -/
inductive UpdateError where
  | invalidConfig
  | notActive
deriving DecidableEq, Repr

/-- The control plane of one loop. -/
structure LoopControl where
  id : LoopId
  /-- Whether the cancellation token is cancelled. -/
  cancel : Bool
  limits : LoopLimits
  /-- The value of the watch channel for the state. -/
  stateTx : LoopState
  /-- The value of the watch channel for the report. -/
  completion : Option LoopReport
  state : RunState
  inner : ControlState

namespace LoopControl

/-- The control plane of a new loop. -/
def new (id : LoopId) (limits : LoopLimits) : LoopControl where
  id := id
  cancel := false
  limits := limits
  stateTx := .new id .starting 0 ConfigRevision.initial
  completion := none
  state := .none
  inner :=
    { interaction := none
      acceptingUpdates := true
      currentRevision := ConfigRevision.initial
      nextRevision := ConfigRevision.next ConfigRevision.initial
      pendingConfig := none }

variable (control : LoopControl)

/-! ### The atomic state and the token -/

/-- The loop is neither cancelled nor sealed. -/
def isActive : Bool := control.state == .none

/-- The loop is sealed. -/
def isFinished : Bool := control.state == .finished

/-- The compare-and-exchange of `mark_cancel`; the answer is whether it won. -/
def markCancel (source : CancelSource) : Bool × LoopControl :=
  -- The first cancellation wins; later ones change nothing.
  if control.state = .none then (true, { control with state := .cancelled source })
  else (false, control)

/-- Cancel the token. -/
def cancelToken : LoopControl := { control with cancel := true }

/-- The reason the state stands for. -/
def cancelReason : CancelReason := control.state.cancelReason

/-- The first compare-and-exchange of `finish_once`. -/
def sealState : FinishSeal × LoopControl :=
  match control.state with
  | .none => (.clean, { control with state := .finished })
  -- A cancellation before the seal is kept for the report.
  | .cancelled source => (.cancelledPrior source, control)
  | .finished => (.alreadyFinished, control)

/-- The second compare-and-exchange of `finish_once`, from the marker the first one found. -/
def sealCancelled (source : CancelSource) : LoopControl :=
  if control.state = .cancelled source then { control with state := .finished } else control

/-! ### Configurations -/

/-- The critical section of `update`. -/
def update (config : ExecutionConfig) : Except UpdateError Nat × LoopControl :=
  -- The limits were checked before the critical section was entered.
  if !control.inner.acceptingUpdates || !control.isActive then (.error .notActive, control)
  else
    let revision := control.inner.nextRevision
    -- A pending configuration is replaced, and its revision is never applied.
    (.ok revision, { control with inner := { control.inner with
      nextRevision := ConfigRevision.next revision
      pendingConfig := some ⟨revision, config⟩ } })

/-- Take the latest accepted configuration. -/
def takeConfig : Option PendingConfig × LoopControl :=
  (control.inner.pendingConfig, { control with inner := { control.inner with
    pendingConfig := none } })

/-- Stop accepting updates and answers, and take the configuration that was never applied. This is
`begin_final`, and the rest of the critical section of `finish_once`. -/
def closeAccepting : Option ExecutionConfig × LoopControl :=
  (control.inner.pendingConfig.map PendingConfig.config,
    { control with inner := { control.inner with
      acceptingUpdates := false
      pendingConfig := none } })

/-- Record the revision of a request that is issued. -/
def commitRevision (revision : Nat) : LoopControl :=
  { control with inner := { control.inner with currentRevision := revision } }

/-- The revision of the last request issued. -/
def appliedRevision : Nat := control.inner.currentRevision

/-! ### Interactions -/

/-- Set the pending interaction; the answer is whether there was none. -/
def setInteraction (slot : InteractionSlot) : Bool × LoopControl :=
  if control.inner.interaction.isSome then (false, control)
  else (true, { control with inner := { control.inner with interaction := some slot } })

/-- Remove the pending interaction. -/
def takeInteraction : LoopControl :=
  { control with inner := { control.inner with interaction := none } }

/-- The critical section of `answer`; an accepted answer goes to the channel in the answer. -/
def answer (interactionId : InteractionId) (answer : InteractionAnswer) :
    Except AnswerError Nat × LoopControl :=
  if !control.inner.acceptingUpdates || !control.isActive then (.error .notActive, control)
  else match control.inner.interaction with
    | none => (.error .interactionNotFound, control)
    | some slot =>
      -- A wrong answer leaves the question pending.
      if slot.id ≠ interactionId then (.error .wrongInteraction, control)
      else if !answer.validate slot.expected then (.error .wrongInteraction, control)
      else (.ok slot.reply, control.takeInteraction)

/-- Sealing leaves the watch channels alone. -/
theorem sealState_frame :
    control.sealState.2.stateTx = control.stateTx ∧
      control.sealState.2.completion = control.completion := by
  rw [sealState]
  split <;> exact ⟨rfl, rfl⟩

theorem sealCancelled_frame (source : CancelSource) :
    (control.sealCancelled source).stateTx = control.stateTx ∧
      (control.sealCancelled source).completion = control.completion := by
  rw [sealCancelled]
  split <;> exact ⟨rfl, rfl⟩

/-- Setting an interaction leaves the watch channels alone. -/
theorem setInteraction_frame (slot : InteractionSlot) :
    (control.setInteraction slot).2.stateTx = control.stateTx ∧
      (control.setInteraction slot).2.completion = control.completion := by
  rw [setInteraction]
  split <;> exact ⟨rfl, rfl⟩

/-- Accepting an update leaves the watch channels alone. -/
theorem update_frame (config : ExecutionConfig) :
    (control.update config).2.stateTx = control.stateTx ∧
      (control.update config).2.completion = control.completion := by
  rw [update]
  split <;> exact ⟨rfl, rfl⟩

/-- Accepting an answer leaves the watch channels alone. -/
theorem answer_frame (interactionId : InteractionId) (answer : InteractionAnswer) :
    (control.answer interactionId answer).2.stateTx = control.stateTx ∧
      (control.answer interactionId answer).2.completion = control.completion := by
  rw [LoopControl.answer]
  split
  · exact ⟨rfl, rfl⟩
  · split
    · exact ⟨rfl, rfl⟩
    · split
      · exact ⟨rfl, rfl⟩
      · split <;> exact ⟨rfl, rfl⟩

/-! ### Watch channels -/

/-- Publish a state. -/
def publishState (state : LoopState) : LoopControl := { control with stateTx := state }

/-- Deliver a report. -/
def sendReport (report : LoopReport) : LoopControl := { control with completion := some report }

end LoopControl

end MinicoreRuntime
