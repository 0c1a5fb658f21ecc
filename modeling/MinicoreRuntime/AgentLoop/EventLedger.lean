import MinicoreRuntime.AgentLoop.Relay

/-!
# The ledger of events

Events and progress reach the host through bounded queues, which count what they lose. A ledger
beside the world lists what was produced and what was enqueued for the host. This module says when
its accounts balance, and that the steps of other threads keep them so: a tool reports progress, and
the host receives events.

## Main definitions

* `EventLedger`, `EventLedger.audit`: what happened to the events of a loop.
* `Undisturbed`, `Accounted`: the accounts, and under which circumstances they balance.
* `Reconciled`: the invariant.

## Main results

* `Reconciled.hostSteps`: steps of other threads keep the invariant.
-/

namespace MinicoreRuntime

open Interactive

/-! ## The ledger -/

/-- What happened to the events of a loop. -/
structure EventLedger where
  /-- What was produced for the host, the oldest first. -/
  produced : List Produced
  /-- The envelopes that were enqueued for the host, the oldest first. -/
  enqueued : List LoopEventEnvelope
  /-- A tool reported progress outside of its call. -/
  late : Bool
  /-- A counter reached its bound. -/
  overflowed : Bool

/-- The ledger before anything happened. -/
def EventLedger.new : EventLedger := ⟨[], [], false, false⟩

/-- The bound of the counters. -/
def counterBound : Nat := 2 ^ 64

namespace World

/-- The reports in the channel of a tool. -/
def toolQueue (w : World) : List Produced :=
  (w.toolProgress.map fun channel ↦ channel.queue.map (.report channel.callId)).getD []

/-- The count of the channel of a tool. -/
def toolDropped (w : World) : Nat := (w.toolProgress.map ToolChannel.dropped).getD 0

/-- The reports of a tool that found the channel full and are not counted yet. -/
def uncounted (w : World) : Nat := (w.toolProgress.map ToolChannel.uncounted).getD 0

/-- The values in the progress channels, the oldest first. -/
def waiting (w : World) : List Produced := w.modelProgress.queue.map .delta ++ w.toolQueue

/-- The counts of the event sink and of the progress channels, which no envelope carries yet. -/
def unattached (w : World) : Nat := w.events.dropped + w.modelProgress.dropped + w.toolDropped

/-- Whether an operation brings a counter to its bound. -/
def overflows (w : World) : Op → Bool
  | .recordDropped count => decide (counterBound ≤ w.events.dropped + count)
  | .tryEmit _ =>
    decide (w.events.capacity ≤ w.events.queue.length) &&
      decide (counterBound ≤ w.events.dropped + 1)
  | .offerProgress _ =>
    decide (progressCapacity ≤ w.modelProgress.queue.length) &&
      decide (counterBound ≤ w.modelProgress.dropped + 1)
  | _ => false

end World

/-- What an operation produces. An event is new unless it forwards a value in hand. -/
def Relay.produces (s : Relay) : Op → List Produced
  | .tryEmit event => if s.value.isNone then [event.source] else []
  | .offerProgress progress => [.delta progress]
  | _ => []

/-- Whether an operation ends a port call. -/
def Op.endsCall (turn : Turn) : Op → Bool
  | .makeFuture _ => World.unwinds turn
  | .dropFuture => true
  | _ => false

/-- Whether an operation calls a port. -/
def Op.makesFuture : Op → Bool
  | .makeFuture _ => true
  | _ => false

namespace EventLedger

/-- The ledger after a step of another thread. A tool is `active` while it is being called. -/
def hostStep (active : Bool) (w : World) (l : EventLedger) (step : HostStep) : EventLedger :=
  match step, w.toolProgress with
  | .toolProgress progress, some channel =>
    if progress.validate then
      { l with
        produced := l.produced ++ [.report channel.callId progress]
        late := l.late || !active }
    else l
  | .countProgress, some channel =>
    { l with overflowed := l.overflowed ||
        (decide (channel.uncounted ≠ 0) && decide (counterBound ≤ channel.dropped + 1)) }
  | _, _ => l

/-- The ledger after the steps of other threads. -/
def hostSteps (active : Bool) (w : World) (l : EventLedger) : List HostStep → EventLedger
  | [] => l
  | step :: steps => hostSteps active (w.hostStep step) (l.hostStep active w step) steps

/-- The ledger after an operation. -/
def effect (s : Relay) (w : World) (turn : Turn) (o : Op) (l : EventLedger) : EventLedger where
  produced := l.produced ++ s.produces o
  enqueued := l.enqueued ++ (w.effect o).events.queue.drop w.events.queue.length
  late := l.late || (o.endsCall turn && decide (w.uncounted ≠ 0))
  overflowed := l.overflowed || w.overflows o

/-- The ledger after a turn of the runner. The steps of a tool while its future is made come before
that operation. -/
def audit (w : World) (o : Op) (l : EventLedger) : EventLedger :=
  match w.schedule with
  | [] => l
  | turn :: rest =>
    let s := relay.run w.trace
    (l.hostSteps (s.calling || o.makesFuture) { w with schedule := rest } turn.host).effect s
      (w.advance turn rest o) turn o

end EventLedger

/-! ## The accounts -/

/-- The host keeps the stream of events, tools report progress during their calls only, and no
counter reaches its bound. -/
structure Undisturbed (w : World) (l : EventLedger) : Prop where
  kept : w.events.receiverDropped = false
  onTime : l.late = false
  bounded : l.overflowed = false

/-- The accounts of a loop. The last group counts what is in the middle of a step: the value and the
count in the hands of the runner, and the reports not counted yet. -/
structure Accounted (s : Relay) (w : World) (l : EventLedger) : Prop where
  total : l.produced.length = l.enqueued.length + w.waiting.length +
    (l.enqueued.map LoopEventEnvelope.droppedBefore).sum + w.unattached +
    (s.value.toList.length + s.taken + w.uncounted)
  order : (l.enqueued.map fun envelope ↦ envelope.event.source).Sublist l.produced

/-- What is known between the operations of a runner, where a tool is `active` while it is being
called. -/
structure Reconciled (active : Bool) (s : Relay) (w : World) (l : EventLedger) : Prop where
  closed : w.events.closed = false
  total : l.produced.length = l.enqueued.length + w.waiting.length +
    (l.enqueued.map LoopEventEnvelope.droppedBefore).sum + w.unattached +
    (s.value.toList.length + s.taken + w.uncounted)
  order : ((l.enqueued.map fun envelope ↦ envelope.event.source) ++
    (s.value.toList ++ w.waiting)).Sublist l.produced
  atRest : s.stage = .idle ∨ s.stage = .toolDone → s.value = none
  modelDropped : s.stage ≠ .model → w.modelProgress.dropped = 0
  modelQueue : s.stage ≠ .model → s.stage ≠ .modelEnds → w.modelProgress.queue = []
  channel : s.stage ≠ .tool → s.stage ≠ .toolEnds → s.stage ≠ .toolDone → w.toolProgress = none
  ended : s.stage = .toolEnds ∨ s.stage = .toolDone → active = false ∧ w.toolDropped = 0
  emptied : s.stage = .toolDone → w.toolQueue = []
  counted : active = false → w.uncounted = 0

theorem Reconciled.accounted {active : Bool} {s : Relay} {w : World} {l : EventLedger}
    (h : Reconciled active s w l) : Accounted s w l :=
  ⟨h.total, (List.sublist_append_left _ _).trans h.order⟩

/-- The accounts depend on the event sink and on the channels only. -/
theorem Reconciled.congr {active : Bool} {s : Relay} {w w' : World} {l l' : EventLedger}
    (h : Reconciled active s w l) (hevents : w'.events = w.events)
    (hmodel : w'.modelProgress = w.modelProgress) (htool : w'.toolProgress = w.toolProgress)
    (hproduced : l'.produced = l.produced) (henqueued : l'.enqueued = l.enqueued) :
    Reconciled active s w' l' := by
  -- Everything the books look at is a function of these parts of the world.
  have hqueue : w'.toolQueue = w.toolQueue := by rw [World.toolQueue, htool, World.toolQueue]
  have hdropped : w'.toolDropped = w.toolDropped := by
    rw [World.toolDropped, htool, World.toolDropped]
  have huncounted : w'.uncounted = w.uncounted := by rw [World.uncounted, htool, World.uncounted]
  have hwaiting : w'.waiting = w.waiting := by rw [World.waiting, hmodel, hqueue, World.waiting]
  have hunattached : w'.unattached = w.unattached := by
    rw [World.unattached, hevents, hmodel, hdropped, World.unattached]
  constructor
  · rw [hevents]
    exact h.closed
  · rw [hproduced, henqueued, hwaiting, hunattached, huncounted]
    exact h.total
  · rw [hproduced, henqueued, hwaiting]
    exact h.order
  · exact h.atRest
  · rw [hmodel]
    exact h.modelDropped
  · rw [hmodel]
    exact h.modelQueue
  · rw [htool]
    exact h.channel
  · rw [hdropped]
    exact h.ended
  · rw [hqueue]
    exact h.emptied
  · rw [huncounted]
    exact h.counted

/-! ## Steps of other threads -/

section

variable {active : Bool} {s : Relay} {w : World} {l : EventLedger} {step : HostStep}
  {channel : ToolChannel}

/-- Whether a step of another thread is about events or progress. -/
def HostStep.relays : HostStep → Bool
  | .recvEvent | .dropEvents | .toolProgress _ | .countProgress => true
  | _ => false

/-- Other steps leave the event sink and the channels alone. -/
theorem World.hostStep_channels (w : World) (h : step.relays = false) :
    (w.hostStep step).events = w.events ∧ (w.hostStep step).modelProgress = w.modelProgress ∧
      (w.hostStep step).toolProgress = w.toolProgress := by
  -- Control steps do not touch the channels.
  cases step with
  | cancel source =>
    rw [hostStep, LoopControl.markCancel]
    by_cases hstate : w.control.state = .none <;> simp [hstate, record]
  | update | answer =>
    rw [hostStep]
    split
    · exact ⟨rfl, rfl, rfl⟩
    · split <;> exact ⟨rfl, rfl, rfl⟩
  | resume =>
    rw [hostStep]
    split
    · exact ⟨rfl, rfl, rfl⟩
    · exact ⟨rfl, rfl, rfl⟩
    · split <;> exact ⟨rfl, rfl, rfl⟩
  | recvEvent | dropEvents | toolProgress | countProgress =>
    exact absurd h (by simp [HostStep.relays])

/-- A report is refused where it fails its check. -/
theorem World.toolProgress_refused (w : World) {progress : ToolProgress}
    (h : progress.validate = false) : w.hostStep (.toolProgress progress) = w := by
  simp [hostStep, h]

/-- Another report is queued, or it finds the channel full. -/
theorem World.toolProgress_spec (h : w.toolProgress = some channel) {progress : ToolProgress}
    (hvalid : progress.validate = true) :
    w.hostStep (.toolProgress progress) =
        { w with toolProgress := some { channel with queue := channel.queue ++ [progress] } } ∨
      w.hostStep (.toolProgress progress) =
        { w with toolProgress := some { channel with uncounted := channel.uncounted + 1 } } := by
  rw [hostStep, if_neg (by simp [hvalid]), h]
  dsimp only
  split
  · exact .inl rfl
  · exact .inr rfl

/-- A report that found the channel full is counted, if there is one. -/
theorem World.countProgress_spec (h : w.toolProgress = some channel) :
    w.hostStep .countProgress = w ∨
      channel.uncounted ≠ 0 ∧ w.hostStep .countProgress =
        { w with
          toolProgress := some { channel with
            uncounted := channel.uncounted - 1
            dropped := channel.dropped + 1 } } := by
  rw [hostStep, h]
  dsimp only
  split
  · exact .inl rfl
  · rename_i hne
    exact .inr ⟨hne, rfl⟩

theorem EventLedger.toolProgress_eq (h : w.toolProgress = some channel) {progress : ToolProgress}
    (hvalid : progress.validate = true) :
    l.hostStep active w (.toolProgress progress) =
      { l with
        produced := l.produced ++ [.report channel.callId progress]
        late := l.late || !active } := by
  simp only [hostStep, h, hvalid, if_true]

theorem EventLedger.toolProgress_refused (active : Bool) (w : World) (l : EventLedger)
    {progress : ToolProgress} (h : progress.validate = false) :
    l.hostStep active w (.toolProgress progress) = l := by
  unfold hostStep
  split
  · rename_i heq _
    obtain rfl := HostStep.toolProgress.inj heq
    rw [if_neg (by simp [h])]
  · rename_i heq _
    exact absurd heq (by simp)
  · rfl

/-- Only reports enter the ledger. -/
theorem EventLedger.hostStep_lists (active : Bool) (w : World) (l : EventLedger)
    (h : ∀ progress, step ≠ .toolProgress progress) :
    (l.hostStep active w step).produced = l.produced ∧
      (l.hostStep active w step).enqueued = l.enqueued := by
  unfold hostStep
  split
  · exact absurd rfl (h _)
  · exact ⟨rfl, rfl⟩
  · exact ⟨rfl, rfl⟩

theorem EventLedger.hostStep_flags (active : Bool) (w : World) (l : EventLedger) (step : HostStep) :
    ((l.hostStep active w step).late = false → l.late = false) ∧
      ((l.hostStep active w step).overflowed = false → l.overflowed = false) := by
  unfold hostStep
  split
  · split
    · exact ⟨fun h ↦ (Bool.or_eq_false_iff.mp h).1, id⟩
    · exact ⟨id, id⟩
  · exact ⟨id, fun h ↦ (Bool.or_eq_false_iff.mp h).1⟩
  · exact ⟨id, id⟩

/-- What disturbs the accounts is not undone. -/
theorem Undisturbed.of_hostStep (h : Undisturbed (w.hostStep step) (l.hostStep active w step)) :
    Undisturbed w l := by
  obtain ⟨hlate, hoverflowed⟩ := EventLedger.hostStep_flags active w l step
  obtain ⟨hkept, honTime, hbounded⟩ := h
  refine ⟨?_, hlate honTime, hoverflowed hbounded⟩
  -- A receiver once dropped stays dropped.
  cases step with
  | recvEvent => exact hkept
  | dropEvents => exact absurd hkept nofun
  | toolProgress progress =>
    rw [World.hostStep] at hkept
    split at hkept
    · exact hkept
    · split at hkept
      · exact hkept
      · split at hkept <;> exact hkept
  | countProgress =>
    rw [World.hostStep] at hkept
    split at hkept
    · exact hkept
    · split at hkept <;> exact hkept
  | cancel | update | answer | resume =>
    rw [(w.hostStep_channels rfl).1] at hkept
    exact hkept

/-- A report that a tool makes while it is being called. -/
theorem Reconciled.toolProgress (h : Reconciled active s w l) (progress : ToolProgress)
    (hlate : (l.hostStep active w (.toolProgress progress)).late = false) :
    Reconciled active s (w.hostStep (.toolProgress progress))
      (l.hostStep active w (.toolProgress progress)) := by
  cases hvalid : progress.validate with
  | false =>
    rw [World.toolProgress_refused w hvalid, EventLedger.toolProgress_refused active w l hvalid]
    exact h
  | true =>
  cases hchannel : w.toolProgress with
  | none =>
    simp only [World.hostStep, EventLedger.hostStep, hchannel, ite_self]
    exact h
  | some channel =>
    rw [EventLedger.toolProgress_eq hchannel hvalid] at hlate ⊢
    have hactive : active = true := by simpa using (Bool.or_eq_false_iff.mp hlate).2
    subst hactive
    have hended : ¬ (s.stage = .toolEnds ∨ s.stage = .toolDone) := fun hstage ↦
      absurd (h.ended hstage).1 (by simp)
    have htotal := h.total
    simp only [World.waiting, World.toolQueue, World.unattached, World.toolDropped, World.uncounted,
      hchannel, List.length_append, Option.map_some, Option.getD_some] at htotal
    -- Either there is room for the report, or it is to be counted.
    rcases World.toolProgress_spec hchannel hvalid with hworld | hworld
    all_goals
      rw [hworld]
      refine { h with
        total := ?_
        order := ?_
        channel := fun h₁ h₂ h₃ ↦ absurd (h.channel h₁ h₂ h₃) (by simp [hchannel])
        ended := fun hstage ↦ absurd hstage hended
        emptied := fun hstage ↦ absurd (.inr hstage) hended
        counted := fun hfalse ↦ absurd hfalse (by simp) }
    · simp only [World.waiting, World.toolQueue, World.unattached, World.toolDropped,
        World.uncounted, List.length_append, List.map_append, List.length_map,
        List.length_singleton,
        Option.map_some, Option.getD_some] at htotal ⊢
      omega
    · -- The report is the last in the channel, as it is in the ledger.
      have hwaiting : World.waiting { w with
          toolProgress := some { channel with queue := channel.queue ++ [progress] } } =
          w.waiting ++ [.report channel.callId progress] := by
        simp [World.waiting, World.toolQueue, hchannel]
      rw [hwaiting, ← List.append_assoc, ← List.append_assoc, List.append_assoc _ _ w.waiting]
      exact h.order.append_right _
    · simp only [World.waiting, World.toolQueue, World.unattached, World.toolDropped,
        World.uncounted, List.length_append, List.length_map, List.length_singleton,
        Option.map_some, Option.getD_some] at htotal ⊢
      omega
    · have hwaiting : World.waiting { w with
          toolProgress := some { channel with uncounted := channel.uncounted + 1 } } =
            w.waiting := by
        simp [World.waiting, World.toolQueue, hchannel]
      rw [hwaiting]
      exact h.order.trans (List.sublist_append_left _ _)

/-- A report that found the channel full is counted. -/
theorem Reconciled.countProgress (h : Reconciled active s w l) :
    Reconciled active s (w.hostStep .countProgress) (l.hostStep active w .countProgress) := by
  have hlists : ∀ progress, HostStep.countProgress ≠ .toolProgress progress := nofun
  obtain ⟨hproduced, henqueued⟩ := EventLedger.hostStep_lists active w l hlists
  suffices hworld : Reconciled active s (w.hostStep .countProgress) l from
    hworld.congr rfl rfl rfl hproduced henqueued
  cases hchannel : w.toolProgress with
  | none =>
    simp only [World.hostStep, hchannel]
    exact h
  | some channel =>
    rcases World.countProgress_spec hchannel with hworld | ⟨hne, hworld⟩
    · rwa [hworld]
    rw [hworld]
    -- After the call nothing is left to be counted.
    have hactive : active = true := by
      cases active with
      | true => rfl
      | false =>
        have hcounted := h.counted rfl
        simp only [World.uncounted, hchannel, Option.map_some, Option.getD_some] at hcounted
        exact absurd hcounted hne
    subst hactive
    have htotal := h.total
    have horder := h.order
    have hended : ¬ (s.stage = .toolEnds ∨ s.stage = .toolDone) := fun hstage ↦
      absurd (h.ended hstage).1 (by simp)
    refine { h with
      total := ?_
      order := ?_
      channel := fun h₁ h₂ h₃ ↦ absurd (h.channel h₁ h₂ h₃) (by simp [hchannel])
      ended := fun hstage ↦ absurd hstage hended
      emptied := fun hstage ↦ absurd (.inr hstage) hended
      counted := fun hfalse ↦ absurd hfalse (by simp) }
    · simp only [World.waiting, World.toolQueue, World.unattached, World.toolDropped,
        World.uncounted, hchannel, Option.map_some, Option.getD_some] at htotal ⊢
      omega
    · simp only [World.waiting, World.toolQueue, hchannel, Option.map_some] at horder ⊢
      exact horder

/-- Steps of other threads keep the accounts. -/
theorem Reconciled.hostStep (h : Reconciled active s w l)
    (hafter : Undisturbed (w.hostStep step) (l.hostStep active w step)) :
    Reconciled active s (w.hostStep step) (l.hostStep active w step) := by
  by_cases hrelays : step.relays = false
  · obtain ⟨hevents, hmodel, htool⟩ := w.hostStep_channels hrelays
    have hreports : ∀ progress, step ≠ .toolProgress progress := by
      rintro progress rfl
      exact absurd hrelays nofun
    obtain ⟨hproduced, henqueued⟩ := EventLedger.hostStep_lists active w l hreports
    exact h.congr hevents hmodel htool hproduced henqueued
  cases step with
  | recvEvent => exact { h with }
  | dropEvents => exact absurd hafter.kept nofun
  | toolProgress progress => exact h.toolProgress progress hafter.onTime
  | countProgress => exact h.countProgress
  | cancel | update | answer | resume => exact absurd rfl hrelays

/-- The steps of other threads before an operation keep the accounts. -/
theorem Reconciled.hostSteps (steps : List HostStep) (h : Undisturbed w l → Reconciled active s w l)
    (hafter : Undisturbed (w.hostSteps steps) (l.hostSteps active w steps)) :
    Reconciled active s (w.hostSteps steps) (l.hostSteps active w steps) := by
  induction steps generalizing w l with
  | nil => exact h hafter
  | cons step steps ih => exact ih (fun hstep ↦ (h hstep.of_hostStep).hostStep hstep) hafter

end

end MinicoreRuntime
