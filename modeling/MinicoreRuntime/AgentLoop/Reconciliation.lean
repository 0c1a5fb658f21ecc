import MinicoreRuntime.AgentLoop.EventLedger

/-!
# Accounts of operations

What the operations of a runner do to the accounts of its events. A value goes from its channel into
the hands of the runner and from there to the event sink, and a count does so in the same way; the
event sink enqueues an event with its count, or counts it.

## Main results

* `Reconciled.effect`: an operation that the relay allows keeps the invariant.
-/

namespace MinicoreRuntime

open Interactive

/-! ## Operations -/

/-- Below the bound a counter counts. -/
theorem saturatingAdd_of_lt {left right : Nat} (h : left + right < counterBound) :
    saturatingAdd 64 left right = left + right := by
  unfold saturatingAdd
  unfold counterBound at h
  omega

/-- An event is enqueued with the count of the events lost before it, or it is lost itself. -/
theorem LoopEvents.tryEmit_spec {events : LoopEvents} (hclosed : events.closed = false)
    (hkept : events.receiverDropped = false) (event : LoopEvent) :
    events.tryEmit event =
        { events with queue := events.queue ++ [⟨events.dropped, event⟩], dropped := 0 } ∨
      events.capacity ≤ events.queue.length ∧
        events.tryEmit event = { events with dropped := saturatingAdd 64 events.dropped 1 } := by
  rw [tryEmit, hclosed, hkept, if_neg nofun, if_neg nofun]
  split
  · exact .inl rfl
  · rename_i hfull
    exact .inr ⟨Nat.le_of_not_lt hfull, rfl⟩

@[simp]
theorem LoopEvents.tryEmit_receiverDropped (events : LoopEvents) (event : LoopEvent) :
    (events.tryEmit event).receiverDropped = events.receiverDropped := by
  unfold tryEmit
  split
  · rfl
  · split
    · rfl
    · split <;> rfl

section

variable {active : Bool} {s : Relay} {w : World} {l : EventLedger} {turn : Turn} {o : Op}

/-- Most operations leave the event sink and the channels alone. -/
theorem World.effect_channels (w : World) (h : o.relays = false) :
    (w.effect o).events = w.events ∧ (w.effect o).modelProgress = w.modelProgress ∧
      (w.effect o).toolProgress = w.toolProgress := by
  cases o with
  | tryEmit | makeFuture | recordDropped | dropFuture | openToolProgress | recvToolProgress
  | takeToolDropped | closeToolProgress | openModelProgress | offerProgress | recvModelProgress
  | takeModelDropped => exact absurd h nofun
  | _ => exact ⟨rfl, rfl, rfl⟩

/-- Only emissions and offers enter the ledger. -/
theorem EventLedger.effect_lists (l : EventLedger) (s : Relay) (w : World) (turn : Turn) (o : Op)
    (hproduces : s.produces o = []) (hqueue : (w.effect o).events.queue = w.events.queue) :
    (l.effect s w turn o).produced = l.produced ∧ (l.effect s w turn o).enqueued = l.enqueued := by
  constructor
  · rw [effect, hproduces, List.append_nil]
  · rw [effect, hqueue, List.drop_length, List.append_nil]

/-- What disturbs the accounts is not undone. -/
theorem Undisturbed.of_effect (h : Undisturbed (w.effect o) (l.effect s w turn o)) :
    Undisturbed w l := by
  refine ⟨?_, (Bool.or_eq_false_iff.mp h.onTime).1, (Bool.or_eq_false_iff.mp h.bounded).1⟩
  have hkept := h.kept
  cases o with
  | tryEmit event =>
    -- Dropping the stream is up to the host.
    change (w.events.tryEmit event).receiverDropped = false at hkept
    rwa [LoopEvents.tryEmit_receiverDropped] at hkept
  | offerProgress progress =>
    unfold World.effect at hkept
    dsimp only at hkept
    split at hkept <;> exact hkept
  | _ => exact hkept

namespace Reconciled

/-- What the ledger lists after an operation that neither emits nor offers. -/
theorem of_lists {s' : Relay} {w' : World} (h : Reconciled active s' w' l)
    (hproduces : s.produces o = []) (hqueue : (w.effect o).events.queue = w.events.queue) :
    Reconciled active s' w' (l.effect s w turn o) := by
  obtain ⟨hproduced, henqueued⟩ := l.effect_lists s w turn o hproduces hqueue
  exact h.congr rfl rfl rfl hproduced henqueued

/-- A count is recorded. -/
theorem recordDropped (h : Reconciled active s w l) {count : Nat} (hcount : count = s.taken)
    (hbounded : w.overflows (.recordDropped count) = false) :
    Reconciled active { s with taken := 0 } (w.effect (.recordDropped count)) l := by
  -- The counter does not saturate here, so that the sum is exact.
  have hlt : w.events.dropped + count < counterBound := by
    simpa [World.overflows] using hbounded
  have hunattached : (w.effect (.recordDropped count)).unattached = w.unattached + count := by
    have hsum : (w.events.recordDropped count).dropped = w.events.dropped + count :=
      saturatingAdd_of_lt hlt
    show (w.events.recordDropped count).dropped + w.modelProgress.dropped + w.toolDropped = _
    rw [hsum, World.unattached]
    omega
  refine { h with total := ?_ }
  have htotal := h.total
  rw [hunattached]
  show _ = _ + w.waiting.length + _ + (w.unattached + count) +
    (s.value.toList.length + 0 + w.uncounted)
  omega

/-- A value is offered to the channel of a model call. -/
theorem offerProgress (h : Reconciled active s w l) (progress : ModelDriverProgress)
    (hstage : s.stage = .model) :
    Reconciled active s (w.effect (.offerProgress progress))
      (l.effect s w turn (.offerProgress progress)) := by
  have htool : w.toolProgress = none := h.channel (by simp [hstage]) (by simp [hstage])
    (by simp [hstage])
  have hqueue : w.toolQueue = [] := by rw [World.toolQueue, htool]; rfl
  have hwaiting : w.waiting = w.modelProgress.queue.map .delta := by
    rw [World.waiting, hqueue, List.append_nil]
  have hmodel : ∀ p : Prop, s.stage ≠ .model → p := fun _ hne ↦ absurd hstage hne
  have htotal := h.total
  have horder := h.order
  rw [hwaiting] at htotal horder
  have hproduced : (l.effect s w turn (.offerProgress progress)).produced =
      l.produced ++ [.delta progress] := rfl
  by_cases hroom : w.modelProgress.queue.length < progressCapacity
  · have hworld : w.effect (.offerProgress progress) = { w with modelProgress :=
        { w.modelProgress with queue := w.modelProgress.queue ++ [progress] } } := if_pos hroom
    have henqueued : (l.effect s w turn (.offerProgress progress)).enqueued = l.enqueued := by
      rw [EventLedger.effect, hworld, List.drop_length, List.append_nil]
    rw [hworld]
    have hwaiting' : World.waiting { w with modelProgress :=
        { w.modelProgress with queue := w.modelProgress.queue ++ [progress] } } =
        w.modelProgress.queue.map .delta ++ [.delta progress] := by
      show (w.modelProgress.queue ++ [progress]).map .delta ++ w.toolQueue = _
      rw [hqueue, List.append_nil, List.map_append, List.map_singleton]
    refine { h with
      total := ?_
      order := ?_
      modelDropped := hmodel _
      modelQueue := hmodel _ }
    · rw [hproduced, henqueued, hwaiting', List.length_append, List.length_append]
      show _ = _ + _ + _ + w.unattached + (_ + _ + w.uncounted)
      omega
    · rw [hproduced, henqueued, hwaiting', ← List.append_assoc, ← List.append_assoc,
        List.append_assoc _ _ (List.map _ _)]
      exact horder.append_right _
  · -- The channel is full: the value is counted and not kept.
    have hworld : w.effect (.offerProgress progress) = { w with modelProgress :=
        { w.modelProgress with dropped := w.modelProgress.dropped + 1 } } := if_neg hroom
    have henqueued : (l.effect s w turn (.offerProgress progress)).enqueued = l.enqueued := by
      rw [EventLedger.effect, hworld, List.drop_length, List.append_nil]
    rw [hworld]
    refine { h with
      total := ?_
      order := ?_
      modelDropped := hmodel _
      modelQueue := hmodel _ }
    · have hunattached : World.unattached { w with modelProgress :=
          { w.modelProgress with dropped := w.modelProgress.dropped + 1 } } = w.unattached + 1 := by
        show w.events.dropped + (w.modelProgress.dropped + 1) + w.toolDropped = _
        rw [World.unattached]
        omega
      rw [hproduced, henqueued, hunattached, List.length_append]
      show _ = _ + w.waiting.length + _ + _ + (_ + _ + w.uncounted)
      rw [hwaiting]
      simp only [List.length_singleton]
      omega
    · rw [hproduced, henqueued]
      exact h.order.trans (List.sublist_append_left _ _)

/-- A channel is found empty. After the call it stays so. -/
theorem drained (h : Reconciled active s w l) (hvalue : s.value = none)
    (hmodel : s.stage = .modelEnds → w.modelProgress.queue = [])
    (htool : s.stage = .toolEnds → w.toolQueue = []) :
    Reconciled active (s.receive none) w l := by
  obtain ⟨stage, calling, value, taken⟩ := s
  cases stage with
  | modelEnds =>
    exact { h with
      atRest := fun _ ↦ hvalue
      modelDropped := fun _ ↦ h.modelDropped nofun
      modelQueue := fun _ _ ↦ hmodel rfl
      channel := fun _ _ _ ↦ h.channel nofun nofun nofun
      ended := fun hstage ↦ absurd hstage (by simp [Relay.receive, Stage.drained])
      emptied := fun hdone ↦ absurd hdone (by simp [Relay.receive, Stage.drained]) }
  | toolEnds =>
    exact { h with
      atRest := fun _ ↦ hvalue
      modelDropped := fun _ ↦ h.modelDropped nofun
      modelQueue := fun _ _ ↦ h.modelQueue nofun nofun
      channel := fun _ _ hne ↦ absurd rfl hne
      ended := fun _ ↦ h.ended (.inl rfl)
      emptied := fun _ ↦ htool rfl }
  | idle | model | tool | toolDone => exact h

/-- A value is received from a channel. -/
theorem received {w' : World} {value : Produced} (h : Reconciled active s w l)
    (hvalue : s.value = none) (hstage : s.stage ≠ .idle ∧ s.stage ≠ .toolDone)
    (hwaiting : w.waiting = value :: w'.waiting) (hevents : w'.events = w.events)
    (hunattached : w'.unattached = w.unattached) (huncounted : w'.uncounted = w.uncounted)
    (hmodel : w.modelProgress.queue = [] → w'.modelProgress.queue = [])
    (hmodelDropped : w'.modelProgress.dropped = w.modelProgress.dropped)
    (htool : w.toolProgress = none → w'.toolProgress = none)
    (htoolDropped : w'.toolDropped = w.toolDropped) :
    Reconciled active (s.receive (some value)) w' l := by
  have htotal := h.total
  have horder := h.order
  rw [hwaiting, hvalue] at htotal horder
  -- The value moves from the queue to the hand of the relay, and the total is the same.
  constructor
  · rw [hevents]
    exact h.closed
  · rw [hunattached, huncounted]
    show _ = _ + _ + _ + _ + (1 + s.taken + _)
    simp only [List.length_cons, Option.toList_none, List.length_nil] at htotal
    omega
  · exact horder
  · exact fun hrest ↦ absurd hrest (not_or.mpr hstage)
  · rw [hmodelDropped]
    exact h.modelDropped
  · exact fun h₁ h₂ ↦ hmodel (h.modelQueue h₁ h₂)
  · exact fun h₁ h₂ h₃ ↦ htool (h.channel h₁ h₂ h₃)
  · rw [htoolDropped]
    exact h.ended
  · exact fun hdone ↦ absurd hdone hstage.2
  · rw [huncounted]
    exact h.counted

/-- The runner looks at the channel of a model call. -/
theorem recvModelProgress (h : Reconciled active s w l) (hvalue : s.value = none)
    (hstage : s.stage = .model ∨ s.stage = .modelEnds) :
    Reconciled active (s.receive (w.modelProgress.queue.head?.map .delta))
      (w.effect .recvModelProgress) l := by
  have htool : w.toolProgress = none := by
    refine h.channel ?_ ?_ ?_ <;> rcases hstage with hstage | hstage <;> simp [hstage]
  have hqueue : w.toolQueue = [] := by rw [World.toolQueue, htool]; rfl
  -- Nothing is there, so that the channel is drained; or its first delta is received.
  cases hprogress : w.modelProgress.queue with
  | nil =>
    have hempty : (w.effect .recvModelProgress).modelProgress.queue = [] := by
      show w.modelProgress.queue.tail = []
      rw [hprogress]
      rfl
    have hsame : (w.effect .recvModelProgress).modelProgress = w.modelProgress := by
      show ModelChannel.mk w.modelProgress.queue.tail w.modelProgress.dropped = w.modelProgress
      rw [hprogress, List.tail_nil, ← hprogress]
    have hcongr : Reconciled active s (w.effect .recvModelProgress) l :=
      h.congr rfl hsame rfl rfl rfl
    exact hcongr.drained hvalue (fun _ ↦ hempty) fun _ ↦ hqueue
  | cons progress queue =>
    refine h.received hvalue ?_ ?_ rfl rfl rfl ?_ rfl (fun _ ↦ htool) rfl
    · rcases hstage with hstage | hstage <;> simp [hstage]
    · show w.modelProgress.queue.map .delta ++ w.toolQueue =
        .delta progress :: (w.modelProgress.queue.tail.map .delta ++ w.toolQueue)
      rw [hprogress]
      rfl
    · exact fun hnil ↦ absurd (hprogress.symm.trans hnil) (by simp)

/-- The runner looks at the channel of a tool call. -/
theorem recvToolProgress (h : Reconciled active s w l) (hvalue : s.value = none)
    (hstage : s.stage = .tool ∨ s.stage = .toolEnds) :
    Reconciled active
      (s.receive ((w.toolProgress.bind fun channel ↦ channel.queue.head?.map fun progress ↦
        (channel.callId, progress)).map fun (callId, progress) ↦ .report callId progress))
      (w.effect .recvToolProgress) l := by
  have hmodel : w.modelProgress.queue = [] := by
    refine h.modelQueue ?_ ?_ <;> rcases hstage with hstage | hstage <;> simp [hstage]
  have hends : s.stage ≠ .modelEnds := by rcases hstage with hstage | hstage <;> simp [hstage]
  cases hchannel : w.toolProgress with
  | none =>
    have hsame : (w.effect .recvToolProgress).toolProgress = w.toolProgress := by
      show w.toolProgress.map _ = _
      rw [hchannel]
      rfl
    have hcongr : Reconciled active s (w.effect .recvToolProgress) l :=
      h.congr rfl rfl hsame rfl rfl
    refine hcongr.drained hvalue (fun hne ↦ absurd hne hends) fun _ ↦ ?_
    rw [World.toolQueue, hsame, hchannel]
    rfl
  | some channel =>
    have hworld : (w.effect .recvToolProgress).toolProgress =
        some { channel with queue := channel.queue.tail } := by
      show w.toolProgress.map _ = _
      rw [hchannel]
      rfl
    cases hreports : channel.queue with
    | nil =>
      have hsame : (w.effect .recvToolProgress).toolProgress = w.toolProgress := by
        rw [hworld, hchannel, hreports, List.tail_nil, ← hreports]
      show Reconciled active (s.receive ((channel.queue.head?.map _).map _)) _ l
      rw [hreports]
      have hcongr : Reconciled active s (w.effect .recvToolProgress) l :=
        h.congr rfl rfl hsame rfl rfl
      refine hcongr.drained hvalue (fun hne ↦ absurd hne hends) fun _ ↦ ?_
      rw [World.toolQueue, hworld, Option.map_some, hreports]
      rfl
    | cons progress queue =>
      -- The oldest report is in hand and waits no more.
      show Reconciled active (s.receive ((channel.queue.head?.map _).map _)) _ l
      rw [hreports]
      refine h.received hvalue ?_ ?_ rfl ?_ ?_ (fun _ ↦ hmodel) rfl ?_ ?_
      · rcases hstage with hstage | hstage <;> simp [hstage]
      · show w.modelProgress.queue.map .delta ++ w.toolQueue = _ ::
          (w.modelProgress.queue.map .delta ++ (w.effect .recvToolProgress).toolQueue)
        rw [hmodel, World.toolQueue, World.toolQueue, hworld, hchannel, Option.map_some,
          Option.map_some, hreports]
        rfl
      · rw [World.unattached, World.unattached, World.toolDropped, World.toolDropped, hworld,
          hchannel]
        rfl
      · rw [World.uncounted, World.uncounted, hworld, hchannel]
        rfl
      · exact fun hnone ↦ absurd (hchannel.symm.trans hnone) (by simp)
      · rw [World.toolDropped, World.toolDropped, hworld, hchannel]
        rfl

/-- The count of a model call is taken. Without a value in hand it is the last one. -/
theorem takeModelDropped (h : Reconciled active s w l) (htaken : s.taken = 0)
    (hstage : s.stage = .model ∨ s.stage = .modelEnds) :
    Reconciled active (s.take w.modelProgress.dropped) (w.effect .takeModelDropped) l := by
  have htotal := h.total
  rw [World.unattached, htaken] at htotal
  have hafter : (s.take w.modelProgress.dropped).stage = .model ∨
      (s.take w.modelProgress.dropped).stage = .modelEnds := by
    rw [Relay.take]
    split
    · rcases hstage with hstage | hstage <;> simp [hstage, Stage.ends]
    · exact hstage
  have hchannel : w.toolProgress = none := by
    refine h.channel ?_ ?_ ?_ <;> rcases hstage with hstage | hstage <;> simp [hstage]
  -- The dropped deltas move from the channel to the hand of the relay.
  refine { h with
    total := ?_
    atRest := fun hrest ↦ ?_
    modelDropped := fun _ ↦ rfl
    modelQueue := fun h₁ h₂ ↦ absurd hafter (not_or.mpr ⟨h₁, h₂⟩)
    channel := fun _ _ _ ↦ hchannel
    ended := fun hended ↦ ?_
    emptied := fun hdone ↦ ?_ }
  · show _ = _ + w.waiting.length + _ + (w.events.dropped + 0 + w.toolDropped) +
      (s.value.toList.length + w.modelProgress.dropped + w.uncounted)
    omega
  · rcases hafter with hafter | hafter <;> simp [hafter] at hrest
  · rcases hafter with hafter | hafter <;> simp [hafter] at hended
  · rcases hafter with hafter | hafter <;> simp [hafter] at hdone

/-- The count of a tool call is taken. Without a value in hand it is the last one, and the call has
ended. -/
theorem takeToolDropped (h : Reconciled active s w l) (htaken : s.taken = 0)
    (hstage : s.stage = .tool ∧ (s.value = none → active = false) ∨ s.stage = .toolEnds) :
    Reconciled active (s.take w.toolDropped) (w.effect .takeToolDropped) l := by
  have htotal := h.total
  rw [World.unattached, htaken] at htotal
  -- Only the count changes: what waits, and what is to be counted yet, stays.
  have hdropped : (w.effect .takeToolDropped).toolDropped = 0 := by
    show ((w.toolProgress.map fun channel ↦ { channel with dropped := 0 }).map
      ToolChannel.dropped).getD 0 = 0
    cases w.toolProgress <;> rfl
  have huncounted : (w.effect .takeToolDropped).uncounted = w.uncounted := by
    show ((w.toolProgress.map fun channel ↦ { channel with dropped := 0 }).map
      ToolChannel.uncounted).getD 0 = (w.toolProgress.map ToolChannel.uncounted).getD 0
    cases w.toolProgress <;> rfl
  have hqueue : (w.effect .takeToolDropped).toolQueue = w.toolQueue := by
    unfold World.toolQueue
    show ((w.toolProgress.map fun channel ↦ { channel with dropped := 0 }).map _).getD [] = _
    cases w.toolProgress <;> rfl
  have hwaiting : (w.effect .takeToolDropped).waiting = w.waiting := by
    rw [World.waiting, hqueue, World.waiting]
    rfl
  have hafter : (s.take w.toolDropped).stage = .tool ∨
      (s.take w.toolDropped).stage = .toolEnds ∧ active = false := by
    rw [Relay.take]
    rcases hstage with ⟨hstage, hlast⟩ | hstage
    · cases hvalue : s.value with
      | none => exact .inr ⟨by simp [hstage, Stage.ends], hlast hvalue⟩
      | some value => exact .inl (by simp [hstage])
    · exact .inr ⟨by simp [hstage, Stage.ends], (h.ended (.inl hstage)).1⟩
  have hmodel : s.stage ≠ .model ∧ s.stage ≠ .modelEnds := by
    rcases hstage with ⟨hstage, -⟩ | hstage <;> simp [hstage]
  constructor
  · exact h.closed
  · rw [hwaiting, huncounted, World.unattached, hdropped]
    show _ = _ + _ + _ + (w.events.dropped + w.modelProgress.dropped + 0) +
      (s.value.toList.length + w.toolDropped + _)
    omega
  · rw [hwaiting]
    exact h.order
  · intro hrest
    rcases hafter with hafter | ⟨hafter, -⟩ <;> simp [hafter] at hrest
  · exact fun _ ↦ h.modelDropped hmodel.1
  · exact fun _ _ ↦ h.modelQueue hmodel.1 hmodel.2
  · intro h₁ h₂ h₃
    rcases hafter with hafter | ⟨hafter, -⟩
    · exact absurd hafter h₁
    · exact absurd hafter h₂
  · intro hended
    rcases hafter with hafter | ⟨-, hactive⟩
    · simp [hafter] at hended
    · exact ⟨hactive, hdropped⟩
  · intro hdone
    rcases hafter with hafter | ⟨hafter, -⟩ <;> simp [hafter] at hdone
  · rw [huncounted]
    exact h.counted

/-- A model call begins. -/
theorem openModelProgress (h : Reconciled active s w l) (hstage : s.stage = .idle) :
    Reconciled active { s with stage := .model } (w.effect .openModelProgress) l := by
  have hsame : (w.effect .openModelProgress).modelProgress = w.modelProgress := by
    have hqueue := h.modelQueue (by simp [hstage]) (by simp [hstage])
    have hdropped := h.modelDropped (by simp [hstage])
    show ModelChannel.mk [] 0 = w.modelProgress
    rw [← hqueue, ← hdropped]
  have hopened :
      Reconciled active s (w.effect .openModelProgress) l := h.congr rfl hsame rfl rfl rfl
  exact { hopened with
    atRest := fun hrest ↦ absurd hrest (by simp)
    modelDropped := fun hne ↦ absurd rfl hne
    modelQueue := fun hne ↦ absurd rfl hne
    channel := fun _ _ _ ↦ hopened.channel (by simp [hstage]) (by simp [hstage]) (by simp [hstage])
    ended := fun hended ↦ absurd hended (by simp)
    emptied := fun hdone ↦ absurd hdone (by simp) }

/-- A tool call begins. -/
theorem openToolProgress (h : Reconciled active s w l) (hstage : s.stage = .idle)
    (callId : ToolCallId) :
    Reconciled active { s with stage := .tool } (w.effect (.openToolProgress callId)) l := by
  -- No tool is running, so that the channel is closed and holds nothing.
  have hchannel : w.toolProgress = none :=
    h.channel (by simp [hstage]) (by simp [hstage]) (by simp [hstage])
  have htotal := h.total
  have horder := h.order
  simp only [World.waiting, World.toolQueue, World.unattached, World.toolDropped, World.uncounted,
    hchannel] at htotal horder
  exact { h with
    total := htotal
    order := horder
    atRest := fun hrest ↦ absurd hrest (by simp)
    modelDropped := fun _ ↦ h.modelDropped (by simp [hstage])
    modelQueue := fun _ _ ↦ h.modelQueue (by simp [hstage]) (by simp [hstage])
    channel := fun hne ↦ absurd rfl hne
    ended := fun hended ↦ absurd hended (by simp)
    emptied := fun hdone ↦ absurd hdone (by simp)
    counted := fun _ ↦ rfl }

/-- The channel of a tool call is closed. -/
theorem closeToolProgress (h : Reconciled active s w l) (hstage : s.stage = .toolDone) :
    Reconciled active { s with stage := .idle } (w.effect .closeToolProgress) l := by
  obtain ⟨hactive, hdropped⟩ := h.ended (.inr hstage)
  -- The runner has emptied the queue and taken the count before it closes the channel.
  have hqueue := h.emptied hstage
  have huncounted := h.counted hactive
  have htotal := h.total
  have horder := h.order
  simp only [World.waiting, World.unattached, hqueue, hdropped, huncounted] at htotal horder
  exact { h with
    total := htotal
    order := horder
    atRest := fun _ ↦ h.atRest (.inr hstage)
    modelDropped := fun _ ↦ h.modelDropped (by simp [hstage])
    modelQueue := fun _ _ ↦ h.modelQueue (by simp [hstage]) (by simp [hstage])
    channel := fun _ _ _ ↦ rfl
    ended := fun hended ↦ absurd hended (by simp)
    emptied := fun hdone ↦ absurd hdone (by simp)
    counted := fun _ ↦ rfl }

/-- A port is called, or its call ends. -/
theorem call {calling : Bool} (h : Reconciled active s w l)
    (hended : s.stage = .toolEnds ∨ s.stage = .toolDone → calling = false)
    (hcounted : calling = false → w.uncounted = 0) :
    Reconciled calling { s with calling := calling } w l :=
  { h with
    ended := fun hstage ↦ ⟨hended hstage, (h.ended hstage).2⟩
    counted := hcounted }

/-- An event of the runner is produced where it is emitted, and one that forwards a value stands for
the value in hand. -/
theorem emitted (h : Reconciled active s w l) {event : LoopEvent}
    (hallowed : s.Allows (.tryEmit event)) :
    (s.produces (.tryEmit event)).length + s.value.toList.length = 1 ∧
      ((l.enqueued.map fun envelope ↦ envelope.event.source) ++
        ([event.source] ++ w.waiting)).Sublist
        (l.produced ++ s.produces (.tryEmit event)) := by
  have horder := h.order
  cases hvalue : s.value with
  | some value =>
    obtain rfl : event.source = value := by simpa [Relay.Allows, hvalue] using hallowed
    have hproduces : s.produces (.tryEmit event) = [] := by simp [Relay.produces, hvalue]
    rw [hproduces, List.append_nil]
    rw [hvalue] at horder
    exact ⟨rfl, horder⟩
  | none =>
    -- Where no channel is in use nothing waits.
    have hstage : s.stage = .idle := by simpa [Relay.Allows, hvalue] using hallowed
    have hproduces : s.produces (.tryEmit event) = [event.source] := by
      simp [Relay.produces, hvalue]
    have hchannel : w.toolProgress = none :=
      h.channel (by simp [hstage]) (by simp [hstage]) (by simp [hstage])
    have hwaiting : w.waiting = [] := by
      rw [World.waiting, h.modelQueue (by simp [hstage]) (by simp [hstage]), World.toolQueue,
        hchannel]
      rfl
    rw [hvalue, hwaiting, Option.toList_none, List.append_nil, List.append_nil] at horder
    rw [hproduces, hwaiting, List.append_nil]
    exact ⟨rfl, horder.append_right _⟩

/-- An event is emitted. -/
theorem tryEmit (h : Reconciled active s w l) (event : LoopEvent)
    (hallowed : s.Allows (.tryEmit event))
    (hafter : Undisturbed (w.effect (.tryEmit event)) (l.effect s w turn (.tryEmit event))) :
    Reconciled active { s with value := none } (w.effect (.tryEmit event))
      (l.effect s w turn (.tryEmit event)) := by
  obtain ⟨hcount, horder⟩ := h.emitted hallowed
  have htotal := h.total
  have hproduced : (l.effect s w turn (.tryEmit event)).produced =
      l.produced ++ s.produces (.tryEmit event) := rfl
  have hevents : (w.effect (.tryEmit event)).events = w.events.tryEmit event := rfl
  have hwaiting : (w.effect (.tryEmit event)).waiting = w.waiting := rfl
  rcases LoopEvents.tryEmit_spec h.closed hafter.of_effect.kept event with hsent | ⟨hfull, hlost⟩
  · -- The envelope carries what was counted so far.
    have henqueued : (l.effect s w turn (.tryEmit event)).enqueued =
        l.enqueued ++ [⟨w.events.dropped, event⟩] := by
      rw [EventLedger.effect, hevents, hsent, List.drop_left]
    have hunattached :
        (w.effect (.tryEmit event)).unattached + w.events.dropped = w.unattached := by
      rw [World.unattached, hevents, hsent, World.unattached]
      show 0 + w.modelProgress.dropped + w.toolDropped + _ = _
      omega
    refine { h with
      closed := ?_
      total := ?_
      order := ?_
      atRest := fun _ ↦ rfl }
    · rw [hevents, hsent]
      exact h.closed
    · rw [hproduced, henqueued, hwaiting]
      simp only [List.length_append, List.map_append, List.sum_append, List.map_singleton,
        List.sum_singleton, List.length_singleton, Option.toList_none, List.length_nil]
      show _ = _ + _ + _ + _ + (_ + _ + w.uncounted)
      omega
    · rw [hproduced, henqueued, hwaiting, List.map_append, List.append_assoc]
      exact horder
  · -- The event is lost, and counted for the next envelope.
    have hlt : w.events.dropped + 1 < counterBound := by
      have hbounded := (Bool.or_eq_false_iff.mp hafter.bounded).2
      simp only [World.overflows, Bool.and_eq_false_iff, decide_eq_false_iff_not, not_le]
        at hbounded
      omega
    have henqueued : (l.effect s w turn (.tryEmit event)).enqueued = l.enqueued := by
      rw [EventLedger.effect, hevents, hlost, List.drop_length, List.append_nil]
    have hunattached : (w.effect (.tryEmit event)).unattached = w.unattached + 1 := by
      rw [World.unattached, hevents, hlost, saturatingAdd_of_lt hlt, World.unattached]
      show w.events.dropped + 1 + w.modelProgress.dropped + w.toolDropped = _
      omega
    refine { h with
      closed := ?_
      total := ?_
      order := ?_
      atRest := fun _ ↦ rfl }
    · rw [hevents, hlost]
      exact h.closed
    · rw [hproduced, henqueued, hwaiting, hunattached]
      simp only [List.length_append, Option.toList_none, List.length_nil]
      show _ = _ + _ + _ + _ + (_ + _ + w.uncounted)
      omega
    · rw [hproduced, henqueued, hwaiting]
      exact ((List.sublist_append_right _ _).append_left _).trans horder

omit w l turn in
theorem receive_calling (found : Option Produced) : (s.receive found).calling = s.calling := by
  cases found <;> rfl

/-- An operation keeps the accounts. -/
theorem effect (h : Reconciled (s.calling || o.makesFuture) s w l) (hallowed : s.Allows o)
    {r : o.Answer} (hanswer : w.answer turn o = some r)
    (hafter : Undisturbed (w.effect o) (l.effect s w turn o)) :
    Reconciled (s.after o r).calling (s.after o r) (w.effect o) (l.effect s w turn o) := by
  have honTime := (Bool.or_eq_false_iff.mp hafter.onTime).2
  have hbounded := (Bool.or_eq_false_iff.mp hafter.bounded).2
  have hcalling (hmakes : o.makesFuture = false) : Reconciled s.calling s w l := by
    rwa [hmakes, Bool.or_false] at h
  by_cases hrelays : o.relays = false
  · -- The channels, the value in hand and the lists are left alone.
    obtain ⟨hevents, hmodel, htool⟩ := w.effect_channels hrelays
    have hmakes : o.makesFuture = false := by
      cases o with
      | makeFuture call => exact absurd hrelays nofun
      | _ => rfl
    have hproduces : s.produces o = [] := by
      cases o with
      | tryEmit | offerProgress => exact absurd hrelays nofun
      | _ => rfl
    rw [(Op.relays_spec hrelays s).2]
    exact ((hcalling hmakes).congr hevents hmodel htool rfl rfl).of_lists hproduces
      (by rw [hevents])
  cases o with
  | makeFuture call =>
    have hmade : (!World.unwinds turn) = r := Option.some.inj hanswer
    refine (h.call (fun hstage ↦ ?_) fun hunwinds ↦ ?_).of_lists rfl rfl
    · rcases hallowed with hidle | hidle <;> simp [hidle] at hstage
    · -- A tool that unwinds reports nothing any more.
      obtain rfl : r = false := hunwinds
      have hturn : World.unwinds turn = true := by simpa using hmade
      simpa [Op.endsCall, hturn] using honTime
  | dropFuture =>
    refine (h.call (fun _ ↦ rfl) fun _ ↦ ?_).of_lists rfl rfl
    simpa [Op.endsCall] using honTime
  | tryEmit event => exact (hcalling rfl).tryEmit event hallowed hafter
  | offerProgress progress => exact (hcalling rfl).offerProgress progress hallowed
  | recordDropped count => exact ((hcalling rfl).recordDropped hallowed hbounded).of_lists rfl rfl
  | openModelProgress => exact ((hcalling rfl).openModelProgress hallowed).of_lists rfl rfl
  | openToolProgress callId =>
    exact ((hcalling rfl).openToolProgress hallowed callId).of_lists rfl rfl
  | closeToolProgress => exact ((hcalling rfl).closeToolProgress hallowed).of_lists rfl rfl
  | recvModelProgress =>
    obtain rfl : w.modelProgress.queue.head? = r := Option.some.inj hanswer
    show Reconciled (s.receive _).calling (s.receive _) _ _
    rw [receive_calling]
    exact ((hcalling rfl).recvModelProgress hallowed.2 hallowed.1).of_lists rfl rfl
  | recvToolProgress =>
    obtain rfl := Option.some.inj hanswer
    show Reconciled (s.receive _).calling (s.receive _) _ _
    rw [receive_calling]
    exact ((hcalling rfl).recvToolProgress hallowed.2 hallowed.1).of_lists rfl rfl
  | takeModelDropped =>
    obtain rfl : w.modelProgress.dropped = r := Option.some.inj hanswer
    exact ((hcalling rfl).takeModelDropped hallowed.2 hallowed.1).of_lists rfl rfl
  | takeToolDropped =>
    obtain rfl : w.toolDropped = r := Option.some.inj hanswer
    exact ((hcalling rfl).takeToolDropped hallowed.2 hallowed.1).of_lists rfl rfl
  | _ => exact absurd rfl hrelays

end Reconciled

end

end MinicoreRuntime
