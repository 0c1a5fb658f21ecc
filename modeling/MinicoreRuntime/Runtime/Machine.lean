import MinicoreRuntime.Runtime.World

/-!
# The machine

The machine that executes runners, and what one of its steps does. The log of a world interleaves
the trace of the runner with the steps of other threads; properties of the log are stated of each
record and the records before it.

## Main definitions

* `machine`: the machine, with its trace.
* `World.Kept`: the predicates on worlds that are kept by everything that may happen.

## Main results

* `World.step_returned`, `World.step_panicked`, `World.step_stalled`: what one step did.
* `World.Kept.step`: one step keeps a kept predicate.
-/

namespace MinicoreRuntime

open Interactive

namespace World

variable {w w' : World} {o : Op}

@[simp]
theorem record_log (w : World) (event : HostEvent) :
    (w.record event).log = .host event :: w.log := rfl

@[simp]
theorem recordEntry_log (w : World) (entry : Entry interface Nat) :
    (w.recordEntry entry).log = .runner entry :: w.log := rfl

@[simp]
theorem recordEntry_trace (w : World) (entry : Entry interface Nat) :
    (w.recordEntry entry).trace = entry :: w.trace := rfl

/-- A host step logs steps of other threads only. -/
theorem hostStep_log (w : World) (s : HostStep) :
    ∃ events : List HostEvent, (w.hostStep s).log = events.map Record.host ++ w.log := by
  cases s with
  | cancel source =>
    rw [hostStep, LoopControl.markCancel]
    by_cases h : w.control.state = .none
    · exact ⟨[.casCancel w.cancels source true], by simp [h, record]⟩
    · exact ⟨[.cancelReturned w.cancels source false, .casCancel w.cancels source false],
        by simp [h, record]⟩
  -- An update that passes its checks is logged once it leaves its critical section.
  | update config =>
    rw [hostStep]
    split
    · exact ⟨[.updateReturned config (.error .notActive)], rfl⟩
    · split
      · exact ⟨[.updateReturned config (.error .invalidConfig)], rfl⟩
      · exact ⟨[], rfl⟩
  | answer id answer =>
    rw [hostStep]
    split
    · exact ⟨[], rfl⟩
    · split
      · exact ⟨[.answerReturned id answer (.ok ())], rfl⟩
      · exact ⟨[.answerReturned id answer (.error _)], rfl⟩
  | resume i =>
    rw [hostStep]
    split
    · exact ⟨[], rfl⟩
    · exact ⟨[.cancelReturned _ _ true], rfl⟩
    · split
      · exact ⟨[], rfl⟩
      · exact ⟨[.updateReturned _ _], rfl⟩
  | recvEvent => exact ⟨[], rfl⟩
  | dropEvents => exact ⟨[], rfl⟩
  | toolProgress progress =>
    rw [hostStep]
    split
    · exact ⟨[], rfl⟩
    · split
      · exact ⟨[], rfl⟩
      · split
        · exact ⟨[], rfl⟩
        · exact ⟨[], rfl⟩
  | countProgress =>
    rw [hostStep]
    split
    · exact ⟨[], rfl⟩
    · split
      · exact ⟨[], rfl⟩
      · exact ⟨[], rfl⟩

/-- Host steps log steps of other threads only. -/
theorem hostSteps_log (w : World) (steps : List HostStep) :
    ∃ events : List HostEvent, (w.hostSteps steps).log = events.map Record.host ++ w.log := by
  induction steps generalizing w with
  | nil => exact ⟨[], rfl⟩
  | cons s steps ih =>
    obtain ⟨newer, hnewer⟩ := ih (w.hostStep s)
    obtain ⟨older, holder⟩ := w.hostStep_log s
    refine ⟨newer ++ older, ?_⟩
    show ((w.hostStep s).hostSteps steps).log = _
    rw [hnewer, holder, List.map_append, List.append_assoc]

@[simp]
theorem traceOf_host (events : List HostEvent) (log : List Record) :
    traceOf (events.map Record.host ++ log) = traceOf log := by
  simp [traceOf, List.filterMap_map, Function.comp_def, Record.entry?]

@[simp]
theorem hostStep_trace (w : World) (s : HostStep) : (w.hostStep s).trace = w.trace := by
  obtain ⟨events, h⟩ := w.hostStep_log s
  rw [trace, h, traceOf_host, trace]

/-- What other threads leave alone. -/
theorem hostStep_frame (w : World) (s : HostStep) :
    (w.hostStep s).working = w.working ∧ (w.hostStep s).control.stateTx = w.control.stateTx ∧
      (w.hostStep s).control.completion = w.control.completion ∧
      (w.hostStep s).channels.length = w.channels.length := by
  cases s with
  | cancel source =>
    rw [hostStep, LoopControl.markCancel]
    by_cases h : w.control.state = .none <;> simp [h, record]
  | update config =>
    rw [hostStep]
    split
    · exact ⟨rfl, rfl, rfl, rfl⟩
    · split <;> exact ⟨rfl, rfl, rfl, rfl⟩
  | answer id answer =>
    rw [hostStep]
    split
    · exact ⟨rfl, rfl, rfl, rfl⟩
    · split
      · -- An accepted answer fills a channel; their number stays.
        rename_i channel control hanswer
        obtain ⟨hstate, hcompletion⟩ := w.control.answer_frame id answer
        rw [hanswer] at hstate hcompletion
        exact ⟨rfl, hstate, hcompletion, List.length_set⟩
      · exact ⟨rfl, rfl, rfl, rfl⟩
  | resume i =>
    rw [hostStep]
    split
    · exact ⟨rfl, rfl, rfl, rfl⟩
    · exact ⟨rfl, rfl, rfl, rfl⟩
    · split
      · exact ⟨rfl, rfl, rfl, rfl⟩
      · rename_i config _ _
        obtain ⟨hstate, hcompletion⟩ := w.control.update_frame config
        exact ⟨rfl, hstate, hcompletion, rfl⟩
  | recvEvent => exact ⟨rfl, rfl, rfl, rfl⟩
  | dropEvents => exact ⟨rfl, rfl, rfl, rfl⟩
  | toolProgress progress =>
    rw [hostStep]
    split
    · exact ⟨rfl, rfl, rfl, rfl⟩
    · split
      · exact ⟨rfl, rfl, rfl, rfl⟩
      · split <;> exact ⟨rfl, rfl, rfl, rfl⟩
  | countProgress =>
    rw [hostStep]
    split
    · exact ⟨rfl, rfl, rfl, rfl⟩
    · split <;> exact ⟨rfl, rfl, rfl, rfl⟩

@[simp]
theorem hostSteps_trace (w : World) (steps : List HostStep) :
    (w.hostSteps steps).trace = w.trace := by
  induction steps generalizing w with
  | nil => rfl
  | cons s steps ih =>
    show ((w.hostStep s).hostSteps steps).trace = w.trace
    rw [ih, hostStep_trace]

@[simp]
theorem effect_log (w : World) (o : Op) : (w.effect o).log = w.log := by
  unfold effect
  split <;> first | rfl | (split <;> rfl)

@[simp]
theorem effect_clock (w : World) (o : Op) : (w.effect o).clock = w.clock := by
  unfold effect
  split <;> first | rfl | (split <;> rfl)

@[simp]
theorem effect_trace (w : World) (o : Op) : (w.effect o).trace = w.trace := by
  unfold trace
  rw [effect_log]

@[simp]
theorem advance_trace (w : World) (turn : Turn) (rest : List Turn) (o : Op) :
    (w.advance turn rest o).trace = w.trace := by
  have h : ({ w with schedule := rest }.hostSteps turn.host).trace = w.trace := by
    rw [hostSteps_trace]
    rfl
  unfold advance
  split
  · exact h
  · exact h

/-- What an operation that was answered did. -/
theorem step_returned {r : o.Answer} (h : step o w = (.returned r, w')) :
    ∃ turn rest, w.schedule = turn :: rest ∧
      (w.advance turn rest o).answer turn o = some r ∧
      w' = ((w.advance turn rest o).effect o).recordEntry
        ⟨o, (w.advance turn rest o).clock, r⟩ := by
  unfold step at h
  split at h
  · exact absurd h (by simp)
  · rename_i turn rest hschedule
    dsimp only at h
    split at h
    · exact absurd h (by simp)
    · rename_i answer hanswer
      obtain ⟨rfl, rfl⟩ := Prod.mk.inj h |>.imp Outcome.returned.inj id
      exact ⟨turn, rest, hschedule, hanswer, by rw [effect_clock]⟩

/-- What an operation that unwound did. -/
theorem step_panicked (h : step o w = (.panicked, w')) :
    ∃ turn rest, w.schedule = turn :: rest ∧
      (w.advance turn rest o).answer turn o = none ∧
      w' = (w.advance turn rest o).effect o := by
  unfold step at h
  split at h
  · exact absurd h (by simp)
  · rename_i turn rest hschedule
    dsimp only at h
    split at h
    · rename_i hanswer
      exact ⟨turn, rest, hschedule, hanswer, (Prod.mk.inj h).2.symm⟩
    · exact absurd h (by simp)

theorem step_stalled (h : step o w = (.stalled, w')) : w.schedule = [] ∧ w' = w := by
  unfold step at h
  split at h
  · rename_i hschedule
    exact ⟨hschedule, (Prod.mk.inj h).2.symm⟩
  · dsimp only at h
    split at h
    · exact absurd h (by simp)
    · exact absurd h (by simp)

end World

/-- The machine that executes runners. A loop stalls with the schedule, since each of its rounds
performs an operation. -/
def machine : Tracing interface Nat where
  World := World
  fuel w := w.schedule.length + 1
  step := World.step
  trace := World.trace
  trace_returned h := by
    obtain ⟨turn, rest, -, -, rfl⟩ := World.step_returned h
    rw [World.recordEntry_trace, World.effect_trace, World.advance_trace]
    exact ⟨_, rfl⟩
  trace_panicked h := by
    obtain ⟨turn, rest, -, -, rfl⟩ := World.step_panicked h
    rw [World.effect_trace, World.advance_trace]
  trace_stalled h := by rw [(World.step_stalled h).2]

namespace World

/-! ## Kept predicates -/

/-- Where the host's code unwinds, the operation had no effect. -/
theorem effect_of_answer_none {w : World} {turn : Turn} {o : Op} (h : w.answer turn o = none) :
    w.effect o = w := by
  cases o with
  | takeInputs => rfl
  | dropConfig config => rfl
  | dropFuture => rfl
  | dropStream => rfl
  | newInteractionId => rfl
  | _ => exact absurd h (by simp [answer])

/-- The predicate `J` is kept by everything that may happen, as long as the runner performs only
operations allowed by the trace so far. -/
structure Kept (allowed : List (Entry interface Nat) → Op → Prop) (J : World → Prop) : Prop where
  host : ∀ w s, J w → J (w.hostStep s)
  pass : ∀ w schedule clock, w.clock ≤ clock → J w →
    J { w with schedule := schedule, clock := clock }
  answered : ∀ w turn o r, J w → allowed w.trace o → w.answer turn o = some r →
    J ((w.effect o).recordEntry ⟨o, w.clock, r⟩)

namespace Kept

variable {allowed : List (Entry interface Nat) → Op → Prop} {J : World → Prop}

theorem hostSteps (h : Kept allowed J) {w : World} (hw : J w) (steps : List HostStep) :
    J (w.hostSteps steps) := by
  induction steps generalizing w with
  | nil => exact hw
  | cons s steps ih => exact ih (h.host w s hw)

theorem advance (h : Kept allowed J) {w : World} (hw : J w) (turn : Turn) (rest : List Turn)
    (o : Op) : J (w.advance turn rest o) := by
  have hhost := h.hostSteps (h.pass w rest w.clock (Nat.le_refl _) hw) turn.host
  unfold World.advance
  split
  · exact h.pass _ _ _ (Nat.le_add_right _ _) hhost
  · exact hhost

/-- One step keeps a kept predicate. -/
theorem step (h : Kept allowed J) {w : World} (hw : J w) {o : Op} (ho : allowed w.trace o) :
    J (w.step o).2 := by
  rcases hstep : w.step o with ⟨r | - | -, w'⟩
  · obtain ⟨turn, rest, -, hanswer, rfl⟩ := step_returned hstep
    have hadvance := h.advance hw turn rest o
    exact h.answered _ turn o r hadvance (by rwa [advance_trace]) hanswer
  · obtain ⟨turn, rest, -, hanswer, rfl⟩ := step_panicked hstep
    rw [effect_of_answer_none hanswer]
    exact h.advance hw turn rest o
  · rw [(step_stalled hstep).2]
    exact hw

/-- What a kept predicate says about the answers is true of the entry one step records. -/
theorem step_expected {E : List (Entry interface Nat) → (o : Op) → Nat → o.Answer → Prop}
    (hJ : Kept allowed J)
    (hE : ∀ w turn o r, J w → allowed w.trace o → w.answer turn o = some r → E w.trace o w.clock r)
    {w w' : World} {o : Op} {r : o.Answer} {n : Nat} (hw : J w) (ho : allowed w.trace o)
    (hstep : w.step o = (.returned r, w')) (htrace : w'.trace = ⟨o, n, r⟩ :: w.trace) :
    E w.trace o n r := by
  obtain ⟨turn, rest, -, hanswer, rfl⟩ := step_returned hstep
  rw [recordEntry_trace, effect_trace, advance_trace] at htrace
  obtain rfl : (w.advance turn rest o).clock = n := congrArg Entry.note (List.cons.inj htrace).1
  have hexpected := hE _ turn o r (hJ.advance hw turn rest o) (by rwa [advance_trace]) hanswer
  rwa [advance_trace] at hexpected

/-- The machine honours a monitor that expects only what the operations answer. -/
theorem honours {M : Monitor interface Nat} (hJ : Kept (fun trace ↦ M.allowed (M.run trace)) J)
    (hexpected : ∀ w turn o r, J w → M.allowed (M.run w.trace) o → w.answer turn o = some r →
      M.expects (M.run w.trace) o w.clock r) : machine.Honours M J where
  keeps _ _ h hallowed := hJ.step h hallowed
  expected h hallowed hstep htrace :=
    hJ.step_expected (E := fun trace ↦ M.expects (M.run trace)) hexpected h hallowed hstep htrace

end Kept

/-- The machine honours a monitor that expects nothing of the answers. -/
theorem honours_of_expects {M : Monitor interface Nat} (h : ∀ s o n r, M.expects s o n r) :
    machine.Honours M fun _ ↦ True where
  keeps _ _ _ _ := trivial
  expected _ _ _ _ := h _ _ _ _

end World

end MinicoreRuntime
