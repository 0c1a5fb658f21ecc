import MinicoreRuntime.AgentLoop.Conformance
import MinicoreRuntime.AgentLoop.Reconciliation
import MinicoreRuntime.Interactive.Ghost

/-!
# Losses of events

Whatever the order in which values are offered, forwarded and received, every value that was
produced for the host is enqueued, waits in a channel, is part of a count that an envelope carries,
or is part of one that is still to be attached. The orders that are possible are those that the
relay allows, and the runner keeps to them.

## Main definitions

* `audited`: the machine with the ledger.
* `Audited`: the worlds that operations leave in any order that the relay allows.
* `Settled`: the accounts after a call.

## Main results

* `Audit.step`: one operation, with the steps of other threads before it.
* `event_losses_accounted`: the accounts of events.
-/

namespace MinicoreRuntime

open Interactive

/-! ## Runs -/

/-- The machine with the ledger. -/
def audited : Tracing interface Nat := machine.ghost EventLedger.audit

/-- The invariant of the machine with the ledger. -/
def Audit (x : World × EventLedger) : Prop :=
  Undisturbed x.1 x.2 →
    Reconciled (relay.run x.1.trace).calling (relay.run x.1.trace) x.1 x.2

section

variable {w : World} {l : EventLedger} {turn : Turn} {o : Op}

theorem World.advance_channels (w : World) (turn : Turn) (rest : List Turn) (o : Op) :
    (w.advance turn rest o).events = ({ w with schedule := rest }.hostSteps turn.host).events ∧
      (w.advance turn rest o).modelProgress =
        ({ w with schedule := rest }.hostSteps turn.host).modelProgress ∧
      (w.advance turn rest o).toolProgress =
        ({ w with schedule := rest }.hostSteps turn.host).toolProgress := by
  unfold World.advance
  split <;> exact ⟨rfl, rfl, rfl⟩

/-- An operation that unwinds produces nothing. -/
theorem produces_of_answer_none (s : Relay) (h : w.answer turn o = none) : s.produces o = [] := by
  cases o with
  | tryEmit | offerProgress => exact absurd h nofun
  | _ => rfl

theorem makesFuture_of_answer_none (h : w.answer turn o = none) : o.makesFuture = false := by
  cases o with
  | makeFuture => exact absurd h nofun
  | _ => rfl

/-- A tool may report progress as soon as its future is being made. -/
theorem Reconciled.widen {s : Relay} (h : Reconciled s.calling s w l) (hallowed : s.Allows o) :
    Reconciled (s.calling || o.makesFuture) s w l := by
  cases hmakes : o.makesFuture with
  | false => rwa [Bool.or_false]
  | true =>
    have hstage : s.stage = .idle ∨ s.stage = .tool := by
      cases o with
      | makeFuture call => exact hallowed
      | _ => exact absurd hmakes nofun
    rw [Bool.or_true]
    refine { h with ended := fun hended ↦ ?_, counted := nofun }
    rcases hstage with hstage | hstage <;> simp [hstage] at hended

/-- The steps of other threads before an operation. -/
theorem Audit.advance (h : Audit (w, l)) (rest : List Turn)
    (hallowed : (relay.run w.trace).Allows o)
    (hafter : Undisturbed (w.advance turn rest o)
      (l.hostSteps ((relay.run w.trace).calling || o.makesFuture) { w with schedule := rest }
        turn.host)) :
    Reconciled ((relay.run w.trace).calling || o.makesFuture) (relay.run w.trace)
      (w.advance turn rest o)
      (l.hostSteps ((relay.run w.trace).calling || o.makesFuture) { w with schedule := rest }
        turn.host) := by
  obtain ⟨hevents, hmodel, htool⟩ := w.advance_channels turn rest o
  -- What the host does this turn is undisturbed too, for the turn is.
  have hsteps : Undisturbed ({ w with schedule := rest }.hostSteps turn.host)
      (l.hostSteps ((relay.run w.trace).calling || o.makesFuture) { w with schedule := rest }
        turn.host) := ⟨by rw [← hevents]; exact hafter.kept, hafter.onTime, hafter.bounded⟩
  refine (Reconciled.hostSteps turn.host (fun hbefore ↦ ?_) hsteps).congr hevents hmodel htool
    rfl rfl
  have hreconciled : Reconciled (relay.run w.trace).calling (relay.run w.trace) w l :=
    h ⟨hbefore.kept, hbefore.onTime, hbefore.bounded⟩
  exact (hreconciled.widen hallowed).congr rfl rfl rfl rfl rfl

/-- One operation keeps the accounts. -/
theorem Audit.step {x : World × EventLedger} {o : Op} (h : Audit x)
    (hallowed : (relay.run x.1.trace).Allows o) : Audit (audited.step o x).2 := by
  obtain ⟨w, l⟩ := x
  intro hafter
  change Undisturbed (w.step o).2 (l.audit w o) at hafter
  show Reconciled (relay.run (w.step o).2.trace).calling (relay.run (w.step o).2.trace) (w.step o).2
    (l.audit w o)
  rcases hstep : w.step o with ⟨r | - | -, w'⟩
  · obtain ⟨turn, rest, hschedule, hanswer, rfl⟩ := World.step_returned hstep
    rw [hstep, EventLedger.audit, hschedule] at hafter
    rw [World.recordEntry_trace, World.effect_trace, World.advance_trace, EventLedger.audit,
      hschedule]
    have heffect : Undisturbed ((w.advance turn rest o).effect o) _ :=
      ⟨hafter.kept, hafter.onTime, hafter.bounded⟩
    have hadvance := h.advance rest hallowed heffect.of_effect
    exact (hadvance.effect hallowed hanswer heffect).congr rfl rfl rfl rfl rfl
  · -- An operation that unwinds changes nothing.
    obtain ⟨turn, rest, hschedule, hanswer, rfl⟩ := World.step_panicked hstep
    rw [hstep, EventLedger.audit, hschedule] at hafter
    rw [World.effect_trace, World.advance_trace, EventLedger.audit, hschedule]
    have hadvance := h.advance rest hallowed hafter.of_effect
    have hsame := World.effect_of_answer_none hanswer
    dsimp only
    rw [makesFuture_of_answer_none hanswer, Bool.or_false] at hadvance ⊢
    rw [hsame]
    exact hadvance.of_lists (produces_of_answer_none _ hanswer) (by rw [hsame])
  · obtain ⟨hschedule, rfl⟩ := World.step_stalled hstep
    rw [hstep, EventLedger.audit, hschedule] at hafter
    rw [EventLedger.audit, hschedule]
    exact h hafter

end

/-! ## Accounts of runs -/

/-- The world that a loop starts in, and an empty ledger. -/
def auditedStart (id : LoopId) (options : LoopOptions) (base : List HistoryItem) (clock : Nat)
    (schedule : List Turn) : World × EventLedger :=
  (.start id options base clock schedule, .new)

/-- The worlds, each with its ledger, that operations leave in any order that the relay allows. -/
def Audited (x : World × EventLedger) : Prop :=
  ∃ id options base clock schedule,
    relay.Reaches audited (auditedStart id options base clock schedule) x

/-- The accounts of a world. -/
theorem Audited.audit {x : World × EventLedger} (h : Audited x) : Audit x := by
  obtain ⟨id, options, base, clock, schedule, hreaches⟩ := h
  refine hreaches.invariant (J := Audit) (fun _ ↦ ?_) fun _ _ hx hallowed ↦ hx.step hallowed
  exact {
    closed := rfl
    total := rfl
    order := .refl _
    atRest := fun _ ↦ rfl
    modelDropped := fun _ ↦ rfl
    modelQueue := fun _ _ ↦ rfl
    channel := fun _ _ _ ↦ rfl
    ended := fun hended ↦ absurd hended (not_or.mpr ⟨nofun, nofun⟩)
    emptied := fun _ ↦ rfl
    counted := fun _ ↦ rfl }

/-- The accounts after a call: nothing waits in a channel, and no count is left behind in one. -/
structure Settled (w : World) (l : EventLedger) : Prop where
  waiting : w.waiting = []
  total : l.produced.length = l.enqueued.length +
    (l.enqueued.map LoopEventEnvelope.droppedBefore).sum + w.events.dropped

/-- Where no channel is in use, everything is settled. -/
theorem Reconciled.settled {active : Bool} {w : World} {l : EventLedger}
    (h : Reconciled active .idle w l) : Settled w l := by
  have hchannel : w.toolProgress = none := h.channel (by decide) (by decide) (by decide)
  have hwaiting : w.waiting = [] := by
    rw [World.waiting, h.modelQueue (by decide) (by decide), World.toolQueue, hchannel]
    rfl
  have htotal := h.total
  rw [hwaiting, World.unattached, h.modelDropped (by decide), World.toolDropped, World.uncounted,
    hchannel] at htotal
  exact ⟨hwaiting, htotal⟩

theorem Audited.accepts {x : World × EventLedger} (h : Audited x) : relay.Accepts x.1.trace := by
  obtain ⟨id, options, base, clock, schedule, hreaches⟩ := h
  exact hreaches.accepts (fun _ _ _ _ ↦ trivial) trivial

/-- A call that begins and ends with no channel in use. -/
theorem Audited.call {x : World × EventLedger} {α : Type} {p : Action α} (h : Audited x)
    (hidle : relay.run x.1.trace = Relay.idle) (hp : Relay.idle.Returns p) :
    Audited (audited.exec p x).2 ∧ ∀ a, (audited.exec p x).1 = .returned a →
      Undisturbed (audited.exec p x).2.1 (audited.exec p x).2.2 →
        Settled (audited.exec p x).2.1 (audited.exec p x).2.2 := by
  have hrun := relay.exec_reaches audited (fun _ _ _ _ ↦ trivial) h.accepts (hp _ hidle)
  have haudited : Audited (audited.exec p x).2 := by
    obtain ⟨id, options, base, clock, schedule, hreaches⟩ := h
    exact ⟨id, options, base, clock, schedule, hreaches.trans hrun.1⟩
  refine ⟨haudited, fun a ha hafter ↦ ?_⟩
  have hreturned : relay.run (audited.exec p x).2.1.trace = Relay.idle :=
    Monitor.Establishes.of_returned _ _ hrun ha
  have hreconciled := haudited.audit hafter
  rw [hreturned] at hreconciled
  exact hreconciled.settled

/-- The accounts of events. In whatever order the runner emits events, offers, receives and forwards
progress, and other threads report progress and receive events, everything that was produced is
enqueued for the host, waits in a progress channel, is counted by an envelope, or is counted by the
event sink or a channel; besides there is only what a step that is under way has in hand. What is
enqueued is in the order in which it was produced. The runs of a loop are among these, as are its
model calls and tool calls from any such world. Where one of these returns, no progress is left in a
channel and no count is left behind. -/
theorem event_losses_accounted [SerdeJson] :
    (∀ x, Audited x → Undisturbed x.1 x.2 → Accounted (relay.run x.1.trace) x.1 x.2) ∧
    (∀ (setup : Setup) (clock : Nat) (schedule : List Turn),
      let x := (audited.exec (runLoopInner setup.ctx setup.request) (auditedStart setup.ctx.id
        setup.ctx.options setup.request.history clock schedule)).2
      x.1 = (setup.run clock schedule).2 ∧ Audited x) ∧
    (∀ ctx requestIndex snapshot request deadline x, Audited x →
      relay.run x.1.trace = Relay.idle →
      let run := audited.exec (runModel ctx requestIndex snapshot request deadline) x
      Audited run.2 ∧ ∀ result, run.1 = .returned result → Undisturbed run.2.1 run.2.2 →
        Settled run.2.1 run.2.2) ∧
    ∀ ctx requestIndex invocation implementation deadline x, Audited x →
      relay.run x.1.trace = Relay.idle →
      let run := audited.exec (runToolPort ctx requestIndex invocation implementation deadline) x
      Audited run.2 ∧ ∀ outcome, run.1 = .returned outcome → Undisturbed run.2.1 run.2.2 →
        Settled run.2.1 run.2.2 := by
  refine ⟨fun x hx hafter ↦ (hx.audit hafter).accounted, fun setup clock schedule ↦ ?_,
    fun ctx requestIndex snapshot request deadline x hx hidle ↦ ?_,
    fun ctx requestIndex invocation implementation deadline x hx hidle ↦ ?_⟩
  · -- The runner keeps to the order of the relay, and the ghost does not change the run.
    have hrun := relay.exec_reaches audited (fun _ _ _ _ ↦ trivial) (p := runLoopInner setup.ctx
      setup.request) (x := auditedStart setup.ctx.id setup.ctx.options setup.request.history clock
      schedule) trivial ((relay_rounds setup.ctx).runLoopInner setup.request _ rfl)
    exact ⟨(machine.exec_ghost _ _ _ _).2, _, _, _, _, _, hrun.1⟩
  · -- A call from rest comes back to rest.
    exact hx.call hidle (relay_runModel ctx requestIndex snapshot request deadline)
  · exact hx.call hidle (relay_runToolPort ctx requestIndex invocation implementation deadline)

namespace Flood

/-- The tool of the sample reports more than its channel holds. -/
def schedule : List Turn :=
  (Sample.schedule.modify 58 fun turn ↦ { turn with
    host := List.replicate 70 (.toolProgress ⟨none, none, none⟩) ++
      List.replicate 6 .countProgress }) ++ List.replicate 300 ({} : Turn)

/-- The run of the loop. -/
def run : World × EventLedger :=
  (audited.exec (runLoopInner Sample.setup.ctx Sample.setup.request) (auditedStart
    Sample.setup.ctx.id Sample.setup.ctx.options Sample.setup.request.history 0 schedule)).2

end Flood

/-- The accounts balance where both queues lose values. -/
theorem event_losses_accounted_flood :
    Accounted (relay.run Flood.run.1.trace) Flood.run.1 Flood.run.2 ∧
    Flood.run.2.enqueued.length < Flood.run.2.produced.length := by
  obtain ⟨haccounts, hruns, -, -⟩ := event_losses_accounted
  have haudited : Audited Flood.run := (hruns Sample.setup 0 Flood.schedule).2
  have hundisturbed : Undisturbed Flood.run.1 Flood.run.2 :=
    ⟨by decide +kernel, by decide +kernel, by decide +kernel⟩
  exact ⟨haccounts _ haudited hundisturbed, by decide +kernel⟩

end MinicoreRuntime
