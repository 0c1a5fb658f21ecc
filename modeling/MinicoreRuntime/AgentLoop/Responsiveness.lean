import MinicoreRuntime.AgentLoop.Liveness
import MinicoreRuntime.AgentLoop.Pacing
import MinicoreRuntime.Runtime.Signals

/-!
# Responsiveness

A cancelled loop ends soon. Once the token is cancelled no look of the runner finds it alone, so
what the runner still does is bounded by its pace: a fixed number of operations, and those that
reports, deltas and items pay for.

## Main definitions

* `Op.forwards`, `Op.appendsItem`: the operations that are counted apart.

## Main results

* `deaf_kept`: once the token is cancelled, every look finds it so.
* `cancellation_prompt`: what a task does after its token was cancelled.
-/

namespace MinicoreRuntime

open Interactive

/-! ## Looks at a cancelled token -/

/-- A poll finds a cancelled token before anything else. -/
theorem World.select_of_cancelled {α : Type} {w : World} (hcancel : w.control.cancel = true)
    (turn : Turn) (deadline : Option Nat) (other : Polled α) :
    (w.select turn deadline other).isCancelled = true := by
  unfold select
  rw [if_pos hcancel]
  rfl

/-- No look finds a cancelled token alone. -/
theorem World.answer_not_live {w : World} (hcancel : w.control.cancel = true) {turn : Turn} {o : Op}
    {r : o.Answer} (h : w.answer turn o = some r) : o.live r = false := by
  -- The token is the first branch of every wait.
  have hselect : ∀ {α : Type} {deadline : Option Nat} {other r : Polled α},
      some (w.select turn deadline other) = some r → (!r.isCancelled) = false := by
    intro α deadline other r hr
    obtain rfl := Option.some.inj hr
    rw [select_of_cancelled hcancel]
    rfl
  cases o with
  | isCancelled =>
    obtain rfl := Option.some.inj h
    exact congrArg not hcancel
  | pollPort call deadline => exact hselect h
  | pollStart deadline => exact hselect h
  | pollStream deadline => exact hselect h
  | pollRetry deadline retryAt => exact hselect h
  | pollInteraction channel deadline => exact hselect h
  | _ => rfl

/-- A look after the token was cancelled finds it so. -/
def Deaf (older : List Record) : Record → Prop
  | .host _ => True
  | .runner entry => TokenCancelled older → entry.op.live entry.answer = false

/-- Every world remembers that no look found a cancelled token alone. -/
theorem deaf_kept (start : Nat) :
    World.Kept (fun _ _ ↦ True) fun w ↦ Signalled start w ∧ Justified Deaf w.log where
  host w s h := by
    refine ⟨(signalled_kept start).host w s h.1, ?_⟩
    obtain ⟨events, hevents⟩ := w.hostStep_log s
    rw [hevents]
    -- Steps of other threads are no looks.
    clear hevents
    induction events with
    | nil => exact h.2
    | cons event events ih => exact ⟨ih, trivial⟩
  pass w schedule clock hle h := ⟨(signalled_kept start).pass w schedule clock hle h.1, h.2⟩
  answered w turn o r h hallowed hanswer := by
    refine ⟨(signalled_kept start).answered w turn o r h.1 hallowed hanswer, ?_⟩
    rw [World.recordEntry_log, World.effect_log]
    refine ⟨h.2, fun hcancelled ↦ ?_⟩
    exact World.answer_not_live (h.1.token.mpr hcancelled) hanswer

/-! ## What is paid for -/

/-- Whether an operation received a report of a tool or a delta of a model. -/
def Op.forwards : (o : Op) → o.Answer → Bool
  | .recvToolProgress, received => received.isSome
  | .recvModelProgress, received => received.isSome
  | _, _ => false

/-- Whether an operation appends an item. -/
def Op.appendsItem : Op → Bool
  | .append _ => true
  | _ => false

/-- The reports and deltas forwarded in a log. -/
def forwardedIn (log : List Record) : Nat :=
  (traceOf log).countP fun e ↦ e.op.forwards e.answer

/-- The items appended in a log. -/
def appendedIn (log : List Record) : Nat :=
  (traceOf log).countP fun e ↦ e.op.appendsItem

theorem Op.credit_eq (o : Op) (r : o.Answer) :
    o.credit r = 4 * (o.forwards r).toNat + o.appendsItem.toNat := by
  cases o with
  | recvToolProgress => cases r <;> rfl
  | recvModelProgress => cases r <;> rfl
  | _ => rfl

/-- What the answers of a trace pay for. -/
theorem credits_eq (trace : List (Entry interface Nat)) :
    runnerPace.credits trace = 4 * trace.countP (fun e ↦ e.op.forwards e.answer) +
      trace.countP fun e ↦ e.op.appendsItem := by
  induction trace with
  | nil => rfl
  | cons e trace ih =>
    show e.op.credit e.answer + runnerPace.credits trace = _
    rw [ih, Op.credit_eq, List.countP_cons, List.countP_cons]
    cases e.op.forwards e.answer <;> cases e.op.appendsItem <;> simp <;> omega

/-! ## Runs -/

/-- What a run of the task keeps: its pace, and the looks at its token. -/
theorem task_steady [SerdeJson] (setup : Setup) (clock : Nat) (schedule : List Turn) :
    let run := setup.task clock schedule
    (runnerPace.monitor Nat 41).Accepts (traceOf run.2.log) ∧ Justified Deaf run.2.log := by
  have hpace := (runnerPace.monitor Nat 41).exec_sound machine
    (World.honours_of_expects fun _ _ _ _ ↦ trivial) (runLoop setup.ctx setup.request)
    (w := .start setup.ctx.id setup.ctx.options setup.request.history clock schedule)
    trivial trivial (steady_runLoop setup.ctx setup.request 0 (Nat.le_refl 0))
  have hdeaf := (deaf_kept clock).exec (runLoop setup.ctx setup.request)
    (w := .start setup.ctx.id setup.ctx.options setup.request.history clock schedule)
    ⟨.start _ _ _ _ _, trivial⟩
  exact ⟨hpace.2.1, hdeaf.2⟩

/-- Prompt cancellation: whatever a run of the task does, whatever its host does meanwhile and
wherever the token was cancelled, the runner performs at most 41 operations from there on, besides
appending items and forwarding the reports and deltas that it received. If it has not ended then, it
is because the world has no more answers. -/
theorem cancellation_prompt [SerdeJson] (setup : Setup) (clock : Nat) (schedule : List Turn)
    (newer older : List Record) (hlog : (setup.task clock schedule).2.log = newer ++ older)
    (hcancelled : TokenCancelled older) :
    (traceOf newer).length ≤ 41 + (4 * forwardedIn newer + appendedIn newer) ∧
      ((setup.task clock schedule).1 = .stalled → (setup.task clock schedule).2.schedule = []) := by
  refine ⟨?_, task_stalls setup clock schedule⟩
  obtain ⟨hpace, hdeaf⟩ := task_steady setup clock schedule
  rw [hlog] at hpace hdeaf
  rw [traceOf_append] at hpace
  have hlength := Pace.length_le hpace fun e he ↦ ?_
  · rwa [credits_eq] at hlength
  -- Every operation since then is one after a cancelled token.
  obtain ⟨recent, past, hsplit⟩ := List.append_of_mem he
  obtain ⟨recent', past', hnewer, -, -⟩ := split_traceOf hsplit
  rw [hnewer, List.append_assoc, List.cons_append] at hdeaf
  exact hdeaf.of_split (hcancelled.append past')

/-- The sample is cancelled before its second request. -/
theorem cancellation_prompt_sample : ∃ newer e older,
    (Sample.setup.task 0 Sample.schedule).2.log = newer ++ e :: older ∧ e.cancelsToken = true ∧
      (traceOf newer).length ≤ 41 + (4 * forwardedIn newer + appendedIn newer) := by
  have hany : (Sample.setup.task 0 Sample.schedule).2.log.any Record.cancelsToken = true := by
    decide +kernel
  obtain ⟨e, he, hcancels⟩ := List.any_eq_true.mp hany
  obtain ⟨newer, older, hlog⟩ := List.append_of_mem he
  refine ⟨newer, e, older, hlog, hcancels, ?_⟩
  exact (cancellation_prompt Sample.setup 0 Sample.schedule newer (e :: older) hlog
    ⟨e, List.mem_cons_self, hcancels⟩).1

end MinicoreRuntime
