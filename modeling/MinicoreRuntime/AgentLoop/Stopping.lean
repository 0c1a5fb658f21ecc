import MinicoreRuntime.AgentLoop.Completion
import MinicoreRuntime.AgentLoop.Transcript
import MinicoreRuntime.Runtime.Signals

/-!
# Stopping

Whatever the runner starts, it starts at the end of a check: it reads the token and the clock, and
nothing else comes between. A check that begins when the token is cancelled or the loop's deadline
has passed starts nothing, whether it is for a prompt, a policy, a tool or a model, in the first
attempt or in a retry.

## Main definitions

* `Op.starts`: the operations that start work.
* `Checked`: the operations of the runner before one of them.
* `LoopStopped`: the token is cancelled or the deadline has passed.

## Main results

* `checked_requestRounds`: the rounds of a loop start only what they checked.
* `no_new_work`: after a stop nothing is started, and the calls of every batch have their results.
-/

namespace MinicoreRuntime

open Interactive

/-- The operations that start work of the host. -/
def Op.starts : Op → Bool
  | .makeFuture _ | .startModel _ _ _ => true
  | _ => false

/-- The operations that look at the clock without waiting. -/
def Op.looksAtClock : Op → Bool
  | .now | .effectiveDeadline _ _ => true
  | _ => false

/-- The last operations found the token not cancelled and then the clock before the deadline. -/
def Checked (deadline : Option Nat) (older : List (Entry interface Nat)) : Prop :=
  ∃ (looks : List (Entry interface Nat)) (n : Nat) (past : List (Entry interface Nat)),
    older = looks ++ ⟨.isCancelled, n, false⟩ :: past ∧
      (∀ e ∈ looks, e.op.looksAtClock = true) ∧
      ∃ e ∈ looks, ∀ instant, deadline = some instant → e.note < instant

/-- The monitor that lets the runner start what it checked. -/
def startMonitor (deadline : Option Nat) : Monitor interface Nat :=
  .history (fun older o ↦ o.starts = true → Checked deadline older)
    fun _ (o : Op) n r ↦ o.Timely n r

section

variable {ctx : LoopCtx} {t : List (Entry interface Nat)} {α : Type}

/-- What does not start work needs no check. -/
theorem start_free {o : Op} (h : o.starts = false) : (startMonitor ctx.options.deadline).Free o :=
  fun _ hstarts ↦ absurd hstarts (by simp [h])

/-- A program that starts nothing. -/
theorem start_of_uses {p : Action α} (hp : p.Uses fun o : Op ↦ o.starts = false) :
    (startMonitor ctx.options.deadline).wp p (.ofReturned fun _ _ ↦ True) t :=
  (startMonitor ctx.options.deadline).wp_of_free (fun _ ↦ start_free) hp t

/-- Only port calls and the driver start work. -/
theorem Op.starts_of {o : Op}
    (h : o.plain = true ∨ o.asks = true ∨ o.routine = true ∨ o.finishes = true) :
    o.starts = false := by
  cases o with
  | makeFuture | startModel =>
    exact absurd h (by simp [Op.plain, Op.asks, Op.routine, Op.finishes])
  | _ => rfl

theorem Op.starts_of_plain {o : Op} (h : o.plain = true) : o.starts = false := starts_of (.inl h)

/-- A deadline that is not after the loop's. -/
def NotAfter (ctx : LoopCtx) (instant : Nat) : Prop :=
  ∀ deadline, ctx.options.deadline = some deadline → instant ≤ deadline

theorem notAfter_of_effective {turnDeadline timeout n : Nat} {deadline : EffectiveDeadline}
    (hdeadline : Horizon ctx turnDeadline)
    (h : some deadline = effectiveDeadlineFrom n turnDeadline timeout) :
    NotAfter ctx deadline.instant := by
  intro instant hinstant
  rw [← hdeadline instant hinstant]
  exact effectiveDeadlineFrom_le h.symm

/-- The token was not cancelled, and a look at the clock found it before the deadline. -/
theorem checked_of_looks (looks : List (Entry interface Nat)) {n now instant : Nat}
    (hinstant : NotAfter ctx instant) (hnow : now < instant)
    (hlooks : ∀ e ∈ looks, e.op.looksAtClock = true) :
    Checked ctx.options.deadline
      (⟨.now, now, now⟩ :: (looks ++ ⟨.isCancelled, n, false⟩ :: t)) := by
  refine ⟨⟨.now, now, now⟩ :: looks, n, t, rfl, ?_, _, List.mem_cons_self, ?_⟩
  · exact List.forall_mem_cons.mpr ⟨rfl, hlooks⟩
  · exact fun deadline hdeadline ↦ Nat.lt_of_lt_of_le hnow (hinstant deadline hdeadline)

/-- A port call starts after it checked. -/
theorem checked_runPortCall {port : Port} {awaiter : Action Unit} {turnDeadline timeout : Nat}
    {make : Nat → PortCall port} (hdeadline : Horizon ctx turnDeadline)
    (hawait : awaiter.Uses Op.Plain) :
    (startMonitor ctx.options.deadline).wp (runPortCall awaiter turnDeadline timeout make)
      (.ofReturned fun _ _ ↦ True) t := by
  refine (startMonitor _).wp_call_bind_of (start_free rfl _) fun n cancelled _ ↦ ?_
  cases cancelled with
  | true => trivial
  | false =>
    refine (startMonitor _).wp_call_bind_of (start_free rfl _) fun n' deadline heffective ↦ ?_
    cases deadline with
    | none => trivial
    | some deadline =>
      refine (startMonitor _).wp_call_bind_of (start_free rfl _) fun n'' now hnow ↦ ?_
      obtain rfl : now = n'' := hnow
      dsimp only
      split
      · trivial
      · rename_i hbefore
        have hchecked : Checked ctx.options.deadline
            (⟨.now, now, now⟩ :: ⟨.effectiveDeadline turnDeadline timeout, n', some deadline⟩ ::
              ⟨.isCancelled, n, false⟩ :: t) :=
          checked_of_looks [⟨.effectiveDeadline turnDeadline timeout, n', some deadline⟩]
            (notAfter_of_effective hdeadline heffective) (Nat.lt_of_not_le hbefore)
            (by simp [Op.looksAtClock])
        refine (startMonitor ctx.options.deadline).wp_call_bind_of (fun _ ↦ hchecked) ?_
        -- What follows the start only waits.
        refine fun n₃ made _ ↦ start_of_uses ?_
        split
        · refine Prog.uses_bind (Prog.uses_iterate fun _ ↦ ?_) fun _ ↦ uses_call_bind rfl
            fun _ ↦ trivial
          refine uses_call_bind rfl fun polled ↦ ?_
          cases polled with
          | pending =>
            exact Prog.uses_bind (Prog.uses_mono hawait fun _ ↦ Op.starts_of_plain) fun _ ↦ trivial
          | _ => trivial
        · trivial

/-- The check of the driver. -/
theorem checked_precheck {deadline : EffectiveDeadline} (hinstant : NotAfter ctx deadline.instant) :
    (startMonitor ctx.options.deadline).wp (precheck deadline)
      (.ofReturned fun checked t' ↦ checked = .ok () → Checked ctx.options.deadline t') t := by
  refine (startMonitor _).wp_call_bind_of (start_free rfl _) fun n cancelled _ ↦ ?_
  cases cancelled with
  | true => exact fun h ↦ absurd h (by simp)
  | false =>
    refine (startMonitor _).wp_call_bind_of (start_free rfl _) fun n' now hnow ↦ ?_
    obtain rfl : now = n' := hnow
    split
    · exact fun h ↦ absurd h (by simp)
    · rename_i hbefore
      exact fun _ ↦ checked_of_looks [] hinstant (Nat.lt_of_not_le hbefore) (by simp)

variable [SerdeJson] {driver : ModelDriver} {awaiter : Action Unit}
  (hawait : awaiter.Uses Op.Plain)
include hawait

/-- An attempt starts the model after the check. -/
theorem checked_runAttempt {request : ModelRequest} {context : ModelCallContext}
    {deadline : EffectiveDeadline} (hchecked : Checked ctx.options.deadline t) :
    (startMonitor ctx.options.deadline).wp (driver.runAttempt awaiter request context deadline)
      (.ofReturned fun _ _ ↦ True) t := by
  have hawait' : awaiter.Uses fun o : Op ↦ o.starts = false :=
    Prog.uses_mono hawait fun _ ↦ Op.starts_of_plain
  have hplain : ∀ o : Op, o.plain = true → o.starts = false := fun _ ↦ Op.starts_of_plain
  refine (startMonitor ctx.options.deadline).wp_call_bind_of (fun _ ↦ hchecked) ?_
  refine fun n started _ ↦ start_of_uses ?_
  split
  · refine Prog.uses_bind (Prog.uses_iterate fun _ ↦ uses_pollStartCall hplain hawait' deadline) ?_
    intro stream
    refine Prog.uses_bind ?_ fun result ↦ uses_call_bind rfl fun _ ↦ trivial
    cases stream with
    | error failure => trivial
    | ok u => exact Prog.uses_iterate fun a ↦ uses_pollEvent hplain hawait' deadline a
  · trivial

/-- Every attempt of the driver starts after a check. -/
theorem checked_attemptRound {request : ModelRequest} {context : ModelCallContext}
    {deadline : EffectiveDeadline} (hinstant : NotAfter ctx deadline.instant) (attempt : Nat) :
    (startMonitor ctx.options.deadline).wp
      (driver.attemptRound awaiter request context deadline attempt)
      (.ofReturned fun _ _ ↦ True) t := by
  have hawait' : awaiter.Uses fun o : Op ↦ o.starts = false :=
    Prog.uses_mono hawait fun _ ↦ Op.starts_of_plain
  have hplain : ∀ o : Op, o.plain = true → o.starts = false := fun _ ↦ Op.starts_of_plain
  refine (startMonitor ctx.options.deadline).wp_bind_of (checked_precheck hinstant) ?_
  rintro (failure | ⟨⟨⟩⟩) t₁ hchecked
  · trivial
  refine (startMonitor ctx.options.deadline).wp_bind_of
    (checked_runAttempt hawait (hchecked rfl)) ?_
  rintro (failure | response) t₂ -
  · refine start_of_uses ?_
    refine Prog.uses_bind (uses_evaluateRetry hplain _ attempt failure deadline.instant) ?_
    intro delay
    cases delay with
    | none => trivial
    | some delay =>
      refine Prog.uses_bind (uses_waitForRetry hplain hawait' deadline delay failure.error) ?_
      intro waited
      cases waited <;> trivial
  · trivial

/-- The driver starts the model only after a check. -/
theorem checked_runDetailed {request : ModelRequest} {context : ModelCallContext}
    (hdeadline : Horizon ctx context.deadline) :
    (startMonitor ctx.options.deadline).wp (driver.runDetailed awaiter request context)
      (.ofReturned fun _ _ ↦ True) t := by
  refine (startMonitor _).wp_call_bind_of (start_free rfl _) fun n deadline heffective ↦ ?_
  cases deadline with
  | none => trivial
  | some deadline =>
    have hinstant := notAfter_of_effective hdeadline heffective
    refine (startMonitor ctx.options.deadline).wp_bind_of (checked_precheck hinstant) ?_
    rintro (failure | ⟨⟨⟩⟩) t₁ -
    · trivial
    · dsimp only
      split
      · trivial
      · refine (startMonitor ctx.options.deadline).wp_iterate (fun _ _ ↦ True) trivial ?_
        intro attempt t₂ _
        refine (startMonitor ctx.options.deadline).wp_mono_returned
          (checked_attemptRound hawait hinstant attempt) ?_
        rintro (attempt | result) t₃ -
        · trivial
        · trivial

end

/-- The rounds of a loop start only what they checked. -/
theorem checked_requestRounds [SerdeJson] (ctx : LoopCtx) (locals : Locals)
    (t : List (Entry interface Nat)) :
    (startMonitor ctx.options.deadline).wp (Prog.iterate (requestRound ctx) locals)
      (.ofReturned fun _ _ ↦ True) t := by
  -- Only port calls and the driver start anything, and both check first.
  have h : Traversal (startMonitor ctx.options.deadline) ctx (fun _ ↦ True) fun _ _ ↦ True := {
    plain := fun o ho ↦ (start_free (Op.starts_of_plain ho)).stable
    plainEnded := fun _ o ho ↦ (start_free (Op.starts_of_plain ho)).stable
    result := fun _ ↦ (start_free rfl).stable
    resultEnded := fun _ _ ↦ (start_free rfl).stable
    ended := fun _ _ _ _ ↦ trivial
    cancelled := fun _ _ _ _ ↦ trivial
    past := fun s _ ↦ by
      refine (startMonitor ctx.options.deadline).wp_mono_returned (start_of_uses ?_)
        fun _ _ _ ↦ ⟨trivial, fun _ ↦ trivial⟩
      unfold pastDeadline
      split
      · trivial
      · exact ⟨rfl, fun _ ↦ trivial⟩
    port := fun awaiter turnDeadline timeout make s hdeadline hawait _ ↦
      (startMonitor ctx.options.deadline).wp_mono_returned (checked_runPortCall hdeadline hawait)
        fun _ _ _ ↦ ⟨trivial, fun _ ↦ trivial, fun _ ↦ trivial⟩
    driver := fun driver awaiter request context s hdeadline hawait _ ↦
      (startMonitor ctx.options.deadline).wp_mono_returned (checked_runDetailed hawait hdeadline)
        fun _ _ _ ↦ ⟨trivial, fun _ _ _ ↦ trivial⟩
    ask := fun invocation kind s _ ↦ by
      have huses : (askHost ctx invocation kind).Uses fun o : Op ↦ o.starts = false :=
        Traversal.uses_askHost (fun _ ho ↦ Op.starts_of (.inr (.inl ho))) invocation kind
      refine (startMonitor ctx.options.deadline).wp_mono_returned (start_of_uses huses) ?_
      intro answer t' _
      cases answer <;> trivial }
  refine h.requestRounds (fun o ho _ ↦ ?_) (fun _ hs ↦ hs) ?_ locals trivial
  · exact (start_free (Op.starts_of (.inr (.inr (.inl ho))))).stable
  · exact (start_free rfl).stable

/-- The task of a loop starts only what it checked. -/
theorem checked_runLoop [SerdeJson] (ctx : LoopCtx) (request : LoopRequest)
    (t : List (Entry interface Nat)) :
    (startMonitor ctx.options.deadline).wp (runLoop ctx request)
      (.ofReturned fun _ _ ↦ True) t := by
  have hinner : (startMonitor ctx.options.deadline).wp (runLoopInner ctx request)
      (.ofReturned fun _ _ ↦ True) t := by
    refine (startMonitor ctx.options.deadline).wp_free_call (start_free rfl) fun _ t₁ ↦ ?_
    refine (startMonitor ctx.options.deadline).wp_free_call (start_free rfl) fun _ t₂ ↦ ?_
    refine (startMonitor ctx.options.deadline).wp_bind_of (checked_requestRounds ctx _ _) ?_
    rintro ending t₃ -
    refine start_of_uses ?_
    refine Prog.uses_bind (Traversal.uses_finishLoop (fun _ ↦ Op.starts_of_plain)
      (fun _ ho _ ↦ Op.starts_of (.inr (.inr (.inr ho)))) ending) fun report ↦ ?_
    refine Prog.uses_bind (uses_dropConfig (fun _ ↦ Op.starts_of_plain) _) fun _ ↦ ?_
    exact uses_call_bind rfl fun _ ↦ trivial
  have hpanic : ∀ t', (startMonitor ctx.options.deadline).wp (panicReport ctx.id)
      (.ofReturned fun _ _ ↦ True) t' := fun t' ↦
    start_of_uses (Traversal.uses_panicReport (fun _ ↦ Op.starts_of_plain)
      (fun _ ho _ ↦ Op.starts_of (.inr (.inr (.inr ho)))) ctx.id)
  show (startMonitor ctx.options.deadline).wp (runLoopInner ctx request)
    ⟨fun _ _ ↦ True, fun t' ↦ (startMonitor ctx.options.deadline).wp (panicReport ctx.id)
      (.ofReturned fun _ _ ↦ True) t'⟩ t
  exact (startMonitor ctx.options.deadline).wp_mono hinner (fun _ _ _ ↦ trivial)
    fun t' _ ↦ hpanic t'

/-! ## Runs -/

/-- The token is cancelled, or the clock has reached the deadline of the loop. -/
def LoopStopped (ctx : LoopCtx) (start : Nat) (log : List Record) : Prop :=
  TokenCancelled log ∨ ∃ instant, ctx.options.deadline = some instant ∧
    instant ≤ clockAfter start log

/-- After a stop nothing is started. Whatever a run of the task starts comes right after a check
that read the token and the clock, with nothing else of the runner between; and when that check
began, the token was not cancelled and the deadline of the loop had not passed. Where the run
delivers its report, every tool call of every response has one result, right after the response and
in order. -/
theorem no_new_work [SerdeJson] (setup : Setup) (clock : Nat) (schedule : List Turn) :
    (∀ newer entry older,
      (setup.task clock schedule).2.log = newer ++ .runner entry :: older →
      entry.op.starts = true →
      ∃ looks n past, older = looks ++ .runner ⟨.isCancelled, n, false⟩ :: past ∧
        (∀ e ∈ traceOf looks, e.op.looksAtClock = true) ∧
        (∃ e ∈ traceOf looks, ∀ instant, setup.ctx.options.deadline = some instant →
          e.note < instant) ∧
        ¬ LoopStopped setup.ctx clock past) ∧
    ∀ report, Delivers (setup.run clock schedule) report →
      ∃ rounds tail,
        report.appended = transcript setup.ctx.id setup.request.input rounds tail := by
  refine ⟨fun newer entry older hsplit hstarts ↦ ?_, fun report hreport ↦ ?_⟩
  · have hhonours : machine.Honours (startMonitor setup.ctx.options.deadline) fun _ ↦ True := by
      refine World.Kept.honours ⟨fun _ _ _ ↦ trivial, fun _ _ _ _ _ ↦ trivial,
        fun _ _ _ _ _ _ _ ↦ trivial⟩ fun w turn o r _ _ hanswer ↦ ?_
      exact World.answer_timely hanswer
    have hrun := (startMonitor setup.ctx.options.deadline).exec_sound machine hhonours
      (runLoop setup.ctx setup.request)
      (w := .start setup.ctx.id setup.ctx.options setup.request.history clock schedule)
      trivial trivial (checked_runLoop setup.ctx setup.request _)
    have haccepts : (startMonitor setup.ctx.options.deadline).Accepts
        (traceOf (setup.task clock schedule).2.log) := hrun.2.1
    have htold := ((signalled_kept clock).exec (runLoop setup.ctx setup.request)
      (.start setup.ctx.id setup.ctx.options setup.request.history clock schedule)).told
    change Justified (Told clock) (setup.task clock schedule).2.log at htold
    rw [hsplit] at haccepts htold
    have hallowed := (accepts_at haccepts).2.1
    rw [startMonitor, Monitor.history_run] at hallowed
    obtain ⟨looks, n, past, hlooks, honly, hbefore⟩ := hallowed hstarts
    obtain ⟨recent, past', rfl, rfl, rfl⟩ := split_traceOf hlooks
    refine ⟨recent, n, past', rfl, honly, hbefore, ?_⟩
    rintro (hcancelled | ⟨instant, hinstant, hreached⟩)
    · -- The check was told that the token is not cancelled.
      have hcheck := (htold.past.1 : Justified (Told clock) _).of_split.2.2
      exact absurd (hcheck.mpr hcancelled) (by simp)
    · -- The check looked at the clock later than the deadline had passed.
      obtain ⟨e, he, hlt⟩ := hbefore
      obtain ⟨later, earlier, hrecent⟩ := List.append_of_mem he
      obtain ⟨later', earlier', rfl, -, -⟩ := split_traceOf hrecent
      have hle : clockAfter clock past' ≤ e.note := by
        refine clockAfter_le_note (newer ++ .runner entry :: later')
          (earlier' ++ [.runner ⟨.isCancelled, n, false⟩]) ?_
        simpa using htold
      exact absurd (hlt instant hinstant) (by omega)
  · obtain ⟨-, haccepts, hdelivered⟩ := conforms setup clock schedule
    exact reported_rounds haccepts (hdelivered report hreport)

/-- In the sample the model is started after a check, and the tool call has its result. -/
theorem no_new_work_sample :
    (∃ newer entry older,
      (Sample.setup.task 0 Sample.schedule).2.log = newer ++ .runner entry :: older ∧
      entry.op.starts = true ∧
      ∃ looks n past, older = looks ++ .runner ⟨.isCancelled, n, false⟩ :: past ∧
        ¬ LoopStopped Sample.setup.ctx 0 past) ∧
    ∃ report, (Sample.setup.run 0 Sample.schedule).1 = .returned report ∧
      ∃ rounds tail, report.appended =
        transcript Sample.setup.ctx.id Sample.setup.request.input rounds tail := by
  obtain ⟨hwork, hresults⟩ := no_new_work Sample.setup 0 Sample.schedule
  obtain ⟨report, hreturned, -⟩ := Sample.returns
  refine ⟨?_, report, hreturned, hresults report (.inl hreturned)⟩
  have hstart : (traceOf (Sample.setup.task 0 Sample.schedule).2.log).any
      (fun e ↦ e.op.starts) = true := by decide +kernel
  obtain ⟨e, he, hstarts⟩ := List.any_eq_true.mp hstart
  obtain ⟨later, earlier, htrace⟩ := List.append_of_mem he
  obtain ⟨newer, older, hlog, -, -⟩ := split_traceOf htrace
  obtain ⟨looks, n, past, hlooks, -, -, hstopped⟩ := hwork newer e older hlog hstarts
  exact ⟨newer, e, older, hlog, hstarts, looks, n, past, hlooks, hstopped⟩

/-- The result of a tool call. -/
def HistoryItem.isResult : HistoryItem → Bool
  | .toolResult _ => true
  | _ => false

namespace Sample

/-- The loop is cancelled while the tool runs, and the destructor of its future unwinds. -/
def unwinding : List Turn := (List.range 100).map fun i ↦
  if i = 58 then { host := [.cancel .user, .resume 0] }
  else if i = 59 then { reply := .unwinds }
  else (turns.lookup i).getD {}

end Sample

/-- A runner that unwinds after a stop leaves a call without a result: a response with a tool call
was appended and the token cancelled, and the task returns a report without any result. -/
theorem unwound_without_result :
    ∃ report newer older,
      (Sample.setup.task 0 Sample.unwinding).1 = .returned report ∧
      (Sample.setup.task 0 Sample.unwinding).2.log = newer ++ older ∧
      TokenCancelled older ∧
      (appendedItems (traceOf older)).any HistoryItem.hasCalls = true ∧
      (appendedItems (traceOf (newer ++ older))).any HistoryItem.isResult = false ∧
      report.appended.any HistoryItem.isResult = false := by
  obtain ⟨report, hreport, hresults⟩ : ∃ report,
      (Sample.setup.task 0 Sample.unwinding).1.value? = some report ∧
      report.appended.any HistoryItem.isResult = false := by
    have h : (Sample.setup.task 0 Sample.unwinding).1.value?.map
        (fun report ↦ report.appended.any HistoryItem.isResult) = some false := by decide +kernel
    exact Option.map_eq_some_iff.mp h
  -- The last six operations are what the task does after the runner unwound.
  have hcancelled : ((Sample.setup.task 0 Sample.unwinding).2.log.drop 6).any
      Record.cancelsToken = true := by decide +kernel
  have hcalls : (appendedItems (traceOf ((Sample.setup.task 0 Sample.unwinding).2.log.drop 6))).any
      HistoryItem.hasCalls = true := by decide +kernel
  have hnone : (appendedItems (traceOf (Sample.setup.task 0 Sample.unwinding).2.log)).any
      HistoryItem.isResult = false := by decide +kernel
  generalize (Sample.setup.task 0 Sample.unwinding).2.log = log at hcancelled hcalls hnone ⊢
  refine ⟨report, log.take 6, log.drop 6, Outcome.value?_eq_some.mp hreport,
    (List.take_append_drop 6 log).symm, ?_, hcalls, ?_, hresults⟩
  · obtain ⟨e, he, hcancels⟩ := List.any_eq_true.mp hcancelled
    exact ⟨e, he, hcancels⟩
  · rw [List.take_append_drop]
    exact hnone

end MinicoreRuntime
