import MinicoreRuntime.AgentLoop.Linearization

/-!
# Where deadlines come from

A loop without a deadline puts an artificial one on the calls of its ports, 24 hours after it looks
at the clock. A port whose timeout ends before that times out on its own account. A timeout that
does not counts as the loop's, and the loop ends as cancelled at a deadline it does not have.

## Main definitions

* `PortFirst`: the timeout of a call ends before the deadline that the loop puts on it.
* `Charged`: whose deadline a call blames.
* `AtOwnDeadline`: what a report that is cancelled at the deadline promises.

## Main results

* `charged_runPortCall`, `charged_runDetailed`: the calls that time out.
* `decided_runLoop`: a report of the task was decided by the seal, or cancelled by nobody.
* `deadline_provenance`: the deadlines of the task's reports and of its calls.
-/

namespace MinicoreRuntime

open Interactive

/-! ## Calls -/

/-- The timeout of a call ends before the deadline that the loop puts on it, or past the latest
instant. -/
def PortFirst (e : Entry interface Nat) : Prop :=
  match e.op with
  | .effectiveDeadline turnDeadline timeout =>
    (checkedAdd e.note timeout).all fun portDeadline ↦ portDeadline < turnDeadline
  | _ => True

/-- The deadline of a call counts as the loop's exactly where the timeout does not end before. -/
theorem effectiveDeadlineFrom_source (now turnDeadline timeout : Nat) :
    (effectiveDeadlineFrom now turnDeadline timeout).any (fun d ↦ d.source = .turn) = true ↔
      ¬ (checkedAdd now timeout).all (fun portDeadline ↦ portDeadline < turnDeadline) = true := by
  unfold effectiveDeadlineFrom
  cases checkedAdd now timeout with
  | none => simp
  | some portDeadline =>
    by_cases hle : turnDeadline ≤ portDeadline
    · simp [hle]
    · simp [hle]

/-- A call counts the loop's deadline exactly where the timeout does not end before. -/
theorem setsTurn_iff {e : Entry interface Nat} (h : e.op.Timely e.note e.answer) :
    setsTurn e = true ↔ ¬ PortFirst e := by
  obtain ⟨o, n, r⟩ := e
  cases o with
  | effectiveDeadline turnDeadline timeout =>
    obtain rfl : r = effectiveDeadlineFrom n turnDeadline timeout := h
    refine Iff.trans ?_ (effectiveDeadlineFrom_source n turnDeadline timeout)
    cases effectiveDeadlineFrom n turnDeadline timeout <;> simp [setsTurn]
  | _ => simp [setsTurn, PortFirst]

section

variable {start : Nat} {log newer older : List Record}

/-- The runner is told the truth about the clock. -/
theorem timely_of_mem (h : Justified (Told start) log) {e : Entry interface Nat}
    (he : e ∈ traceOf log) : e.op.Timely e.note e.answer := by
  obtain ⟨later, earlier, htrace⟩ := List.append_of_mem he
  obtain ⟨newer, older, rfl, -, -⟩ := split_traceOf htrace
  exact h.of_split.2.1

/-- The operations before a record are not after it. -/
theorem note_le_of_mem {entry e : Entry interface Nat}
    (h : Justified (Told start) (newer ++ .runner entry :: older)) (he : e ∈ traceOf older) :
    e.note ≤ entry.note := by
  obtain ⟨later, earlier, htrace⟩ := List.append_of_mem he
  obtain ⟨between, past, rfl, -, -⟩ := split_traceOf htrace
  exact clockAfter_le_note newer between h

end

/-! ## Calls that time out -/

/-- Between two worlds a call was made whose deadline is computed after at most one look at the
token, and `source` is the loop's exactly where the timeout does not end before the loop's
deadline. -/
def Charged (turnDeadline timeout : Nat) (w w' : World) (source : DeadlineSource) : Prop :=
  ∃ later e earlier, w'.trace = later ++ e :: earlier ∧
    (earlier = w.trace ∨ ∃ n, earlier = ⟨.isCancelled, n, false⟩ :: w.trace) ∧
    e.op = .effectiveDeadline turnDeadline timeout ∧ (source = .turn ↔ ¬ PortFirst e)

/-- The trace only grows. -/
theorem exec_trace_suffix {α : Type} (p : Action α) (w : World) :
    w.trace <:+ (machine.exec p w).2.trace := by
  refine machine.exec_invariant (J := fun w' : World ↦ w.trace <:+ w'.trace) ?_ p
    (List.suffix_refl _)
  intro o w' hw'
  rcases hstep : machine.step o w' with ⟨r | - | -, w''⟩
  · obtain ⟨n, htrace⟩ := machine.trace_returned hstep
    change w''.trace = _ at htrace
    rw [htrace]
    exact hw'.trans (List.suffix_cons _ _)
  · have htrace : w''.trace = w'.trace := machine.trace_panicked hstep
    rwa [htrace]
  · have htrace : w''.trace = w'.trace := machine.trace_stalled hstep
    rwa [htrace]

/-- What is computed for a call says whose its deadline is. -/
theorem step_effectiveDeadline {turnDeadline timeout : Nat} {deadline : EffectiveDeadline}
    {w w' : World}
    (h : machine.step (.effectiveDeadline turnDeadline timeout) w =
      (.returned (some deadline), w')) :
    ∃ e : Entry interface Nat, w'.trace = e :: w.trace ∧
      e.op = .effectiveDeadline turnDeadline timeout ∧
      (deadline.source = .turn ↔ ¬ PortFirst e) := by
  obtain ⟨turn, rest, -, hanswer, rfl⟩ := World.step_returned h
  let n := (w.advance turn rest (.effectiveDeadline turnDeadline timeout)).clock
  refine ⟨⟨.effectiveDeadline turnDeadline timeout, n, some deadline⟩, ?_, rfl, ?_⟩
  · rw [World.recordEntry_trace, World.effect_trace, World.advance_trace]
  · refine Iff.trans ?_ (setsTurn_iff (World.answer_timely hanswer))
    simp [setsTurn]

/-- A program that blames no other deadline than the one that was computed for it. -/
theorem Charged.of_returns {α : Type} {turnDeadline timeout : Nat} {deadline : EffectiveDeadline}
    {R : α → DeadlineSource → Prop} {w w₁ w₂ w' : World} {p : Action α} {a : α}
    {source : DeadlineSource}
    (hearlier : w₁.trace = w.trace ∨ ∃ n, w₁.trace = ⟨.isCancelled, n, false⟩ :: w.trace)
    (hstep : machine.step (.effectiveDeadline turnDeadline timeout) w₁ =
      (.returned (some deadline), w₂))
    (hp : p.Returns fun a ↦ ∀ source, R a source → source = deadline.source)
    (hexec : machine.exec p w₂ = (.returned a, w')) (hsource : R a source) :
    Charged turnDeadline timeout w w' source := by
  obtain ⟨e, htrace, hop, hcharged⟩ := step_effectiveDeadline hstep
  obtain ⟨later, hlater⟩ := exec_trace_suffix p w₂
  rw [hexec] at hlater
  refine ⟨later, e, w₁.trace, ?_, hearlier, hop, ?_⟩
  · rw [← htrace]
    exact hlater.symm
  · rw [machine.exec_returns hp (congrArg Prod.fst hexec) source hsource]
    exact hcharged

/-- A poll of a port call blames its own deadline. -/
theorem returns_pollPortCall {port : Port} (awaiter : Action Unit) (call : PortCall port)
    (deadline : EffectiveDeadline) :
    (pollPortCall awaiter call deadline).Returns fun x ↦ x.elim (fun _ ↦ True) fun outcome ↦
      ∀ source, outcome = .deadlineExceeded source → source = deadline.source := by
  refine Prog.returns_call_bind fun polled ↦ ?_
  cases polled with
  | cancelled => exact fun source h ↦ absurd h (by simp)
  | expired => exact fun source h ↦ (PortCallOutcome.deadlineExceeded.inj h).symm
  | ready result => exact fun source h ↦ absurd h (by simp)
  | panicked => exact fun source h ↦ absurd h (by simp)
  | pending => exact Prog.returns_bind (Prog.returns_true _) fun _ _ ↦ trivial

/-- A port call that times out counts as the loop's exactly where its timeout does not end before
the deadline that the loop puts on it. -/
theorem charged_runPortCall {port : Port} {awaiter : Action Unit} {turnDeadline timeout : Nat}
    {make : Nat → PortCall port} {w w' : World} {source : DeadlineSource}
    (h : machine.exec (runPortCall awaiter turnDeadline timeout make) w =
      (.returned (.deadlineExceeded source), w')) : Charged turnDeadline timeout w w' source := by
  obtain ⟨cancelled, w₁, hlook, h⟩ := machine.exec_call_bind_returned h
  cases cancelled with
  | true => exact absurd (Outcome.returned.inj (congrArg Prod.fst h)) (by simp)
  | false =>
  obtain ⟨found, w₂, hfound, h⟩ := machine.exec_call_bind_returned h
  cases found with
  | none => exact absurd (Outcome.returned.inj (congrArg Prod.fst h)) (by simp)
  | some deadline =>
  -- The deadline is computed after the one look at the token.
  refine Charged.of_returns (.inr (machine.trace_returned hlook)) hfound
    (R := fun outcome source ↦ outcome = PortCallOutcome.deadlineExceeded source) ?_ h rfl
  refine Prog.returns_call_bind fun now ↦ ?_
  dsimp only
  split
  · exact fun source h ↦ (PortCallOutcome.deadlineExceeded.inj h).symm
  · refine Prog.returns_call_bind fun made ↦ ?_
    split
    · refine Prog.returns_bind (Prog.returns_iterate (fun _ ↦ True) trivial fun _ _ ↦
        returns_pollPortCall awaiter _ deadline) fun outcome houtcome ↦ ?_
      exact Prog.returns_call_bind fun _ ↦ houtcome
    · exact fun source h ↦ absurd h (by simp)

/-! ### Requests of the driver -/

/-- What fails blames no other deadline than this one. -/
def EffectiveDeadline.Blamed {α ε : Type} (deadline : EffectiveDeadline)
    (source? : ε → Option DeadlineSource) (result : Except ε α) : Prop :=
  ∀ failure, result = .error failure → ∀ source, source? failure = some source →
    source = deadline.source

section

variable {α ε : Type} {deadline : EffectiveDeadline} {source? : ε → Option DeadlineSource}

theorem EffectiveDeadline.blamed_ok (a : α) : deadline.Blamed source? (.ok a) :=
  fun _ h ↦ absurd h (by simp)

/-- No deadline is blamed, or this one. -/
theorem EffectiveDeadline.blamed_error {failure : ε}
    (h : source? failure = none ∨ source? failure = some deadline.source) :
    deadline.Blamed source? (.error failure : Except ε α) := by
  rintro _ ⟨⟩ source hsource
  rcases h with h | h
  · exact absurd (h.symm.trans hsource) (by simp)
  · exact Option.some.inj (hsource.symm.trans h)

end

section

variable (deadline : EffectiveDeadline) (awaiter : Action Unit)

theorem returns_precheck : (precheck deadline).Returns
    (deadline.Blamed ModelDriverFailure.deadlineSource) := by
  refine Prog.returns_call_bind fun cancelled ↦ ?_
  split
  · exact EffectiveDeadline.blamed_error (.inl rfl)
  · refine Prog.returns_call_bind fun now ↦ ?_
    split
    · exact EffectiveDeadline.blamed_error (.inr rfl)
    · exact EffectiveDeadline.blamed_ok ()

theorem returns_waitForRetry (delay : Nat) (error : ModelError) :
    (waitForRetry awaiter deadline delay error).Returns
      (deadline.Blamed ModelDriverFailure.deadlineSource) := by
  refine Prog.returns_call_bind fun now ↦ ?_
  split
  · trivial
  · refine Prog.returns_iterate (fun _ ↦ True) trivial fun _ _ ↦ ?_
    refine Prog.returns_call_bind fun polled ↦ ?_
    cases polled with
    | cancelled => exact EffectiveDeadline.blamed_error (.inl rfl)
    | expired => exact EffectiveDeadline.blamed_error (.inr rfl)
    | ready => exact EffectiveDeadline.blamed_ok ()
    | panicked => exact Prog.returns_bind (Prog.returns_true _) fun _ _ ↦ trivial
    | pending => exact Prog.returns_bind (Prog.returns_true _) fun _ _ ↦ trivial

variable [SerdeJson]

theorem returns_runAttempt_blamed (driver : ModelDriver) (request : ModelRequest)
    (context : ModelCallContext) :
    (driver.runAttempt awaiter request context deadline).Returns
      (deadline.Blamed AttemptFailure.deadlineSource) := by
  refine Prog.returns_call_bind fun started ↦ ?_
  split
  · refine Prog.returns_bind (R := deadline.Blamed AttemptFailure.deadlineSource) ?_
      fun stream hstream ↦ ?_
    · -- The wait for the stream: only its deadline is blamed.
      refine Prog.returns_iterate (fun _ ↦ True) trivial fun _ _ ↦ ?_
      refine Prog.returns_call_bind fun polled ↦ ?_
      rcases polled with - | - | (error | ready) | - | -
      · exact EffectiveDeadline.blamed_error (.inl rfl)
      · exact EffectiveDeadline.blamed_error (.inr rfl)
      · exact EffectiveDeadline.blamed_error (.inl rfl)
      · exact EffectiveDeadline.blamed_ok ()
      · exact EffectiveDeadline.blamed_error (.inl rfl)
      · exact Prog.returns_bind (Prog.returns_true _) fun _ _ ↦ trivial
    refine Prog.returns_bind (R := deadline.Blamed AttemptFailure.deadlineSource) ?_
      fun result hresult ↦ Prog.returns_call_bind fun _ ↦ hresult
    cases stream with
    | error failure => exact fun failure' h ↦ hstream failure' (by simpa using h)
    | ok =>
      -- The events of the stream, in the order of the poll.
      refine Prog.returns_iterate (fun _ ↦ True) trivial fun assembler _ ↦ ?_
      refine Prog.returns_call_bind fun polled ↦ ?_
      rcases polled with - | - | (- | (error | event)) | - | -
      · exact EffectiveDeadline.blamed_error (.inl rfl)
      · exact EffectiveDeadline.blamed_error (.inr rfl)
      · dsimp only
        split
        · trivial
        · exact EffectiveDeadline.blamed_ok _
        · exact EffectiveDeadline.blamed_error (.inl rfl)
      · exact EffectiveDeadline.blamed_error (.inl rfl)
      · dsimp only
        split
        · exact EffectiveDeadline.blamed_error (.inl rfl)
        · trivial
        · exact Prog.returns_call_bind fun _ ↦
            Prog.returns_bind (Prog.returns_true _) fun _ _ ↦ trivial
      · exact EffectiveDeadline.blamed_error (.inl rfl)
      · exact Prog.returns_bind (Prog.returns_true _) fun _ _ ↦ trivial
  · exact EffectiveDeadline.blamed_error (.inl rfl)

/-- What follows the deadline of a request blames no other. -/
theorem returns_attemptRound (driver : ModelDriver) (request : ModelRequest)
    (context : ModelCallContext) (attempt : Nat) :
    (driver.attemptRound awaiter request context deadline attempt).Returns fun x ↦
      x.elim (fun _ ↦ True) (deadline.Blamed ModelDriverFailure.deadlineSource) := by
  refine Prog.returns_bind (returns_precheck deadline) fun checked hchecked ↦ ?_
  cases checked with
  | error failure => exact fun failure' h ↦ hchecked failure' (by simpa using h)
  | ok =>
  refine Prog.returns_bind (returns_runAttempt_blamed deadline awaiter driver request context)
    fun result hresult ↦ ?_
  cases result with
  | ok response => exact EffectiveDeadline.blamed_ok response
  | error failure =>
  refine Prog.returns_bind (Prog.returns_true _) fun delay _ ↦ ?_
  -- Without a retry the failure of the attempt is the one reported.
  cases delay with
  | none =>
    rintro _ ⟨⟩ source hsource
    exact hresult failure rfl source hsource
  | some delay =>
  refine Prog.returns_bind (returns_waitForRetry deadline awaiter delay failure.error)
    fun waited hwaited ↦ ?_
  cases waited with
  | ok => trivial
  | error failure => exact fun failure' h ↦ hwaited failure' (by simpa using h)

end

/-- A request that fails because of a deadline: it counts as the loop's exactly where the timeout of
the model call does not end before the deadline that the loop puts on it. -/
theorem charged_runDetailed [SerdeJson] {awaiter : Action Unit} {driver : ModelDriver}
    {request : ModelRequest} {context : ModelCallContext} {w w' : World}
    {failure : ModelDriverFailure} {source : DeadlineSource}
    (h : machine.exec (driver.runDetailed awaiter request context) w =
      (.returned (.error failure), w'))
    (hsource : failure.deadlineSource = some source) :
    Charged context.deadline driver.modelCallTimeout w w' source := by
  obtain ⟨found, w₁, hfound, h⟩ := machine.exec_call_bind_returned h
  cases found with
  | none =>
    obtain rfl : _ = failure := Except.error.inj (Outcome.returned.inj (congrArg Prod.fst h))
    exact absurd hsource (by simp [ModelDriverFailure.ordinary])
  -- Whatever fails from here on blames the deadline that was computed, or none.
  | some deadline =>
  refine Charged.of_returns (.inl rfl) hfound (R := fun result source ↦
    ∃ failure, result = .error failure ∧ failure.deadlineSource = some source) ?_ h
    ⟨failure, rfl, hsource⟩
  refine Prog.returns_mono
    (R := deadline.Blamed ModelDriverFailure.deadlineSource) ?_ fun result hresult source ↦ ?_
  · refine Prog.returns_bind (returns_precheck deadline) fun checked hchecked ↦ ?_
    cases checked with
    | error failure => exact fun failure' h ↦ hchecked failure' (by simpa using h)
    | ok =>
      dsimp only
      split
      · exact EffectiveDeadline.blamed_error (.inl rfl)
      · exact Prog.returns_iterate (fun _ ↦ True) trivial fun attempt _ ↦
          returns_attemptRound deadline awaiter driver request context attempt
  · rintro ⟨failure, hfailure, hsource⟩
    exact hresult failure hfailure source hsource

/-! ## The task -/

/-- The report of a runner that unwound is cancelled by nobody. -/
def NotCancelled (report : LoopReport) : Prop := ∀ reason, report.outcome ≠ .cancelled reason

section

variable {ctx : LoopCtx}

/-- The report that an operation delivers. -/
def Op.delivers? : Op → Option LoopReport
  | .sendReport report => some report
  | _ => none

/-- Operations that deliver nothing, or a report that nobody cancelled, are always allowed. -/
theorem rescue_free {o : Op} (ho : ∀ report, o.delivers? = some report → NotCancelled report) :
    (endMonitor ctx NotCancelled).Free o := by
  intro t
  cases o with
  | sendReport report => exact .inr (ho report rfl)
  | _ => trivial

theorem Op.delivers?_of_plain {o : Op} (h : o.plain = true) : o.delivers? = none := by
  cases o <;> first | rfl | exact absurd h (by simp [Op.plain])

/-- The report of a runner that unwound. -/
theorem rescued_panicReport (id : LoopId) (t : List (Entry interface Nat)) :
    (endMonitor ctx NotCancelled).wp (panicReport id) (.ofReturned fun _ _ ↦ True) t := by
  have hfree : ∀ {o : Op}, o.delivers? = none → (endMonitor ctx NotCancelled).Free o :=
    fun hnone ↦ rescue_free fun report heq ↦ absurd (hnone.symm.trans heq) (by simp)
  refine (endMonitor ctx NotCancelled).wp_bind_of (Q := fun _ _ ↦ True) ?_ ?_
  · refine (endMonitor ctx NotCancelled).wp_free_call (hfree rfl) fun finish t₁ ↦ ?_
    cases finish with
    | cancelledPrior source =>
      exact (endMonitor ctx NotCancelled).wp_free_call (hfree rfl) fun _ t₂ ↦
        (endMonitor ctx NotCancelled).wp_free_call (hfree rfl) fun _ _ ↦ trivial
    | clean => exact (endMonitor ctx NotCancelled).wp_free_call (hfree rfl) fun _ _ ↦ trivial
    | alreadyFinished =>
      exact (endMonitor ctx NotCancelled).wp_free_call (hfree rfl) fun _ _ ↦ trivial
  · rintro ⟨finish, discarded⟩ t₁ -
    -- What is reported here failed.
    have hdeliver : ∀ report : LoopReport, NotCancelled report → (endMonitor ctx NotCancelled).wp
        ((perform (.publishState (.new id .finished 0 ConfigRevision.initial))).bind fun _ ↦
          (perform (.sendReport report)).bind fun _ ↦ (perform .cancelToken).bind fun _ ↦
            (dropConfig discarded).bind fun _ ↦ Prog.pure report)
        (.ofReturned fun _ _ ↦ True) t₁ := by
      intro report hreport
      refine (endMonitor ctx NotCancelled).wp_free_call (hfree rfl) fun _ t₂ ↦ ?_
      refine (endMonitor ctx NotCancelled).wp_free_call (rescue_free ?_) fun _ t₃ ↦ ?_
      · rintro _ ⟨⟩
        exact hreport
      · refine (endMonitor ctx NotCancelled).wp_free_call (hfree rfl) fun _ t₄ ↦ ?_
        exact (endMonitor ctx NotCancelled).wp_free_bind
          (fun o ho ↦ hfree (Op.delivers?_of_plain ho))
          (uses_dropConfig (fun _ ho ↦ ho) discarded) fun _ _ ↦ trivial
    cases finish with
    | clean => exact hdeliver _ fun reason ↦ by simp [failure]
    | cancelledPrior source => exact hdeliver _ fun reason ↦ by simp [failure]
    | alreadyFinished =>
      refine (endMonitor ctx NotCancelled).wp_free_call (hfree rfl) fun published t₂ ↦ ?_
      cases published <;> trivial

/-- A report of the task was decided by the seal, or cancelled by nobody. -/
theorem decided_runLoop [SerdeJson] (ctx : LoopCtx) (request : LoopRequest) :
    (endMonitor ctx NotCancelled).wp (runLoop ctx request) (.ofReturned fun _ _ ↦ True) [] := by
  show (endMonitor ctx NotCancelled).wp (runLoopInner ctx request)
    ⟨fun _ _ ↦ True, fun t ↦ (endMonitor ctx NotCancelled).wp (panicReport ctx.id)
      (.ofReturned fun _ _ ↦ True) t⟩ []
  exact (endMonitor ctx NotCancelled).wp_mono (decided_runLoopInner ctx NotCancelled request)
    (fun _ _ _ ↦ trivial) fun t _ ↦ rescued_panicReport ctx.id t

end

/-! ## Runs -/

/-- A report is cancelled at the deadline only where the loop has one, which had come when the
report was delivered. -/
def AtOwnDeadline (ctx : LoopCtx) (log : List Record) (report : LoopReport) : Prop :=
  report.outcome = .cancelled .deadline →
    ∃ deadline, ctx.options.deadline = some deadline ∧
      ∃ newer n r older, log = newer ++ .runner ⟨.sendReport report, n, r⟩ :: older ∧ deadline ≤ n

/-- A report that was delivered was decided by the seal, or cancelled by nobody. -/
theorem mem_deliveries {log : List Record} {report : LoopReport} (h : report ∈ deliveries log) :
    ∃ newer n r older, log = newer ++ .runner ⟨.sendReport report, n, r⟩ :: older := by
  obtain ⟨e, he, hreport⟩ := List.mem_filterMap.mp (List.mem_reverse.mp h)
  obtain ⟨newer, older, rfl⟩ := List.append_of_mem he
  cases e with
  | host event => exact absurd hreport (by simp [Record.report?])
  | runner entry =>
    obtain ⟨o, n, r⟩ := entry
    cases o with
    | sendReport sent =>
      obtain rfl : sent = report := Option.some.inj hreport
      exact ⟨newer, n, r, older, rfl⟩
    | _ => exact absurd hreport (by simp [Record.report?])

/-- The deadlines of the task's reports and of its calls. In every run in which the timeouts of all
calls end before the deadline that the loop puts on them, or whose loop has a deadline, a report is
cancelled at the deadline only where that is the loop's and has come. What a run computes for a call
is the loop's deadline exactly where the timeout does not end before it; and a call that times out,
in any world, counts as the loop's exactly there. -/
theorem deadline_provenance [SerdeJson] (setup : Setup) (clock : Nat) (schedule : List Turn) :
    let run := setup.task clock schedule
    ((setup.ctx.options.deadline ≠ none ∨ ∀ e ∈ run.2.trace, PortFirst e) →
      ∀ report, run.1 = .returned report ∨ report ∈ deliveries run.2.log →
        AtOwnDeadline setup.ctx run.2.log report) ∧
    (∀ e ∈ run.2.trace, setsTurn e = true ↔ ¬ PortFirst e) ∧
    (∀ (port : Port) (awaiter : Action Unit) (turnDeadline timeout : Nat)
      (make : Nat → PortCall port) (w w' : World) (source : DeadlineSource),
      machine.exec (runPortCall awaiter turnDeadline timeout make) w =
        (.returned (.deadlineExceeded source), w') → Charged turnDeadline timeout w w' source) ∧
    ∀ (driver : ModelDriver) (awaiter : Action Unit) (request : ModelRequest)
      (context : ModelCallContext) (w w' : World) (failure : ModelDriverFailure)
      (source : DeadlineSource),
      machine.exec (driver.runDetailed awaiter request context) w =
        (.returned (.error failure), w') → failure.deadlineSource = some source →
      Charged context.deadline driver.modelCallTimeout w w' source := by
  intro run
  have htold : Justified (Told clock) run.2.log :=
    ((signalled_kept clock).exec (runLoop setup.ctx setup.request) (Signalled.start ..)).told
  have hturn : ∀ e ∈ run.2.trace, setsTurn e = true ↔ ¬ PortFirst e :=
    fun e he ↦ setsTurn_iff (timely_of_mem htold he)
  refine ⟨fun hfirst report hreport houtcome ↦ ?_, hturn,
    fun _ _ _ _ _ _ _ _ h ↦ charged_runPortCall h,
    fun _ _ _ _ _ _ _ _ h hsource ↦ charged_runDetailed h hsource⟩
  have hown : setup.ctx.options.deadline = none → ∀ e ∈ run.2.trace, setsTurn e = false := by
    intro hnone e he
    have hport := hfirst.resolve_left (not_not_intro hnone) e he
    cases hsets : setsTurn e with
    | false => rfl
    | true => exact absurd hport ((hturn e he).mp hsets)
  have hdelivered : report ∈ deliveries run.2.log := by
    rcases hreport with hreturned | hdelivered
    · rw [(task_delivers setup clock schedule).2 report hreturned]
      exact List.mem_singleton_self _
    · exact hdelivered
  obtain ⟨newer, n, r, older, hlog⟩ := mem_deliveries hdelivered
  have haccepts := ((endMonitor setup.ctx NotCancelled).exec_sound machine
    (honours_end setup.ctx _) (runLoop setup.ctx setup.request)
    (w := .start setup.ctx.id setup.ctx.options setup.request.history clock schedule)
    trivial trivial (decided_runLoop setup.ctx setup.request)).2.1
  replace haccepts : (endMonitor setup.ctx NotCancelled).Accepts (traceOf run.2.log) := haccepts
  rw [hlog] at haccepts
  have hallowed := (accepts_at haccepts).2.1
  rw [endMonitor, Monitor.history_run] at hallowed
  rcases hallowed with ⟨finish, past, ⟨-, recent, m, hpast⟩, hdecides⟩ | hrescued
  · have hmem : ∀ e ∈ past, e ∈ traceOf older := fun e he ↦ by
      rw [hpast]
      exact List.mem_append_right _ (List.mem_cons_of_mem _ he)
    -- The seal was clean: a cancellation has another reason.
    have hclean : finish = .clean := by
      cases finish with
      | clean => rfl
      | cancelledPrior source =>
        have hreason := houtcome.symm.trans (hdecides.prior source rfl)
        exact absurd (LoopOutcome.cancelled.inj hreason).symm source.reason_ne_deadline
      | alreadyFinished => exact absurd rfl hdecides.notSealed
    rcases hdecides.deadline hclean houtcome with
      ⟨deadline, hdeadline, e, he, hle⟩ | ⟨hnone, e, he, hsets⟩
    · rw [hlog] at htold
      exact ⟨deadline, hdeadline, newer, n, r, older, hlog,
        hle.trans (note_le_of_mem htold (hmem e he))⟩
    · have he' : e ∈ run.2.trace := by
        show e ∈ traceOf run.2.log
        rw [hlog, traceOf_append]
        exact List.mem_append_right _ (List.mem_cons_of_mem _ (hmem e he))
      rw [hown hnone e he'] at hsets
      exact absurd hsets (by simp)
  · exact absurd houtcome (hrescued _)

namespace Day

/-- Options without a deadline, with a day for each prompt. -/
def options : LoopOptions :=
  ⟨none, 0, 16, fromSecs (24 * 60 * 60), fromSecs 600, fromSecs 30, fromSecs 1800, 2, fromSecs 1,
    .default⟩

/-- The loop. -/
def setup : Setup := { Sample.setup with ctx := ⟨Sample.setup.ctx.id, options⟩ }

/-- The prompt is not prepared within the day. -/
def schedule : List Turn :=
  (List.range 60).map fun i ↦ if i = 13 then { elapsed := fromSecs (24 * 60 * 60) } else {}

end Day

open Day in
/-- A prompt that times out after a day ends a loop that has no deadline as cancelled at its
deadline. -/
theorem deadline_provenance_day : options.validate 0 = true ∧ options.deadline = none ∧
    ∃ report, (setup.task 0 schedule).1 = .returned report ∧
      report.outcome = .cancelled .deadline := by
  have h :
      (setup.task 0 schedule).1.value?.map LoopReport.outcome = some (.cancelled .deadline) := by
    decide +kernel
  obtain ⟨report, hvalue, houtcome⟩ := Option.map_eq_some_iff.mp h
  exact ⟨by decide +kernel, rfl, report, Outcome.value?_eq_some.mp hvalue, houtcome⟩

end MinicoreRuntime
