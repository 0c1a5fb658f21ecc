import MinicoreRuntime.AgentLoop.Provenance

/-!
# The report of a runner that unwound

The task around a runner that unwinds builds its report from nothing: a failure, without items and
at the initial revision. It says what the loop did only where there was nothing to say: no
cancellation returned that it won, no request was issued under an updated configuration, and no
input was taken.

## Main definitions

* `unwoundReport`: the report.
* `KeepsFacts`: a report says what was known where the runner unwound.

## Main results

* `delivers_task`: the task hands back what the runner does, or that report.
* `task_of_unwound`: after the runner unwound the task delivers that report, and no other.
* `panic_fallback`: it keeps the facts exactly where there are none.
-/

namespace MinicoreRuntime

open Interactive

theorem unwoundMessage_valid :
    validText "loop runner panicked".toList BoundedText.maxBytes true = true := by
  decide

/-- The report of a runner that unwound. -/
def unwoundReport (id : LoopId) : LoopReport where
  loopId := id
  outcome := failure .internal .internal .internal "loop runner panicked" unwoundMessage_valid
  appended := []
  usage := .default
  requests := 0
  toolRounds := 0
  finalConfigRevision := ConfigRevision.initial

/-- A report says what was known in the world in which the runner unwound: the cancellation that
returned that it won, the revision of the last request issued, and the inputs that were taken. -/
structure KeepsFacts (id : LoopId) (w : World) (report : LoopReport) : Prop where
  outcome : ∀ source ∈ cancelReturns w.log, report.outcome = .cancelled source.reason
  revision : report.finalConfigRevision = w.control.appliedRevision
  inputs : ((handedOver w.trace).map fun input ↦ HistoryItem.user ⟨id, .steering, input⟩).Sublist
    report.appended

/-- The report keeps the facts exactly where there are none. -/
theorem keepsFacts_unwoundReport (id : LoopId) (w : World) :
    KeepsFacts id w (unwoundReport id) ↔
      cancelReturns w.log = [] ∧ w.control.appliedRevision = ConfigRevision.initial ∧
        handedOver w.trace = [] := by
  constructor
  · rintro ⟨houtcome, hrevision, hinputs⟩
    refine ⟨List.eq_nil_iff_forall_not_mem.mpr fun source hsource ↦ ?_, hrevision.symm, ?_⟩
    · exact absurd (houtcome source hsource) (by simp [unwoundReport, failure])
    · exact List.map_eq_nil_iff.mp (List.sublist_nil.mp hinputs)
  · rintro ⟨hreturns, hrevision, htaken⟩
    refine ⟨fun source hsource ↦ ?_, hrevision.symm, ?_⟩
    · rw [hreturns] at hsource
      exact absurd hsource List.not_mem_nil
    · rw [htaken]
      exact List.Sublist.refl _

/-! ## The task -/

/-- An operation that delivers no other report. -/
def OnlyReports (report : LoopReport) (o : Op) : Prop :=
  ∀ sent, o.delivers? = some sent → sent = report

theorem OnlyReports.of_none {report : LoopReport} {o : Op} (h : o.delivers? = none) :
    OnlyReports report o := fun _ hsent ↦ absurd (h.symm.trans hsent) (by simp)

/-- After a runner unwound its report is the only one delivered. -/
theorem uses_panicReport_only (id : LoopId) :
    (panicReport id).Uses (OnlyReports (unwoundReport id)) := by
  have hnone : ∀ {o : Op}, o.delivers? = none → OnlyReports (unwoundReport id) o :=
    fun h ↦ .of_none h
  refine Prog.uses_bind ?_ fun ⟨finish, discarded⟩ ↦ ?_
  · refine uses_call_bind (hnone rfl) fun finish ↦ ?_
    cases finish with
    | cancelledPrior source =>
      exact uses_call_bind (hnone rfl) fun _ ↦ uses_call_bind (hnone rfl) fun _ ↦ trivial
    | clean => exact uses_call_bind (hnone rfl) fun _ ↦ trivial
    | alreadyFinished => exact uses_call_bind (hnone rfl) fun _ ↦ trivial
  · -- The one report that may be delivered here is made of constants.
    have hdeliver :
        ((perform (.publishState (.new id .finished 0 ConfigRevision.initial))).bind fun _ ↦
        (perform (.sendReport (unwoundReport id))).bind fun _ ↦ (perform .cancelToken).bind fun _ ↦
          (dropConfig discarded).bind fun _ ↦ Prog.pure (unwoundReport id)).Uses
        (OnlyReports (unwoundReport id)) := by
      refine uses_call_bind (hnone rfl) fun _ ↦ uses_call_bind ?_ fun _ ↦ ?_
      · rintro _ ⟨⟩
        rfl
      · refine uses_call_bind (hnone rfl) fun _ ↦ ?_
        exact Prog.uses_bind (uses_dropConfig
          (fun o ho ↦ hnone (Op.delivers?_of_plain ho)) discarded) fun _ ↦ trivial
    cases finish with
    | clean => exact hdeliver
    | cancelledPrior source => exact hdeliver
    | alreadyFinished =>
      refine uses_call_bind (hnone rfl) fun published ↦ ?_
      cases published <;> trivial

theorem deliveries_append (newer older : List Record) :
    deliveries (newer ++ older) = deliveries older ++ deliveries newer := by
  simp [deliveries]

/-- After a runner unwound in the world `w` nothing but its report is delivered. -/
theorem deliveries_panicReport {id : LoopId} {w : World} {report : LoopReport}
    (h : report ∈ deliveries (machine.exec (panicReport id) w).2.log) :
    report ∈ deliveries w.log ∨ report = unwoundReport id := by
  obtain ⟨newer, hlog, hnewer⟩ := World.exec_extends (uses_panicReport_only id) w
  rw [hlog, deliveries_append] at h
  refine (List.mem_append.mp h).imp_right fun hsent ↦ ?_
  obtain ⟨recent, n, r, past, rfl⟩ := mem_deliveries hsent
  have hmem : (⟨.sendReport report, n, r⟩ : Entry interface Nat) ∈
      traceOf (recent ++ .runner ⟨.sendReport report, n, r⟩ :: past) := by
    rw [traceOf_append]
    exact List.mem_append_right _ List.mem_cons_self
  exact hnewer _ hmem report rfl

section

variable [SerdeJson] {setup : Setup} {clock : Nat} {schedule : List Turn} {w : World}

/-- A runner delivers nothing before the seal. -/
theorem deliveries_before_seal (hunwound : setup.run clock schedule = (.panicked, w))
    (hseal : ∀ e ∈ w.trace, e.op ≠ .sealState) : deliveries w.log = [] := by
  refine List.eq_nil_iff_forall_not_mem.mpr fun report hreport ↦ ?_
  obtain ⟨newer, n, r, older, hlog⟩ := mem_deliveries hreport
  have haccepts := ((endMonitor setup.ctx fun _ ↦ False).exec_sound machine
    (honours_end setup.ctx _) (runLoopInner setup.ctx setup.request)
    (w := .start setup.ctx.id setup.ctx.options setup.request.history clock schedule)
    trivial trivial (decided_runLoopInner setup.ctx _ setup.request)).2.1
  replace haccepts :
      (endMonitor setup.ctx fun _ ↦ False).Accepts (traceOf (setup.run clock schedule).2.log) :=
    haccepts
  rw [hunwound, hlog] at haccepts
  have hallowed := (accepts_at haccepts).2.1
  rw [endMonitor, Monitor.history_run] at hallowed
  -- A delivery comes after a seal, and there was none.
  rcases hallowed with ⟨finish, past, ⟨-, recent, m, hpast⟩, -⟩ | hrescued
  · refine hseal ⟨.sealState, m, finish⟩ ?_ rfl
    show _ ∈ traceOf w.log
    rw [hlog, traceOf_append]
    refine List.mem_append_right _ (List.mem_cons_of_mem _ ?_)
    show _ ∈ traceOf older
    rw [hpast]
    exact List.mem_append_right _ List.mem_cons_self
  · exact hrescued

/-- After the runner unwound the task goes on with its report. -/
theorem task_eq_of_unwound (hunwound : setup.run clock schedule = (.panicked, w)) :
    setup.task clock schedule = machine.exec (panicReport setup.ctx.id) w :=
  machine.exec_catchUnwind_panicked hunwound

/-- A run of the task is one of the runner, unless the runner unwinds. -/
theorem task_eq_run_or_unwound (setup : Setup) (clock : Nat) (schedule : List Turn) :
    setup.task clock schedule = setup.run clock schedule ∨
      ∃ w, setup.run clock schedule = (.panicked, w) := by
  rcases hrun : setup.run clock schedule with ⟨report | - | -, w⟩
  · exact .inl (machine.exec_catchUnwind_returned hrun)
  · exact .inr ⟨w, rfl⟩
  · exact .inl (machine.exec_catchUnwind_stalled hrun)

/-- The log of the task goes on after the runner's, with operations that end a loop. -/
theorem task_extends (setup : Setup) (clock : Nat) (schedule : List Turn) :
    World.Extends (fun o ↦ o.plain = true ∨ o.finishes = true)
      (setup.run clock schedule).2 (setup.task clock schedule).2 := by
  rcases task_eq_run_or_unwound setup clock schedule with heq | ⟨w, hunwound⟩
  · exact ⟨[], congrArg (World.log ∘ Prod.snd) heq, by simp [traceOf]⟩
  · rw [task_eq_of_unwound hunwound, hunwound]
    exact World.exec_extends (Traversal.uses_panicReport (fun _ ↦ .inl) (fun _ ho _ ↦ .inr ho) _) w

/-- The task hands back what the runner does, or the report of a runner that unwound. -/
theorem delivers_task {report : LoopReport} (h : Delivers (setup.task clock schedule) report) :
    Delivers (setup.run clock schedule) report ∨ report = unwoundReport setup.ctx.id := by
  rcases task_eq_run_or_unwound setup clock schedule with heq | ⟨w, hunwound⟩
  · exact .inl (heq ▸ h)
  · have hdelivered : report ∈ deliveries (setup.task clock schedule).2.log := by
      rw [deliveries_of_task h]
      exact List.mem_singleton_self _
    rw [task_eq_of_unwound hunwound] at hdelivered
    refine (deliveries_panicReport hdelivered).imp_left fun hbefore ↦ ?_
    -- What was delivered before the runner unwound is in the channel.
    refine delivers_of_deliveries ?_
    rw [hunwound]
    exact hbefore

/-- After the runner unwound before its seal the task delivers that report, and no other. -/
theorem task_of_unwound (hunwound : setup.run clock schedule = (.panicked, w))
    (hseal : ∀ e ∈ w.trace, e.op ≠ .sealState) {report : LoopReport}
    (hreport : (setup.task clock schedule).1 = .returned report ∨
      report ∈ deliveries (setup.task clock schedule).2.log) :
    report = unwoundReport setup.ctx.id := by
  have hdelivered : report ∈ deliveries (setup.task clock schedule).2.log := by
    rcases hreport with hreturned | hdelivered
    · rw [(task_delivers setup clock schedule).2 report hreturned]
      exact List.mem_singleton_self _
    · exact hdelivered
  rw [task_eq_of_unwound hunwound] at hdelivered
  refine (deliveries_panicReport hdelivered).resolve_left fun hbefore ↦ ?_
  rw [deliveries_before_seal hunwound hseal] at hbefore
  exact absurd hbefore List.not_mem_nil

/-- The fallback keeps the facts exactly where there are none: the report of a runner that unwound
before its seal names the cancellation that had returned that it won, the revision of the last
request issued and every input that was taken, in order, if and only if no cancellation had returned
so, that revision is the initial one and no input was taken. -/
theorem panic_fallback (hunwound : setup.run clock schedule = (.panicked, w))
    (hseal : ∀ e ∈ w.trace, e.op ≠ .sealState) {report : LoopReport}
    (hreport : (setup.task clock schedule).1 = .returned report ∨
      report ∈ deliveries (setup.task clock schedule).2.log) :
    KeepsFacts setup.ctx.id w report ↔
      cancelReturns w.log = [] ∧ w.control.appliedRevision = ConfigRevision.initial ∧
        handedOver w.trace = [] := by
  rw [task_of_unwound hunwound hseal hreport]
  exact keepsFacts_unwoundReport setup.ctx.id w

end

namespace Sample

/-- The host's code unwinds where it is asked for inputs. -/
def takePanics : List Turn :=
  (List.range 30).map fun i ↦ if i = 4 then { reply := .unwinds } else {}

/-- A configuration is accepted and an input taken; then, while the stream of the model's answer is
dropped, the user cancels the loop and the destructor unwinds. -/
def dropPanics : List Turn := (List.range 100).map fun i ↦
  if i = 0 then { host := [.update config, .resume 0] }
  else if i = 37 then { host := [.cancel .user, .resume 0], reply := .unwinds }
  else (turns.lookup (i - 1)).getD {}

end Sample

/-- A run that unwound, if the end had not begun. -/
theorem unwound_before_seal (run : Outcome LoopReport × World) (hunwound : run.1.unwound = true)
    (hterminal : (run.2.trace.any fun e ↦ e.op.terminal) = false) :
    run = (.panicked, run.2) ∧ ∀ e ∈ run.2.trace, e.op ≠ .sealState := by
  refine ⟨Prod.ext (Outcome.unwound_eq_true.mp hunwound) rfl, fun e he hseal ↦ ?_⟩
  have h := List.any_eq_false.mp hterminal e he
  rw [hseal] at h
  exact h rfl

/-- Where the first inputs are asked for there is nothing to keep. -/
theorem panic_fallback_take : ∃ w report,
    Sample.setup.run 0 Sample.takePanics = (.panicked, w) ∧
      (Sample.setup.task 0 Sample.takePanics).1 = .returned report ∧
      KeepsFacts Sample.setup.ctx.id w report := by
  obtain ⟨report, hvalue⟩ : ∃ report,
      (Sample.setup.task 0 Sample.takePanics).1.value? = some report :=
    Option.isSome_iff_exists.mp (by decide +kernel)
  have hreturned := Outcome.value?_eq_some.mp hvalue
  obtain ⟨hunwound, hseal⟩ := unwound_before_seal
    (Sample.setup.run 0 Sample.takePanics) (by decide +kernel) (by decide +kernel)
  refine ⟨_, report, hunwound, hreturned, ?_⟩
  refine (panic_fallback hunwound hseal (.inl hreturned)).mpr ⟨?_, ?_, ?_⟩
  · decide +kernel
  · decide +kernel
  · exact List.isEmpty_iff.mp (by decide +kernel)

/-- The destructor of a stream unwinds after a cancellation returned that it won, a request was
issued under an updated configuration and an input was taken. The report says nothing of it. -/
theorem panic_fallback_drop : ∃ w report,
    Sample.setup.run 0 Sample.dropPanics = (.panicked, w) ∧ (∀ e ∈ w.trace, e.op ≠ .sealState) ∧
      (Sample.setup.task 0 Sample.dropPanics).1 = .returned report ∧
      (cancelReturns w.log = [.user] ∧ report.outcome ≠ .cancelled .user) ∧
      (w.control.appliedRevision = 1 ∧ report.finalConfigRevision = 0) ∧
      (handedOver w.trace).length = 1 ∧ report.appended = [] := by
  obtain ⟨report, hvalue, houtcome, hrevision, happended⟩ : ∃ report,
      (Sample.setup.task 0 Sample.dropPanics).1.value? = some report ∧
        report.outcome ≠ .cancelled .user ∧ report.finalConfigRevision = 0 ∧
        report.appended = [] := by
    have h : (Sample.setup.task 0 Sample.dropPanics).1.value?.map (fun report ↦
        (decide (report.outcome = .cancelled .user), report.finalConfigRevision,
          report.appended.isEmpty)) = some (false, 0, true) := by decide +kernel
    obtain ⟨report, hvalue, h⟩ := Option.map_eq_some_iff.mp h
    obtain ⟨houtcome, hrevision, happended⟩ := by simpa using h
    exact ⟨report, hvalue, houtcome, hrevision, happended⟩
  obtain ⟨hunwound, hseal⟩ := unwound_before_seal
    (Sample.setup.run 0 Sample.dropPanics) (by decide +kernel) (by decide +kernel)
  refine ⟨_, report, hunwound, hseal, Outcome.value?_eq_some.mp hvalue, ⟨?_, houtcome⟩,
    ⟨?_, hrevision⟩, ?_, happended⟩
  · decide +kernel
  · decide +kernel
  · decide +kernel

end MinicoreRuntime
