import MinicoreRuntime.AgentLoop.Endings

/-!
# Cancellations and the report

Cancellations by any number of threads, each in two steps, race with the seal of the runner. The
seal is the point at which the race is decided: whatever path the loop of requests ended on, the
report is cancelled by the one cancellation that won before the seal, and by none where none did.

## Main results

* `cancelWins_of_told`: a runner is told of a cancellation only after one won.
* `decided_of_delivers`: the report of a run was decided by its seal.
* `cancel_linearized`: cancellations and the report of every run.
-/

namespace MinicoreRuntime

open Interactive

/-! ## Before the seal -/

/-- The newest cancellation that won is the state of a log in which the end has not begun. -/
theorem runStateAfter_of_ongoing {log : List Record} (h : Ongoing (traceOf log)) :
    runStateAfter log = (cancelWins log).head?.elim .none .cancelled := by
  induction log with
  | nil => rfl
  | cons e older ih =>
    cases e with
    | host event =>
      rw [runStateAfter_host, cancelWins_cons, ih h]
      cases Record.cancelWon? (.host event) <;> rfl
    | runner entry =>
      obtain ⟨hentry, holder⟩ := List.forall_mem_cons.mp h
      rw [runStateAfter_runner, cancelWins_cons, ih holder]
      obtain ⟨o, n, r⟩ := entry
      cases o <;> first | rfl | exact absurd hentry (by simp [Op.terminal])

/-- A cancellation that returned that it won did so. -/
theorem mem_cancelWins_of_returned {log : List Record} (h : Justified Ordered log)
    {source : CancelSource} (hreturned : source ∈ cancelReturns log) : source ∈ cancelWins log := by
  obtain ⟨e, he, hsource⟩ := List.mem_filterMap.mp hreturned
  obtain ⟨newer, older, rfl⟩ := List.append_of_mem he
  unfold Record.cancelReturned? at hsource
  split at hsource
  · obtain rfl := Option.some.inj hsource
    have hexchange := h.of_split
    exact List.mem_filterMap.mpr
      ⟨_, List.mem_append_right _ (List.mem_cons_of_mem _ hexchange), rfl⟩
  · exact absurd hsource (by simp)

section

variable {log : List Record} {source : CancelSource} {clock : Nat}

/-- Before the end only cancellations that returned cancel the token. -/
theorem cancelReturns_of_tokenCancelled (h : Ongoing (traceOf log)) (htoken : TokenCancelled log) :
    ∃ source, source ∈ cancelReturns log := by
  obtain ⟨e, he, hcancels⟩ := htoken
  cases e with
  | runner entry =>
    -- The runner cancels the token only after its report.
    have hentry := h entry (List.mem_filterMap.mpr ⟨_, he, rfl⟩)
    obtain ⟨o, n, r⟩ := entry
    cases o with
    | cancelToken => exact absurd hentry (by simp [Op.terminal])
    | _ => exact absurd hcancels (by simp [Record.cancelsToken])
  | host event =>
    cases event with
    | cancelReturned call source result =>
      obtain rfl : result = true := hcancels
      exact ⟨source, List.mem_filterMap.mpr ⟨_, he, rfl⟩⟩
    | _ => exact absurd hcancels (by simp [Record.cancelsToken])

/-- A runner is told of a cancellation only after one won. -/
theorem cancelWins_of_told (hordered : Justified Ordered log) (htold : Justified (Told clock) log)
    (h : Ongoing (traceOf log)) {e : Entry interface Nat} (he : e ∈ traceOf log)
    (htells : tellsCancelled e = true) : cancelWins log ≠ [] := by
  obtain ⟨later, earlier, htrace⟩ := List.append_of_mem he
  obtain ⟨newer, older, rfl, rfl, rfl⟩ := split_traceOf htrace
  have holder : Ongoing (traceOf older) := by
    intro e' he'
    refine h e' ?_
    rw [htrace]
    exact List.mem_append_right _ (List.mem_cons_of_mem _ he')
  -- What tells the runner so is true of the token.
  have htoken : TokenCancelled older := by
    have htells' := htold.of_split.2.2
    unfold tellsCancelled at htells
    split at htells
    · exact htells'.mp rfl
    · exact htells' rfl
    · exact htells' rfl
    · exact absurd htells (by simp)
  obtain ⟨source, hsource⟩ := cancelReturns_of_tokenCancelled holder htoken
  have hwon := mem_cancelWins_of_returned (hordered.past.1) hsource
  rw [cancelWins_append, cancelWins_cons]
  exact List.ne_nil_of_mem (List.mem_append_right _ (List.mem_append_right _ hwon))

/-- A cancellation that wins is the only one. -/
theorem cancelWins_eq_singleton (h : Justified Ordered log) (hwon : source ∈ cancelWins log) :
    cancelWins log = [source] := by
  obtain ⟨only, honly⟩ := List.length_eq_one_iff.mp
    (Nat.le_antisymm (cancelWins_of_ordered h).2 (List.length_pos_of_mem hwon))
  rw [honly] at hwon ⊢
  rw [List.mem_singleton.mp hwon]

/-- A cancellation that won has returned so, or its call is under way. -/
theorem Exchanged.returned_or_cancelling {w : World} (h : Exchanged w)
    (hwon : source ∈ cancelWins w.log) :
    source ∈ cancelReturns w.log ∨ ∃ call, .cancelling call source ∈ w.calls := by
  have honly := cancelWins_eq_singleton h.ordered hwon
  have hreturned := h.returned
  rw [honly, List.length_singleton] at hreturned
  rcases List.eq_nil_or_concat (w.calls.filterMap HostCall.cancelling?) with
    hnone | ⟨_, found, hfound⟩
  · -- No call is under way, so that the winner returned.
    have hone : (cancelReturns w.log).length = 1 := by
      rw [hnone] at hreturned
      simpa using hreturned
    obtain ⟨found, hfound⟩ := List.exists_mem_of_length_pos
      (Nat.lt_of_lt_of_eq Nat.zero_lt_one hone.symm)
    have hmem := mem_cancelWins_of_returned h.ordered hfound
    rw [honly, List.mem_singleton] at hmem
    exact .inl (hmem ▸ hfound)
  · have hmem : found ∈ w.calls.filterMap HostCall.cancelling? := by simp [hfound]
    obtain ⟨c, hc, hcancelling⟩ := List.mem_filterMap.mp hmem
    cases c with
    | updating config => exact absurd hcancelling (by simp [HostCall.cancelling?])
    | cancelling call winner =>
      obtain rfl : winner = found := Option.some.inj hcancelling
      have hwins : winner ∈ cancelWins w.log :=
        List.mem_filterMap.mpr ⟨_, h.cancelling call winner hc, rfl⟩
      rw [honly, List.mem_singleton] at hwins
      exact .inr ⟨call, hwins ▸ hc⟩

/-! ## The seal -/

variable {newer older : List Record} {n : Nat} {finish : FinishSeal}

/-- No cancellation wins after the seal. -/
theorem cancelWins_of_seal
    (h : Justified Ordered (newer ++ .runner ⟨.sealState, n, finish⟩ :: older)) :
    cancelWins newer = [] :=
  cancelWins_of_ne_none h (runStateAfter_seal h.of_split)

/-- The seal decides the outcome: it is cancelled by the cancellation that won before, if one did.
-/
theorem Decides.outcome_iff {ctx : LoopCtx} {outcome : LoopOutcome}
    (hdecides : Decides ctx finish (traceOf older) outcome) (hongoing : Ongoing (traceOf older))
    (hordered : Justified Ordered older) (htold : Justified (Told clock) older)
    (hseal : finish = (runStateAfter older).seal) :
    outcome = .cancelled source.reason ↔ source ∈ cancelWins older := by
  rw [runStateAfter_of_ongoing hongoing] at hseal
  cases hwins : cancelWins older with
  | nil =>
    -- A clean seal, and what is reported as cancelled was told so.
    rw [hwins] at hseal
    refine ⟨fun houtcome ↦ ?_, fun hmem ↦ absurd hmem List.not_mem_nil⟩
    obtain ⟨e, he, htells⟩ := hdecides.cancelled hseal source houtcome
    exact absurd hwins (cancelWins_of_told hordered htold hongoing he htells)
  | cons winner rest =>
    rw [hwins] at hseal
    have houtcome := hdecides.prior winner hseal
    have honly := cancelWins_eq_singleton hordered (hwins ▸ List.mem_cons_self)
    rw [← hwins, honly, List.mem_singleton, houtcome]
    refine ⟨fun heq ↦ ?_, fun heq ↦ by rw [heq]⟩
    exact (CancelSource.reason_injective (LoopOutcome.cancelled.inj heq)).symm

end

/-! ## Runs -/

section

variable [SerdeJson] (setup : Setup) (clock : Nat) (schedule : List Turn)

/-- The report of a run was decided by its seal. -/
theorem decided_of_delivers {report : LoopReport}
    (h : Delivers (setup.run clock schedule) report) :
    ∃ newer n finish older,
      (setup.run clock schedule).2.log = newer ++ .runner ⟨.sealState, n, finish⟩ :: older ∧
      Ongoing (traceOf older) ∧ Decides setup.ctx finish (traceOf older) report.outcome := by
  obtain ⟨-, -, hdelivered⟩ := conforms setup clock schedule
  obtain ⟨after, n, r, past, htrace⟩ := delivered_at (hdelivered report h)
  have hrun := (endMonitor setup.ctx fun _ ↦ False).exec_sound machine (honours_end setup.ctx _)
    (runLoopInner setup.ctx setup.request)
    (w := .start setup.ctx.id setup.ctx.options setup.request.history clock schedule)
    trivial trivial (decided_runLoopInner setup.ctx _ setup.request)
  have haccepts : (endMonitor setup.ctx fun _ ↦ False).Accepts (setup.run clock schedule).2.trace :=
    hrun.2.1
  rw [htrace] at haccepts
  have hallowed := haccepts.of_split.2.1
  rw [endMonitor, Monitor.history_run] at hallowed
  -- The delivery follows a seal of the runner, or of a rescue that this run does not have.
  rcases hallowed with ⟨finish, older, ⟨hongoing, newer, m, rfl⟩, hdecides⟩ | hrescued
  · have hsplit : traceOf (setup.run clock schedule).2.log =
        (after ++ ⟨.sendReport report, n, r⟩ :: newer) ++ ⟨.sealState, m, finish⟩ :: older := by
      rw [List.append_assoc, List.cons_append]
      exact htrace
    obtain ⟨recent, past, hlog, -, rfl⟩ := split_traceOf hsplit
    exact ⟨recent, m, finish, past, hlog, hongoing, hdecides⟩
  · exact absurd hrescued id

/-- Cancellations and the report of every run, after any further steps of other threads: at most one
cancellation returns that it won. If one does, the report is cancelled with its reason, whatever
path the loop of requests ended on; and a report with such a reason is that of a cancellation that
returned so, or that is about to. The loop of requests ends as cancelled only after a cancellation
won. After the seal none wins, so that those that return so won before it. -/
theorem cancel_linearized (steps : List HostStep) :
    let run := setup.run clock schedule
    let w := run.2.hostSteps steps
    (cancelReturns w.log).length ≤ 1 ∧
    (∀ report, Delivers run report → ∀ source : CancelSource,
      (source ∈ cancelReturns w.log → report.outcome = .cancelled source.reason) ∧
      (report.outcome = .cancelled source.reason →
        source ∈ cancelReturns w.log ∨ ∃ call, .cancelling call source ∈ w.calls)) ∧
    (∀ ending w', machine.exec (requestLoop setup.ctx setup.request)
        (.start setup.ctx.id setup.ctx.options setup.request.history clock schedule) =
          (.returned ending, w') →
      ending.path = .cancelled → cancelWins w'.log ≠ []) ∧
    ∀ newer n finish older, w.log = newer ++ .runner ⟨.sealState, n, finish⟩ :: older →
      (∀ call source won, .host (.casCancel call source won) ∈ newer → won = false) ∧
      ∀ call source, .host (.cancelReturned call source true) ∈ w.log →
        .host (.casCancel call source true) ∈ older := by
  intro run w
  have hstart := Exchanged.start setup.ctx.id setup.ctx.options setup.request.history clock schedule
  have hrun : Exchanged run.2 := exchanged_kept.exec _ hstart
  have hw : Exchanged w := exchanged_kept.hostSteps hrun steps
  have htold : Signalled clock run.2 := (signalled_kept clock).exec _ (Signalled.start ..)
  refine ⟨hw.returns_le, fun report hreport source ↦ ?_, ?_, ?_⟩
  · obtain ⟨newer, n, finish, older, hlog, hongoing, hdecides⟩ :=
      decided_of_delivers setup clock schedule hreport
    -- The further steps add to the log of the run, so that the seal stays where it is.
    obtain ⟨events, hevents⟩ := run.2.hostSteps_log steps
    have hsplit : w.log =
        (events.map Record.host ++ newer) ++ .runner ⟨.sealState, n, finish⟩ :: older := by
      rw [List.append_assoc, ← hlog]
      exact hevents
    have hordered := hw.ordered
    rw [hsplit] at hordered
    have hpast : Justified (Told clock) older := by
      have h := htold.told
      rw [hlog] at h
      exact h.past.1
    have hwins : cancelWins w.log = cancelWins older := by
      rw [hsplit, cancelWins_append, cancelWins_of_seal hordered]
      rfl
    have hiff : report.outcome = .cancelled source.reason ↔ source ∈ cancelWins older :=
      hdecides.outcome_iff hongoing hordered.past.1 hpast hordered.of_split
    rw [← hwins] at hiff
    exact ⟨fun hmem ↦ hiff.mpr (mem_cancelWins_of_returned hw.ordered hmem),
      fun houtcome ↦ hw.returned_or_cancelling (hiff.mp houtcome)⟩
  · intro ending w' hexec hpath
    have hends := (endMonitor setup.ctx fun _ ↦ False).exec_sound machine (honours_end setup.ctx _)
      (requestLoop setup.ctx setup.request)
      (w := .start setup.ctx.id setup.ctx.options setup.request.history clock schedule)
      trivial trivial (knows_requestLoop setup.ctx _ setup.request)
    have hordered := exchanged_kept.exec (requestLoop setup.ctx setup.request) hstart
    have hsignalled := (signalled_kept clock).exec (requestLoop setup.ctx setup.request)
      (Signalled.start setup.ctx.id setup.ctx.options setup.request.history clock schedule)
    rw [hexec] at hends hordered hsignalled
    -- What the path tells is about the trace, which is the history of this monitor.
    have hstate : (endMonitor setup.ctx fun _ ↦ False).run (traceOf w'.log) = traceOf w'.log :=
      Monitor.history_run _ _ _
    have hknows : Knows setup.ctx ending.path (traceOf w'.log) := by
      rw [← hstate]
      exact Monitor.Establishes.of_returned _ _ hends rfl
    obtain ⟨e, he, htells⟩ := hknows.cancelled hpath
    exact cancelWins_of_told hordered.ordered hsignalled.told hknows.ongoing he htells
  · intro newer n finish older hlog
    have hordered := hw.ordered
    rw [hlog] at hordered
    have hnone := cancelWins_of_seal hordered
    have hlost : ∀ call source won, .host (.casCancel call source won) ∈ newer → won = false := by
      intro call source won hmem
      cases won with
      | false => rfl
      | true =>
        have hwins : source ∈ cancelWins newer := List.mem_filterMap.mpr ⟨_, hmem, rfl⟩
        rw [hnone] at hwins
        exact absurd hwins List.not_mem_nil
    refine ⟨hlost, fun call source hreturned ↦ ?_⟩
    -- A call returns after its exchange, and no exchange after the seal was won.
    obtain ⟨later, earlier, hat⟩ := List.append_of_mem hreturned
    have hexchange : .host (.casCancel call source true) ∈ w.log := by
      have h := hw.ordered
      rw [hat] at h ⊢
      exact List.mem_append_right _ (List.mem_cons_of_mem _ h.of_split)
    rw [hlog] at hexchange
    rcases List.mem_append.mp hexchange with hmem | hmem
    · exact absurd (hlost call source true hmem) (by simp)
    · exact (List.mem_cons.mp hmem).resolve_left (by simp)

end

/-- The sample is cancelled by its user, who is told so. -/
theorem cancel_linearized_sample : ∃ report,
    (Sample.setup.run 0 Sample.schedule).1 = .returned report ∧
      cancelReturns (Sample.setup.run 0 Sample.schedule).2.log = [.user] ∧
      report.outcome = .cancelled .user := by
  obtain ⟨report, hreturned, -⟩ := Sample.returns
  have hreturns : cancelReturns (Sample.setup.run 0 Sample.schedule).2.log = [.user] := by
    decide +kernel
  have hnone : ∀ w : World, w.hostSteps [] = w := fun _ ↦ rfl
  obtain ⟨-, hreport, -⟩ := cancel_linearized Sample.setup 0 Sample.schedule []
  refine ⟨report, hreturned, hreturns, (hreport report (.inl hreturned) .user).1 ?_⟩
  rw [hnone, hreturns]
  exact List.mem_singleton_self _

end MinicoreRuntime
