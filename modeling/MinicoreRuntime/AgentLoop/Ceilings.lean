import MinicoreRuntime.AgentLoop.Expenses
import MinicoreRuntime.AgentLoop.Fallback
import MinicoreRuntime.AgentLoop.Freshness
import MinicoreRuntime.AgentLoop.Start

/-!
# Ceilings

A loop that was started keeps its ceilings in every run. The start checks the prompt and the first
configuration, and an update is checked before it is accepted; so that the tools of every request
are within the limits. The items that are appended are: responses because the assembler enforces
them, and results because they are cut. So that no policy and no tool is handed arguments that are
too large.

## Main definitions

* `ToolSpec.Fits`: a specification is within the limits.
* `KeepsCeilings`: what a loop keeps.

## Main results

* `config_fits`, `issued_fits`: the configurations of sessions and of requests are within the
  limits.
* `ceilings_kept`: every run of a loop that was started keeps its ceilings.
-/

namespace MinicoreRuntime

open Interactive

/-! ## Configurations -/

/-- A specification is within the limits of a loop. -/
def ToolSpec.Fits (limits : LoopLimits) (spec : ToolSpec) : Prop :=
  spec.validateForBindings limits.maxToolNameBytes limits.maxToolSchemaBytes = .ok ()

theorem ExecutionConfig.Fits.specs {limits : LoopLimits} {config : ExecutionConfig}
    (h : config.Fits limits) : ∀ spec ∈ config.tools.specs, spec.Fits limits := by
  unfold Fits validateAgainstLimits at h
  split at h
  · rename_i hall
    intro spec hspec
    have hvalid := List.all_eq_true.mp hall spec hspec
    unfold ToolSpec.Fits
    cases hbindings : spec.validateForBindings limits.maxToolNameBytes
      limits.maxToolSchemaBytes with
    | ok => rfl
    | error e => simp [hbindings, Except.toBool] at hvalid
  · simp at h

section

variable {setup : Setup} {limits : LoopLimits} {log : List Record}

/-- The newest configuration of a log is within the limits. -/
theorem newestIn_fits (hexplained : Justified (Explained limits) log)
    (hinitial : setup.request.config.Fits limits) : (newestIn setup log).config.Fits limits := by
  cases hlog : accepted log with
  | nil =>
    rw [newestIn, hlog]
    exact hinitial
  | cons p rest =>
    rw [newestIn, hlog]
    exact accepted_fits hexplained p (hlog ▸ List.mem_cons_self)

/-- The configuration of a session is within the limits. -/
theorem config_fits (hsession : (sessionMonitor setup).Accepts (traceOf log))
    (hexplained : Justified (Explained limits) log)
    (hinitial : setup.request.config.Fits limits) :
    (Session.config ((sessionMonitor setup).run (traceOf log))).Fits limits := by
  have htaken : (newestIn setup ((takenAt log).getD [])).config =
      Session.config ((sessionMonitor setup).run (traceOf log)) :=
    congrArg PendingConfig.config (current hsession hexplained).taken
  rw [← htaken]
  refine newestIn_fits ?_ hinitial
  cases hbefore : takenAt log with
  | none => trivial
  | some before =>
    obtain ⟨newer, rfl⟩ := suffix_of_takenAt hbefore
    exact hexplained.past

/-- So are the configurations of requests. -/
theorem issued_fits (hsession : (sessionMonitor setup).Accepts (traceOf log))
    (hexplained : Justified (Explained limits) log)
    (hinitial : setup.request.config.Fits limits) (issue : Issue)
    (hissue : Phase.basis? (Session.phase ((sessionMonitor setup).run (traceOf log))) =
      some (.issued issue)) : issue.config.Fits limits := by
  induction log with
  | nil => exact absurd hissue (by simp [sessionMonitor, traceOf, Session.init, Phase.basis?])
  | cons e older ih =>
    cases e with
    | host event => exact ih hsession hexplained.1 hissue
    | runner entry =>
      obtain ⟨o, n, r⟩ := entry
      obtain ⟨hpast, hpermits, -⟩ := hsession
      have hpastIssue := ih hpast hexplained.1
      let s : Session := (sessionMonitor setup).run (traceOf older)
      have hconfig : s.config.Fits limits := config_fits hpast hexplained.1 hinitial
      have hnext : (s.next o n r).phase.basis? = some (.issued issue) := hissue
      cases hissues : o.issues with
      | true =>
        cases o with
        | commitRevision revision =>
          obtain ⟨-, -, -, request, messages, hphase, -⟩ := hpermits
          -- The request is issued with the configuration of the session.
          have hphase' : s.phase = .prepared s.config.prompt request messages := hphase
          simp only [Session.next, hphase', Phase.basis?, Option.some.injEq, Basis.issued.injEq]
            at hnext
          exact hnext ▸ hconfig
        | _ => exact absurd hissues (by simp [Op.issues])
      | false =>
        cases hprepares : o.prepares r with
        | false =>
          rcases s.basis?_next hissues hprepares with hnone | hsame
          · exact absurd (hnone.symm.trans hnext) (by simp)
          · exact hpastIssue (hsame.symm.trans hnext)
        | true =>
          unfold Op.prepares at hprepares
          split at hprepares
          · exact absurd hnext (by simp [Session.next, Session.afterReady, Phase.basis?])
          · exact absurd hprepares (by simp)

end

/-! ## Items -/

/-- The prompt of a loop is what it was started with. -/
theorem prompt_recorded {setup : Setup} {trace : List (Entry interface Nat)}
    (h : (sessionMonitor setup).Accepts trace) {id : LoopId} {input : UserInput}
    (hitem : .user ⟨id, .prompt, input⟩ ∈ appendedItems trace) : input = setup.request.input := by
  induction trace with
  | nil => exact absurd hitem (by simp [appendedItems])
  | cons entry past ih =>
    obtain ⟨o, n, r⟩ := entry
    obtain ⟨hpast, hpermits, -⟩ := h
    cases o with
    | append item =>
      rcases List.mem_append.mp hitem with hmem | hmem
      · exact ih hpast hmem
      · obtain rfl := List.mem_singleton.mp hmem
        exact hpermits.2.2
    | _ => exact ih hpast hitem

/-- The operations that end a loop append nothing. -/
theorem appendedItems_ending {newer older : List (Entry interface Nat)}
    (h : ∀ e ∈ newer, e.op.plain = true ∨ e.op.finishes = true) :
    appendedItems (newer ++ older) = appendedItems older := by
  induction newer with
  | nil => rfl
  | cons entry newer ih =>
    have hrest := ih fun e he ↦ h e (List.mem_cons_of_mem _ he)
    have hends := h entry List.mem_cons_self
    obtain ⟨o, n, r⟩ := entry
    cases o with
    | append item => exact absurd hends (by simp [Op.plain, Op.finishes])
    | _ => exact hrest

/-- What was appended stays appended. -/
theorem appendedItems_suffix {item : HistoryItem} {newer older : List (Entry interface Nat)}
    (h : item ∈ appendedItems older) : item ∈ appendedItems (newer ++ older) := by
  induction newer with
  | nil => exact h
  | cons entry newer ih =>
    obtain ⟨o, n, r⟩ := entry
    cases o with
    | append new => exact List.mem_append_left _ ih
    | _ => exact ih

/-- The arguments a port is called with. -/
def PortCall.arguments? : {port : Port} → PortCall port → Option Json
  | _, .prepare _ _ => none
  | _, .decide _ invocation _ _ => some invocation.arguments
  | _, .execute _ invocation _ => some invocation.arguments

/-- The tool call whose turn it is belongs to a response that was appended. -/
theorem calling_recorded {setup : Setup} {s : Session} (h : s.Shaped setup) {c : Calling}
    (hc : s.phase = .calling c) :
    ∃ item, .assistant item ∈ s.working.appended ∧ c.call ∈ toolCalls item.content := by
  unfold Session.Shaped at h
  rw [hc] at h
  obtain ⟨rounds, tail, item, done, results, -, -, -, -, hcalls, -, happended⟩ := h
  refine ⟨item, ?_, ?_⟩
  · rw [happended]
    exact List.mem_append_right _ List.mem_cons_self
  · rw [hcalls]
    exact List.mem_append_right _ List.mem_cons_self

/-- The arguments of a call in an item within the limits are within the limits. -/
theorem arguments_within {limits : LoopLimits} {item : AssistantHistory}
    (h : (HistoryItem.assistant item).within limits = true) {call : ToolCall}
    (hcall : call ∈ toolCalls item.content) :
    validateJsonSize call.arguments limits.maxToolArgumentsBytes = .ok () := by
  obtain ⟨part, hpart, hcalls⟩ := List.mem_filterMap.mp hcall
  obtain rfl : part = .toolCall call := by
    cases part with
    | toolCall call' => exact congrArg AssistantPart.toolCall (Option.some.inj hcalls)
    | _ => exact absurd hcalls (by simp [AssistantPart.asToolCall])
  simp only [HistoryItem.within, Bool.and_eq_true, List.all_eq_true] at h
  have hwithin := h.1 _ hpart
  cases hsize : validateJsonSize call.arguments limits.maxToolArgumentsBytes with
  | ok => rfl
  | error e => simp [AssistantPart.within, hsize, Except.toBool] at hwithin

/-! ## Runs -/

/-- What a loop keeps of its ceilings in a log. -/
structure KeepsCeilings (limits : LoopLimits) (log : List Record) : Prop where
  /-- The prompt is not empty and not too long. -/
  prompt : ∀ id input, .user ⟨id, .prompt, input⟩ ∈ appendedItems (traceOf log) →
    input.asText ≠ [] ∧ byteLen input.asText ≤ limits.maxUserInputBytes
  /-- Responses and results are within the limits. -/
  items : ∀ item ∈ appendedItems (traceOf log), item.within limits = true
  /-- A model is offered tools within the limits. -/
  requests : ∀ model request context n r,
    .runner ⟨.startModel model request context, n, r⟩ ∈ log →
      ∀ spec ∈ request.tools, spec.Fits limits
  /-- A policy and a tool are handed arguments within the limits. -/
  calls : ∀ (port : Port) (call : PortCall port) n r,
    .runner ⟨.makeFuture call, n, r⟩ ∈ log → ∀ arguments ∈ call.arguments?,
      validateJsonSize arguments limits.maxToolArgumentsBytes = .ok ()

/-- Every item that is appended is within the limits. -/
theorem items_within [SerdeJson] (setup : Setup) (hstarted : setup.ctx.options.Started)
    (clock : Nat) (schedule : List Turn) :
    ∀ item ∈ appendedItems (traceOf (setup.task clock schedule).2.log),
      item.within setup.ctx.options.limits = true := by
  have hle := task_pays setup hstarted clock schedule .excess
  have hgranted : ∀ trace : List (Entry interface Nat),
      (trace.map fun entry ↦ entry.op.grant setup.ctx.options entry.answer .excess).sum = 0 := by
    intro trace
    show (trace.map fun _ ↦ (0 : Nat)).sum = 0
    simp
  rw [hgranted] at hle
  -- Nothing was granted above a ceiling, so that nothing was spent on it.
  have hspent : costIn setup.ctx.options.limits (setup.task clock schedule).2.log .excess = 0 :=
    Nat.le_zero.mp hle
  rw [costIn, cost_appendedItems] at hspent
  · intro item hitem
    have hwithin : (!item.within setup.ctx.options.limits).toNat = 0 :=
      List.sum_eq_zero_iff_forall_eq_nat.mp hspent _ (List.mem_map_of_mem hitem)
    cases hitem' : item.within setup.ctx.options.limits with
    | true => rfl
    | false => simp [hitem'] at hwithin
  · intro o ho
    cases o with
    | append item => exact absurd rfl (ho item)
    | @makeFuture port call => cases port <;> rfl
    | _ => rfl

/-- What the operations that end a loop add to a log keeps the ceilings. -/
theorem KeepsCeilings.extend {limits : LoopLimits} {newer older : List Record}
    (h : KeepsCeilings limits older)
    (hnewer : ∀ e ∈ traceOf newer, e.op.plain = true ∨ e.op.finishes = true) :
    KeepsCeilings limits (newer ++ older) := by
  have hitems : appendedItems (traceOf (newer ++ older)) = appendedItems (traceOf older) := by
    rw [traceOf_append, appendedItems_ending hnewer]
  -- They start no model and call no port.
  have hold {e : Entry interface Nat} (hmem : .runner e ∈ newer ++ older)
      (he : ¬ (e.op.plain = true ∨ e.op.finishes = true)) : .runner e ∈ older := by
    refine (List.mem_append.mp hmem).resolve_left fun hnew ↦ he (hnewer e ?_)
    exact List.mem_filterMap.mpr ⟨_, hnew, rfl⟩
  refine ⟨?_, ?_, ?_, ?_⟩
  · rw [hitems]
    exact h.prompt
  · rw [hitems]
    exact h.items
  · intro model request context n r hmem
    exact h.requests model request context n r (hold hmem (by simp [Op.plain, Op.finishes]))
  · intro port call n r hmem
    exact h.calls port call n r (hold hmem (by simp [Op.plain, Op.finishes]))

section

variable [SerdeJson] {found : Surroundings} {request : LoopRequest} {options : LoopOptions}
  {setup : Setup} {clock : Nat} {schedule : List Turn}

/-- The runner of a loop that was started keeps its ceilings, and so does what it reports. -/
theorem ceilings_of_run (hstart : AgentLoop.start found request options = some (.ok setup))
    (hitems : ∀ item ∈ appendedItems (traceOf (setup.run clock schedule).2.log),
      item.within options.limits = true) :
    KeepsCeilings options.limits (setup.run clock schedule).2.log ∧
      ∀ report, Delivers (setup.run clock schedule) report →
        ∀ item ∈ report.appended, item.within options.limits = true := by
  obtain ⟨rfl, rfl, hchecked, -, -⟩ := AgentLoop.start_eq_ok.mp hstart
  have hsession : (sessionMonitor setup).Accepts (traceOf (setup.run clock schedule).2.log) :=
    (conforms setup clock schedule).2.1
  have hdescribed : Describes setup.ctx.options.limits (setup.run clock schedule).2 :=
    (describes_kept setup.ctx.options.limits).exec (runLoopInner setup.ctx setup.request)
      (.start _ _ _ _ _)
  -- What an operation of the run finds: an accepted past, its own guard, explained inputs.
  have hat {newer older : List Record} {e : Entry interface Nat}
      (h : (setup.run clock schedule).2.log = newer ++ .runner e :: older) :
      (sessionMonitor setup).Accepts (traceOf older) ∧
        Session.Permits setup ((sessionMonitor setup).run (traceOf older)) e.op ∧
        Justified (Explained setup.ctx.options.limits) older := by
    have hexplained := hdescribed.explained
    have haccepts := hsession
    rw [h] at hexplained haccepts
    obtain ⟨hpast, hallowed, -⟩ := accepts_at haccepts
    exact ⟨hpast, hallowed, hexplained.past.1⟩
  -- What the working history held then is in the trace.
  have hpast {item : HistoryItem} {newer older : List Record} {e : Entry interface Nat}
      (h : (setup.run clock schedule).2.log = newer ++ .runner e :: older)
      (hitem : item ∈ WorkingHistory.appended
        (Session.working ((sessionMonitor setup).run (traceOf older)))) :
      item.within setup.ctx.options.limits = true := by
    rw [(session_run setup (traceOf older)).2.2.1] at hitem
    have hnow : item ∈ appendedItems ([e] ++ traceOf older) := appendedItems_suffix hitem
    refine hitems item ?_
    rw [h, traceOf_append]
    exact appendedItems_suffix hnow
  refine ⟨⟨?_, hitems, ?_, ?_⟩, ?_⟩
  · -- The prompt was checked at the start.
    intro id input hitem
    obtain rfl := prompt_recorded hsession hitem
    exact ⟨hchecked.nonempty, hchecked.input⟩
  · -- The catalogue of a request is the one of an accepted configuration.
    intro model request context n r hmem
    obtain ⟨newer, older, hlog⟩ := List.append_of_mem hmem
    obtain ⟨haccepts, ⟨issue, hphase, -, hrequest, -⟩, hexplained⟩ := hat hlog
    have hfits := issued_fits haccepts hexplained hchecked.config issue (by rw [hphase]; rfl)
    rw [hrequest]
    exact hfits.specs
  · -- The arguments a port sees are those of a call that was recorded.
    intro port call n r hmem arguments harguments
    obtain ⟨newer, older, hlog⟩ := List.append_of_mem hmem
    obtain ⟨haccepts, hpermits, -⟩ := hat hlog
    obtain ⟨c, hc, rfl⟩ : ∃ c, Session.phase ((sessionMonitor setup).run (traceOf older)) =
        .calling c ∧ arguments = c.call.arguments := by
      cases call with
      | prepare provider request => exact absurd harguments (by simp [PortCall.arguments?])
      | decide policy invocation spec deadline =>
        obtain ⟨c, enabled, hc, -, rfl, -⟩ := hpermits
        exact ⟨c, hc, (Option.some.inj harguments).symm⟩
      | execute tool invocation deadline =>
        obtain ⟨c, enabled, hc, -, rfl, -⟩ := hpermits
        exact ⟨c, hc, (Option.some.inj harguments).symm⟩
    obtain ⟨item, hitem, hcall⟩ := calling_recorded (reported_of_accepts haccepts).shaped hc
    exact arguments_within (hpast hlog hitem) hcall
  · -- A report appends what the working history held.
    intro report hreport item hitem
    obtain ⟨newer, n, r, older, hlog⟩ :=
      delivered_at ((conforms setup clock schedule).2.2 report hreport)
    obtain ⟨recent, past, hsplit, -, rfl⟩ := split_traceOf hlog
    obtain ⟨-, ⟨-, happended⟩, -⟩ := hat hsplit
    exact hpast hsplit (happended ▸ hitem)

end

/-- A loop that was started keeps its ceilings in every run of its task, whatever the host, the
model, the policy and the tools do, and also where the runner unwinds: the prompt, the responses and
the results that are appended or reported are within its limits, and so are the tools that are
offered to a model and the arguments that are handed to a policy or a tool. -/
theorem ceilings_kept [SerdeJson] (found : Surroundings) (request : LoopRequest)
    (options : LoopOptions) (setup : Setup)
    (hstart : AgentLoop.start found request options = some (.ok setup)) (clock : Nat)
    (schedule : List Turn) :
    KeepsCeilings options.limits (setup.task clock schedule).2.log ∧
      ∀ report, Delivers (setup.task clock schedule) report →
        ∀ item ∈ report.appended, item.within options.limits = true := by
  obtain ⟨-, hoptions, hchecked, -, -⟩ := AgentLoop.start_eq_ok.mp hstart
  obtain ⟨newer, hlog, hnewer⟩ := task_extends setup clock schedule
  have hitems := items_within setup (started_of_validate hchecked.options) clock schedule
  rw [hoptions, hlog, traceOf_append, appendedItems_ending hnewer] at hitems
  obtain ⟨hkeeps, hreported⟩ := ceilings_of_run hstart hitems
  refine ⟨?_, fun report hreport ↦ ?_⟩
  · rw [hlog]
    exact hkeeps.extend hnewer
  · rcases delivers_task hreport with hdelivered | rfl
    · exact hreported report hdelivered
    · -- The report of a runner that unwound has no items.
      exact fun item hitem ↦ absurd hitem List.not_mem_nil

namespace Sample

/-- A runtime whose random source fills in zeros first. -/
def surroundings : Surroundings :=
  ⟨true, 0, [some (Vector.replicate 16 0), some setup.ctx.id.bytes]⟩

end Sample

/-- The sample starts, and appends a prompt, an input, a response and a result. -/
theorem ceilings_kept_sample :
    KeepsCeilings Sample.options.limits (Sample.setup.task 0 Sample.schedule).2.log ∧
      (appendedItems (traceOf (Sample.setup.task 0 Sample.schedule).2.log)).length = 4 := by
  have hstart : AgentLoop.start Sample.surroundings Sample.setup.request Sample.options =
      some (.ok Sample.setup) :=
    AgentLoop.start_eq_ok.mpr ⟨rfl, rfl, ⟨by decide, by decide, by decide, by decide⟩, rfl,
      by decide⟩
  exact ⟨
    (ceilings_kept Sample.surroundings Sample.setup.request Sample.options Sample.setup hstart 0
    Sample.schedule).1, by decide +kernel⟩

end MinicoreRuntime
