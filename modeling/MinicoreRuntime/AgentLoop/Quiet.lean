import MinicoreRuntime.AgentLoop.Session

/-!
# Quiet operations

Most operations of a runner change nothing that its session is about: they look at the clock and
the token, forward progress, or seal the loop. Programs made of such operations leave the session
alone. The driver of model requests is one of them but for starting the model.

## Main definitions

* `Op.quiet`: the operations.
* `Op.plain`: those of them that the control plane does not see either.

## Main results

* `uses_runDetailed`: what the driver uses besides plain operations.
* `quiet_silent`: the rules of sessions are not about quiet operations.
* `wp_stable_publish`, `wp_silent_publish`, `wp_free_publish`: publishing a state.
-/

namespace MinicoreRuntime

open Interactive

/-- Events that no rule is about. -/
def LoopEvent.quiet : LoopEvent → Bool
  | .stateChanged _ | .requestStarted _ _ _ _ _ => false
  | _ => true

/-- Operations that no rule is about and that do not change what is known of a session. -/
def Op.quiet : Op → Bool
  | .isCancelled | .now | .effectiveDeadline _ _ | .appliedRevision | .cancelReason
  | .sealState | .sealCancelled _ | .cancelToken | .takeInteraction
  | .recordDropped _ | .dropConfig _ | .dropFuture | .openToolProgress _
  | .recvToolProgress | .takeToolDropped | .closeToolProgress | .pollStart _ | .pollStream _
  | .dropStream | .pollRetry _ _ | .openModelProgress | .offerProgress _ | .recvModelProgress
  | .takeModelDropped | .newInteractionId => true
  | .tryEmit event => event.quiet
  | _ => false

/-- The quiet operations. -/
abbrev Op.Quiet (o : Op) : Prop := o.quiet = true

/-- Quiet operations that change nothing on the control plane: they look at the clock and the
control plane, forward progress, poll models and drop what is the host's. -/
def Op.plain : Op → Bool
  | .isCancelled | .now | .effectiveDeadline _ _ | .appliedRevision | .cancelReason
  | .recordDropped _ | .dropConfig _ | .dropFuture | .openToolProgress _
  | .recvToolProgress | .takeToolDropped | .closeToolProgress | .pollStart _ | .pollStream _
  | .dropStream | .pollRetry _ _ | .openModelProgress | .offerProgress _ | .recvModelProgress
  | .takeModelDropped => true
  | .tryEmit event => event.quiet
  | _ => false

/-- The plain operations. -/
abbrev Op.Plain (o : Op) : Prop := o.plain = true

theorem Op.quiet_of_plain {o : Op} (h : o.plain = true) : o.quiet = true := by
  cases o with
  | tryEmit event => exact h
  | _ => first | rfl | exact absurd h (by simp [plain])

section Uses

variable {S : Op → Prop} (hS : ∀ o : Op, o.plain = true → S o)
include hS

theorem uses_plain {α : Type} {o : Op} {f : o.Answer → Action α} (h : o.plain = true)
    (hf : ∀ r, (f r).Uses S) : ((perform o).bind f).Uses S :=
  ⟨hS o h, hf⟩

omit hS in
theorem uses_call_bind {α : Type} {o : Op} {f : o.Answer → Action α} (h : S o)
    (hf : ∀ r, (f r).Uses S) : ((perform o).bind f).Uses S :=
  ⟨h, hf⟩

theorem uses_turnDeadline (deadline : Option Nat) : (turnDeadline deadline).Uses S := by
  cases deadline with
  | some deadline => trivial
  | none =>
    refine uses_plain hS rfl fun now ↦ ?_
    split
    · trivial
    · trivial

theorem uses_forwardProgress (ctx : LoopCtx) (requestIndex : Nat) (value : ModelDriverProgress) :
    (forwardProgress ctx requestIndex value).Uses S := by
  unfold forwardProgress
  refine uses_plain hS rfl fun dropped ↦ uses_plain hS rfl fun _ ↦ ⟨hS _ rfl, fun _ ↦ trivial⟩

theorem uses_drainProgress (ctx : LoopCtx) (requestIndex : Nat) :
    (drainProgress ctx requestIndex).Uses S := by
  refine Prog.uses_iterate fun _ ↦ uses_plain hS rfl fun value ↦ ?_
  cases value with
  | none => trivial
  | some value =>
    exact Prog.uses_bind (uses_forwardProgress hS ctx requestIndex value) fun _ ↦ trivial

theorem uses_forwardToolProgress (ctx : LoopCtx) (requestIndex : Nat) :
    (forwardToolProgress ctx requestIndex).Uses S := by
  unfold forwardToolProgress
  refine uses_plain hS rfl fun value ↦ ?_
  cases value with
  | none => trivial
  | some value =>
    refine uses_plain hS rfl fun dropped ↦ uses_plain hS rfl fun _ ↦ ?_
    exact uses_plain hS rfl fun _ ↦ trivial

theorem uses_awaitTool (ctx : LoopCtx) (requestIndex : Nat) : (awaitTool ctx requestIndex).Uses S :=
  Prog.uses_bind (uses_forwardToolProgress hS ctx requestIndex) fun _ ↦ trivial

theorem uses_dropConfig (config : Option ExecutionConfig) : (dropConfig config).Uses S := by
  cases config with
  | none => trivial
  | some config => exact ⟨⟨hS _ rfl, fun _ ↦ trivial⟩, fun _ ↦ trivial⟩

theorem uses_mapModelFailure (failure : ModelDriverFailure) : (mapModelFailure failure).Uses S := by
  unfold mapModelFailure
  refine uses_plain hS rfl fun cancelled ↦ ?_
  split
  · trivial
  · split
    · trivial
    · split <;> trivial

theorem uses_outcomeFor (path : FailPath) : (outcomeFor path).Uses S := by
  cases path with
  | cancelled => exact uses_plain hS rfl fun _ ↦ trivial
  | _ => trivial

theorem uses_precheck (deadline : EffectiveDeadline) : (precheck deadline).Uses S := by
  unfold precheck
  refine uses_plain hS rfl fun cancelled ↦ ?_
  split
  · trivial
  · refine uses_plain hS rfl fun now ↦ ?_
    split <;> trivial

theorem uses_evaluateRetry (policy : RetryPolicySnapshot) (attempt : Nat) (failure : AttemptFailure)
    (deadline : Nat) : (policy.evaluateRetry attempt failure deadline).Uses S := by
  unfold RetryPolicySnapshot.evaluateRetry
  split
  · trivial
  · split
    · trivial
    · split
      · trivial
      · refine Prog.uses_bind (uses_plain hS rfl fun now ↦ trivial) fun fits ↦ ?_
        split <;> trivial

variable {awaiter : Action Unit} (hawait : awaiter.Uses S)
include hawait

theorem uses_waitForRetry (deadline : EffectiveDeadline) (delay : Nat) (error : ModelError) :
    (waitForRetry awaiter deadline delay error).Uses S := by
  unfold waitForRetry
  refine uses_plain hS rfl fun now ↦ ?_
  split
  · trivial
  · refine Prog.uses_iterate fun _ ↦ uses_plain hS rfl fun polled ↦ ?_
    cases polled with
    | panicked => exact Prog.uses_bind hawait fun _ ↦ trivial
    | pending => exact Prog.uses_bind hawait fun _ ↦ trivial
    | _ => trivial

theorem uses_pollStartCall (deadline : EffectiveDeadline) :
    (ModelDriver.pollStartCall awaiter deadline).Uses S := by
  refine uses_plain hS rfl fun polled ↦ ?_
  split
  all_goals first | trivial | exact Prog.uses_bind hawait fun _ ↦ trivial

variable [SerdeJson]

theorem uses_pollEvent (deadline : EffectiveDeadline) (assembler : Assembler) :
    (ModelDriver.pollEvent awaiter deadline assembler).Uses S := by
  refine uses_plain hS rfl fun polled ↦ ?_
  split
  · trivial
  · trivial
  · split
    · trivial
    · trivial
    · exact uses_plain hS rfl fun _ ↦ Prog.uses_bind hawait fun _ ↦ trivial
  · trivial
  · split <;> trivial
  · trivial
  · exact Prog.uses_bind hawait fun _ ↦ trivial

theorem uses_runAttempt {driver : ModelDriver} {request : ModelRequest}
    {context : ModelCallContext} {deadline : EffectiveDeadline}
    (hstart : S (.startModel driver.model request { context with deadline := deadline.instant })) :
    (driver.runAttempt awaiter request context deadline).Uses S := by
  refine uses_call_bind hstart fun started ↦ ?_
  split
  · refine Prog.uses_bind (Prog.uses_iterate fun _ ↦ uses_pollStartCall hS hawait deadline) ?_
    intro stream
    refine Prog.uses_bind ?_ fun result ↦ uses_plain hS rfl fun _ ↦ trivial
    cases stream with
    | error failure => trivial
    | ok u => exact Prog.uses_iterate fun a ↦ uses_pollEvent hS hawait deadline a
  · trivial

theorem uses_runDetailed {driver : ModelDriver} {request : ModelRequest}
    {context : ModelCallContext}
    (hstart : ∀ d, S (.startModel driver.model request { context with deadline := d })) :
    (driver.runDetailed awaiter request context).Uses S := by
  refine uses_plain hS rfl fun deadline ↦ ?_
  cases deadline with
  | none => trivial
  | some deadline =>
    refine Prog.uses_bind (uses_precheck hS deadline) fun checked ↦ ?_
    cases checked with
    | error failure => trivial
    | ok u =>
      dsimp only
      split
      · trivial
      · -- One round; only its attempt starts the model.
        refine Prog.uses_iterate fun attempt ↦ ?_
        refine Prog.uses_bind (uses_precheck hS deadline) fun checked ↦ ?_
        cases checked with
        | error failure => trivial
        | ok u =>
          refine Prog.uses_bind (uses_runAttempt hS hawait (hstart deadline.instant)) ?_
          intro result
          cases result with
          | ok response => trivial
          | error failure =>
            refine Prog.uses_bind (uses_evaluateRetry hS _ attempt failure deadline.instant) ?_
            intro delay
            cases delay with
            | none => trivial
            | some delay =>
              refine Prog.uses_bind (uses_waitForRetry hS hawait deadline delay failure.error) ?_
              intro waited
              cases waited with
              | error failure => trivial
              | ok u => trivial

end Uses

/-- The rules of sessions allow quiet operations, which do not change the session. -/
theorem quiet_silent (setup : Setup) {o : Op} (h : o.quiet = true) :
    (sessionMonitor setup).Silent o := by
  intro s
  show Session.Permits setup s o ∧ ∀ n r, s.next o n r = s
  cases o with
  | tryEmit event =>
    refine ⟨?_, fun n r ↦ rfl⟩
    cases event <;> trivial
  | _ => first | exact ⟨trivial, fun n r ↦ rfl⟩ | exact absurd h (by simp [Op.quiet])

/-! ## Publishing a state -/

section Publish

variable {M : Monitor interface Nat} {α : Type} {state : LoopState} {f : Unit → Action α}
  {R : α → M.State → Prop} {s : M.State}

/-- Publishing a state under which `J` is stable, followed by the rest of a program. -/
theorem wp_stable_publish {J : M.State → Prop} (hstate : M.Stable J (.publishState state))
    (hevent : M.Stable J (.tryEmit (.stateChanged state))) (hs : J s)
    (hf : ∀ s', J s' → M.wp (f ()) (.ofReturned R) s') :
    M.wp ((publish state).bind f) (.ofReturned R) s :=
  M.wp_stable_bind (o := .publishState state) hstate hs fun _ _ hs₁ ↦
    M.wp_stable_bind hevent hs₁ fun _ s₂ hs₂ ↦ hf s₂ hs₂

/-- Publishing a state that a monitor is not about, followed by the rest of a program. -/
theorem wp_silent_publish (hstate : M.Silent (.publishState state))
    (hevent : M.Silent (.tryEmit (.stateChanged state))) (hf : M.wp (f ()) (.ofReturned R) s) :
    M.wp ((publish state).bind f) (.ofReturned R) s := by
  refine wp_stable_publish (hstate.stable fun s' ↦ s' = s) (hevent.stable _) rfl ?_
  rintro _ rfl
  exact hf

/-- Publishing a state that a monitor always allows, followed by the rest of a program. -/
theorem wp_free_publish (hstate : M.Free (.publishState state))
    (hevent : M.Free (.tryEmit (.stateChanged state)))
    (hf : ∀ s', M.wp (f ()) (.ofReturned R) s') :
    M.wp ((publish state).bind f) (.ofReturned R) s :=
  wp_stable_publish hstate.stable hevent.stable trivial fun s' _ ↦ hf s'

end Publish

end MinicoreRuntime
