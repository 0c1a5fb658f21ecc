import MinicoreRuntime.AgentLoop.Runner.Model

/-!
# What a failed request says about its delivery

A host decides from the delivery state of a failure whether it may send the request again. This
module reads the attempts of a request off the operations of its driver: for each start of the
model, whether the attempt observed an event, and which error the adapter reported. A failure then
says that nothing was delivered only where that is so of every attempt.

## Main definitions

* `ModelCall`, `modelCalls`: the calls of the model in a trace.
* `Attempt`, `attempts`: the attempts that they make.
* `Truthful`: what a failure says about them.

## Main results

* `Assembler.push_error`, `Assembler.finish_error`: the errors of the assembler.
* `truthful_runDetailed`: the driver.
* `delivery_truthful`: the failure of every run.
-/

namespace MinicoreRuntime

open Interactive

/-! ## Errors -/

/-- The error of a request that was delivered, which is not to be sent again. -/
structure ModelError.Delivered (error : ModelError) : Prop where
  delivery : error.delivery = .started
  retryHint : error.retryHint = .never

namespace ModelError

theorem delivered_started (kind : ModelErrorKind) (diagnostic : DiagnosticSummary) :
    (started kind diagnostic).Delivered := ⟨rfl, rfl⟩

theorem Delivered.ne_notStarted {error : ModelError} (h : error.Delivered) :
    error.delivery ≠ .notStarted := by
  rw [h.delivery]
  exact nofun

end ModelError

theorem delivered_assemblerError (kind : ModelErrorKind) : (assemblerError kind).Delivered := by
  unfold assemblerError
  split <;> exact ModelError.delivered_started _ _

/-- The error that the driver makes for an attempt says what the attempt observed. -/
theorem delivered_generatedError (kind : ModelErrorKind) {observed : Bool}
    (h : observed = true) : (generatedError kind (observedDelivery observed)).Delivered := by
  subst h
  exact ModelError.delivered_started _ _

theorem generatedError_ne_notStarted (kind : ModelErrorKind) (observed : Bool) :
    (generatedError kind (observedDelivery observed)).delivery ≠ .notStarted := by
  cases observed <;> exact nofun

/-- After an event an error of the adapter is delivered. -/
theorem normalizeAfterEvent_delivered (error : ModelError) :
    (normalizeAfterEvent error true).Delivered := by
  unfold normalizeAfterEvent
  split
  · exact ModelError.delivered_started _ _
  · rename_i hsame
    obtain ⟨hdelivery, hhint⟩ : error.delivery = .started ∧ error.retryHint = .never := by
      simpa using hsame
    exact ⟨hdelivery, hhint⟩

/-! ## The assembler -/

theorem appendBounded_error {target delta : Text} {maximum : Nat} {error : ModelError}
    (h : appendBounded target delta maximum = .error error) : error.Delivered := by
  unfold appendBounded at h
  split at h
  · obtain rfl := Except.error.inj h
    exact delivered_assemblerError _
  · split at h
    · obtain rfl := Except.error.inj h
      exact delivered_assemblerError _
    · exact absurd h nofun

/-- Changing a tool call fails with an error of the change, or with one of the assembler. -/
theorem toolMut_error {tools : List ToolAssembly} {id : ToolCallId}
    {f : ToolAssembly → Except ModelError ToolAssembly} {error : ModelError}
    (hf : ∀ tool error, f tool = .error error → error.Delivered)
    (h : toolMut tools id f = .error error) : error.Delivered := by
  induction tools with
  | nil =>
    obtain rfl := Except.error.inj h
    exact delivered_assemblerError _
  | cons tool tools ih =>
    rw [toolMut] at h
    split at h
    · split at h
      · exact absurd h (by simp)
      · rename_i e htool
        obtain rfl := Except.error.inj h
        exact hf tool e htool
    · split at h
      · exact absurd h (by simp)
      · rename_i e htools
        obtain rfl := Except.error.inj h
        exact ih htools

theorem appendArguments_error {delta : Text} {tool : ToolAssembly} {error : ModelError}
    (h : appendArguments delta tool = .error error) : error.Delivered := by
  unfold appendArguments at h
  split at h
  · obtain rfl := Except.error.inj h
    exact delivered_assemblerError _
  · split at h
    · exact absurd h nofun
    · rename_i e hargs
      obtain rfl := Except.error.inj h
      exact appendBounded_error hargs

section

variable [SerdeJson]

theorem completeCall_error {maximum : Nat} {tool : ToolAssembly} {error : ModelError}
    (h : completeCall maximum tool = .error error) : error.Delivered := by
  unfold completeCall at h
  split at h
  · obtain rfl := Except.error.inj h
    exact delivered_assemblerError _
  · split at h
    · obtain rfl := Except.error.inj h
      exact delivered_assemblerError _
    · split at h
      · exact absurd h nofun
      · obtain rfl := Except.error.inj h
        exact delivered_assemblerError _

namespace Assembler

variable {a a' : Assembler} {event : ModelEvent} {error : ModelError}

/-- An event that is rejected was delivered. -/
theorem push_error (h : a.push event = .error error) : error.Delivered := by
  -- What the assembler rejects on its own it reports as delivered.
  have hassembler {kind : ModelErrorKind}
      (h : (.error (assemblerError kind) :
        Except ModelError (Option ModelDriverProgress × Assembler))
        = .error error) : error.Delivered := by
    obtain rfl := Except.error.inj h
    exact delivered_assemblerError _
  unfold push at h
  split at h
  · exact hassembler h
  cases event with
  | textDelta raw | reasoningDelta raw =>
    dsimp only at h
    split at h
    · exact absurd h nofun
    · split at h
      · exact absurd h nofun
      · rename_i e happend
        obtain rfl := Except.error.inj h
        exact appendBounded_error happend
  | toolCallStart toolCallId toolName =>
    dsimp only at h
    split at h
    · exact hassembler h
    · split at h
      · exact hassembler h
      · split at h
        · exact hassembler h
        · exact absurd h nofun
  | toolCallArgumentsDelta toolCallId delta =>
    dsimp only at h
    split at h
    · exact absurd h nofun
    · rename_i e hmut
      obtain rfl := Except.error.inj h
      exact toolMut_error (fun _ _ ↦ appendArguments_error) hmut
  | toolCallEnd toolCallId =>
    dsimp only at h
    split at h
    · exact absurd h nofun
    · rename_i e hmut
      obtain rfl := Except.error.inj h
      exact toolMut_error (fun _ _ ↦ completeCall_error) hmut
  | usage usage | providerReplay replay | finish reason =>
    dsimp only at h
    split at h
    · exact hassembler h
    · exact absurd h nofun

/-- Taking in an event does not forget that one was observed. -/
theorem push_observed {progress : Option ModelDriverProgress}
    (h : a.push event = .ok (progress, a')) : a'.observedEvent = a.observedEvent :=
  (push_frame h).2.2.1

omit [SerdeJson] in
theorem buildParts_error {slots : List PartSlot} {text reasoning : Text}
    {tools : List ToolAssembly} (h : buildParts slots text reasoning tools = some (.error error)) :
    error.Delivered := by
  induction slots generalizing text reasoning tools with
  | nil => exact absurd (Option.some.inj h) (by simp)
  | cons slot slots ih =>
    -- What is built from the slots that are left fails, or this slot does.
    have hrest {text reasoning : Text} {tools : List ToolAssembly}
        {extend : Except ModelError (List AssistantPart) → Except ModelError (List AssistantPart)}
        (hok : ∀ parts, ∃ parts', extend (.ok parts) = .ok parts')
        (herror : ∀ e, extend (.error e) = .error e)
        (h : (buildParts slots text reasoning tools).map extend = some (.error error)) :
        error.Delivered := by
      obtain ⟨built, hbuilt, hmap⟩ := Option.map_eq_some_iff.mp h
      cases built with
      | ok parts =>
        obtain ⟨parts', hparts⟩ := hok parts
        exact absurd (hparts.symm.trans hmap) (by simp)
      | error e =>
        obtain rfl := Except.error.inj ((herror e).symm.trans hmap)
        exact ih hbuilt
    cases slot with
    | text => exact hrest (fun _ ↦ ⟨_, rfl⟩) (fun _ ↦ rfl) h
    | reasoning =>
      rw [buildParts] at h
      split at h
      · obtain rfl := Except.error.inj (Option.some.inj h)
        exact delivered_assemblerError _
      · exact hrest (fun _ ↦ ⟨_, rfl⟩) (fun _ ↦ rfl) h
    | tool index =>
      rw [buildParts] at h
      split at h
      · exact absurd h (by simp)
      · split at h
        · exact absurd h (by simp)
        · exact hrest (fun _ ↦ ⟨_, rfl⟩) (fun _ ↦ rfl) h

omit [SerdeJson] in
/-- The error at the end of a stream says what was observed. -/
theorem finish_error (h : a.finish = some (.error error)) :
    error.delivery ≠ .notStarted ∧ (a.observedEvent = true → error.Delivered) := by
  have hdelivered (h : error.Delivered) :
      error.delivery ≠ .notStarted ∧ (a.observedEvent = true → error.Delivered) :=
    ⟨h.ne_notStarted, fun _ ↦ h⟩
  have hassembler {kind : ModelErrorKind}
      (h : (some (.error (assemblerError kind)) : Option (Except ModelError ModelResponse)) =
        some (.error error)) :
      error.delivery ≠ .notStarted ∧ (a.observedEvent = true → error.Delivered) := by
    obtain rfl := Except.error.inj (Option.some.inj h)
    exact hdelivered (delivered_assemblerError _)
  -- The errors in the order of the code: no finish reason, the wrong one, parts, the response.
  unfold finish at h
  split at h
  · obtain rfl := Except.error.inj (Option.some.inj h)
    exact ⟨generatedError_ne_notStarted _ _, delivered_generatedError _⟩
  dsimp only at h
  split at h
  · exact hassembler h
  · split at h
    · exact hassembler h
    · split at h
      · exact absurd h nofun
      · rename_i e hparts
        obtain rfl := Except.error.inj (Option.some.inj h)
        exact hdelivered (buildParts_error hparts)
      · split at h
        · exact absurd h nofun
        · exact hassembler h

end Assembler

end

/-! ## Calls -/

/-- A call of `Model::start`, with what is known of the attempt it begins. -/
structure ModelCall where
  model : ModelHandle
  request : ModelRequest
  /-- When it was made. -/
  startedAt : Nat
  /-- The events of its stream, in order. -/
  events : List ModelEvent
  /-- The progress it offered, in order. -/
  offered : List ModelDriverProgress
  /-- The error that the adapter reported, and when. -/
  reported : Option (ModelError × Nat)

/-- What is known of a call after an operation. -/
def ModelCall.after (call : ModelCall) : Entry interface Nat → ModelCall
  | ⟨.pollStart _, n, .ready (.error error)⟩ => { call with reported := some (error, n) }
  | ⟨.pollStream _, _, .ready (some (.ok event))⟩ => { call with events := call.events ++ [event] }
  | ⟨.pollStream _, n, .ready (some (.error error))⟩ => { call with reported := some (error, n) }
  | ⟨.offerProgress progress, _, _⟩ => { call with offered := call.offered ++ [progress] }
  | _ => call

/-- The call an operation makes. -/
def startedCall : Entry interface Nat → Option ModelCall
  | ⟨.startModel model request _, n, _⟩ => some ⟨model, request, n, [], [], none⟩
  | _ => none

/-- The calls of a trace, the newest first. -/
def modelCalls : List (Entry interface Nat) → List ModelCall
  | [] => []
  | e :: past =>
    match startedCall e with
    | some call => call :: modelCalls past
    | none => (modelCalls past).modifyHead (ModelCall.after · e)

theorem modelCalls_cons_of_none {e : Entry interface Nat} {past : List (Entry interface Nat)}
    (h : startedCall e = none) :
    modelCalls (e :: past) = (modelCalls past).modifyHead (ModelCall.after · e) := by
  rw [modelCalls, h]

/-! ## Attempts -/

/-- What is known of an attempt. -/
structure Attempt where
  /-- It observed a stream event. -/
  observed : Bool
  /-- The error that the adapter reported. -/
  reported : Option ModelError

/-- The attempt that a call of the model makes. -/
def ModelCall.attempt (call : ModelCall) : Attempt :=
  ⟨!call.events.isEmpty, call.reported.map Prod.fst⟩

/-- The attempts of a trace, the newest first. -/
def attempts (trace : List (Entry interface Nat)) : List Attempt :=
  (modelCalls trace).map ModelCall.attempt

/-- After an event of its stream the attempt observed one. -/
theorem ModelCall.attempt_event {call : ModelCall} (event : ModelEvent) (deadline n : Nat)
    (h : call.reported = none) :
    (call.after ⟨.pollStream deadline, n, .ready (some (.ok event))⟩).attempt = ⟨true, none⟩ := by
  unfold attempt ModelCall.after
  rw [h]
  simp

/-- The adapter reported before any stream event that nothing was delivered. -/
def Attempt.Unsent (attempt : Attempt) : Prop :=
  attempt.observed = false ∧
    ∃ error, attempt.reported = some error ∧ error.delivery = .notStarted

/-- Whether cancellation or the deadline interrupts the wait before a retry. -/
def interruptsBackoff : Entry interface Nat → Bool
  | ⟨.pollRetry _ _, _, .cancelled⟩ | ⟨.pollRetry _ _, _, .expired⟩ => true
  | _ => false

/-- What a failure says about the attempts of a trace. -/
structure Truthful (trace : List (Entry interface Nat)) (failure : ModelDriverFailure) : Prop where
  /-- Nothing was delivered only if the adapter said so of every attempt. -/
  notStarted : failure.error.delivery = .notStarted → ∀ attempt ∈ attempts trace, attempt.Unsent
  /-- A failure after an event was delivered. -/
  observed : ∀ attempt older, attempts trace = attempt :: older → attempt.observed = true →
    failure.error.Delivered
  /-- A wait that is interrupted fails with the error of the attempt before it. -/
  interrupted : ∀ e ∈ trace, interruptsBackoff e = true →
    ∃ attempt older, attempts trace = attempt :: older ∧ attempt.reported = some failure.error

/-- The failure of an attempt says what is known of it. -/
structure Attempt.Fails (attempt : Attempt) (failure : AttemptFailure) : Prop where
  observed : failure.observedEvent = attempt.observed
  delivered : attempt.observed = true → failure.error.Delivered
  reported : failure.error.delivery = .notStarted → attempt.reported = some failure.error

/-- An attempt that fails with an error that the driver made. -/
theorem Attempt.Fails.of_generated {kind : ModelErrorKind} {observed : Bool}
    {source : Option DeadlineSource} :
    (Attempt.mk observed none).Fails
      ⟨generatedError kind (observedDelivery observed), observed, source⟩ :=
  ⟨rfl, fun h ↦ delivered_generatedError kind h,
    fun h ↦ absurd h (generatedError_ne_notStarted kind observed)⟩

/-- An attempt whose stream fails with an error of the adapter. -/
theorem Attempt.Fails.of_stream (observed : Bool) (error : ModelError) :
    (Attempt.mk observed (some error)).Fails
      (.new (normalizeAfterEvent error observed) observed) := by
  refine ⟨rfl, ?_, fun h ↦ ?_⟩
  · rintro (rfl : observed = true)
    exact normalizeAfterEvent_delivered error
  · cases observed with
    | true => exact absurd h (normalizeAfterEvent_delivered error).ne_notStarted
    | false => rfl

/-- The adapter said of such an attempt that nothing was delivered. -/
theorem Attempt.Fails.unsent {attempt : Attempt} {failure : AttemptFailure}
    (h : attempt.Fails failure) (hdelivery : failure.error.delivery = .notStarted) :
    attempt.Unsent := by
  refine ⟨?_, failure.error, h.reported hdelivery, hdelivery⟩
  cases hobserved : attempt.observed with
  | false => rfl
  | true => exact absurd hdelivery (h.delivered hobserved).ne_notStarted

/-! ## The driver -/

/-- Operations that no attempt and no wait is about. -/
def Op.aside : Op → Bool
  | .startModel _ _ _ | .pollStart _ | .pollStream _ | .pollRetry _ _ => false
  | _ => true

/-- Such an operation tells nothing. -/
theorem Op.aside_spec {o : Op} (h : o.aside = true) (n : Nat) (r : o.Answer) :
    startedCall ⟨o, n, r⟩ = none ∧ interruptsBackoff ⟨o, n, r⟩ = false ∧
      ∀ call : ModelCall, (call.after ⟨o, n, r⟩).attempt = call.attempt := by
  cases o with
  | startModel | pollStart | pollStream | pollRetry => exact absurd h nofun
  | _ => exact ⟨rfl, rfl, fun _ ↦ rfl⟩

/-- What the runner does while the driver waits. -/
theorem aside_drainProgress (ctx : LoopCtx) (requestIndex : Nat) :
    (drainProgress ctx requestIndex).Uses fun o : Op ↦ o.aside = true := by
  refine Prog.uses_iterate fun _ ↦ Prog.uses_bind ⟨rfl, fun _ ↦ trivial⟩ fun value ↦ ?_
  cases value with
  | none => trivial
  | some value => exact ⟨rfl, fun _ ↦ ⟨rfl, fun _ ↦ ⟨rfl, fun _ ↦ trivial⟩⟩⟩

/-- The monitor that only remembers. -/
def observer : Monitor interface Nat := .history (fun _ _ ↦ True) fun _ _ _ _ ↦ True

/-- The attempts since a trace, with no wait interrupted. -/
def Since (base : List (Entry interface Nat)) (all : List Attempt)
    (t : List (Entry interface Nat)) : Prop :=
  ∃ newer, t = newer ++ base ∧ attempts newer = all ∧ ∀ e ∈ newer, interruptsBackoff e = false

namespace Since

variable {base t : List (Entry interface Nat)} {all : List Attempt} {attempt : Attempt}

theorem nil : Since base [] base := ⟨[], rfl, rfl, fun _ h ↦ absurd h List.not_mem_nil⟩

/-- The model is started. -/
theorem start (h : Since base all t) (model : ModelHandle) (request : ModelRequest)
    (context : ModelCallContext) (n : Nat) (made : Bool) :
    Since base (⟨false, none⟩ :: all) (⟨.startModel model request context, n, made⟩ :: t) := by
  obtain ⟨newer, rfl, rfl, hwaits⟩ := h
  exact ⟨_ :: newer, rfl, rfl, List.forall_mem_cons.mpr ⟨rfl, hwaits⟩⟩

/-- An operation of an attempt. -/
theorem cons {e : Entry interface Nat} {attempt' : Attempt} (h : Since base (attempt :: all) t)
    (hstart : startedCall e = none) (hwait : interruptsBackoff e = false)
    (hafter : ∀ call : ModelCall, call.attempt = attempt → (call.after e).attempt = attempt') :
    Since base (attempt' :: all) (e :: t) := by
  obtain ⟨newer, rfl, hattempts, hwaits⟩ := h
  refine ⟨e :: newer, rfl, ?_, List.forall_mem_cons.mpr ⟨hwait, hwaits⟩⟩
  obtain ⟨call, calls, hcalls, hcall, hall⟩ := List.map_eq_cons_iff.mp hattempts
  rw [attempts, modelCalls_cons_of_none hstart, hcalls, ← hall, ← hafter call hcall]
  rfl

/-- The attempts are the same after an operation that tells nothing of one. -/
theorem attempts_cons {e : Entry interface Nat} (newer : List (Entry interface Nat))
    (hstart : startedCall e = none)
    (hsame : ∀ call : ModelCall, (call.after e).attempt = call.attempt) :
    attempts (e :: newer) = attempts newer := by
  rw [attempts, modelCalls_cons_of_none hstart, attempts]
  cases modelCalls newer with
  | nil => rfl
  | cons call calls => exact congrArg (· :: calls.map ModelCall.attempt) (hsame call)

/-- An operation that no attempt is about. -/
theorem aside {o : Op} (h : Since base all t) (ho : o.aside = true) (n : Nat) (r : o.Answer) :
    Since base all (⟨o, n, r⟩ :: t) := by
  obtain ⟨hstart, hwait, hsame⟩ := Op.aside_spec ho n r
  obtain ⟨newer, rfl, hattempts, hwaits⟩ := h
  refine ⟨⟨o, n, r⟩ :: newer, rfl, ?_, List.forall_mem_cons.mpr ⟨hwait, hwaits⟩⟩
  exact (attempts_cons newer hstart hsame).trans hattempts

/-- A poll of the wait before a retry. It is in the trace, and no attempt is about it; nothing is
interrupted unless the poll says so. -/
theorem pollRetry (h : Since base all t) (deadline retryAt n : Nat)
    (polled : (Op.pollRetry deadline retryAt).Answer) :
    ∃ newer, (⟨.pollRetry deadline retryAt, n, polled⟩ :: t) = newer ++ base ∧
      attempts newer = all ∧
      (interruptsBackoff ⟨.pollRetry deadline retryAt, n, polled⟩ = false →
        Since base all (⟨.pollRetry deadline retryAt, n, polled⟩ :: t)) := by
  obtain ⟨newer, rfl, hattempts, hwaits⟩ := h
  have hsame : attempts (⟨.pollRetry deadline retryAt, n, polled⟩ :: newer) = all :=
    (attempts_cons newer rfl fun _ ↦ rfl).trans hattempts
  exact ⟨_ :: newer, rfl, hsame,
    fun hwait ↦ ⟨_ :: newer, rfl, hsame, List.forall_mem_cons.mpr ⟨hwait, hwaits⟩⟩⟩

/-- A failure that no interrupted wait led to. -/
theorem truthful (h : Since base all t) {failure : ModelDriverFailure}
    (hunsent : failure.error.delivery = .notStarted → ∀ attempt ∈ all, attempt.Unsent)
    (hobserved : ∀ attempt older, all = attempt :: older → attempt.observed = true →
      failure.error.Delivered) :
    ∃ newer, t = newer ++ base ∧ Truthful newer failure := by
  obtain ⟨newer, rfl, rfl, hwaits⟩ := h
  refine ⟨newer, rfl, hunsent, hobserved, fun e he hinterrupts ↦ ?_⟩
  rw [hwaits e he] at hinterrupts
  exact absurd hinterrupts nofun

/-- A failure while nothing was delivered. -/
theorem truthful_of_unsent (h : Since base all t) (hall : ∀ attempt ∈ all, attempt.Unsent)
    (failure : ModelDriverFailure) : ∃ newer, t = newer ++ base ∧ Truthful newer failure := by
  refine h.truthful (fun _ ↦ hall) ?_
  rintro attempt older rfl hobserved
  rw [(hall attempt List.mem_cons_self).1] at hobserved
  exact absurd hobserved nofun

end Since

section

variable {base t : List (Entry interface Nat)} {all : List Attempt} {α β : Type}

theorem since_stable {o : Op} (ho : o.aside = true) : observer.Stable (Since base all) o :=
  fun _ ht ↦ ⟨trivial, fun n r _ ↦ ht.aside ho n r⟩

/-! ### Waits -/

/-- A check fails before anything is started. -/
theorem since_precheck (deadline : EffectiveDeadline) (ht : Since base all t) :
    observer.wp (precheck deadline) (.ofReturned fun _ t' ↦ Since base all t') t := by
  refine observer.wp_stable_bind (since_stable rfl) ht fun cancelled t₁ ht₁ ↦ ?_
  split
  · exact ht₁
  · refine observer.wp_stable_bind (since_stable rfl) ht₁ fun now t₂ ht₂ ↦ ?_
    split
    · exact ht₂
    · exact ht₂

/-- Only an attempt of which nothing was delivered is retried. -/
theorem since_evaluateRetry (policy : RetryPolicySnapshot) (attempt : Nat)
    (failure : AttemptFailure) (deadline : Nat) (ht : Since base all t) :
    observer.wp (policy.evaluateRetry attempt failure deadline)
      (.ofReturned fun delay t' ↦ Since base all t' ∧
        (delay.isSome = true → failure.error.delivery = .notStarted)) t := by
  unfold RetryPolicySnapshot.evaluateRetry
  split
  · exact ⟨ht, nofun⟩
  rename_i hretry
  -- A retry is only considered where nothing was delivered.
  have hdelivery : failure.error.delivery = .notStarted := by
    simp only [Bool.or_eq_true, decide_eq_true_eq, not_or, not_not] at hretry
    exact hretry.2
  split
  · exact ⟨ht, nofun⟩
  split
  · exact ⟨ht, nofun⟩
  unfold retryFits
  rw [Prog.bind_eq, Prog.bind_eq]
  refine observer.wp_bind_of (Q := fun _ t' ↦ Since base all t') ?_ fun fits t₁ ht₁ ↦ ?_
  · exact observer.wp_stable_bind (since_stable rfl) ht fun now t₁ ht₁ ↦ ht₁
  · split
    · exact ⟨ht₁, fun _ ↦ hdelivery⟩
    · exact ⟨ht₁, nofun⟩

/-- After a wait nothing new is known, and one that was interrupted fails with the error it was
given. -/
def AfterWait (base : List (Entry interface Nat)) (all : List Attempt) (error : ModelError)
    (waited : Except ModelDriverFailure Unit) (t : List (Entry interface Nat)) : Prop :=
  match waited with
  | .ok () => Since base all t
  | .error failure => failure.error = error ∧ ∃ newer, t = newer ++ base ∧ attempts newer = all

theorem since_waitForRetry {awaiter : Action Unit}
    (hawait : awaiter.Uses fun o : Op ↦ o.aside = true)
    (deadline : EffectiveDeadline) (delay : Nat) (error : ModelError) (ht : Since base all t) :
    observer.wp (waitForRetry awaiter deadline delay error)
      (.ofReturned (AfterWait base all error)) t := by
  refine observer.wp_stable_bind (since_stable rfl) ht fun now t₁ ht₁ ↦ ?_
  split
  · trivial
  rename_i retryAt _
  refine observer.wp_iterate (fun _ t' ↦ Since base all t') ht₁ fun _ t₂ ht₂ ↦ ?_
  refine observer.wp_call_bind_of trivial fun n polled _ ↦ ?_
  obtain ⟨newer, hnewer, hattempts, hquiet⟩ := ht₂.pollRetry deadline.instant retryAt n polled
  -- An interrupted wait reports the error of the last attempt.
  cases polled with
  | cancelled => exact ⟨rfl, newer, hnewer, hattempts⟩
  | expired => exact ⟨rfl, newer, hnewer, hattempts⟩
  | ready => exact hquiet rfl
  | panicked =>
    exact observer.wp_uses_bind (fun _ ho ↦ since_stable ho) hawait (hquiet rfl)
      fun _ t₃ ht₃ ↦ ht₃
  | pending =>
    exact observer.wp_uses_bind (fun _ ho ↦ since_stable ho) hawait (hquiet rfl)
      fun _ t₃ ht₃ ↦ ht₃

/-! ### Attempts -/

/-- The state after the start of an attempt. -/
def AfterStart (base : List (Entry interface Nat)) (all : List Attempt)
    (started : Except AttemptFailure Unit) (t : List (Entry interface Nat)) : Prop :=
  match started with
  | .ok () => Since base (⟨false, none⟩ :: all) t
  | .error failure => ∃ attempt, Since base (attempt :: all) t ∧ attempt.Fails failure

theorem since_start {awaiter : Action Unit} (hawait : awaiter.Uses fun o : Op ↦ o.aside = true)
    (deadline : EffectiveDeadline) (ht : Since base (⟨false, none⟩ :: all) t) :
    observer.wp (Prog.iterate (fun _ : Unit ↦ ModelDriver.pollStartCall awaiter deadline) ())
      (.ofReturned (AfterStart base all)) t := by
  refine observer.wp_iterate (fun _ t' ↦ Since base (⟨false, none⟩ :: all) t') ht fun _ t₁ ht₁ ↦ ?_
  refine observer.wp_call_bind_of trivial fun n polled _ ↦ ?_
  have hcons {attempt : Attempt}
      (hafter : ∀ call : ModelCall, call.attempt = ⟨false, none⟩ →
        (call.after ⟨.pollStart deadline.instant, n, polled⟩).attempt = attempt) :
      Since base (attempt :: all) (⟨.pollStart deadline.instant, n, polled⟩ :: t₁) :=
    ht₁.cons rfl rfl hafter
  -- An adapter's error is reported as it is; every other failure is the driver's own.
  cases polled with
  | cancelled => exact ⟨_, hcons fun _ hcall ↦ hcall, .of_generated⟩
  | expired => exact ⟨_, hcons fun _ hcall ↦ hcall, .of_generated⟩
  | panicked => exact ⟨_, hcons fun _ hcall ↦ hcall, .of_generated⟩
  | pending =>
    exact observer.wp_uses_bind (fun _ ho ↦ since_stable ho) hawait (hcons fun _ hcall ↦ hcall)
      fun _ t₂ ht₂ ↦ ht₂
  | ready result =>
    cases result with
    | ok => exact hcons fun _ hcall ↦ hcall
    | error error =>
      refine ⟨⟨false, some error⟩, hcons fun call hcall ↦ ?_, rfl, nofun, fun _ ↦ rfl⟩
      exact congrArg (Attempt.mk · (some error)) (congrArg Attempt.observed hcall)

/-- The state after an attempt. -/
def AfterAttempt (base : List (Entry interface Nat)) (all : List Attempt)
    (result : Except AttemptFailure α) (t : List (Entry interface Nat)) : Prop :=
  ∃ attempt, Since base (attempt :: all) t ∧
    ∀ failure, result = .error failure → attempt.Fails failure

theorem AfterAttempt.of_error {attempt : Attempt} {failure : AttemptFailure}
    (ht : Since base (attempt :: all) t) (hfails : attempt.Fails failure) :
    AfterAttempt base all (.error failure : Except AttemptFailure α) t := by
  refine ⟨attempt, ht, ?_⟩
  rintro _ ⟨⟩
  exact hfails

variable [SerdeJson]

/-- A poll of the stream of an attempt. -/
theorem since_pollEvent {awaiter : Action Unit}
    (hawait : awaiter.Uses fun o : Op ↦ o.aside = true) (deadline : EffectiveDeadline)
    (assembler : Assembler) (ht : Since base (⟨assembler.observedEvent, none⟩ :: all) t) :
    observer.wp (ModelDriver.pollEvent awaiter deadline assembler)
      (.ofReturned fun x t' ↦ x.elim
        (fun assembler ↦ Since base (⟨assembler.observedEvent, none⟩ :: all) t')
        fun result ↦ AfterAttempt base all result t') t := by
  refine observer.wp_call_bind_of trivial fun n polled _ ↦ ?_
  have hcons {attempt : Attempt}
      (hafter : ∀ call : ModelCall, call.attempt = ⟨assembler.observedEvent, none⟩ →
        (call.after ⟨.pollStream deadline.instant, n, polled⟩).attempt = attempt) :
      Since base (attempt :: all) (⟨.pollStream deadline.instant, n, polled⟩ :: t) :=
    ht.cons rfl rfl hafter
  rcases polled with - | - | (- | (error | event)) | - | -
  · exact .of_error (hcons fun _ hcall ↦ hcall) .of_generated
  · exact .of_error (hcons fun _ hcall ↦ hcall) .of_generated
  · -- The stream has ended.
    have hsame := hcons fun _ hcall ↦ hcall
    dsimp only
    split
    · trivial
    · exact ⟨_, hsame, fun _ h ↦ absurd h (by simp)⟩
    · rename_i error hfinish
      obtain ⟨hdelivery, hdelivered⟩ := Assembler.finish_error hfinish
      exact .of_error hsame ⟨rfl, hdelivered, fun h ↦ absurd h hdelivery⟩
  · refine .of_error (hcons fun call hcall ↦ ?_) (.of_stream _ error)
    exact congrArg (Attempt.mk · (some error)) (congrArg Attempt.observed hcall)
  · -- From now on an event was observed.
    have hseen := hcons fun call hcall ↦ call.attempt_event event deadline.instant n
      (Option.map_eq_none_iff.mp (congrArg Attempt.reported hcall))
    dsimp only
    split
    · rename_i error hpush
      have hdelivered := Assembler.push_error hpush
      exact .of_error hseen ⟨rfl, fun _ ↦ hdelivered, fun h ↦ absurd h hdelivered.ne_notStarted⟩
    · rename_i assembler' hpush
      have hobserved : assembler'.observedEvent = true := Assembler.push_observed hpush
      show Since base (⟨assembler'.observedEvent, none⟩ :: all) _
      rw [hobserved]
      exact hseen
    · rename_i progress assembler' hpush
      have hobserved : assembler'.observedEvent = true := Assembler.push_observed hpush
      refine observer.wp_stable_bind (since_stable rfl) hseen fun _ t₁ ht₁ ↦ ?_
      refine observer.wp_uses_bind (fun _ ho ↦ since_stable ho) hawait ht₁ fun _ t₂ ht₂ ↦ ?_
      show Since base (⟨assembler'.observedEvent, none⟩ :: all) t₂
      rw [hobserved]
      exact ht₂
  · exact .of_error (hcons fun _ hcall ↦ hcall) .of_generated
  · exact observer.wp_uses_bind (fun _ ho ↦ since_stable ho) hawait (hcons fun _ hcall ↦ hcall)
      fun _ t₁ ht₁ ↦ ht₁

/-- One attempt. -/
theorem since_runAttempt {awaiter : Action Unit}
    (hawait : awaiter.Uses fun o : Op ↦ o.aside = true) (driver : ModelDriver)
    (request : ModelRequest) (context : ModelCallContext) (deadline : EffectiveDeadline)
    (ht : Since base all t) :
    observer.wp (driver.runAttempt awaiter request context deadline)
      (.ofReturned (AfterAttempt base all)) t := by
  refine observer.wp_call_bind_of trivial fun n made _ ↦ ?_
  have hstart := ht.start driver.model request { context with deadline := deadline.instant } n made
  -- The adapter unwound, or its stream is read.
  cases made with
  | false =>
    have hfails : (Attempt.mk false none).Fails
        (.new (generatedError .panicked (observedDelivery false)) false) := .of_generated
    exact .of_error hstart hfails
  | true =>
    refine observer.wp_bind_of (since_start hawait deadline hstart) fun started t₁ ht₁ ↦ ?_
    refine observer.wp_bind_of (Q := AfterAttempt base all) ?_ fun result t₂ ht₂ ↦ ?_
    · cases started with
      | error failure =>
        obtain ⟨attempt, hsince, hfails⟩ := ht₁
        exact .of_error hsince hfails
      | ok =>
        exact observer.wp_iterate
          (fun assembler t' ↦ Since base (⟨assembler.observedEvent, none⟩ :: all) t') ht₁
          fun assembler t' ht' ↦ since_pollEvent hawait deadline assembler ht'
    · -- The stream is dropped, which no attempt sees.
      obtain ⟨attempt, hsince, hfails⟩ := ht₂
      exact observer.wp_stable_bind (since_stable rfl) hsince fun _ t₃ ht₃ ↦ ⟨attempt, ht₃, hfails⟩

/-- What a result says about the attempts since a trace. -/
def Tells (base : List (Entry interface Nat)) (result : Except ModelDriverFailure ModelResponse)
    (t : List (Entry interface Nat)) : Prop :=
  ∀ failure, result = .error failure → ∃ newer, t = newer ++ base ∧ Truthful newer failure

omit [SerdeJson] in
theorem Tells.of_error {failure : ModelDriverFailure}
    (h : ∃ newer, t = newer ++ base ∧ Truthful newer failure) :
    Tells base (.error failure) t := by
  rintro _ ⟨⟩
  exact h

/-- One round of the attempts: nothing was delivered before it, nor after it if there is another. -/
theorem since_attemptRound {awaiter : Action Unit}
    (hawait : awaiter.Uses fun o : Op ↦ o.aside = true) (driver : ModelDriver)
    (request : ModelRequest) (context : ModelCallContext) (deadline : EffectiveDeadline)
    (round : Nat) (ht : Since base all t) (hall : ∀ attempt ∈ all, attempt.Unsent) :
    observer.wp (driver.attemptRound awaiter request context deadline round)
      (.ofReturned fun x t' ↦ x.elim
        (fun _ ↦ ∃ all, Since base all t' ∧ ∀ attempt ∈ all, attempt.Unsent)
        fun result ↦ Tells base result t') t := by
  refine observer.wp_bind_of (since_precheck deadline ht) fun checked t₁ ht₁ ↦ ?_
  cases checked with
  | error failure => exact .of_error (ht₁.truthful_of_unsent hall failure)
  | ok =>
  refine observer.wp_bind_of (since_runAttempt hawait driver request context deadline ht₁) ?_
  rintro result t₂ ⟨attempt, ht₂, hfails⟩
  cases result with
  | ok response => exact fun _ h ↦ absurd h nofun
  | error failure =>
    replace hfails := hfails failure rfl
    refine observer.wp_bind_of
      (since_evaluateRetry driver.retryPolicy round failure deadline.instant ht₂) ?_
    rintro delay t₃ ⟨ht₃, hretry⟩
    cases delay with
    | none =>
      refine .of_error (ht₃.truthful (fun hdelivery ↦ ?_) fun attempt' older heq hobserved ↦ ?_)
      · exact List.forall_mem_cons.mpr ⟨hfails.unsent hdelivery, hall⟩
      · obtain ⟨rfl, -⟩ := List.cons.inj heq
        exact hfails.delivered hobserved
    | some delay =>
      have hdelivery := hretry rfl
      have hunsent : ∀ a ∈ attempt :: all, a.Unsent :=
        List.forall_mem_cons.mpr ⟨hfails.unsent hdelivery, hall⟩
      refine observer.wp_bind_of (since_waitForRetry hawait deadline delay failure.error ht₃) ?_
      rintro waited t₄ hwaited
      cases waited with
      | ok => exact ⟨attempt :: all, hwaited, hunsent⟩
      | error interrupted =>
        -- The wait was interrupted, and its error is the one that the adapter reported.
        obtain ⟨herror, newer, rfl, hattempts⟩ := hwaited
        refine .of_error ⟨newer, rfl, ?_, ?_, fun _ _ _ ↦ ?_⟩
        · rw [hattempts]
          exact fun _ ↦ hunsent
        · rw [hattempts]
          intro attempt' older heq hobserved
          obtain ⟨rfl, -⟩ := List.cons.inj heq
          rw [(hunsent attempt List.mem_cons_self).1] at hobserved
          exact absurd hobserved nofun
        · rw [hattempts, herror]
          exact ⟨attempt, all, rfl, hfails.reported hdelivery⟩

/-- The driver. -/
theorem truthful_runDetailed {awaiter : Action Unit}
    (hawait : awaiter.Uses fun o : Op ↦ o.aside = true) (driver : ModelDriver)
    (request : ModelRequest) (context : ModelCallContext) (base : List (Entry interface Nat)) :
    observer.wp (driver.runDetailed awaiter request context) (.ofReturned (Tells base)) base := by
  refine observer.wp_stable_bind (since_stable rfl) .nil fun found t₁ ht₁ ↦ ?_
  -- Before the first attempt there is nothing to be truthful about.
  have hunsent : ∀ attempt ∈ ([] : List Attempt), attempt.Unsent :=
    fun _ h ↦ absurd h List.not_mem_nil
  cases found with
  | none => exact .of_error (ht₁.truthful_of_unsent hunsent _)
  | some deadline =>
    refine observer.wp_bind_of (since_precheck deadline ht₁) fun checked t₂ ht₂ ↦ ?_
    cases checked with
    | error failure => exact .of_error (ht₂.truthful_of_unsent hunsent failure)
    | ok =>
      dsimp only
      split
      · exact .of_error (ht₂.truthful_of_unsent hunsent _)
      · refine observer.wp_iterate
          (fun _ t' ↦ ∃ all, Since base all t' ∧ ∀ attempt ∈ all, attempt.Unsent)
          ⟨[], ht₂, hunsent⟩ ?_
        rintro round t' ⟨all, ht', hall⟩
        exact since_attemptRound hawait driver request context deadline round ht' hall

/-- The failure of every run of the driver, from any world and under any schedule, says of the
attempts of this run that nothing was delivered only if the adapter said so of each of them before
any stream event. After an event it says that the request was delivered and is not to be sent again.
A wait before a retry that cancellation or the deadline interrupts fails with the error of the
attempt before it. -/
theorem delivery_truthful (driver : ModelDriver) (awaiter : Action Unit)
    (hawait : awaiter.Uses fun o : Op ↦ o.aside = true) (request : ModelRequest)
    (context : ModelCallContext) (w : World) :
    let run := machine.exec (driver.runDetailed awaiter request context) w
    ∀ failure, run.1 = .returned (.error failure) →
      ∃ trace, run.2.trace = trace ++ w.trace ∧
        (failure.error.delivery = .notStarted → ∀ attempt ∈ attempts trace,
          attempt.observed = false ∧
            ∃ error, attempt.reported = some error ∧ error.delivery = .notStarted) ∧
        (∀ attempt older, attempts trace = attempt :: older → attempt.observed = true →
          failure.error.delivery = .started ∧ failure.error.retryHint = .never) ∧
        ∀ e ∈ trace, interruptsBackoff e = true → ∃ attempt older,
          attempts trace = attempt :: older ∧ attempt.reported = some failure.error := by
  intro run failure hreturned
  have hstate : observer.run w.trace = w.trace := Monitor.history_run _ _ _
  have haccepts : observer.Accepts w.trace := by
    induction w.trace with
    | nil => trivial
    | cons e past ih => exact ⟨ih, trivial, trivial⟩
  -- The observer allows everything, so that it accepts any past of the request.
  have hrun := observer.exec_sound machine (World.honours_of_expects fun _ _ _ _ ↦ trivial)
    (driver.runDetailed awaiter request context) (w := w) trivial haccepts (by
      show observer.wp _ _ (observer.run w.trace)
      rw [hstate]
      exact truthful_runDetailed hawait driver request context w.trace)
  have htells := Monitor.Establishes.of_returned _ _ hrun hreturned
  have hafter : observer.run run.2.trace = run.2.trace := Monitor.history_run _ _ _
  obtain ⟨trace, htrace, htruthful⟩ := htells failure rfl
  refine ⟨trace, hafter.symm.trans htrace, htruthful.notStarted,
    fun attempt older heq hobserved ↦ ?_,
    htruthful.interrupted⟩
  have hdelivered := htruthful.observed attempt older heq hobserved
  exact ⟨hdelivered.delivery, hdelivered.retryHint⟩

end

namespace Backoff

/-- A parser that knows no value. -/
instance : SerdeJson := ⟨fun _ ↦ none⟩

/-- An error of an adapter that may be retried. -/
def refused : ModelError :=
  .notStarted .rateLimited none (.boundedStatic .modelUnavailable .model "busy" false (by decide))

/-- The options of the driver. -/
def options : LoopOptions :=
  ⟨none, 0, 16, fromSecs 30, fromSecs 600, fromSecs 30, fromSecs 1800, 2, fromSecs 1, .default⟩

/-- The context of the request. -/
def ctx : LoopCtx := ⟨.ofByte 1 (Eq.refl true), options⟩

/-- The driver. -/
def driver : ModelDriver :=
  ⟨⟨1⟩, ⟨⟨"busy".toList, by decide, by decide⟩, 1000, [.auto], true⟩, fromSecs 600, ⟨2, fromSecs 1⟩,
    .default⟩

/-- The model refuses the first attempt, and the loop is cancelled in the wait before the second. -/
def schedule : List Turn :=
  List.replicate 6 ({} : Turn) ++ [{ reply := .start (.error refused) }] ++
    List.replicate 3 ({} : Turn) ++ [{ host := [.cancel .user, .resume 0] }]

/-- The run of the driver. -/
def run : Outcome (Except ModelDriverFailure ModelResponse) × World :=
  machine.exec (driver.runDetailed (drainProgress ctx 0) ⟨[], [], .default, .auto⟩
    ⟨ctx.id, 0, fromSecs 3600⟩) (.start ctx.id options [] 0 schedule)

end Backoff

open Backoff in
/-- The error of the attempt before the wait is returned. -/
theorem delivery_truthful_backoff : ∃ failure, run.1 = .returned (.error failure) ∧
    (∃ e ∈ run.2.trace, interruptsBackoff e = true) ∧
    (∃ attempt older, attempts run.2.trace = attempt :: older ∧
      attempt.reported = some failure.error) ∧
    ∀ attempt ∈ attempts run.2.trace, attempt.observed = false := by
  have herror : run.1.value?.map (fun
      | .ok _ => false
      | .error failure => failure.error.delivery = .notStarted) = some true := by
    decide +kernel
  obtain ⟨result, hvalue, hdelivery⟩ := Option.map_eq_some_iff.mp herror
  have hreturned := Outcome.value?_eq_some.mp hvalue
  cases result with
  | ok response => exact absurd hdelivery nofun
  | error failure =>
    have hinterrupts : ∃ e ∈ run.2.trace, interruptsBackoff e = true := by
      rw [← List.any_eq_true]
      decide +kernel
    obtain ⟨trace, htrace, hnotStarted, -, hinterrupted⟩ :=
      delivery_truthful driver (drainProgress ctx 0) (aside_drainProgress ctx 0) _ _ _ failure
        hreturned
    obtain rfl : run.2.trace = trace := htrace.trans (List.append_nil trace)
    obtain ⟨e, he, hwait⟩ := hinterrupts
    refine ⟨failure, hreturned, ⟨e, he, hwait⟩, hinterrupted e he hwait, fun attempt hattempt ↦ ?_⟩
    exact (hnotStarted (of_decide_eq_true hdelivery) attempt hattempt).1

end MinicoreRuntime
