import MinicoreRuntime.Runtime.PortCall

/-!
# The model driver

One model request: attempts against the adapter until one returns a response or fails for good,
with a delay before each retry. An attempt starts the model, polls the stream it opens and feeds
its events to the assembler. Whoever runs the driver passes what runs while it waits.

## Main definitions

* `RetryPolicySnapshot`: which failed attempts are retried, and when.
* `ModelDriver`, `ModelDriver.runAttempt`, `ModelDriver.runDetailed`.
-/

namespace MinicoreRuntime

open Interactive

/-! ## Failures -/

/-- A failed request. -/
structure ModelDriverFailure where
  error : ModelError
  deadlineSource : Option DeadlineSource

/-- A failure that no deadline caused. -/
def ModelDriverFailure.ordinary (error : ModelError) : ModelDriverFailure := ⟨error, none⟩

/-- A failure caused by a deadline. -/
def ModelDriverFailure.deadline (error : ModelError) (source : DeadlineSource) :
    ModelDriverFailure := ⟨error, some source⟩

/-- A failed attempt. -/
structure AttemptFailure where
  error : ModelError
  observedEvent : Bool
  deadlineSource : Option DeadlineSource

namespace AttemptFailure

/-- A failure that no deadline caused. -/
def new (error : ModelError) (observedEvent : Bool) : AttemptFailure := ⟨error, observedEvent, none⟩

/-- A failure caused by a deadline. -/
def deadline (error : ModelError) (observedEvent : Bool) (source : DeadlineSource) :
    AttemptFailure := ⟨error, observedEvent, some source⟩

/-- The failure of the request whose last attempt failed. -/
def intoDriverFailure (failure : AttemptFailure) : ModelDriverFailure :=
  ⟨failure.error, failure.deadlineSource⟩

end AttemptFailure

/-- An error of a stream that yielded events is never retryable. -/
def normalizeAfterEvent (error : ModelError) (observedEvent : Bool) : ModelError :=
  if observedEvent && (error.delivery ≠ .started || error.retryHint ≠ .never) then
    .started error.kind error.diagnostic
  else error

/-! ## Retries -/

/-- The retry policy of one request. -/
structure RetryPolicySnapshot where
  maxAttempts : Nat
  baseDelay : Nat

/-- Double the base delay once for each earlier retry, up to the cap. -/
def exponentialDelay (baseDelay : Nat) : Nat → Nat
  | 0 => baseDelay
  | retryIndex + 1 =>
    min ((checkedMul (exponentialDelay baseDelay retryIndex) 2).getD maxModelRetryDelay)
      maxModelRetryDelay

/-- Whether a retry after `delay` would still start before the deadline. -/
def retryFits (deadline delay : Nat) : Action Bool := do
  let now ← perform .now
  return (checkedAdd now delay).any fun retryAt ↦ decide (retryAt < deadline)

namespace RetryPolicySnapshot

/-- The delay before a retry, or `none` where the provider asks for too long a one. -/
def delayForRetry (policy : RetryPolicySnapshot) (retryIndex : Nat) (retryAfter : Option Nat) :
    Option Nat :=
  let exponential := exponentialDelay policy.baseDelay retryIndex
  match retryAfter with
  | some value => if value > maxModelRetryDelay then none else some (max value exponential)
  | none => some exponential

/-- The delay before the retry of a failed attempt, or `none` where it is not retried. -/
def evaluateRetry (policy : RetryPolicySnapshot) (attempt : Nat) (failure : AttemptFailure)
    (deadline : Nat) : Action (Option Nat) :=
  -- Nothing is retried that may have reached the provider, or that the host has seen.
  if attempt + 1 ≥ policy.maxAttempts || failure.observedEvent
      || failure.error.delivery ≠ .notStarted then
    return none
  else
    match failure.error.retryHint with
    | .never => return none
    | .retryable retryAfter =>
      match policy.delayForRetry attempt retryAfter with
      | none => return none
      | some delay => do
        if ← retryFits deadline delay then
          return some delay
        else
          return none

end RetryPolicySnapshot

/-- One poll of the wait before a retry. -/
def pollWait (awaiter : Action Unit) (deadline : EffectiveDeadline) (retryAt : Nat)
    (error : ModelError) : Action (Unit ⊕ Except ModelDriverFailure Unit) := do
  match ← perform (.pollRetry deadline.instant retryAt) with
  -- The failure of the attempt is what is reported, with the deadline as its cause if it is one.
  | .cancelled => return .inr (.error ⟨error, none⟩)
  | .expired => return .inr (.error ⟨error, some deadline.source⟩)
  | .ready _ => return .inr (.ok ())
  | .panicked | .pending =>
    awaiter
    return .inl ()

/-- Wait before a retry. -/
def waitForRetry (awaiter : Action Unit) (deadline : EffectiveDeadline) (delay : Nat)
    (error : ModelError) : Action (Except ModelDriverFailure Unit) := do
  match checkedAdd (← perform .now) delay with
  | none => .panic
  | some retryAt => Prog.iterate (fun _ ↦ pollWait awaiter deadline retryAt error) ()

/-! ## The driver -/

/-- The check made before a request and before each attempt. -/
def precheck (deadline : EffectiveDeadline) : Action (Except ModelDriverFailure Unit) := do
  if ← perform .isCancelled then
    return .error (.ordinary (generatedError .cancelled .notStarted))
  -- A deadline that has come is a timeout, and nothing was started.
  else if (← perform .now) ≥ deadline.instant then
    return .error (.deadline (generatedError .timeout .notStarted) deadline.source)
  else
    return .ok ()

/-- The driver of one request. -/
structure ModelDriver where
  model : ModelHandle
  descriptor : ModelDescriptor
  modelCallTimeout : Nat
  retryPolicy : RetryPolicySnapshot
  limits : LoopLimits

namespace ModelDriver

/-- The check of a request against the model's descriptor. -/
def validateRequest (driver : ModelDriver) (request : ModelRequest) : Except ModelError Unit :=
  let invalid := generatedError .invalidRequest .notStarted
  if !driver.descriptor.supportsReasoning request.reasoning then .error invalid
  else if !request.tools.isEmpty && !driver.descriptor.supportsTools then .error invalid
  else if request.limits.contextWindowTokens.any fun limit ↦
      decide (limit.toNat > driver.descriptor.contextWindow) then
    .error invalid
  else .ok ()

/-- One poll of the future of `Model::start`. -/
def pollStartCall (awaiter : Action Unit) (deadline : EffectiveDeadline) :
    Action (Unit ⊕ Except AttemptFailure Unit) := do
  match ← perform (.pollStart deadline.instant) with
  -- The start was polled, so the provider may have seen the request.
  | .cancelled => return .inr (.error (.new (generatedError .cancelled .unknown) false))
  | .expired =>
    return .inr (.error (.deadline (generatedError .timeout .unknown) false deadline.source))
  | .ready (.ok ()) => return .inr (.ok ())
  | .ready (.error error) => return .inr (.error (.new error false))
  | .panicked => return .inr (.error (.new (generatedError .panicked .unknown) false))
  | .pending =>
    awaiter
    return .inl ()

variable [SerdeJson]

/-- One poll of the stream of an attempt. -/
def pollEvent (awaiter : Action Unit) (deadline : EffectiveDeadline) (assembler : Assembler) :
    Action (Assembler ⊕ Except AttemptFailure ModelResponse) := do
  let observed := assembler.observedEvent
  match ← perform (.pollStream deadline.instant) with
  | .cancelled =>
    return .inr (.error (.new (generatedError .cancelled (observedDelivery observed)) observed))
  | .expired =>
    return .inr (.error (.deadline (generatedError .timeout (observedDelivery observed)) observed
      deadline.source))
  | .ready (some (.ok event)) =>
    -- An event counts as observed even where the assembler refuses it.
    match { assembler with observedEvent := true }.push event with
    | .error error => return .inr (.error (.new error true))
    | .ok (none, assembler) => return .inl assembler
    | .ok (some progress, assembler) =>
      perform (.offerProgress progress)
      -- Yield, so that the delta is forwarded before the next event is polled.
      awaiter
      return .inl assembler
  -- What the adapter says of a retry is overruled once events were observed.
  | .ready (some (.error error)) =>
    return .inr (.error (.new (normalizeAfterEvent error observed) observed))
  -- The stream has ended: the response is complete, or the call fails.
  | .ready none =>
    match assembler.finish with
    | none => .panic
    | some (.ok response) => return .inr (.ok response)
    | some (.error error) => return .inr (.error (.new error observed))
  | .panicked =>
    return .inr (.error (.new (generatedError .panicked (observedDelivery observed)) observed))
  | .pending =>
    awaiter
    return .inl assembler

/-- The response of a stream, once the start has answered. -/
def readStream (awaiter : Action Unit) (driver : ModelDriver) (request : ModelRequest)
    (deadline : EffectiveDeadline) : Except AttemptFailure Unit →
    Action (Except AttemptFailure ModelResponse)
  | .error failure => return .error failure
  | .ok () => Prog.iterate (pollEvent awaiter deadline) (.new request.tools driver.limits)

/-- One attempt. -/
def runAttempt (awaiter : Action Unit) (driver : ModelDriver) (request : ModelRequest)
    (context : ModelCallContext) (deadline : EffectiveDeadline) :
    Action (Except AttemptFailure ModelResponse) := do
  if ← perform (.startModel driver.model request { context with deadline := deadline.instant }) then
    let stream ← Prog.iterate (fun _ ↦ pollStartCall awaiter deadline) ()
    let result ← readStream awaiter driver request deadline stream
    -- The stream is dropped however the attempt ended.
    perform .dropStream
    return result
  else
    -- The adapter unwound before it made the future of the start.
    return .error (.new (generatedError .panicked .unknown) false)

/-- One round of the attempts. -/
def attemptRound (awaiter : Action Unit) (driver : ModelDriver) (request : ModelRequest)
    (context : ModelCallContext) (deadline : EffectiveDeadline) (attempt : Nat) :
    Action (Nat ⊕ Except ModelDriverFailure ModelResponse) := do
  -- Every attempt is checked, the first one for the second time.
  match ← precheck deadline with
  | .error failure => return .inr (.error failure)
  | .ok () =>
    match ← runAttempt awaiter driver request context deadline with
    | .ok response => return .inr (.ok response)
    | .error failure =>
      match ← driver.retryPolicy.evaluateRetry attempt failure deadline.instant with
      -- The last attempt's failure is the failure of the request.
      | none => return .inr (.error failure.intoDriverFailure)
      | some delay =>
        match ← waitForRetry awaiter deadline delay failure.error with
        | .error failure => return .inr (.error failure)
        | .ok () => return .inl (attempt + 1)

/-- Run a request. -/
def runDetailed (awaiter : Action Unit) (driver : ModelDriver) (request : ModelRequest)
    (context : ModelCallContext) : Action (Except ModelDriverFailure ModelResponse) := do
  match ← perform (.effectiveDeadline context.deadline driver.modelCallTimeout) with
  | none => return .error (.ordinary (generatedError .invalidRequest .notStarted))
  | some deadline =>
    match ← precheck deadline with
    | .error failure => return .error failure
    | .ok () =>
      match driver.validateRequest request with
      | .error error => return .error (.ordinary error)
      | .ok () => Prog.iterate (attemptRound awaiter driver request context deadline) 0

end ModelDriver

end MinicoreRuntime
