import MinicoreRuntime.Runtime.Machine

/-!
# Port calls

One call of a port of the host: under cancellation, under the earlier of the loop's deadline and
the port's timeout, and isolated from its unwinding, both while the future is made and while it is
polled. Dropping the future is not isolated.

## Main definitions

* `PortCallOutcome`, `runPortCall`.
-/

namespace MinicoreRuntime

open Interactive

/-- How a port call ended. -/
inductive PortCallOutcome (port : Port) where
  | returned (result : port.Result)
  | cancelled
  | deadlineExceeded (source : DeadlineSource)
  | invalidDeadline
  | panicked

/-- One poll of a port call; `awaiter` runs while the call is pending. -/
def pollPortCall {port : Port} (awaiter : Action Unit) (call : PortCall port)
    (deadline : EffectiveDeadline) : Action (Unit ⊕ PortCallOutcome port) := do
  match ← perform (.pollPort call deadline.instant) with
  -- The select is biased: the token, then the deadline, then the future.
  | .cancelled => return .inr .cancelled
  | .expired => return .inr (.deadlineExceeded deadline.source)
  | .ready result => return .inr (.returned result)
  | .panicked => return .inr .panicked
  | .pending =>
    awaiter
    return .inl ()

/-- Run a port call made from its deadline. -/
def runPortCall {port : Port} (awaiter : Action Unit) (turnDeadline portTimeout : Nat)
    (make : Nat → PortCall port) : Action (PortCallOutcome port) := do
  if ← perform .isCancelled then
    return .cancelled
  else
    match ← perform (.effectiveDeadline turnDeadline portTimeout) with
    -- The timeout leads past the latest instant.
    | none => return .invalidDeadline
    | some deadline =>
      -- The clock is read once more: the port is not called with a deadline that has come.
      if (← perform .now) ≥ deadline.instant then
        return .deadlineExceeded deadline.source
      else
        let call := make deadline.instant
        if ← perform (.makeFuture call) then
          let outcome ← Prog.iterate (fun _ ↦ pollPortCall awaiter call deadline) ()
          -- The future is dropped outside the isolation, so its destructor may unwind.
          perform .dropFuture
          return outcome
        else
          -- The port unwound before it returned a future.
          return .panicked

end MinicoreRuntime
