import Mathlib.Algebra.Group.Nat.Defs
import Mathlib.Order.Nat
import Mathlib.Tactic.Common

/-!
# Deadlines

Instants of the runtime's monotonic clock, and the deadline of one port call: the earlier of the
loop's deadline and the port's own timeout, together with which of the two it is. Instants and
spans of time are natural numbers of nanoseconds.

## Main definitions

* `checkedAdd`: addition within the clock's range.
* `effectiveDeadlineFrom`: the deadline of a port call started at `now`.
-/

namespace MinicoreRuntime

/-- A number of seconds. -/
def fromSecs (n : Nat) : Nat := n * 1000000000

/-- The longest span of time: its seconds are an unsigned 64-bit number. -/
def maxDuration : Nat := 2 ^ 64 * 1000000000 - 1

/-- Multiply a span of time unless the product is too long. -/
def checkedMul (d n : Nat) : Option Nat :=
  if d * n ≤ maxDuration then some (d * n) else none

/-- The latest instant: its seconds are a signed 64-bit number. -/
def maxInstant : Nat := 2 ^ 63 * 1000000000 - 1

/-- Add a span of time to an instant unless the sum is past the latest instant. -/
def checkedAdd (now d : Nat) : Option Nat :=
  if now + d ≤ maxInstant then some (now + d) else none

/-- Whether a deadline is the loop's or the port's own timeout. -/
inductive DeadlineSource where
  | turn
  | port
deriving DecidableEq, Repr

/-- The deadline of one port call. -/
structure EffectiveDeadline where
  /-- The instant. -/
  instant : Nat
  /-- Where it comes from. -/
  source : DeadlineSource
deriving DecidableEq, Repr

/-- The deadline of a port call started at `now`, or `none` if the port's timeout is past the
latest instant. Equal deadlines count as the loop's. -/
def effectiveDeadlineFrom (now turnDeadline portTimeout : Nat) :
    Option EffectiveDeadline :=
  match checkedAdd now portTimeout with
  | none => none
  | some portDeadline =>
    if turnDeadline ≤ portDeadline then some ⟨turnDeadline, .turn⟩
    else some ⟨portDeadline, .port⟩

/-- A deadline never lies after the loop's. -/
theorem effectiveDeadlineFrom_le {now turnDeadline portTimeout : Nat}
    {d : EffectiveDeadline} (h : effectiveDeadlineFrom now turnDeadline portTimeout = some d) :
    d.instant ≤ turnDeadline := by
  unfold effectiveDeadlineFrom at h
  split at h
  · exact absurd h (by simp)
  · split at h <;> cases h
    · exact le_rfl
    · dsimp only
      omega

/-- The loop's deadline is the effective one only if it lies within the port's timeout. -/
theorem effectiveDeadlineFrom_turn {now turnDeadline portTimeout : Nat}
    {d : EffectiveDeadline} (h : effectiveDeadlineFrom now turnDeadline portTimeout = some d)
    (hsource : d.source = .turn) : d.instant = turnDeadline ∧ turnDeadline ≤ now + portTimeout := by
  unfold effectiveDeadlineFrom checkedAdd at h
  split at h
  · exact absurd h (by simp)
  · rename_i portDeadline hadd
    split at hadd <;> cases hadd
    split at h <;> cases h
    · exact ⟨rfl, by assumption⟩
    · exact absurd hsource (by simp)

end MinicoreRuntime
