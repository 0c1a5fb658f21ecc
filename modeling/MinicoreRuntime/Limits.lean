import MinicoreRuntime.Value
import MinicoreRuntime.Time

/-!
# Limits and options

The safety ceilings of one loop and its options, with the checks `AgentLoop::start` makes.

## Main definitions

* `LoopLimits`, `LoopLimits.validate`.
* `LoopOptions`, `LoopOptions.validate`.
-/

namespace MinicoreRuntime

/-- The absolute cap on the tool calls of one response. -/
def maxToolCallsPerResponse : Nat := 64

/-- The absolute cap on the length of a tool name. -/
def maxToolNameBytes : Nat := 64

/-- The safety ceilings of one loop. -/
structure LoopLimits where
  maxUserInputBytes : Nat
  maxModelTextBytes : Nat
  maxModelReasoningBytes : Nat
  maxToolCallsPerResponse : Nat
  maxToolNameBytes : Nat
  maxToolSchemaBytes : Nat
  maxToolArgumentsBytes : Nat
  maxToolOutputBytes : Nat
deriving DecidableEq, Repr

namespace LoopLimits

/-- The largest ceilings. -/
def default : LoopLimits where
  maxUserInputBytes := BoundedText.maxBytes
  maxModelTextBytes := BoundedText.maxBytes
  maxModelReasoningBytes := BoundedText.maxBytes
  maxToolCallsPerResponse := MinicoreRuntime.maxToolCallsPerResponse
  maxToolNameBytes := MinicoreRuntime.maxToolNameBytes
  maxToolSchemaBytes := maxJsonBytes
  maxToolArgumentsBytes := maxJsonBytes
  maxToolOutputBytes := BoundedText.maxBytes

/-- Every ceiling is positive and at most its absolute cap. -/
def validate (limits : LoopLimits) : Bool :=
  let outOfBounds (value cap : Nat) : Bool := value == 0 || decide (value > cap)
  !(outOfBounds limits.maxUserInputBytes BoundedText.maxBytes
    || outOfBounds limits.maxModelTextBytes BoundedText.maxBytes
    || outOfBounds limits.maxModelReasoningBytes BoundedText.maxBytes
    || outOfBounds limits.maxToolCallsPerResponse MinicoreRuntime.maxToolCallsPerResponse
    || outOfBounds limits.maxToolNameBytes MinicoreRuntime.maxToolNameBytes
    || outOfBounds limits.maxToolSchemaBytes maxJsonBytes
    || outOfBounds limits.maxToolArgumentsBytes maxJsonBytes
    || outOfBounds limits.maxToolOutputBytes BoundedText.maxBytes)

/-- What validation establishes of the ceilings on model output and tool results. -/
structure Caps (limits : LoopLimits) : Prop where
  text : limits.maxModelTextBytes ≤ maxTextBytes
  reasoning : limits.maxModelReasoningBytes ≤ maxTextBytes
  calls : limits.maxToolCallsPerResponse ≤ 64
  arguments : limits.maxToolArgumentsBytes ≤ maxJsonBytes
  output : limits.maxToolOutputBytes ≤ maxTextBytes

theorem caps_of_validate {limits : LoopLimits} (h : limits.validate = true) : limits.Caps := by
  simp only [validate, Bool.not_eq_true', Bool.or_eq_false_iff, decide_eq_false_iff_not,
    beq_eq_false_iff_ne, not_lt, gt_iff_lt] at h
  obtain ⟨⟨⟨⟨⟨⟨⟨-, h₂⟩, h₃⟩, h₄⟩, -⟩, -⟩, h₇⟩, h₈⟩ := h
  exact ⟨h₂.2, h₃.2, h₄.2, h₇.2, h₈.2⟩

end LoopLimits

/-- The absolute cap on the budget of tool rounds. -/
def maxToolRounds : Nat := 1024

/-- The absolute cap on the capacity of the event queue. -/
def maxEventCapacity : Nat := 4096

/-- The absolute cap on model attempts. -/
def maxModelRetryAttempts : Nat := 4

/-- The absolute cap on the timeout of a model call. -/
def maxModelCallTimeout : Nat := fromSecs (24 * 60 * 60)

/-- The absolute cap on the delay before a retry. -/
def maxModelRetryDelay : Nat := fromSecs 30

/-- The options of one loop. -/
structure LoopOptions where
  deadline : Option Nat
  /-- Zero disables the round limit. -/
  maxToolRounds : Nat
  eventCapacity : Nat
  promptTimeout : Nat
  modelTimeout : Nat
  policyTimeout : Nat
  toolTimeout : Nat
  modelRetryAttempts : Nat
  modelRetryBaseDelay : Nat
  limits : LoopLimits
deriving DecidableEq, Repr

/-- The check of the options at the instant `now`. -/
def LoopOptions.validate (options : LoopOptions) (now : Nat) : Bool :=
  !(decide (options.maxToolRounds > MinicoreRuntime.maxToolRounds)
    || !(decide (1 ≤ options.eventCapacity) && decide (options.eventCapacity ≤ maxEventCapacity))
    || options.promptTimeout == 0
    || options.modelTimeout == 0
    || decide (options.modelTimeout > maxModelCallTimeout)
    || options.policyTimeout == 0
    || options.toolTimeout == 0
    || options.modelRetryAttempts == 0
    || decide (options.modelRetryAttempts > maxModelRetryAttempts)
    || options.modelRetryBaseDelay == 0
    || decide (options.modelRetryBaseDelay > maxModelRetryDelay)
    || options.deadline.any fun deadline ↦ decide (deadline ≤ now))
  && options.limits.validate

theorem LoopOptions.limits_of_validate {options : LoopOptions} {now : Nat}
    (h : options.validate now = true) : options.limits.validate = true := by
  simp only [LoopOptions.validate, Bool.and_eq_true] at h
  exact h.2

theorem LoopOptions.attempts_of_validate {options : LoopOptions} {now : Nat}
    (h : options.validate now = true) : 0 < options.modelRetryAttempts := by
  simp only [LoopOptions.validate, Bool.and_eq_true, Bool.not_eq_true', Bool.or_eq_false_iff,
    beq_eq_false_iff_ne] at h
  omega

end MinicoreRuntime
