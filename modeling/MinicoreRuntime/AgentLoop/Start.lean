import MinicoreRuntime.AgentLoop.Session

/-!
# The start of a loop

What `AgentLoop::start` checks before it spawns the runner, in order: the runtime, the options, the
configuration and the input, and then the identifier of the loop and its event queue.

## Main definitions

* `LoopOptions.default`, `LoopOptions.defaultChecked`: the options to start from.
* `randomNonzeroBytes`: identifiers from a random source.
* `AgentLoop.start`: what a loop is started with, or why it is not.

## Main results

* `start_eq_ok`: the loops that start.
-/

namespace MinicoreRuntime

/-! ## Options -/

/-- The ways a loop does not start. -/
inductive LoopStartError where
  | noTokioRuntime
  | invalidOptions
  | invalidConfig
  | invalidInput
  | idGeneration
deriving DecidableEq, Repr

/-- A duration in milliseconds. -/
def fromMillis (n : Nat) : Nat := n * 1000000

/-- The options to start from. -/
def LoopOptions.default : LoopOptions where
  deadline := none
  maxToolRounds := 0
  eventCapacity := 256
  promptTimeout := fromSecs 30
  modelTimeout := fromSecs (10 * 60)
  policyTimeout := fromSecs 30
  toolTimeout := fromSecs (30 * 60)
  modelRetryAttempts := 2
  modelRetryBaseDelay := fromMillis 100
  limits := .default

/-- The options to start from, checked at the instant `now`. -/
def LoopOptions.defaultChecked (now : Nat) : Except LoopStartError LoopOptions :=
  if LoopOptions.default.validate now then .ok .default else .error .invalidOptions

/-- The options to start from are valid at every instant. -/
theorem LoopOptions.defaultChecked_eq_ok (now : Nat) : defaultChecked now = .ok .default :=
  if_pos rfl

/-! ## Events -/

/-- The way the event queue is not made. -/
inductive EventSinkError where
  | invalidCapacity
deriving DecidableEq, Repr

/-- An event queue of the given capacity. -/
def LoopEventSink.channel (capacity : Nat) : Except EventSinkError LoopEvents :=
  if capacity = 0 ∨ capacity > maxEventCapacity then .error .invalidCapacity
  else .ok (.channel capacity)

/-- Valid options have a capacity that is accepted. -/
theorem LoopEventSink.channel_of_validate {options : LoopOptions} {now : Nat}
    (h : options.validate now = true) :
    channel options.eventCapacity = .ok (.channel options.eventCapacity) := by
  refine if_neg ?_
  simp only [LoopOptions.validate, Bool.and_eq_true, Bool.not_eq_true', Bool.or_eq_false_iff,
    Bool.not_eq_false', decide_eq_true_eq] at h
  omega

/-! ## Identifiers -/

/-- The way an identifier is not generated. -/
inductive RandomError where
  | entropyUnavailable
deriving DecidableEq, Repr

/-- Fill 16 bytes until they are not all zero. The random source fills in what is listed, and fails
where `none` is; it is asked again after zeros only. -/
def randomNonzeroBytes : List (Option (Vector UInt8 16)) → Option (Except RandomError LoopId)
  | [] => none
  | none :: _ => some (.error .entropyUnavailable)
  | some bytes :: rest =>
    if h : (bytes.toList.any fun b ↦ b != 0) = true then some (.ok ⟨bytes, h⟩)
    else randomNonzeroBytes rest

/-! ## The start -/

/-- What a start finds: whether it runs on a runtime, the clock, and the random source. -/
structure Surroundings where
  runtime : Bool
  now : Nat
  entropy : List (Option (Vector UInt8 16))

/-- Check what a loop is started with. There is no answer where the random source has none. -/
def AgentLoop.start (found : Surroundings) (request : LoopRequest) (options : LoopOptions) :
    Option (Except LoopStartError Setup) :=
  if !found.runtime then some (.error .noTokioRuntime)
  else if !options.validate found.now then some (.error .invalidOptions)
  else match request.config.validateAgainstLimits options.limits with
  | .error _ => some (.error .invalidConfig)
  | .ok () =>
    let inputBytes := byteLen request.input.asText
    if inputBytes == 0 || decide (inputBytes > options.limits.maxUserInputBytes) then
      some (.error .invalidInput)
    else (randomNonzeroBytes found.entropy).map fun generated ↦
      match generated with
      | .error _ => .error .idGeneration
      | .ok id =>
        match LoopEventSink.channel options.eventCapacity with
        | .error _ => .error .invalidOptions
        | .ok _ => .ok ⟨⟨id, options⟩, request⟩

/-- What is known of a loop that started. -/
structure Setup.Checked (setup : Setup) (now : Nat) : Prop where
  options : setup.ctx.options.validate now = true
  config : setup.request.config.validateAgainstLimits setup.ctx.options.limits = .ok ()
  nonempty : setup.request.input.asText ≠ []
  input : byteLen setup.request.input.asText ≤ setup.ctx.options.limits.maxUserInputBytes

/-- A loop starts on a runtime, with an identifier, if everything it is started with is checked. -/
theorem AgentLoop.start_eq_ok {found : Surroundings} {request : LoopRequest}
    {options : LoopOptions} {setup : Setup} :
    AgentLoop.start found request options = some (.ok setup) ↔
      setup.request = request ∧ setup.ctx.options = options ∧ setup.Checked found.now ∧
        found.runtime = true ∧ randomNonzeroBytes found.entropy = some (.ok setup.ctx.id) := by
  unfold AgentLoop.start
  constructor
  · -- The checks in the order of the code, each of which may refuse.
    intro h
    split at h
    · simp at h
    rename_i hruntime
    split at h
    · simp at h
    rename_i hoptions
    split at h
    · simp at h
    rename_i hconfig
    dsimp only at h
    split at h
    · simp at h
    rename_i hinput
    obtain ⟨generated, hgenerated, hsetup⟩ := Option.map_eq_some_iff.mp h
    split at hsetup
    · simp at hsetup
    rename_i id
    have hvalid : options.validate found.now = true := by simpa using hoptions
    rw [LoopEventSink.channel_of_validate hvalid] at hsetup
    obtain rfl := Except.ok.inj hsetup
    simp only [Bool.or_eq_true, beq_iff_eq, decide_eq_true_eq, not_or, Nat.not_lt, gt_iff_lt]
      at hinput
    refine ⟨rfl, rfl, ⟨hvalid, hconfig, ?_, hinput.2⟩, by simpa using hruntime, hgenerated⟩
    exact fun hempty ↦ hinput.1 (byteLen_eq_zero.mpr hempty)
  · -- Nothing refuses, and the channel for events has a capacity.
    rintro ⟨rfl, rfl, hchecked, hruntime, hgenerated⟩
    have hinput : (byteLen setup.request.input.asText == 0 ||
        decide (byteLen setup.request.input.asText >
          setup.ctx.options.limits.maxUserInputBytes)) = false := by
      rw [Bool.or_eq_false_iff, beq_eq_false_iff_ne, decide_eq_false_iff_not]
      exact ⟨fun h ↦ hchecked.nonempty (byteLen_eq_zero.mp h), Nat.not_lt.mpr hchecked.input⟩
    rw [hruntime, hchecked.options, hchecked.config]
    dsimp only
    rw [hinput, hgenerated]
    simp only [Bool.not_true, Bool.false_eq_true, if_false, Option.map_some]
    rw [LoopEventSink.channel_of_validate hchecked.options]

end MinicoreRuntime
