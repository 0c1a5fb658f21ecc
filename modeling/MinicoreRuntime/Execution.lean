import MinicoreRuntime.History

/-!
# Execution configurations

The capabilities one request runs with: the model, its tools, the policy and the prompt provider,
replaced as a whole between requests. The model, the policy and the provider are handles; what they
do is up to the environment of a run.

## Main definitions

* `ConfigRevision.initial`, `ConfigRevision.next`: revisions, as 64-bit numbers.
* `ExecutionConfig`, `ExecutionConfig.new`, `ExecutionConfig.validateAgainstLimits`.
* `ExecutionConfig.Fits`: a configuration is within the limits.
-/

namespace MinicoreRuntime

/-- The host's implementation of a prompt provider. -/
structure PromptHandle where
  id : Nat
deriving DecidableEq, Repr

/-- The revision of the configuration a loop starts with. -/
def ConfigRevision.initial : Nat := 0

/-- The next revision, at most the largest 64-bit number. -/
def ConfigRevision.next (revision : Nat) : Nat := min (revision + 1) (2 ^ 64 - 1)

theorem ConfigRevision.le_next {revision : Nat} (h : revision ≤ 2 ^ 64 - 1) :
    revision ≤ next revision := by
  unfold next
  omega

theorem ConfigRevision.next_le (revision : Nat) : next revision ≤ 2 ^ 64 - 1 := by
  unfold next
  omega

/-- The ways a configuration is malformed. -/
inductive ExecutionConfigError where
  | modelDescriptorPanicked
  | invalidDescriptor
  | unsupportedReasoning
  | toolsUnsupported
  | invalidTools
deriving DecidableEq, Repr

/-- The check of a configuration's parts against the model's descriptor. -/
def ExecutionConfig.validParts (descriptor : ModelDescriptor) (reasoning : ReasoningPreference)
    (tools : ToolSet) : Bool :=
  descriptor.validate && descriptor.supportsReasoning reasoning &&
    (tools.specs.isEmpty || descriptor.supportsTools)

/-- The capabilities one request runs with. -/
structure ExecutionConfig where
  model : ModelHandle
  descriptor : ModelDescriptor
  reasoning : ReasoningPreference
  tools : ToolSet
  policy : Option PolicyHandle
  prompt : PromptHandle
  /-- The parts fit the descriptor. -/
  valid : ExecutionConfig.validParts descriptor reasoning tools = true

namespace ExecutionConfig

/-- Check a configuration. The descriptor is `none` where the model panics when asked for it. -/
def new (model : ModelHandle) (descriptor : Option ModelDescriptor)
    (reasoning : ReasoningPreference) (tools : ToolSet) (policy : Option PolicyHandle)
    (prompt : PromptHandle) : Except ExecutionConfigError ExecutionConfig :=
  match descriptor with
  | none => .error .modelDescriptorPanicked
  | some descriptor =>
    if h : validParts descriptor reasoning tools = true then
      .ok ⟨model, descriptor, reasoning, tools, policy, prompt, h⟩
    else if !descriptor.validate then .error .invalidDescriptor
    else if !descriptor.supportsReasoning reasoning then .error .unsupportedReasoning
    else .error .toolsUnsupported

/-- The check of a configuration against a loop's ceilings. -/
def validateAgainstLimits (config : ExecutionConfig) (limits : LoopLimits) :
    Except ExecutionConfigError Unit :=
  if config.tools.specs.all fun spec ↦
      (spec.validateForBindings limits.maxToolNameBytes limits.maxToolSchemaBytes).toBool then
    .ok ()
  else .error .invalidTools

/-- A configuration is within the limits of a loop. -/
def Fits (limits : LoopLimits) (config : ExecutionConfig) : Prop :=
  config.validateAgainstLimits limits = .ok ()

end ExecutionConfig

end MinicoreRuntime
