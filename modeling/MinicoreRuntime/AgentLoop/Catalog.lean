import MinicoreRuntime.ToolSet
import MinicoreRuntime.AgentLoop.Runner
import MinicoreRuntime.Model.Assembly

/-!
# Frozen catalogues

A request of the runner is built without the check of its catalogue, and a batch looks its tools up
without a fallback. Both rest on the catalogue being one the builder froze: it is in order, and the
assembler accepts calls of its tools only.

## Main definitions

* `Assembler.Offered`: the calls of an assembler name tools of the request.
* `enabledBatch`: a batch whose tools were looked up beforehand.

## Main results

* `offered_of_assemble`: the calls of an accepted response name tools of the request.
* `runToolBatch_eq_enabledBatch`: where every tool is found, a batch does not use the fallback.
* `catalog_coherent`: what follows for every set the builder freezes.
-/

namespace MinicoreRuntime

/-! ## Requests -/

/-- Over an ordered catalogue the two constructors of a request agree. -/
theorem buildModelRequest_eq_new {config : ExecutionConfig} (h : config.tools.Coherent)
    (messages : List ModelMessage) :
    buildModelRequest messages config =
      ModelRequest.new messages config.tools.specs .default config.reasoning := by
  rw [buildModelRequest, ModelRequest.new, outOfOrder_of_increasing h.ordered]
  rfl

/-- A driver of the configuration's model accepts every request built for it. -/
theorem validateRequest_of_build {config : ExecutionConfig} {driver : ModelDriver}
    (hdriver : driver.descriptor = config.descriptor) {messages : List ModelMessage}
    {request : ModelRequest} (hbuild : buildModelRequest messages config = .ok request) :
    driver.validateRequest request = .ok () := by
  obtain ⟨-, -, rfl⟩ := ModelRequest.withValidatedTools_eq_ok.mp hbuild
  have hvalid := config.valid
  simp only [ExecutionConfig.validParts, Bool.and_eq_true, Bool.or_eq_true] at hvalid
  obtain ⟨⟨-, hreasoning⟩, htools⟩ := hvalid
  rw [ModelDriver.validateRequest, hdriver]
  -- The limits of a request built by the runner are empty.
  rcases htools with htools | htools <;>
    simp [hreasoning, htools, ModelLimits.default]

/-! ## Calls -/

/-- A call being assembled names a tool of the request, as does the call it completes to. -/
def ToolAssembly.Offered (specs : List ToolSpec) (tool : ToolAssembly) : Prop :=
  ToolSet.offers specs tool.name = true ∧
    ∀ call, tool.call = some call → ToolSet.offers specs call.name = true

/-- Every call of an assembler names a tool of the request. -/
def Assembler.Offered (specs : List ToolSpec) (a : Assembler) : Prop :=
  a.requestTools = specs ∧ ∀ tool ∈ a.tools, tool.Offered specs

variable {specs : List ToolSpec}

theorem offered_toolMut {tools tools' : List ToolAssembly} {id : ToolCallId}
    {f : ToolAssembly → Except ModelError ToolAssembly} (h : ∀ tool ∈ tools, tool.Offered specs)
    (hf : ∀ tool tool', f tool = .ok tool' → tool.Offered specs → tool'.Offered specs)
    (hmut : toolMut tools id f = .ok tools') : ∀ tool ∈ tools', tool.Offered specs := by
  obtain ⟨before, tool, tool', after, rfl, -, -, htool, rfl⟩ := toolMut_eq_ok.mp hmut
  simp only [List.forall_mem_append, List.forall_mem_cons] at h ⊢
  obtain ⟨hbefore, hoffered, hafter⟩ := h
  exact ⟨hbefore, hf tool tool' htool hoffered, hafter⟩

theorem offered_appendArguments {delta : Text} {tool tool' : ToolAssembly}
    (h : appendArguments delta tool = .ok tool') (hoffered : tool.Offered specs) :
    tool'.Offered specs := by
  obtain ⟨-, -, rfl⟩ := appendArguments_eq_ok.mp h
  exact hoffered

theorem offered_completeCall [SerdeJson] {maximum : Nat} {tool tool' : ToolAssembly}
    (h : completeCall maximum tool = .ok tool') (hoffered : tool.Offered specs) :
    tool'.Offered specs := by
  obtain ⟨-, -, call, -, -, -, hname, -, rfl⟩ := completeCall_eq_ok.mp h
  refine ⟨hoffered.1, fun call' hcall' ↦ ?_⟩
  -- The completed call has the name its start gave.
  obtain rfl := Option.some.inj hcall'
  rw [hname]
  exact hoffered.1

/-- Taking in an event keeps the calls among the tools of the request. -/
theorem Assembler.Offered.push [SerdeJson] {a a' : Assembler} (h : a.Offered specs)
    {event : ModelEvent} {progress : Option ModelDriverProgress}
    (hpush : a.push event = .ok (progress, a')) : a'.Offered specs := by
  obtain ⟨htools, -, -, hafter⟩ := push_frame hpush
  refine ⟨htools.trans h.1, ?_⟩
  generalize a'.tools = tools' at hafter ⊢
  cases hafter with
  | kept => exact h.2
  | started toolCallId toolName hoffers =>
    refine List.forall_mem_append.mpr ⟨h.2, List.forall_mem_singleton.mpr ⟨?_, fun call hcall ↦ ?_⟩⟩
    · -- The check of the start is the only place a name enters.
      rwa [h.1] at hoffers
    · exact absurd hcall (by simp)
  | extended toolCallId delta tools hmut =>
    exact offered_toolMut h.2 (fun _ _ ↦ offered_appendArguments) hmut
  | ended toolCallId tools hmut => exact offered_toolMut h.2 (fun _ _ ↦ offered_completeCall) hmut

theorem Assembler.Offered.pushAll [SerdeJson] {a a' : Assembler} (h : a.Offered specs)
    {events : List ModelEvent} (hpush : a.pushAll events = .ok a') : a'.Offered specs := by
  induction events generalizing a with
  | nil =>
    obtain rfl := Except.ok.inj hpush
    exact h
  | cons event events ih =>
    rw [Assembler.pushAll] at hpush
    split at hpush
    · rename_i progress next hnext
      have hseen : Assembler.Offered specs { a with observedEvent := true } := h
      exact ih (hseen.push hnext) hpush
    · exact absurd hpush (by simp)

/-- The calls among the parts are those of the assembled tools. -/
theorem offered_buildParts {slots : List PartSlot} {text reasoning : Text}
    {tools : List ToolAssembly} {parts : List AssistantPart}
    (h : ∀ tool ∈ tools, tool.Offered specs)
    (hbuild : Assembler.buildParts slots text reasoning tools = some (.ok parts)) :
    ∀ call ∈ toolCalls parts, ToolSet.offers specs call.name = true := by
  induction slots generalizing text reasoning tools parts with
  | nil =>
    obtain rfl := Except.ok.inj (Option.some.inj hbuild)
    simp [toolCalls]
  | cons slot slots ih =>
    cases slot with
    | text =>
      obtain ⟨result, hresult, heq⟩ := Option.map_eq_some_iff.mp hbuild
      cases result with
      | error e => exact absurd heq (by simp)
      | ok rest =>
        obtain rfl := Except.ok.inj heq
        simpa [AssistantPart.asToolCall] using ih h hresult
    | reasoning =>
      rw [Assembler.buildParts] at hbuild
      split at hbuild
      · exact absurd hbuild (by simp)
      · obtain ⟨result, hresult, heq⟩ := Option.map_eq_some_iff.mp hbuild
        cases result with
        | error e => exact absurd heq (by simp)
        | ok rest =>
          obtain rfl := Except.ok.inj heq
          simpa [AssistantPart.asToolCall] using ih h hresult
    | tool index =>
      rw [Assembler.buildParts] at hbuild
      split at hbuild
      · exact absurd hbuild (by simp)
      · rename_i tool htool
        split at hbuild
        · exact absurd hbuild (by simp)
        · rename_i call hcall
          obtain ⟨result, hresult, heq⟩ := Option.map_eq_some_iff.mp hbuild
          have htool' := h tool (List.mem_of_getElem? htool)
          -- The slot uses its call up.
          have hset : ∀ t ∈ tools.set index { tool with call := none }, t.Offered specs := by
            intro t ht
            rcases List.mem_or_eq_of_mem_set ht with ht | rfl
            · exact h t ht
            · exact ⟨htool'.1, fun call hcall ↦ absurd hcall (by simp)⟩
          cases result with
          | error e => exact absurd heq (by simp)
          | ok rest =>
            obtain rfl := Except.ok.inj heq
            have hrest := ih hset hresult
            simpa [AssistantPart.asToolCall] using ⟨htool'.2 call hcall, hrest⟩

theorem toolCalls_normalizeParts (parts : List AssistantPart) :
    toolCalls (normalizeParts parts) = toolCalls parts := by
  induction parts with
  | nil => rfl
  | cons part parts ih =>
    show toolCalls (_ :: normalizeParts parts) = _
    rw [toolCalls_cons, toolCalls_cons, ih]
    cases part <;> rfl

/-- The calls of an accepted response name tools of the request. -/
theorem offered_of_assemble [SerdeJson] {limits : LoopLimits} {events : List ModelEvent}
    {response : ModelResponse} (h : assemble specs limits events = some (.ok response)) :
    ∀ call ∈ toolCalls response.parts, ToolSet.offers specs call.name = true := by
  unfold assemble at h
  split at h
  · rename_i a hpush
    have hnew : (Assembler.new specs limits).Offered specs := ⟨rfl, by simp [Assembler.new]⟩
    -- Every call of the state is offered, and the parts take their calls from there.
    have hoffered := hnew.pushAll hpush
    unfold Assembler.finish at h
    split at h
    · exact absurd h (by simp)
    · dsimp only at h
      split at h
      · exact absurd h (by simp)
      · split at h
        · exact absurd h (by simp)
        · split at h
          · exact absurd h (by simp)
          · exact absurd h (by simp)
          · rename_i parts hparts
            split at h
            · rename_i response' hresponse
              obtain rfl := Except.ok.inj (Option.some.inj h)
              -- Building the response only normalises texts.
              have hcalls := offered_buildParts hoffered.2 hparts
              unfold ModelResponse.newWithProviderReplay at hresponse
              dsimp only at hresponse
              split at hresponse
              · exact absurd hresponse (by simp)
              · split at hresponse
                · exact absurd hresponse (by simp)
                · obtain rfl := Except.ok.inj hresponse
                  simpa only [toolCalls_normalizeParts] using hcalls
            · exact absurd h (by simp)
  · exact absurd h (by simp)

/-! ## Batches -/

/-- One call of a batch whose tool was looked up. -/
def enabledStep (ctx : LoopCtx) (requestIndex : Nat) (snapshot : ExecutionConfig) (call : ToolCall)
    (enabled : EnabledTool) : Action ToolStep := do
  if ← perform .isCancelled then
    return .stop .cancelled
  else
    perform (.tryEmit (.toolStarted ctx.id requestIndex call.toolCallId call.name))
    runToolCall ctx requestIndex call.invocation enabled snapshot.policy

private theorem interrupted_valid :
    validText "tool batch interrupted".toList maxTextBytes true = true := by
  decide

/-- A batch whose tools were looked up beforehand. -/
def enabledBatch (ctx : LoopCtx) (requestIndex : Nat) (snapshot : ExecutionConfig) :
    List (ToolCall × EnabledTool) → Action (Option FailPath)
  | [] => return none
  | (call, enabled) :: calls => do
    match ← enabledStep ctx requestIndex snapshot call enabled with
    | .result result =>
      perform (.tryEmit (.toolFinished ctx.id requestIndex call.toolCallId result.outcome
        result.output.content.byteLen))
      perform (.append (.toolResult result))
      enabledBatch ctx requestIndex snapshot calls
    | .stop path =>
      settleCalls ctx requestIndex .cancelled (.ofStatic "tool batch interrupted" interrupted_valid)
        (call :: calls.map Prod.fst)
      return some path

/-- Where every tool is found, a batch is one whose tools were looked up beforehand. -/
theorem runToolBatch_eq_enabledBatch (ctx : LoopCtx) (requestIndex : Nat)
    (snapshot : ExecutionConfig) {calls : List ToolCall}
    (h : ∀ call ∈ calls, ∃ enabled, snapshot.tools.find call.name = some enabled) :
    ∃ enabled : List (ToolCall × EnabledTool), enabled.map Prod.fst = calls ∧
      (∀ entry ∈ enabled, snapshot.tools.find entry.1.name = some entry.2) ∧
      runToolBatch ctx requestIndex snapshot calls =
        enabledBatch ctx requestIndex snapshot enabled := by
  induction calls with
  | nil => exact ⟨[], rfl, by simp, rfl⟩
  | cons call calls ih =>
    rw [List.forall_mem_cons] at h
    obtain ⟨tool, htool⟩ := h.1
    obtain ⟨enabled, rfl, hfound, heq⟩ := ih h.2
    refine ⟨(call, tool) :: enabled, rfl, List.forall_mem_cons.mpr ⟨htool, hfound⟩, ?_⟩
    -- The lookup finds the tool, so that the step does not unwind.
    have hstep : batchStep ctx requestIndex snapshot call =
        enabledStep ctx requestIndex snapshot call tool := by
      rw [batchStep, enabledStep, htool]
    rw [runToolBatch, enabledBatch]
    refine congrArg₂ (· >>= ·) hstep (funext fun step ↦ ?_)
    cases step with
    | result result => simp only [heq]
    | stop path => rfl

/-! ## What the builder freezes -/

/-- For every set the builder freezes after any registrations: its catalogue increases strictly by
name and the tools by name are its specifications; and for every configuration with this set, the
requests of the runner are those of the checked constructor, every driver of the configuration's
model accepts them, and every call of a response assembled for them is found, so that the batch of
its calls never uses the fallback. -/
theorem catalog_coherent [SerdeJson] {registrations : List (ToolHandle × Option ToolSpec)}
    {tools : ToolSet} (hbuild : (ToolSetBuilder.registerAll registrations).build = .ok tools) :
    tools.Coherent ∧
    ∀ model descriptor reasoning policy prompt config,
      ExecutionConfig.new model descriptor reasoning tools policy prompt = .ok config →
      ∀ messages,
        buildModelRequest messages config =
          ModelRequest.new messages tools.specs .default reasoning ∧
        ∀ request, buildModelRequest messages config = .ok request →
          (∀ driver : ModelDriver, driver.descriptor = config.descriptor →
            driver.validateRequest request = .ok ()) ∧
          ∀ limits events response, assemble request.tools limits events = some (.ok response) →
            (∀ call ∈ toolCalls response.parts, ∃ enabled,
              config.tools.find call.name = some enabled ∧ enabled.spec ∈ request.tools) ∧
            ∀ ctx requestIndex, ∃ enabled : List (ToolCall × EnabledTool),
              enabled.map Prod.fst = toolCalls response.parts ∧
              runToolBatch ctx requestIndex config (toolCalls response.parts) =
                enabledBatch ctx requestIndex config enabled := by
  have hcoherent := ToolSetBuilder.build_coherent hbuild
  refine ⟨hcoherent, ?_⟩
  intro model descriptor reasoning policy prompt config hnew messages
  -- The configuration has the set and the reasoning it was made with.
  obtain ⟨rfl, rfl⟩ : config.tools = tools ∧ config.reasoning = reasoning := by
    unfold ExecutionConfig.new at hnew
    split at hnew
    · exact absurd hnew (by simp)
    · split at hnew
      · obtain rfl := Except.ok.inj hnew
        exact ⟨rfl, rfl⟩
      · split at hnew
        · exact absurd hnew (by simp)
        · split at hnew <;> exact absurd hnew (by simp)
  refine ⟨buildModelRequest_eq_new hcoherent messages, fun request hrequest ↦ ⟨?_, ?_⟩⟩
  · intro driver hdriver
    exact validateRequest_of_build hdriver hrequest
  · intro limits events response hassemble
    obtain ⟨-, -, rfl⟩ := ModelRequest.withValidatedTools_eq_ok.mp hrequest
    have hfound : ∀ call ∈ toolCalls response.parts, ∃ enabled,
        config.tools.find call.name = some enabled ∧ enabled.spec ∈ config.tools.specs :=
      fun call hcall ↦ hcoherent.find_of_offers (offered_of_assemble hassemble call hcall)
    refine ⟨hfound, fun ctx requestIndex ↦ ?_⟩
    obtain ⟨enabled, hcalls, -, heq⟩ := runToolBatch_eq_enabledBatch ctx requestIndex config
      fun call hcall ↦ (hfound call hcall).imp fun _ h ↦ h.1
    exact ⟨enabled, hcalls, heq⟩

/-- The set with one tool. -/
private def readTools : ToolSet := ⟨[Stream.readSpec], [(Stream.readName, ⟨⟨2⟩, Stream.readSpec⟩)]⟩

/-- A configuration with the tool. -/
private def readConfig : ExecutionConfig :=
  ⟨⟨1⟩, ⟨⟨"large".toList, by decide, by decide⟩, 1000, [.auto], true⟩, .auto, readTools, none, ⟨4⟩,
    by decide⟩

theorem catalog_coherent_sample :
    ∃ request response, buildModelRequest [.user "hi".toList] readConfig = .ok request ∧
      @assemble Stream.emptyObject request.tools .default Stream.readStream =
        some (.ok response) ∧
      ∀ call ∈ toolCalls response.parts, ∃ enabled,
        readConfig.tools.find call.name = some enabled ∧ enabled.spec ∈ request.tools := by
  have hbuild : (ToolSetBuilder.registerAll [(⟨2⟩, some Stream.readSpec)]).build = .ok readTools :=
    rfl
  have hnew : ExecutionConfig.new ⟨1⟩ (some readConfig.descriptor) .auto readTools none ⟨4⟩ =
      .ok readConfig := rfl
  have hrequest : buildModelRequest [.user "hi".toList] readConfig =
      .ok ⟨[.user "hi".toList], [Stream.readSpec], .default, .auto⟩ := rfl
  have hcatalog := (@catalog_coherent Stream.emptyObject _ _ hbuild).2 _ _ _ _ _ _ hnew
    [.user "hi".toList]
  obtain ⟨response, hresponse⟩ : ∃ response, @assemble Stream.emptyObject [Stream.readSpec] .default
      Stream.readStream = some (.ok response) := ⟨_, rfl⟩
  exact ⟨_, response, hrequest, hresponse, ((hcatalog.2 _ hrequest).2 _ _ _ hresponse).1⟩

end MinicoreRuntime
