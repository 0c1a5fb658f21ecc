import MinicoreRuntime.AgentLoop.Approvals
import MinicoreRuntime.AgentLoop.Interactions

/-!
# Authorised execution

A tool is executed for a call only where the configuration of the request has no policy, where its
policy allowed the call, or where the policy required an approval and the host gave it. It is
executed at most once for each call, in the order of the calls, and only after the calls before it
have their results. All of this is read off the log of a run.

## Main definitions

* `Batch`, `batchAfter`: the tool calls of the last response, as a trace says.
* `Authorised`: why a call may execute.
* `Calling.Located`, `Calling.Backed`: the trace supports what a session says about a call.

## Main results

* `grounded`: it does so in every run.
* `authorised_execution`: executions of tools are authorised, in order, and happen once.
-/

namespace MinicoreRuntime

open Interactive

/-! ## Batches -/

/-- What a trace says about the tool calls of the last response. -/
structure Batch where
  /-- The configuration last taken, or the one the loop started with. -/
  config : ExecutionConfig
  /-- The configuration in force when the last request was issued. -/
  issued : ExecutionConfig
  /-- The configuration in force when the request of the last response was issued. -/
  snapshot : ExecutionConfig
  /-- The calls of the last response. -/
  calls : List ToolCall
  /-- The results appended since, in order. -/
  results : List ToolResultHistory
  /-- How many results there were at each start of a tool since, newest first. -/
  starts : List Nat

namespace Batch

/-- The batch after an operation. -/
def next (b : Batch) : (o : Op) → o.Answer → Batch
  | .takeConfig, some pending => { b with config := pending.config }
  | .commitRevision _, _ => { b with issued := b.config }
  | .append (.assistant item), _ =>
    { b with snapshot := b.issued, calls := toolCalls item.content, results := [], starts := [] }
  | .append (.toolResult result), _ => { b with results := b.results ++ [result] }
  | .makeFuture (.execute _ _ _), _ => { b with starts := b.results.length :: b.starts }
  | _, _ => b

/-- The calls before this one are those that have results. -/
def Reaches (b : Batch) (done : List ToolCall) (call : ToolCall) (rest : List ToolCall) : Prop :=
  b.calls = done ++ call :: rest ∧
    b.results.map (fun result ↦ (result.callId, result.toolName)) =
      done.map fun call ↦ (call.toolCallId, call.name)

end Batch

/-- The batch after a trace. -/
def batchAfter (setup : Setup) : List (Entry interface Nat) → Batch
  | [] => ⟨setup.request.config, setup.request.config, setup.request.config, [], [], []⟩
  | e :: past => (batchAfter setup past).next e.op e.answer

/-! ## Authorisation -/

/-- Since the last item was appended, the interaction was set right where this was ruled. -/
def OpenedFor (ruling : Ruling) (slot : InteractionSlot) (t : List (Entry interface Nat)) : Prop :=
  ∃ newer n past, t = newer ++ ⟨.setInteraction slot, n, true⟩ :: past ∧
    (∀ e ∈ newer, e.op.appends = false) ∧ lastRuling past = some ruling

/-- The policy required an approval of the call by a valid request, and the interaction asks for
it. -/
def ApprovalAsked (policy : Option PolicyHandle) (invocation : ToolInvocation)
    (slot : InteractionSlot) (t : List (Entry interface Nat)) : Prop :=
  ∃ handle request, policy = some handle ∧ request.validate = true ∧
    slot.expected = .approval request ∧
    OpenedFor ⟨handle, invocation, .requireApproval request⟩ slot t

/-- Why a call may execute. -/
inductive Authorised (log : List Record) (policy : Option PolicyHandle)
    (invocation : ToolInvocation) : Prop where
  /-- There is no policy. -/
  | unguarded (hpolicy : policy = none)
  /-- The policy allowed the call. -/
  | allowed (handle : PolicyHandle) (hpolicy : policy = some handle)
    (hruling : lastRuling (traceOf log) = some ⟨handle, invocation, .allow⟩)
  /-- The policy required an approval, and the host gave it. -/
  | approved (slot : InteractionSlot) (hasked : ApprovalAsked policy invocation slot (traceOf log))
    (haccepted : AcceptedFor log slot (.approval .allowOnce))

section

variable {t : List (Entry interface Nat)} {o : Op} {r : o.Answer}

theorem OpenedFor.cons {ruling : Ruling} {slot : InteractionSlot} (h : OpenedFor ruling slot t)
    (happends : o.appends = false) (n : Nat) : OpenedFor ruling slot (⟨o, n, r⟩ :: t) := by
  obtain ⟨newer, m, past, rfl, hnewer, hruling⟩ := h
  exact ⟨⟨o, n, r⟩ :: newer, m, past, rfl, List.forall_mem_cons.mpr ⟨happends, hnewer⟩, hruling⟩

theorem ApprovalAsked.cons {policy : Option PolicyHandle} {invocation : ToolInvocation}
    {slot : InteractionSlot} (h : ApprovalAsked policy invocation slot t)
    (happends : o.appends = false) (n : Nat) :
    ApprovalAsked policy invocation slot (⟨o, n, r⟩ :: t) := by
  obtain ⟨handle, request, hpolicy, hvalid, hexpected, hopened⟩ := h
  exact ⟨handle, request, hpolicy, hvalid, hexpected, hopened.cons happends n⟩

end

/-! ## What a session says about a call -/

namespace Calling

/-- The trace says where the calls of the response have come to. -/
structure Located (c : Calling) (b : Batch) : Prop where
  snapshot : b.snapshot = c.issue.config
  reached : ∃ done, b.Reaches done c.call c.rest
  bound : ∀ k ∈ b.starts, k < b.results.length + c.started.toNat
  ordered : b.starts.Pairwise (· > ·)

/-- The log has what the clearance of a call says. -/
def Backed (c : Calling) (log : List Record) : Prop :=
  match c.clearance with
  | .undecided => True
  | .allowed => ∃ handle, c.issue.config.policy = some handle ∧
      lastRuling (traceOf log) = some ⟨handle, c.call.invocation, .allow⟩
  | .asked request => request.validate = true ∧ ∃ handle, c.issue.config.policy = some handle ∧
      lastRuling (traceOf log) = some ⟨handle, c.call.invocation, .requireApproval request⟩
  | .waiting slot => ApprovalAsked c.issue.config.policy c.call.invocation slot (traceOf log)
  | .granted slot => ApprovalAsked c.issue.config.policy c.call.invocation slot (traceOf log) ∧
      AcceptedFor log slot (.approval .allowOnce)

variable {c : Calling} {b : Batch} {log : List Record}

/-- A call that is cleared is authorised. -/
theorem Backed.authorised (h : c.Backed log) (hcleared : c.Cleared) :
    Authorised log c.issue.config.policy c.call.invocation := by
  obtain ⟨issue, call, rest, clearance, started⟩ := c
  rcases hcleared with hpolicy | rfl | ⟨slot, rfl⟩
  · exact .unguarded hpolicy
  · obtain ⟨handle, hpolicy, hruling⟩ := h
    exact .allowed handle hpolicy hruling
  · exact .approved slot h.1 h.2

/-- What the host does leaves the log what it has. -/
theorem Backed.host (h : c.Backed log) (event : HostEvent) : c.Backed (.host event :: log) := by
  obtain ⟨issue, call, rest, clearance, started⟩ := c
  cases clearance with
  | granted slot => exact ⟨h.1, h.2.cons _⟩
  | _ => exact h

/-- So does an operation that appends nothing and finds no decision. -/
theorem Backed.runner (h : c.Backed log) {o : Op} {r : o.Answer} (happends : o.appends = false)
    (hruling : o.ruling? r = none) (n : Nat) : c.Backed (.runner ⟨o, n, r⟩ :: log) := by
  obtain ⟨issue, call, rest, clearance, started⟩ := c
  have hlast : lastRuling (traceOf (.runner ⟨o, n, r⟩ :: log)) = lastRuling (traceOf log) :=
    lastRuling_cons happends hruling n _
  cases clearance with
  | undecided => trivial
  | allowed =>
    obtain ⟨handle, hpolicy, hruled⟩ := h
    exact ⟨handle, hpolicy, hlast.trans hruled⟩
  | asked request =>
    obtain ⟨hvalid, handle, hpolicy, hruled⟩ := h
    exact ⟨hvalid, handle, hpolicy, hlast.trans hruled⟩
  | waiting slot => exact ApprovalAsked.cons h happends n
  | granted slot => exact ⟨h.1.cons happends n, h.2.cons _⟩

end Calling

/-- The log has what a session says. -/
structure Session.Grounded (setup : Setup) (s : Session) (log : List Record) : Prop where
  config : s.config = (batchAfter setup (traceOf log)).config
  issued : ∀ issue, s.phase = .issued issue →
    (batchAfter setup (traceOf log)).issued = issue.config
  located : ∀ c, s.phase = .calling c → c.Located (batchAfter setup (traceOf log))
  backed : ∀ c, s.phase = .calling c → c.Backed log

/-- No request is under way. -/
def Phase.idle : Phase → Bool
  | .issued _ | .calling _ => false
  | _ => true

namespace Session.Grounded

variable {setup : Setup} {s s' : Session} {log : List Record} {o : Op} {r : o.Answer} {n : Nat}

/-- What the host does changes nothing. -/
theorem host (h : s.Grounded setup log) (event : HostEvent) :
    s.Grounded setup (.host event :: log) where
  config := h.config
  issued := h.issued
  located := h.located
  backed c hc := (h.backed c hc).host event

/-- An operation that changes neither the phase nor the batch. -/
theorem keep (h : s.Grounded setup log) (hconfig : s'.config = s.config)
    (hphase : s'.phase = s.phase)
    (hbatch : (batchAfter setup (traceOf log)).next o r = batchAfter setup (traceOf log))
    (happends : o.appends = false) (hruling : o.ruling? r = none) :
    s'.Grounded setup (.runner ⟨o, n, r⟩ :: log) := by
  have hafter : batchAfter setup (traceOf (.runner ⟨o, n, r⟩ :: log)) =
      batchAfter setup (traceOf log) := hbatch
  refine ⟨?_, fun issue hissue ↦ ?_, fun c hc ↦ ?_, fun c hc ↦ ?_⟩
  · rw [hconfig, hafter]
    exact h.config
  · rw [hafter]
    exact h.issued issue (hphase ▸ hissue)
  · rw [hafter]
    exact h.located c (hphase ▸ hc)
  · exact (h.backed c (hphase ▸ hc)).runner happends hruling n

/-- After an operation no request is under way. -/
theorem leave {p : Phase} (hphase : s'.phase = p) (hidle : p.idle = true)
    (hconfig : s'.config = (batchAfter setup (traceOf (.runner ⟨o, n, r⟩ :: log))).config) :
    s'.Grounded setup (.runner ⟨o, n, r⟩ :: log) := by
  refine ⟨hconfig, fun issue hissue ↦ ?_, fun c hc ↦ ?_, fun c hc ↦ ?_⟩
  · exact absurd (hphase ▸ hidle) (by simp [hissue, Phase.idle])
  · exact absurd (hphase ▸ hidle) (by simp [hc, Phase.idle])
  · exact absurd (hphase ▸ hidle) (by simp [hc, Phase.idle])

/-- An operation after which a call has its turn. -/
theorem turn {c : Calling} (hphase : s'.phase = .calling c)
    (hconfig : s'.config = (batchAfter setup (traceOf (.runner ⟨o, n, r⟩ :: log))).config)
    (hlocated : c.Located (batchAfter setup (traceOf (.runner ⟨o, n, r⟩ :: log))))
    (hbacked : c.Backed (.runner ⟨o, n, r⟩ :: log)) :
    s'.Grounded setup (.runner ⟨o, n, r⟩ :: log) where
  config := hconfig
  issued issue hissue := absurd (hphase.symm.trans hissue) (by simp)
  located c' hc' := by
    obtain rfl : c = c' := by simpa using hphase.symm.trans hc'
    exact hlocated
  backed c' hc' := by
    obtain rfl : c = c' := by simpa using hphase.symm.trans hc'
    exact hbacked

/-- An operation that changes the clearance of the call whose turn it is. -/
theorem clear (h : s.Grounded setup log) {c : Calling} (hc : s.phase = .calling c)
    (f : Clearance → Clearance)
    (hbatch : (batchAfter setup (traceOf log)).next o r = batchAfter setup (traceOf log))
    (hconfig : s'.config = s.config) (hphase : s'.phase = mapClearance f s.phase)
    (hbacked : Calling.Backed { c with clearance := f c.clearance } (.runner ⟨o, n, r⟩ :: log)) :
    s'.Grounded setup (.runner ⟨o, n, r⟩ :: log) := by
  have hafter : batchAfter setup (traceOf (.runner ⟨o, n, r⟩ :: log)) =
      batchAfter setup (traceOf log) := hbatch
  have hlocated := h.located c hc
  refine turn (c := { c with clearance := f c.clearance }) ?_ ?_ ?_ hbacked
  · rw [hphase, hc, mapClearance]
  · rw [hconfig, hafter]
    exact h.config
  · rw [hafter]
    exact ⟨hlocated.snapshot, hlocated.reached, hlocated.bound, hlocated.ordered⟩

/-- The item of a response brings its calls. -/
theorem response (h : s.Grounded setup log) {item : AssistantHistory} {r : Unit}
    (hpermits : s.Permits setup (.append (.assistant item))) :
    (s.next (.append (.assistant item)) n r).Grounded setup
      (.runner ⟨.append (.assistant item), n, r⟩ :: log) := by
  obtain ⟨-, issue, -, hissue, -⟩ := hpermits
  have hphase : (s.next (.append (.assistant item)) n r).phase =
      afterAppend (.issued issue) (.assistant item) :=
    congrArg (afterAppend · (.assistant item)) hissue
  -- A response without calls leaves the batch; otherwise its first call begins.
  cases hcalls : toolCalls item.content with
  | nil =>
    have hafter : afterAppend (.issued issue) (.assistant item) = .concluded := by
      simp only [afterAppend, hcalls]
    exact leave (hphase.trans hafter) rfl h.config
  | cons call rest =>
    have hafter : afterAppend (.issued issue) (.assistant item) =
        .calling ⟨issue, call, rest, .undecided, false⟩ := by
      simp only [afterAppend, hcalls]
    exact turn (hphase.trans hafter) h.config
      ⟨h.issued issue hissue, ⟨[], hcalls, rfl⟩, fun k hk ↦ absurd hk List.not_mem_nil, .nil⟩
        trivial

/-- The result of a call moves the turn on. -/
theorem result (h : s.Grounded setup log) {result : ToolResultHistory} {r : Unit}
    (hpermits : s.Permits setup (.append (.toolResult result))) :
    (s.next (.append (.toolResult result)) n r).Grounded setup
      (.runner ⟨.append (.toolResult result), n, r⟩ :: log) := by
  obtain ⟨-, ⟨issue, call, rest, clearance, started⟩, hc, -, -, hcallId, hname⟩ := hpermits
  obtain ⟨hsnapshot, ⟨done, hcalls, hresults⟩, hbound, hordered⟩ := h.located _ hc
  cases rest with
  | nil =>
    have hphase : (s.next (.append (.toolResult result)) n r).phase = .boundary := by
      simp only [Session.next, afterAppend, hc]
    exact leave hphase rfl h.config
  | cons after rest =>
    have hphase : (s.next (.append (.toolResult result)) n r).phase =
        .calling ⟨issue, after, rest, .undecided, false⟩ := by
      simp only [Session.next, afterAppend, hc]
    refine turn hphase h.config ⟨hsnapshot, ⟨done ++ [call], ?_, ?_⟩, fun k hk ↦ ?_, hordered⟩
      trivial
    · exact hcalls.trans (List.append_cons done call (after :: rest))
    · show ((batchAfter setup (traceOf log)).results ++ [result]).map _ = _
      rw [List.map_append, hresults, List.map_append, List.map_singleton, List.map_singleton,
        hcallId,
        hname]
    · -- Whether or not the tool of the call was started, the result is one more.
      have hlt := hbound k hk
      have hone := started.toNat_le
      show k < ((batchAfter setup (traceOf log)).results ++ [result]).length + 0
      rw [List.length_append, List.length_singleton]
      dsimp only at hlt
      omega

/-- The execution of a tool is started. -/
theorem start (h : s.Grounded setup log) {tool : ToolHandle} {invocation : ToolInvocation}
    {deadline : Nat} {r : Bool}
    (hpermits : s.Permits setup (.makeFuture (.execute tool invocation deadline))) :
    (s.next (.makeFuture (.execute tool invocation deadline)) n r).Grounded setup
      (.runner ⟨.makeFuture (.execute tool invocation deadline), n, r⟩ :: log) := by
  obtain ⟨⟨issue, call, rest, clearance, started⟩, -, hc, -, -, hstarted, -⟩ := hpermits
  obtain rfl : started = false := hstarted
  obtain ⟨hsnapshot, hreached, hbound, hordered⟩ := h.located _ hc
  have hphase : (s.next (.makeFuture (.execute tool invocation deadline)) n r).phase =
      .calling ⟨issue, call, rest, clearance, true⟩ := by
    simp only [Session.next, afterMake, hc]
  refine turn hphase h.config ⟨hsnapshot, hreached, ?_, ?_⟩ ?_
  · refine List.forall_mem_cons.mpr ⟨Nat.lt_succ_self _, fun k hk ↦ ?_⟩
    exact Nat.lt_succ_of_lt (hbound k hk)
  · exact List.pairwise_cons.mpr ⟨fun k hk ↦ hbound k hk, hordered⟩
  · exact (h.backed _ hc).runner (c := ⟨issue, call, rest, clearance, false⟩) rfl rfl n

/-- The policy decides about a call. -/
theorem decided (h : s.Grounded setup log) {policy : PolicyHandle} {invocation : ToolInvocation}
    {spec : ToolSpec} {instant deadline : Nat} {decision : ToolDecision}
    (hpermits : s.Permits setup (.pollPort (.decide policy invocation spec instant) deadline)) :
    (s.next (.pollPort (.decide policy invocation spec instant) deadline) n
      (.ready (.ok decision))).Grounded setup
      (.runner ⟨.pollPort (.decide policy invocation spec instant) deadline, n,
        .ready (.ok decision)⟩ :: log) := by
  obtain ⟨⟨issue, call, rest, clearance, started⟩, enabled, hc, hpolicy, rfl, -⟩ := hpermits
  refine h.clear hc (fun _ ↦ Session.decided decision) rfl rfl rfl ?_
  -- An allowance names the policy that was asked; an invalid decision clears nothing.
  cases decision with
  | allow => exact ⟨policy, hpolicy, rfl⟩
  | deny reason => trivial
  | requireApproval request =>
    cases hvalid : request.validate with
    | true =>
      simp only [Session.decided, hvalid, if_true]
      exact ⟨hvalid, policy, hpolicy, rfl⟩
    | false =>
      simp only [Session.decided, hvalid]
      trivial

/-- The host is asked for an approval. -/
theorem asked (h : s.Grounded setup log) {slot : InteractionSlot}
    (hpermits : s.Permits setup (.setInteraction slot))
    (happroval : ∀ request, slot.expected = .approval request → AsksFor request (traceOf log)) :
    (s.next (.setInteraction slot) n true).Grounded setup
      (.runner ⟨.setInteraction slot, n, true⟩ :: log) := by
  obtain ⟨⟨⟨issue, call, rest, clearance, started⟩, hc⟩, -, -⟩ := hpermits
  have hold := (h.backed _ hc).runner (o := .setInteraction slot) (r := true) rfl rfl n
  refine h.clear hc (waitingFor slot) rfl rfl rfl ?_
  cases clearance with
  | asked request =>
    cases hexpected : slot.expected with
    | toolInput input =>
      simp only [waitingFor, hexpected]
      exact hold
    | approval request' =>
      -- What the host is asked is what the policy ruled last.
      obtain ⟨hvalid, handle, hpolicy, hruled⟩ := h.backed _ hc
      obtain ⟨ruling, hruling, hdecision⟩ := happroval request' hexpected
      obtain rfl := Option.some.inj (hruled.symm.trans hruling)
      obtain rfl : request = request' := ToolDecision.requireApproval.inj hdecision
      simp only [waitingFor, hexpected]
      exact ⟨handle, request, hpolicy, hvalid, hexpected, [], n, _, rfl, by simp, hruled⟩
  | _ => exact hold

/-- The host approves. -/
theorem granted (h : s.Grounded setup log) {channel : Nat} {deadline : Option Nat}
    (haccepted : ∀ policy invocation slot, ApprovalAsked policy invocation slot (traceOf log) →
      slot.reply = channel → AcceptedFor log slot (.approval .allowOnce)) :
    (s.next (.pollInteraction channel deadline) n
      (.ready (some (.approval .allowOnce)))).Grounded setup
      (.runner ⟨.pollInteraction channel deadline, n,
        .ready (some (.approval .allowOnce))⟩ :: log) := by
  cases hphase : s.phase with
  | calling c =>
    obtain ⟨issue, call, rest, clearance, started⟩ := c
    have hold := (h.backed _ hphase).runner (o := .pollInteraction channel deadline)
      (r := .ready (some (.approval .allowOnce))) rfl rfl n
    refine h.clear hphase (grantedOn channel) rfl rfl rfl ?_
    cases clearance with
    | waiting slot =>
      -- The answer is for this question exactly where it came through its channel.
      by_cases hreply : slot.reply = channel
      · simp only [grantedOn, if_pos hreply]
        exact ⟨hold, (haccepted _ _ slot (h.backed _ hphase) hreply).cons _⟩
      · simp only [grantedOn, if_neg hreply]
        exact hold
    | _ => exact hold
  | _ =>
    refine h.keep rfl ?_ rfl rfl rfl
    simp only [Session.next, afterPoll, mapClearance, hphase]

/-- Every operation that the rules allow. -/
theorem step (h : s.Grounded setup log) (hpermits : s.Permits setup o)
    (happroval : approvalMonitor.allowed (traceOf log) o)
    (haccepted : ∀ channel deadline policy invocation slot,
      (⟨o, n, r⟩ : Entry interface Nat) =
        ⟨.pollInteraction channel deadline, n, .ready (some (.approval .allowOnce))⟩ →
      ApprovalAsked policy invocation slot (traceOf log) → slot.reply = channel →
      AcceptedFor log slot (.approval .allowOnce)) :
    (s.next o n r).Grounded setup (.runner ⟨o, n, r⟩ :: log) := by
  cases o with
  | append item =>
    cases item with
    | user item =>
      obtain ⟨loopId, kind, input⟩ := item
      cases kind with
      | prompt => exact leave (p := .boundary) rfl rfl h.config
      | steering =>
        obtain ⟨-, hphase, -⟩ := hpermits
        exact leave hphase rfl h.config
    | assistant item => exact h.response hpermits
    | toolResult result => exact h.result hpermits
    | summary item => exact hpermits.elim
  | takeConfig =>
    cases r with
    | none => exact h.keep rfl rfl rfl rfl rfl
    | some pending =>
      -- The configuration is that of the session and, as no call is under way, of no batch yet.
      exact leave (p := .boundary) rfl rfl rfl
  | takeInputs =>
    cases r with
    | nil => exact h.keep rfl rfl rfl rfl rfl
    | cons input inputs => exact leave (p := .boundary) rfl rfl h.config
  | commitRevision revision =>
    obtain ⟨-, -, -, request, messages, hphase, -⟩ := hpermits
    have hissued : (s.next (.commitRevision revision) n r).phase =
        .issued ⟨revision, s.config, request, messages, s.index⟩ := by
      simp only [Session.next, hphase]
    refine ⟨h.config, fun issue hissue ↦ ?_, fun c hc ↦ ?_, fun c hc ↦ ?_⟩
    · obtain rfl := Phase.issued.inj (hissued.symm.trans hissue)
      exact h.config.symm
    · exact absurd (hissued.symm.trans hc) (by simp)
    · exact absurd (hissued.symm.trans hc) (by simp)
  | makeFuture call =>
    cases call with
    | execute tool invocation deadline => exact h.start hpermits
    | _ => exact h.keep rfl rfl rfl rfl rfl
  | pollPort call deadline =>
    cases call with
    | prepare provider request =>
      rcases r with - | - | (error | messages) | - | -
      case ready.ok => exact leave (p := .prepared _ _ _) rfl rfl h.config
      all_goals exact h.keep rfl rfl rfl rfl rfl
    | decide policy invocation spec instant =>
      rcases r with - | - | (error | decision) | - | -
      case ready.ok => exact h.decided hpermits
      all_goals exact h.keep rfl rfl rfl rfl rfl
    | execute tool invocation instant =>
      rcases r with - | - | result | - | - <;> exact h.keep rfl rfl rfl rfl rfl
  | setInteraction slot =>
    cases r with
    | false => exact h.keep rfl rfl rfl rfl rfl
    | true => exact h.asked hpermits happroval
  | pollInteraction channel deadline =>
    rcases r with - | - | (- | ((- | -) | answer)) | - | -
    -- No other answer clears a call.
    case ready.some.approval.allowOnce =>
      exact h.granted fun policy invocation slot ↦
        haccepted channel deadline policy invocation slot rfl
    all_goals exact h.keep rfl rfl rfl rfl rfl
  | _ => exact h.keep rfl rfl rfl rfl rfl

end Session.Grounded

/-! ## Runs -/

/-- The interactions that a session knows are those that the log sets. -/
theorem session_slots (setup : Setup) (log : List Record) :
    ((sessionMonitor setup).run (traceOf log)).slots = log.filterMap Record.opened? := by
  induction log with
  | nil => rfl
  | cons e older ih =>
    cases e with
    | host event => exact ih
    | runner entry =>
      obtain ⟨o, n, r⟩ := entry
      have hchanges := (((sessionMonitor setup).run (traceOf older)).next_changes o n r).slots
      refine hchanges.trans ?_
      rw [ih]
      cases o with
      | setInteraction slot => cases r <;> rfl
      | _ => rfl

/-- Interactions have different channels. -/
theorem replies_nodup {setup : Setup} {t : List (Entry interface Nat)}
    (h : (sessionMonitor setup).Accepts t) :
    (((sessionMonitor setup).run t).slots.map (·.reply)).Nodup := by
  refine Monitor.Accepts.invariant (sessionMonitor setup)
    (J := fun s : Session ↦ (s.slots.map (·.reply)).Nodup) List.nodup_nil ?_ h
  intro s o n r hs hallowed _
  have hchanges := (Session.next_changes s o n r).slots
  show ((Session.next s o n r).slots.map (·.reply)).Nodup
  rw [hchanges]
  cases o with
  | setInteraction slot =>
    cases r with
    | false => exact hs
    | true =>
      -- A new question has a channel that no earlier one had.
      obtain ⟨-, -, hfresh⟩ := hallowed
      refine List.nodup_cons.mpr ⟨fun hmem ↦ ?_, hs⟩
      obtain ⟨slot', hslot', heq⟩ := List.mem_map.mp hmem
      exact hfresh slot' hslot' heq
  | _ => exact hs

/-- The interaction of an approval that was asked for is set in the log. -/
theorem ApprovalAsked.mem_opened {policy : Option PolicyHandle} {invocation : ToolInvocation}
    {slot : InteractionSlot} {log : List Record}
    (h : ApprovalAsked policy invocation slot (traceOf log)) :
    slot ∈ log.filterMap Record.opened? := by
  obtain ⟨-, -, -, -, -, newer, n, past, hsplit, -⟩ := h
  obtain ⟨recent, older, rfl, -, -⟩ := split_traceOf hsplit
  exact List.mem_filterMap.mpr ⟨.runner ⟨.setInteraction slot, n, true⟩, by simp, rfl⟩

/-- The log has what the session of the runner says. -/
theorem grounded {setup : Setup} {clock : Nat} {log : List Record}
    (hsession : (sessionMonitor setup).Accepts (traceOf log))
    (happrovals : approvalMonitor.Accepts (traceOf log)) (hasks : Asks setup.ctx clock log) :
    ((sessionMonitor setup).run (traceOf log)).Grounded setup log := by
  induction log with
  | nil =>
    refine ⟨rfl, fun issue hissue ↦ ?_, fun c hc ↦ ?_, fun c hc ↦ ?_⟩
    · exact absurd hissue (by simp [sessionMonitor, Session.init, traceOf])
    · exact absurd hc (by simp [sessionMonitor, Session.init, traceOf])
    · exact absurd hc (by simp [sessionMonitor, Session.init, traceOf])
  | cons e older ih =>
    cases e with
    | host event => exact (ih hsession happrovals hasks.of_cons).host event
    | runner entry =>
      obtain ⟨o, n, r⟩ := entry
      obtain ⟨hpast, hpermits, -⟩ := hsession
      obtain ⟨hbefore, hallowed, -⟩ := happrovals
      have hold := ih hpast hbefore hasks.of_cons
      have hstate : approvalMonitor.run (traceOf older) = traceOf older := Monitor.history_run _ _ _
      refine hold.step hpermits (hstate ▸ hallowed) ?_
      intro channel deadline policy invocation slot heq hasked hreply
      cases heq
      -- The answer that is found was accepted for the interaction set last, which is this one.
      have hpolled : Asks setup.ctx clock ([] ++ .runner ⟨.pollInteraction channel deadline, n,
        .ready (some (.approval .allowOnce))⟩ :: older) := hasks
      obtain ⟨slot', answer, hlast, hreply', hanswer, haccepted, -⟩ := hpolled.consumed
      obtain rfl := Option.some.inj hanswer
      have hmem : slot' ∈ older.filterMap Record.opened? := by
        obtain ⟨before, e, after, hsplit, hopened, -⟩ := List.findSome?_eq_some_iff.mp hlast
        rw [hsplit]
        exact List.mem_filterMap.mpr ⟨e, by simp, hopened⟩
      have hnodup : ((older.filterMap Record.opened?).map (·.reply)).Nodup := by
        rw [← session_slots setup older]
        exact replies_nodup hpast
      obtain rfl := List.inj_on_of_nodup_map hnodup hmem hasked.mem_opened
        (hreply'.trans hreply.symm)
      exact haccepted

/-- Executions of tools are authorised, in order, and happen once. Wherever a run starts to execute
a tool, it does so for a call of the last response, under the call's identifier, name and arguments
and with the tool that the snapshot of the request has for it; the calls before it, and only these,
have their results; every tool that was started since the response was started for one of these, and
no two for the same; and the snapshot has no policy, or its policy allowed the call, or it required
an approval by a valid request and the host's approval under the interaction's identifier was
accepted. -/
theorem authorised_execution [SerdeJson] (setup : Setup) (clock : Nat) (schedule : List Turn)
    (newer : List Record) (tool : ToolHandle) (invocation : ToolInvocation) (instant n : Nat)
    (made : Bool) (older : List Record)
    (hstart : (setup.run clock schedule).2.log =
      newer ++ .runner ⟨.makeFuture (.execute tool invocation instant), n, made⟩ :: older) :
    let b := batchAfter setup (traceOf older)
    ∃ done call rest enabled, b.Reaches done call rest ∧
      invocation = ⟨call.toolCallId, call.name, call.arguments⟩ ∧
      b.snapshot.tools.find call.name = some enabled ∧ tool = enabled.implementation ∧
      (done.length :: b.starts).Pairwise (· > ·) ∧
      Authorised older b.snapshot.policy invocation := by
  intro b
  -- Three monitors accept the log: the session, the rulings and the answers.
  have hsession : (sessionMonitor setup).Accepts (traceOf (setup.run clock schedule).2.log) :=
    (conforms setup clock schedule).2.1
  have happrovals : approvalMonitor.Accepts (traceOf (setup.run clock schedule).2.log) :=
    run_approvals setup clock schedule
  have hasks : Asks setup.ctx clock (setup.run clock schedule).2.log :=
    (run_inquired setup clock schedule []).asks
  rw [hstart] at hasks hsession happrovals
  obtain ⟨hpast, ⟨c, enabled, hc, hcleared, rfl, hstarted, henabled, rfl⟩, -⟩ := accepts_at hsession
  have hbefore := (accepts_at happrovals).1
  have hgrounded := grounded hpast hbefore hasks.past.of_cons
  -- The call under way is located in its batch, after the calls that are done.
  obtain ⟨hsnapshot, ⟨done, hcalls, hresults⟩, hbound, hordered⟩ := hgrounded.located c hc
  have hlength : b.results.length = done.length := by
    simpa using congrArg List.length hresults
  refine ⟨done, c.call, c.rest, enabled, ⟨hcalls, hresults⟩, rfl, ?_, rfl, ?_, ?_⟩
  · rwa [hsnapshot]
  · refine List.pairwise_cons.mpr ⟨fun k hk ↦ ?_, hordered⟩
    have hlt := hbound k hk
    rw [hstarted, hlength] at hlt
    exact hlt
  · rw [hsnapshot]
    exact (hgrounded.backed c hc).authorised hcleared

namespace Sample

/-- The approval that the policy asks for comes, and nothing is cancelled. -/
def approving : List Turn := asking.set 66 {}

/-- Whether an operation starts to execute a tool. -/
def executes (e : Entry interface Nat) : Bool :=
  match e with
  | ⟨.makeFuture (.execute _ _ _), _, _⟩ => true
  | _ => false

end Sample

/-- In the sample the tool is executed after the host approved. -/
theorem authorised_execution_sample :
    ∃ newer tool invocation instant n made older,
      (Sample.setup.run 0 Sample.approving).2.log =
        newer ++ .runner ⟨.makeFuture (.execute tool invocation instant), n, made⟩ :: older ∧
      Authorised older (batchAfter Sample.setup (traceOf older)).snapshot.policy invocation := by
  have hexecutes :
      (traceOf (Sample.setup.run 0 Sample.approving).2.log).any Sample.executes = true := by
    decide +kernel
  obtain ⟨newer, e, older, hlog, hexecute⟩ := split_of_any hexecutes
  unfold Sample.executes at hexecute
  split at hexecute
  · obtain ⟨-, -, -, -, -, -, -, -, -, hauthorised⟩ :=
      authorised_execution Sample.setup 0 Sample.approving _ _ _ _ _ _ _ hlog
    exact ⟨newer, _, _, _, _, _, older, hlog, hauthorised⟩
  · exact absurd hexecute (by simp)

end MinicoreRuntime
