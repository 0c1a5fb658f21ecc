import MinicoreRuntime.AgentLoop.Interactions
import MinicoreRuntime.AgentLoop.Transcript

/-!
# Fresh requests

Every request that is issued has one revision and one configuration: the newest that was accepted
when a configuration was last asked for. The prompt, the request to the model, the states, the
events and the tool calls of the request all go by these two, and the prompt was prepared from all
that was appended when the request was issued.

## Main definitions

* `newestIn`, `takenAt`: the newest configuration of a log, and the log that was last taken from.
* `PreparedIn`: the preparation that was answered last.
* `Op.Serves`: an operation goes by a request.
* `Session.Current`, `Session.Prompted`: what a session keeps of the configuration and the prompt.

## Main results

* `current`, `prompted`: they hold in every run.
* `issued_of_span`, `serves_of_permits`: operations go by the request that was issued last.
* `requests_fresh`: the requests of every run.
-/

namespace MinicoreRuntime

open Interactive

/-! ## Configurations of a log -/

/-- The configuration that was accepted last, or the one the loop started with. -/
def newestIn (setup : Setup) (log : List Record) : PendingConfig :=
  (accepted log).head?.getD ⟨ConfigRevision.initial, setup.request.config⟩

/-- The log before a configuration was last asked for. -/
def takenAt : List Record → Option (List Record)
  | [] => none
  | .runner ⟨.takeConfig, _, _⟩ :: older => some older
  | _ :: older => takenAt older

theorem newestIn_cons (setup : Setup) (e : Record) (older : List Record) :
    newestIn setup (e :: older) = e.accepts?.getD (newestIn setup older) := by
  rw [newestIn, accepted_cons]
  cases e.accepts? <;> rfl

theorem takenAt_runner {o : Op} (ho : o ≠ .takeConfig) (n : Nat) (r : o.Answer)
    (older : List Record) : takenAt (.runner ⟨o, n, r⟩ :: older) = takenAt older := by
  cases o with
  | takeConfig => exact absurd rfl ho
  | _ => rfl

/-- The log that was taken from is a part of the log. -/
theorem suffix_of_takenAt {log before : List Record} (h : takenAt log = some before) :
    before <:+ log := by
  induction log with
  | nil => exact absurd h (by simp [takenAt])
  | cons e older ih =>
    cases e with
    | host event => exact (ih h).trans (List.suffix_cons _ older)
    | runner entry =>
      obtain ⟨o, n, r⟩ := entry
      by_cases ho : o = .takeConfig
      · subst ho
        obtain rfl := Option.some.inj h
        exact List.suffix_cons _ older
      · rw [takenAt_runner ho] at h
        exact (ih h).trans (List.suffix_cons _ older)

/-- What was taken from earlier is a part of what was taken from later. -/
theorem takenAt_suffix {newer older later earlier : List Record}
    (hlater : takenAt (newer ++ older) = some later) (hearlier : takenAt older = some earlier) :
    earlier <:+ later := by
  induction newer with
  | nil =>
    obtain rfl := Option.some.inj (hearlier.symm.trans hlater)
    exact List.suffix_refl earlier
  | cons e newer ih =>
    cases e with
    | host event => exact ih hlater
    | runner entry =>
      obtain ⟨o, n, r⟩ := entry
      -- The latest configuration taken is the one taken here, or an earlier one.
      by_cases ho : o = .takeConfig
      · subst ho
        obtain rfl := Option.some.inj hlater
        exact (suffix_of_takenAt hearlier).trans (List.suffix_append newer older)
      · exact ih ((takenAt_runner ho n r (newer ++ older)).symm.trans hlater)

section

variable (setup : Setup) {limits : LoopLimits} {log : List Record}

/-- The newest revision is one that was given. -/
theorem newestIn_le (h : Justified (Explained limits) log) :
    (newestIn setup log).revision ≤ revisionAfter (accepted log).length := by
  induction log with
  | nil => exact Nat.zero_le _
  | cons e older ih =>
    rw [newestIn_cons, accepted_cons]
    cases haccepts : e.accepts? with
    | none => exact ih h.1
    | some p =>
      rw [Record.slot?_eq_some.mp (Record.accepts?_eq_some.mp haccepts)] at h
      obtain ⟨-, hrevision, -⟩ := h
      show p.revision ≤ revisionAfter ((accepted older).length + 1)
      rw [hrevision]
      unfold revisionAfter
      omega

/-- The newest revision is the greatest. -/
theorem accepted_le_newestIn (h : Justified (Explained limits) log) :
    ∀ p ∈ accepted log, p.revision ≤ (newestIn setup log).revision := by
  induction log with
  | nil => exact fun p hp ↦ absurd hp (by simp [accepted])
  | cons e older ih =>
    rw [newestIn_cons, accepted_cons]
    cases haccepts : e.accepts? with
    | none => exact ih h.1
    | some new =>
      rw [Record.slot?_eq_some.mp (Record.accepts?_eq_some.mp haccepts)] at h
      obtain ⟨hpast, hrevision, -⟩ := h
      refine List.forall_mem_cons.mpr ⟨le_refl _, fun p hp ↦ ?_⟩
      calc p.revision ≤ (newestIn setup older).revision := ih hpast p hp
        _ ≤ revisionAfter (accepted older).length := newestIn_le setup hpast
        _ = new.revision := hrevision.symm

/-- A longer log has no smaller newest revision. -/
theorem newestIn_mono (h : Justified (Explained limits) log) {past : List Record}
    (hpast : past <:+ log) : (newestIn setup past).revision ≤ (newestIn setup log).revision := by
  obtain ⟨newer, rfl⟩ := hpast
  cases haccepted : accepted past with
  | nil =>
    rw [newestIn, haccepted]
    exact Nat.zero_le _
  | cons p rest =>
    have hnewest : newestIn setup past = p := by rw [newestIn, haccepted]; rfl
    rw [hnewest]
    refine accepted_le_newestIn setup h p ?_
    rw [accepted, List.filterMap_append]
    refine List.mem_append_right _ ?_
    show p ∈ accepted past
    rw [haccepted]
    exact List.mem_cons_self

/-- The newest configuration is the one the loop started with, or an update that was accepted. -/
theorem newestIn_spec (setup : Setup) (log : List Record) :
    (accepted log = [] ∧ newestIn setup log = ⟨ConfigRevision.initial, setup.request.config⟩) ∨
      .host (.updateReturned (newestIn setup log).config (.ok (newestIn setup log).revision)) ∈
        log := by
  cases haccepted : accepted log with
  | nil => exact .inl ⟨rfl, by rw [newestIn, haccepted]; rfl⟩
  | cons p rest =>
    have hnewest : newestIn setup log = p := by rw [newestIn, haccepted]; rfl
    have hmem : p ∈ accepted log := haccepted ▸ List.mem_cons_self
    obtain ⟨e, he, haccepts⟩ := List.mem_filterMap.mp hmem
    rw [hnewest, ← Record.slot?_eq_some.mp (Record.accepts?_eq_some.mp haccepts)]
    exact .inr he

end

/-! ## The configuration of a session -/

/-- What a session keeps of the configurations in a log: while updates are accepted, the newest one
is pending or was taken last, and what was taken last was the newest then. -/
structure Session.Current (setup : Setup) (s : Session) (log : List Record) : Prop where
  newest : s.closed = false → newestIn setup log = (slotAfter log).getD ⟨s.revision, s.config⟩
  taken : newestIn setup ((takenAt log).getD []) = ⟨s.revision, s.config⟩
  asked : s.fresh = true → (takenAt log).isSome

namespace Session.Current

variable {setup : Setup} {s s' : Session} {log : List Record}

/-- What another thread does. -/
theorem host (h : s.Current setup log) (event : HostEvent) :
    s.Current setup (.host event :: log) where
  newest hopen := by
    rw [newestIn_cons, slotAfter_cons]
    cases hslot : (Record.host event).slot? with
    | none =>
      have haccepts : (Record.host event).accepts? = none := by rw [Record.accepts?, hslot]; rfl
      rw [haccepts]
      exact h.newest hopen
    | some slot =>
      cases slot with
      | some p =>
        rw [Record.accepts?_eq_some.mpr hslot]
        rfl
      | none =>
        -- Only the runner clears the slot.
        unfold Record.slot? at hslot
        split at hslot <;> simp_all
  taken := h.taken
  asked := h.asked

/-- An operation that is not about configurations. -/
theorem runner (h : s.Current setup log) {o : Op} {n : Nat} {r : o.Answer}
    (hslot : (Record.runner ⟨o, n, r⟩).slot? = none) (hconfig : s'.config = s.config)
    (hrevision : s'.revision = s.revision) (hclosed : s'.closed = s.closed)
    (hfresh : s'.fresh = true → s.fresh = true) :
    s'.Current setup (.runner ⟨o, n, r⟩ :: log) := by
  have ho : o ≠ .takeConfig := by
    rintro rfl
    exact absurd hslot (by simp [Record.slot?])
  have haccepts : (Record.runner ⟨o, n, r⟩).accepts? = none := by rw [Record.accepts?, hslot]; rfl
  refine ⟨fun hopen ↦ ?_, ?_, fun hasked ↦ ?_⟩
  · rw [newestIn_cons, slotAfter_cons, haccepts, hslot, hconfig, hrevision]
    exact h.newest (hclosed ▸ hopen)
  · rw [takenAt_runner ho, hconfig, hrevision]
    exact h.taken
  · rw [takenAt_runner ho]
    exact h.asked (hfresh hasked)

/-- The end of accepting. -/
theorem close (h : s.Current setup log) {o : Op} {n : Nat} {r : o.Answer}
    (ho : o ≠ .takeConfig) (hconfig : s'.config = s.config)
    (hrevision : s'.revision = s.revision) (hclosed : s'.closed = true)
    (hfresh : s'.fresh = s.fresh) : s'.Current setup (.runner ⟨o, n, r⟩ :: log) := by
  refine ⟨fun hopen ↦ absurd (hopen.symm.trans hclosed) (by simp), ?_, fun hasked ↦ ?_⟩
  · rw [takenAt_runner ho, hconfig, hrevision]
    exact h.taken
  · rw [takenAt_runner ho]
    exact h.asked (hfresh ▸ hasked)

/-- A configuration is asked for. What is pending is taken, and is then the newest. -/
theorem take (h : s.Current setup log) (hopen : s.closed = false) {n : Nat} :
    (s.next .takeConfig n (slotAfter log)).Current setup
      (.runner ⟨.takeConfig, n, slotAfter log⟩ :: log) := by
  have hnewest := h.newest hopen
  have htaken : newestIn setup log = ⟨(s.next .takeConfig n (slotAfter log)).revision,
      (s.next .takeConfig n (slotAfter log)).config⟩ := by
    rw [hnewest]
    cases slotAfter log <;> rfl
  exact ⟨fun _ ↦ htaken, htaken, fun _ ↦ rfl⟩

/-- Every operation that the rules allow. -/
theorem step (h : s.Current setup log) {o : Op} {n : Nat} {r : o.Answer}
    (hpermits : s.Permits setup o) (hanswer : AnswerExplained log o r) :
    (s.next o n r).Current setup (.runner ⟨o, n, r⟩ :: log) := by
  -- Only a configuration that is taken, and the ends of accepting, touch the slot.
  cases o with
  | takeConfig =>
    obtain rfl : r = slotAfter log := hanswer
    exact h.take hpermits.2.1.2
  | beginFinal => exact h.close (by simp) rfl rfl rfl rfl
  | closeAccepting => exact h.close (by simp) rfl rfl rfl rfl
  | setInteraction slot => cases r <;> exact h.runner rfl rfl rfl rfl id
  | makeFuture call =>
    obtain ⟨phase, hmade⟩ := s.afterMake_eq call
    have hnext : s.next (.makeFuture call) n r = { s with phase := phase } := hmade
    rw [hnext]
    exact h.runner rfl rfl rfl rfl id
  | pollPort call deadline =>
    cases r with
    | ready result =>
      cases call with
      | prepare provider request =>
        cases result with
        | ok messages => exact h.runner rfl rfl rfl rfl nofun
        | error error => exact h.runner rfl rfl rfl rfl id
      | decide policy invocation spec instant =>
        cases result <;> exact h.runner rfl rfl rfl rfl id
      | execute tool invocation instant => exact h.runner rfl rfl rfl rfl id
    | _ => exact h.runner rfl rfl rfl rfl id
  | pollInteraction channel deadline =>
    obtain ⟨phase, hpolled⟩ := s.afterPoll_eq channel r
    have hnext : s.next (.pollInteraction channel deadline) n r = { s with phase := phase } :=
      hpolled
    rw [hnext]
    exact h.runner rfl rfl rfl rfl id
  | _ => exact h.runner rfl rfl rfl rfl id

end Session.Current

/-- A session keeps the configurations of its log. -/
theorem current {setup : Setup} {limits : LoopLimits} {log : List Record}
    (hsession : (sessionMonitor setup).Accepts (traceOf log))
    (hexplained : Justified (Explained limits) log) :
    ((sessionMonitor setup).run (traceOf log)).Current setup log := by
  induction log with
  | nil =>
    exact ⟨fun _ ↦ rfl, rfl, fun h ↦ absurd h (by simp [sessionMonitor, traceOf, Session.init])⟩
  | cons e older ih =>
    cases e with
    | host event => exact (ih hsession hexplained.1).host event
    | runner entry =>
      obtain ⟨o, n, r⟩ := entry
      obtain ⟨hpast, hpermits, -⟩ := hsession
      exact (ih hpast hexplained.1).step hpermits hexplained.2

/-! ## What a request comes from -/

/-- What the messages of a phase come from: a preparation, or a request that was issued. -/
inductive Basis where
  | prepared (provider : PromptHandle) (request : PromptRequest) (messages : List ModelMessage)
  | issued (issue : Issue)

/-- What the messages of a phase come from, if it has any. -/
def Phase.basis? : Phase → Option Basis
  | .prepared provider request messages => some (.prepared provider request messages)
  | .issued issue => some (.issued issue)
  | .calling c => some (.issued c.issue)
  | .starting | .boundary | .concluded => none

/-- Whether an operation finds a prepared prompt. -/
def Op.prepares : (o : Op) → o.Answer → Bool
  | .pollPort (.prepare _ _) _, .ready (.ok _) => true
  | _, _ => false

/-- Whether an operation issues a request. -/
def Op.issues : Op → Bool
  | .commitRevision _ => true
  | _ => false

theorem basis?_mapClearance (f : Clearance → Clearance) (phase : Phase) :
    (Session.mapClearance f phase).basis? = phase.basis? := by
  cases phase <;> rfl

theorem basis?_afterAppend (phase : Phase) (item : HistoryItem) :
    (Session.afterAppend phase item).basis? = none ∨
      (Session.afterAppend phase item).basis? = phase.basis? := by
  unfold Session.afterAppend
  split
  · exact .inl rfl
  · exact .inr rfl
  · split
    · exact .inr rfl
    · exact .inl rfl
  · split
    · exact .inl rfl
    · exact .inr rfl
    · exact .inr rfl
  · exact .inr rfl

theorem Session.basis?_afterMake (s : Session) {port : Port} (call : PortCall port) :
    (s.afterMake call).phase.basis? = s.phase.basis? := by
  cases call with
  | execute tool invocation deadline =>
    cases hphase : s.phase <;> simp [afterMake, hphase, Phase.basis?]
  | _ => rfl

/-- Messages come from nothing else than a prepared prompt and the request that it is issued for. -/
theorem Session.basis?_next (s : Session) {o : Op} {n : Nat} {r : o.Answer}
    (hissues : o.issues = false) (hprepares : o.prepares r = false) :
    (s.next o n r).phase.basis? = none ∨ (s.next o n r).phase.basis? = s.phase.basis? := by
  -- What is taken makes a prompt stale; a clearance changes within a call.
  cases o with
  | append item => exact basis?_afterAppend s.phase item
  | takeConfig =>
    cases r with
    | none => exact .inr rfl
    | some pending => exact .inl rfl
  | takeInputs =>
    cases r with
    | nil => exact .inr rfl
    | cons input inputs => exact .inl rfl
  | commitRevision revision => exact absurd hissues (by simp [Op.issues])
  | makeFuture call => exact .inr (s.basis?_afterMake call)
  | pollPort call deadline =>
    cases r with
    | ready result =>
      cases call with
      | prepare provider request =>
        cases result with
        | ok messages => exact absurd hprepares (by simp [Op.prepares])
        | error error => exact .inr rfl
      | decide policy invocation spec instant =>
        cases result with
        | ok decision => exact .inr (basis?_mapClearance (fun _ ↦ Session.decided decision) s.phase)
        | error error => exact .inr rfl
      | execute tool invocation instant => exact .inr rfl
    | _ => exact .inr rfl
  | setInteraction slot =>
    cases r with
    | false => exact .inr rfl
    | true => exact .inr (basis?_mapClearance _ s.phase)
  | pollInteraction channel deadline =>
    rcases r with - | - | (- | ((- | -) | answer)) | - | -
    case ready.some.approval.allowOnce => exact .inr (basis?_mapClearance _ s.phase)
    all_goals exact .inr rfl
  | _ => exact .inr rfl

/-- Between two requests nothing goes by another one. -/
theorem issued_of_span {setup : Setup} {issue : Issue} {between older : List (Entry interface Nat)}
    (h : ∀ i, Phase.basis? ((sessionMonitor setup).run older).phase = some (.issued i) → i = issue)
    (hbetween : ∀ e ∈ between, e.op.issues = false) (i : Issue)
    (hi : Phase.basis? ((sessionMonitor setup).run (between ++ older)).phase = some (.issued i)) :
    i = issue := by
  induction between with
  | nil => exact h i hi
  | cons e between ih =>
    obtain ⟨hissues, hrest⟩ := List.forall_mem_cons.mp hbetween
    obtain ⟨o, n, r⟩ := e
    let s : Session := (sessionMonitor setup).run (between ++ older)
    have hnext : (s.next o n r).phase.basis? = some (.issued i) := hi
    cases hprepares : o.prepares r with
    | false =>
      rcases s.basis?_next hissues hprepares with hnone | hsame
      · exact absurd (hnone.symm.trans hnext) (by simp)
      · exact ih hrest (hsame.symm.trans hnext)
    | true =>
      -- After a preparation no request is issued yet.
      unfold Op.prepares at hprepares
      split at hprepares
      · exact absurd hnext (by simp [Session.next, Session.afterReady, Phase.basis?])
      · exact absurd hprepares (by simp)

/-! ## Operations of a request -/

/-- The call of a policy or a tool goes by the request: the policy is that of its configuration, and
the tool is the one enabled there under the name of the call. -/
def PortCall.Serves (issue : Issue) : {port : Port} → PortCall port → Prop
  | _, .prepare _ _ => True
  | _, .decide policy invocation spec _ => issue.config.policy = some policy ∧
      ∃ enabled, issue.config.tools.find invocation.toolName = some enabled ∧ spec = enabled.spec
  | _, .execute tool invocation _ =>
    ∃ enabled, issue.config.tools.find invocation.toolName = some enabled ∧
      tool = enabled.implementation

/-- An operation goes by the request: it has its revision, its messages, and the model, the
reasoning and the tools of its configuration. -/
def Op.Serves (issue : Issue) : Op → Prop
  | .startModel model request context => model = issue.config.model ∧
      request = ⟨issue.messages, issue.config.tools.specs, .default, issue.config.reasoning⟩ ∧
      context.requestIndex = issue.index
  | .tryEmit (.requestStarted _ requestIndex configRevision model reasoning) =>
    requestIndex = issue.index ∧ configRevision = issue.revision ∧
      model = issue.config.descriptor.modelRef ∧ reasoning = issue.config.reasoning
  | .publishState state =>
    match state.status with
    | .runningModel | .runningTools | .waitingForInput =>
      state.configRevision = issue.revision ∧ state.requestIndex = issue.index
    | .starting | .finishing | .finished => True
  | .makeFuture call => call.Serves issue
  | .pollPort call _ => call.Serves issue
  | _ => True

section

variable {setup : Setup} {s : Session} {issue : Issue}
  (h : ∀ i, s.phase.basis? = some (.issued i) → i = issue)
include h

theorem call_serves {made : Bool} {port : Port} {call : PortCall port}
    (hpermits : s.PermitsCall setup made call) : call.Serves issue := by
  cases call with
  | prepare provider request => trivial
  | decide policy invocation spec deadline =>
    obtain ⟨c, enabled, hc, hpolicy, rfl, -, henabled, rfl⟩ := hpermits
    obtain rfl := h c.issue (by rw [hc]; rfl)
    exact ⟨hpolicy, enabled, henabled, rfl⟩
  | execute tool invocation deadline =>
    obtain ⟨c, enabled, hc, -, rfl, -, henabled, rfl⟩ := hpermits
    obtain rfl := h c.issue (by rw [hc]; rfl)
    exact ⟨enabled, henabled, rfl⟩

/-- What the rules allow goes by the request under way. -/
theorem serves_of_permits {o : Op} (hpermits : s.Permits setup o) : o.Serves issue := by
  -- The guard of each operation names an issue, and the phase knows only this one.
  cases o with
  | startModel model request context =>
    obtain ⟨i, hi, hmodel, hrequest, -, hindex⟩ := hpermits
    obtain rfl := h i (by rw [hi]; rfl)
    exact ⟨hmodel, hrequest, hindex⟩
  | tryEmit event =>
    cases event with
    | requestStarted loopId requestIndex configRevision model reasoning =>
      obtain ⟨i, hi, -, hindex, hrevision, hmodel, hreasoning⟩ := hpermits
      obtain rfl := h i (by rw [hi]; rfl)
      exact ⟨hindex, hrevision, hmodel, hreasoning⟩
    | _ => trivial
  | publishState state =>
    have hstate : s.PermitsState state := hpermits
    unfold Session.PermitsState at hstate
    unfold Op.Serves
    dsimp only
    cases hstatus : state.status with
    | runningModel =>
      rw [hstatus] at hstate
      obtain ⟨i, hi, hrevision, hindex⟩ := hstate
      obtain rfl := h i (by rw [hi]; rfl)
      exact ⟨hrevision, hindex⟩
    | runningTools | waitingForInput =>
      rw [hstatus] at hstate
      obtain ⟨c, hc, hrevision, hindex⟩ := hstate
      obtain rfl := h c.issue (by rw [hc]; rfl)
      exact ⟨hrevision, hindex⟩
    | _ => trivial
  | makeFuture call => exact call_serves h hpermits
  | pollPort call deadline => exact call_serves h hpermits
  | _ => trivial

end

/-! ## Prompts -/

/-- The last preparation that was answered is one by this provider for this request, and these are
its messages. -/
def PreparedIn (log : List Record) (provider : PromptHandle) (request : PromptRequest)
    (messages : List ModelMessage) : Prop :=
  ∃ since deadline n before,
    log = since ++ .runner ⟨.pollPort (.prepare provider request) deadline, n,
      .ready (.ok messages)⟩ :: before ∧
    ∀ e ∈ traceOf since, e.op.prepares e.answer = false

/-- A prepared prompt of a session was prepared in the log, by its configuration and from its
history. -/
def Session.Prompted (setup : Setup) (s : Session) (log : List Record) : Prop :=
  ∀ provider request messages, s.phase = .prepared provider request messages →
    PreparedIn log provider request messages ∧ provider = s.config.prompt ∧
      request = promptRequest setup.ctx s.index s.config s.working.view request.deadline

section

variable {setup : Setup} {s : Session} {log : List Record} {provider : PromptHandle}
  {request : PromptRequest} {messages : List ModelMessage}

theorem PreparedIn.host (h : PreparedIn log provider request messages) (event : HostEvent) :
    PreparedIn (.host event :: log) provider request messages := by
  obtain ⟨since, deadline, n, before, rfl, hsince⟩ := h
  exact ⟨.host event :: since, deadline, n, before, rfl, hsince⟩

theorem PreparedIn.runner (h : PreparedIn log provider request messages) {o : Op} {r : o.Answer}
    (hprepares : o.prepares r = false) (n : Nat) :
    PreparedIn (.runner ⟨o, n, r⟩ :: log) provider request messages := by
  obtain ⟨since, deadline, m, before, rfl, hsince⟩ := h
  exact ⟨.runner ⟨o, n, r⟩ :: since, deadline, m, before, rfl,
    List.forall_mem_cons.mpr ⟨hprepares, hsince⟩⟩

theorem Phase.eq_prepared {phase : Phase}
    (h : phase.basis? = some (.prepared provider request messages)) :
    phase = .prepared provider request messages := by
  cases phase with
  | prepared provider' request' messages' =>
    obtain ⟨rfl, rfl, rfl⟩ := Basis.prepared.inj (Option.some.inj h)
    rfl
  | _ => exact absurd h (by simp [Phase.basis?])

/-- While a prompt is prepared nothing is appended. -/
theorem Session.PermitsItem.not_prepared {item : HistoryItem} (h : s.PermitsItem setup item) :
    s.phase ≠ .prepared provider request messages := by
  intro hphase
  cases item with
  | user item =>
    obtain ⟨loopId, kind, input⟩ := item
    cases kind with
    | prompt => exact absurd (hphase.symm.trans h.1) (by simp)
    | steering => exact absurd (hphase.symm.trans h.2.1) (by simp)
  | assistant item =>
    obtain ⟨-, issue, response, hissue, -⟩ := h
    exact absurd (hphase.symm.trans hissue) (by simp)
  | toolResult result =>
    obtain ⟨-, c, hc, -⟩ := h
    exact absurd (hphase.symm.trans hc) (by simp)
  | summary item => exact h

/-- A prompt that stays prepared was prepared before, and nothing it goes by has changed. -/
theorem Session.prepared_of_next {o : Op} {n : Nat} {r : o.Answer} (hpermits : s.Permits setup o)
    (hprepares : o.prepares r = false)
    (h : (s.next o n r).phase = .prepared provider request messages) :
    s.phase = .prepared provider request messages ∧ (s.next o n r).config = s.config ∧
      (s.next o n r).working = s.working ∧ (s.next o n r).index = s.index := by
  have hnext := s.next_changes o n r
  have hindex (hresponses : Session.responsesAfter s.responses o = s.responses) :
      (s.next o n r).index = s.index := by
    unfold Session.index
    rw [hnext.responses, hresponses]
  -- The prompt was there before: nothing else brings the phase about.
  have hphase (hissues : o.issues = false) : s.phase = .prepared provider request messages := by
    have hbasis : (s.next o n r).phase.basis? = some (.prepared provider request messages) := by
      rw [h]
      rfl
    rcases s.basis?_next (n := n) hissues hprepares with hnone | hsame
    · exact absurd (hnone.symm.trans hbasis) (by simp)
    · exact Phase.eq_prepared (hsame.symm.trans hbasis)
  cases o with
  | commitRevision revision =>
    obtain ⟨-, -, -, request', messages', hprepared, -⟩ := hpermits
    exact absurd h (by simp [Session.next, hprepared])
  | append item =>
    have hitem : s.PermitsItem setup item := hpermits
    exact absurd (hphase rfl) hitem.not_prepared
  | takeConfig =>
    cases r with
    | none => exact ⟨hphase rfl, rfl, rfl, rfl⟩
    | some pending => exact absurd h (by simp [Session.next])
  | _ => exact ⟨hphase rfl, hnext.config, hnext.working, hindex rfl⟩

/-- Every operation that the rules allow. -/
theorem Session.Prompted.step (h : s.Prompted setup log) {o : Op} {n : Nat} {r : o.Answer}
    (hpermits : s.Permits setup o) :
    (s.next o n r).Prompted setup (.runner ⟨o, n, r⟩ :: log) := by
  intro provider request messages hnext
  cases hprepares : o.prepares r with
  | false =>
    obtain ⟨hphase, hconfig, hworking, hindex⟩ := prepared_of_next hpermits hprepares hnext
    obtain ⟨hprepared, hprovider, hrequest⟩ := h provider request messages hphase
    rw [hconfig, hworking, hindex]
    exact ⟨hprepared.runner hprepares n, hprovider, hrequest⟩
  -- The provider answered just now.
  | true =>
    unfold Op.prepares at hprepares
    split at hprepares
    · obtain ⟨-, -, hprovider, hrequest⟩ := hpermits
      obtain ⟨rfl, rfl, rfl⟩ := Phase.prepared.inj hnext
      exact ⟨⟨[], _, n, log, rfl, fun e he ↦ absurd he List.not_mem_nil⟩, hprovider, hrequest⟩
    · exact absurd hprepares (by simp)

end

/-- A session keeps the prompts of its log. -/
theorem prompted {setup : Setup} {log : List Record}
    (hsession : (sessionMonitor setup).Accepts (traceOf log)) :
    ((sessionMonitor setup).run (traceOf log)).Prompted setup log := by
  induction log with
  | nil =>
    intro provider request messages h
    exact absurd h (by simp [sessionMonitor, traceOf, Session.init])
  | cons e older ih =>
    cases e with
    | host event =>
      intro provider request messages h
      obtain ⟨hprepared, hrest⟩ := ih hsession provider request messages h
      exact ⟨hprepared.host event, hrest⟩
    | runner entry =>
      obtain ⟨o, n, r⟩ := entry
      obtain ⟨hpast, hpermits, -⟩ := hsession
      exact (ih hpast).step hpermits

/-! ## Requests -/

/-- A request that is issued after a log is fresh. -/
structure Issue.Fresh (setup : Setup) (issue : Issue) (log : List Record) : Prop where
  /-- Its revision is the greatest that was accepted when a configuration was last asked for, and
  its configuration is the one of that update, or the initial one where none was accepted. -/
  newest : ∃ before, takenAt log = some before ∧
    newestIn setup before = ⟨issue.revision, issue.config⟩ ∧
    (∀ p ∈ accepted before, p.revision ≤ issue.revision) ∧
    ((accepted before = [] ∧ issue.revision = ConfigRevision.initial ∧
        issue.config = setup.request.config) ∨
      .host (.updateReturned issue.config (.ok issue.revision)) ∈ before)
  /-- Its messages are those of the last preparation, by the provider of its configuration. -/
  prepared : PreparedIn log issue.config.prompt issue.prompt issue.messages
  /-- The provider was asked with the configuration, and given the whole history. -/
  prompt : issue.prompt = promptRequest setup.ctx issue.index issue.config
    ⟨setup.request.history, appendedItems (traceOf log)⟩ issue.prompt.deadline
  /-- No input that was taken is missing from the history. -/
  inputs : steering (appendedItems (traceOf log)) = handedOver (traceOf log)

/-- A request that the rules let a runner issue is fresh. -/
theorem fresh_of_permits {setup : Setup} {limits : LoopLimits} {log : List Record} {revision : Nat}
    (hsession : (sessionMonitor setup).Accepts (traceOf log))
    (hexplained : Justified (Explained limits) log)
    (hpermits : Session.Permits setup ((sessionMonitor setup).run (traceOf log))
      (.commitRevision revision)) :
    ∃ issue : Issue, issue.revision = revision ∧ issue.Fresh setup log ∧ ∀ n r,
      (Session.next ((sessionMonitor setup).run (traceOf log))
        (.commitRevision revision) n r).phase =
        .issued issue := by
  have hcurrent := current hsession hexplained
  have hprompted := prompted hsession
  have hconserved := (reported_of_accepts hsession).conserved
  obtain ⟨-, htaken, happended, hbase⟩ := session_run setup (traceOf log)
  let s : Session := (sessionMonitor setup).run (traceOf log)
  obtain ⟨hqueue, rfl, hfresh, request, messages, hphase, -⟩ :
    s.queue = [] ∧ revision = s.revision ∧ s.fresh = true ∧ ∃ request messages,
      s.phase = .prepared s.config.prompt request messages ∧ request.history = s.working.view ∧
      buildModelRequest messages s.config =
        .ok ⟨messages, s.config.tools.specs, .default, s.config.reasoning⟩ := hpermits
  obtain ⟨hprepared, -, hrequest⟩ := hprompted _ request messages hphase
  -- A configuration was asked for, and the newest one there was is that of the session.
  obtain ⟨before, hbefore⟩ := Option.isSome_iff_exists.mp (hcurrent.asked hfresh)
  have hnewest : newestIn setup before = ⟨s.revision, s.config⟩ := by
    have hat := hcurrent.taken
    rwa [hbefore] at hat
  refine ⟨⟨s.revision, s.config, request, messages, s.index⟩, rfl, ⟨?_, hprepared, ?_, ?_⟩, ?_⟩
  · refine ⟨before, hbefore, hnewest, fun p hp ↦ ?_, ?_⟩
    · obtain ⟨newer, rfl⟩ := suffix_of_takenAt hbefore
      have hle := accepted_le_newestIn setup hexplained.past p hp
      rwa [hnewest] at hle
    · rcases newestIn_spec setup before with ⟨hnone, hinitial⟩ | hmem
      · obtain ⟨hrevision, hconfig⟩ := PendingConfig.mk.inj (hnewest.symm.trans hinitial)
        exact .inl ⟨hnone, hrevision, hconfig⟩
      · rw [hnewest] at hmem
        exact .inr hmem
  · rw [hrequest]
    show promptRequest _ _ _ ⟨s.working.base, s.working.appended⟩ _ = _
    rw [hbase, happended]
    rfl
  · -- No input waits in the queue, so that all that were taken are appended.
    have hkept : steering s.working.appended ++ s.queue = s.taken := hconserved
    rwa [hqueue, List.append_nil, happended, htaken] at hkept
  · intro n r
    show Session.phase (Session.next s _ n r) = _
    simp only [Session.next, hphase]

/-- Every request that a run issues has one revision and one configuration: the configuration is the
initial one under the initial revision, or was accepted by an update that returned the revision, and
the revision is the greatest that was accepted before a configuration was last asked for. Its
messages were prepared by the provider of the configuration, from the history the loop started with
and all that was appended up to its issue, which has every input that was taken. Until the next
request is issued, every request to a model, every event of its start, every state of its model call
and its tool calls, and every call of a policy or a tool goes by these. Revisions of successive
requests never decrease. -/
theorem requests_fresh [SerdeJson] (setup : Setup) (clock : Nat) (schedule : List Turn)
    (newer : List Record) (revision n : Nat) (r : Unit) (older : List Record)
    (hissue : (setup.run clock schedule).2.log =
      newer ++ .runner ⟨.commitRevision revision, n, r⟩ :: older) :
    (∃ issue : Issue, issue.revision = revision ∧ issue.Fresh setup older ∧
      ∀ later e between, newer = later ++ .runner e :: between →
        (∀ e' ∈ traceOf between, e'.op.issues = false) → e.op.Serves issue) ∧
    ∀ between earlier m r' past,
      older = between ++ .runner ⟨.commitRevision earlier, m, r'⟩ :: past →
      earlier ≤ revision := by
  have hsession : (sessionMonitor setup).Accepts (traceOf (setup.run clock schedule).2.log) :=
    (conforms setup clock schedule).2.1
  have hexplained : Justified (Explained setup.ctx.options.limits)
      (setup.run clock schedule).2.log :=
    (run_inquired setup clock schedule []).asks.explained
  have hat {newer older : List Record} {e : Entry interface Nat}
      (h : (setup.run clock schedule).2.log = newer ++ .runner e :: older) :
      (sessionMonitor setup).Accepts (traceOf older) ∧
        Session.Permits setup ((sessionMonitor setup).run (traceOf older)) e.op ∧
        Justified (Explained setup.ctx.options.limits) older := by
    rw [h] at hexplained hsession
    obtain ⟨hpast, hallowed, -⟩ := accepts_at hsession
    exact ⟨hpast, hallowed, hexplained.past.1⟩
  obtain ⟨hpast, hpermits, hjustified⟩ := hat hissue
  obtain ⟨issue, rfl, hfresh, hphase⟩ := fresh_of_permits hpast hjustified hpermits
  refine ⟨⟨issue, rfl, hfresh, fun later e between hnewer hbetween ↦ ?_⟩, ?_⟩
  · rw [hnewer, List.append_assoc, List.cons_append] at hissue
    obtain ⟨-, hallowed, -⟩ := hat hissue
    rw [traceOf_append] at hallowed
    refine serves_of_permits (fun i hi ↦ issued_of_span ?_ hbetween i hi) hallowed
    intro i hi
    have hbasis : some (Basis.issued issue) = some (.issued i) :=
      (congrArg Phase.basis? (hphase n r)).symm.trans hi
    exact (Basis.issued.inj (Option.some.inj hbasis)).symm
  · rintro between earlier m r' past rfl
    obtain ⟨before, hbefore, hnewest, -⟩ := hfresh.newest
    have hsecond : (setup.run clock schedule).2.log =
        (newer ++ .runner ⟨.commitRevision issue.revision, n, r⟩ :: between) ++
          .runner ⟨.commitRevision earlier, m, r'⟩ :: past := by
      rw [hissue, List.append_assoc, List.cons_append]
    obtain ⟨hfirst, hpermitted, hfirstJustified⟩ := hat hsecond
    obtain ⟨issue', rfl, hfresh', -⟩ := fresh_of_permits hfirst hfirstJustified hpermitted
    obtain ⟨before', hbefore', hnewest', -⟩ := hfresh'.newest
    -- What the earlier request was taken from is a part of what this one was taken from.
    rw [List.append_cons] at hbefore
    have hsuffix : before' <:+ before := takenAt_suffix hbefore hbefore'
    obtain ⟨recent, hrecent⟩ := suffix_of_takenAt hbefore
    rw [← List.append_cons] at hrecent
    have hbeforeJustified : Justified (Explained setup.ctx.options.limits) before := by
      rw [← hrecent] at hjustified
      exact hjustified.past
    have hle := newestIn_mono setup hbeforeJustified hsuffix
    rwa [hnewest, hnewest'] at hle

namespace Sample

/-- The run of the sample, with an update before a configuration is first asked for. -/
def updating : List Turn := { host := [.update config, .resume 0] } :: schedule

/-- Whether an operation issues a request under the first revision of an update. -/
def commitsFirst (e : Entry interface Nat) : Bool :=
  match e with
  | ⟨.commitRevision 1, _, _⟩ => true
  | _ => false

end Sample

/-- The request of the sample is issued under the revision that the update returned. -/
theorem requests_fresh_sample :
    ∃ newer n r older, (Sample.setup.run 0 Sample.updating).2.log =
        newer ++ .runner ⟨.commitRevision 1, n, r⟩ :: older ∧
      ∃ issue : Issue, issue.revision = 1 ∧ issue.Fresh Sample.setup older := by
  have hcommits : (traceOf (Sample.setup.run 0 Sample.updating).2.log).any Sample.commitsFirst =
      true := by
    decide +kernel
  obtain ⟨newer, e, older, hlog, hcommit⟩ := split_of_any hcommits
  unfold Sample.commitsFirst at hcommit
  split at hcommit
  · obtain ⟨⟨issue, hrevision, hfresh, -⟩, -⟩ :=
      requests_fresh Sample.setup 0 Sample.updating _ _ _ _ _ hlog
    exact ⟨newer, _, _, older, hlog, issue, hrevision, hfresh⟩
  · exact absurd hcommit (by simp)

end MinicoreRuntime
